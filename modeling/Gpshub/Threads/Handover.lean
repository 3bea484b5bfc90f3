import Gpshub.Lib.Handover
import Gpshub.Threads.Pointers

/-! How positions get from the GPS thread to the broadcast threads: for each registered user
the threads move a mailbox. -/
namespace Gpshub.Threads
open CommandServer CommandHandler Lib.Machine Lib.Handover

inductive Field
  | longitude
  | latitude
  | altitude
  deriving DecidableEq

def fields (c : Coordinates) : Field → Int32
  | .longitude => c.longitude
  | .latitude => c.latitude
  | .altitude => c.altitude

def ofFields (v : Field → Int32) : Coordinates := ⟨v .longitude, v .latitude, v .altitude⟩

def side : Slot → Side
  | .slot1 => .one
  | .slot2 => .two

def slots (usr : User) : Side → Field → Int32
  | .one => fields usr.slot1
  | .two => fields usr.slot2

theorem slots_side (usr : User) (c : Slot) : slots usr (side c) = fields (usr.slot c) := by
  cases c <;> rfl

def acceptedOf (r : UserRef) : Note → Option (Coordinates × Bool)
  | .accepted u c foundNull => if u = r then some (c, foundNull) else none
  | _ => none

def broadcastOf (r : UserRef) : Note → Option Coordinates
  | .broadcast u c => if u = r then some c else none
  | _ => none

/-- What `processCoordinates` has accepted for the user, and whether it found `ready` to be
`NULL`. -/
def accepts (r : UserRef) (hist : List Note) : List (Coordinates × Bool) :=
  hist.filterMap (acceptedOf r)

/-- What `run` has passed to `broadcast` for the user. -/
def broadcasts (r : UserRef) (hist : List Note) : List Coordinates :=
  hist.filterMap (broadcastOf r)

private theorem acceptedOf_ne {r : UserRef} {note : Note} (hn : note.user ≠ r) :
    acceptedOf r note = none := by
  cases note with
  | accepted u c b => exact if_neg hn
  | broadcast | initAddr | token => rfl

private theorem broadcastOf_ne {r : UserRef} {note : Note} (hn : note.user ≠ r) :
    broadcastOf r note = none := by
  cases note with
  | broadcast u c => exact if_neg hn
  | accepted | initAddr | token => rfl

theorem accepts_other {r : UserRef} (hist : List Note) {notes : List Note}
    (hn : ∀ note ∈ notes, note.user ≠ r) : accepts r (hist ++ notes) = accepts r hist := by
  have hnone : notes.filterMap (acceptedOf r) = [] :=
    List.filterMap_eq_nil_iff.mpr fun note hm => acceptedOf_ne (hn note hm)
  rw [accepts, List.filterMap_append, hnone, List.append_nil]
  rfl

theorem broadcasts_other {r : UserRef} (hist : List Note) {notes : List Note}
    (hn : ∀ note ∈ notes, note.user ≠ r) : broadcasts r (hist ++ notes) = broadcasts r hist := by
  have hnone : notes.filterMap (broadcastOf r) = [] :=
    List.filterMap_eq_nil_iff.mpr fun note hm => broadcastOf_ne (hn note hm)
  rw [broadcasts, List.filterMap_append, hnone, List.append_nil]
  rfl

def CoordPc.producer (c : Coordinates) : CoordPc → Producer Field Int32
  | .check => .idle
  | .warn => .idle
  | .lon => .writing (fields c) ∅
  | .lat => .writing (fields c) (insert .longitude ∅)
  | .alt => .writing (fields c) (insert .latitude (insert .longitude ∅))
  | .ready => .writing (fields c) (insert .altitude (insert .latitude (insert .longitude ∅)))
  | .set => .publishing (fields c)
  | .swap => .swapping

def GpsPc.producer (i : Int32) (r : UserRef) : GpsPc → Producer Field Int32
  | .coord _ _ c u pc => if u = r then pc.producer c else .idle
  | .put id => if id = i then .putting else .idle
  | _ => .idle

def TurnPc.consumer : TurnPc → Consumer Field Int32
  | .load => .holding
  | .copyLon c => .copying (side c) fun _ => none
  | .copyLat c lon => .copying (side c) (Function.update (fun _ => none) .longitude (some lon))
  | .copyAlt c lon lat => .copying (side c)
    (Function.update (Function.update (fun _ => none) .longitude (some lon)) .latitude (some lat))
  | .call c coords => .copying (side c) fun f => some (fields coords f)
  | _ => .busy

def ThreadPc.consumer (i : Int32) (r : UserRef) : ThreadPc → Consumer Field Int32
  | .lookup id => if id = i then .holding else .away
  | .turn _ u pc => if u = r then pc.consumer else .away
  | _ => .away

variable {n : ℕ}

/-- The mailbox of the user `r` with the id `i`, whose record is `usr`. -/
def view (i : Int32) (r : UserRef) (usr : User) (s : System n) :
    Mailbox Field Int32 (Fin n) where
  slot := slots usr
  empty := side usr.empty
  ready := usr.ready.map side
  producer := s.gps.producer i r
  tokens := s.hub.uqueue.count i
  consumer j := (s.threads j).pc.consumer i r
  accepted := (accepts r s.hist).map fun p => (fields p.1, p.2)
  sent := (broadcasts r s.hist).map fields

/-- The mailbox stays as it is, or makes a step. -/
def Moves (m m' : Mailbox Field Int32 (Fin n)) : Prop := m' = m ∨ Step m m'

theorem Moves.inv {m m' : Mailbox Field Int32 (Fin n)} (hm : Moves m m') (h : Inv m) : Inv m' := by
  cases hm with
  | inl he => exact he ▸ h
  | inr hs => exact h.step hs

section Gps

variable {env : Env} {s : System n} {hub : Hub} {notes : List Note} {i : Int32} {r : UserRef}
  {usr : User} {a : SockAddr} {c : Coordinates}

private theorem slots_setSlot (u : User) (f : Field) (x : Int32) {new : Coordinates}
    (hnew : fields new = Function.update (fields (u.slot u.empty)) f x) :
    slots (u.setSlot u.empty new) =
      Function.update (slots u) (side u.empty) (Function.update (slots u (side u.empty)) f x) := by
  rw [slots_side, ← hnew]
  cases he : u.empty <;> funext sd <;> cases sd <;> rfl

private theorem write_step {done : Set Field} {f : Field} {pc : GpsPc} {new : Coordinates}
    (hp : s.gps.producer i r = .writing (fields c) done)
    (hp' : pc.producer i r = .writing (fields c) (insert f done))
    (hnew : fields new = Function.update (fields (usr.slot usr.empty)) f (fields c f)) :
    Step (view i r usr s) (view i r (usr.setSlot usr.empty new)
      { s with
        gps := pc
        hub := s.hub.setUser r (usr.setSlot usr.empty new)
        hist := s.hist ++ [] }) := by
  have hs := Step.write (m := view i r usr s) (fields c) done f hp
  convert hs using 1
  refine Mailbox.ext (slots_setSlot usr f _ hnew) ?_ ?_ hp' rfl rfl ?_ ?_
  · exact congrArg side (User.empty_setSlot ..)
  · exact congrArg (Option.map side) (User.ready_setSlot ..)
  · simp only [view, List.append_nil]
  · simp only [view, List.append_nil]

private theorem gps_own {id : Int32} {cpc : CoordPc} {pc : GpsPc} (hb : Bounded s)
    (hg : s.gps = .coord a id c r cpc) (hu : s.hub.users r = some usr) (hi : usr.id = i)
    (hm : GpsMoved env s.hub (.coord a id c r cpc) pc hub notes) :
    ∃ usr', hub.users r = some usr' ∧
      Moves (view i r usr s) (view i r usr' { s with gps := pc, hub, hist := s.hist ++ notes }) := by
  have hp : s.gps.producer i r = cpc.producer c := by
    rw [hg]
    exact if_pos rfl
  have hp' (cpc' : CoordPc) : (GpsPc.coord a id c r cpc').producer i r = cpc'.producer c := if_pos rfl
  cases hm with
  | reject | warn =>
    refine ⟨usr, hu, Or.inl (Mailbox.ext rfl rfl rfl ?_ rfl rfl ?_ ?_)⟩
    · exact Eq.trans (by first | rfl | exact hp' _) hp.symm
    · simp only [view, List.append_nil]
    · simp only [view, List.append_nil]
  | allow =>
    refine ⟨usr, hu, Or.inr ?_⟩
    convert Step.start (m := view i r usr s) (fields c) hp using 1
    exact Mailbox.ext rfl rfl rfl (hp' _) rfl rfl (by simp only [view, List.append_nil])
      (by simp only [view, List.append_nil])
  | lon hu' | lat hu' | alt hu' =>
    cases hu.symm.trans hu'
    refine ⟨_, Function.update_self .., Or.inr (write_step hp (hp' _) ?_)⟩
    funext f
    cases f <;> rfl
  | skip hu' hr =>
    cases hu.symm.trans hu'
    refine ⟨usr, hu, Or.inr ?_⟩
    convert Step.skip (m := view i r usr s) (fields c) _ hp ?_ ?_ using 1
    · refine Mailbox.ext rfl rfl rfl rfl rfl rfl ?_ ?_
      · simp [view, accepts, acceptedOf]
      · simp [view, broadcasts, broadcastOf]
    · intro f
      cases f <;> simp
    · simpa [view] using hr
  | decide hu' hr =>
    cases hu.symm.trans hu'
    refine ⟨usr, hu, Or.inr ?_⟩
    convert Step.decide (m := view i r usr s) (fields c) _ hp ?_ ?_ using 1
    · exact Mailbox.ext rfl rfl rfl (hp' _) rfl rfl (by simp only [view, List.append_nil])
        (by simp only [view, List.append_nil])
    · intro f
      cases f <;> simp
    · simpa [view] using hr
  | publish hu' =>
    cases hu.symm.trans hu'
    refine ⟨_, Function.update_self .., Or.inr ?_⟩
    convert Step.publish (m := view i r usr s) (fields c) hp using 1
    refine Mailbox.ext rfl rfl rfl (hp' _) rfl rfl ?_ ?_
    · simp [view, accepts, acceptedOf]
    · simp [view, broadcasts, broadcastOf]
  | swap hu' =>
    cases hu.symm.trans hu'
    refine ⟨_, Function.update_self .., Or.inr ?_⟩
    convert Step.swap (m := view i r usr s) hp using 1
    refine Mailbox.ext rfl ?_ rfl ?_ rfl rfl (by simp only [view, List.append_nil])
      (by simp only [view, List.append_nil])
    · cases he : usr.empty <;> simp [view, User.swapEmpty, he, side, Side.other]
    · exact if_pos ((hb.id _ _ _ _ _ hg usr hu).symm.trans hi)

private theorem view_same {s s' : System n} {usr' : User}
    (hbox : slots usr' = slots usr ∧ usr'.empty = usr.empty ∧ usr'.ready = usr.ready)
    (hp : s'.gps.producer i r = s.gps.producer i r)
    (ht : s'.hub.uqueue.count i = s.hub.uqueue.count i)
    (hc : ∀ j, (s'.threads j).pc.consumer i r = (s.threads j).pc.consumer i r)
    (hacc : accepts r s'.hist = accepts r s.hist)
    (hbro : broadcasts r s'.hist = broadcasts r s.hist) : view i r usr' s' = view i r usr s := by
  refine Mailbox.ext hbox.1 ?_ ?_ hp ht (funext hc) ?_ ?_
  · exact congrArg side hbox.2.1
  · exact congrArg (Option.map side) hbox.2.2
  · exact congrArg (List.map _) hacc
  · exact congrArg (List.map _) hbro

private theorem producer_check (i id : Int32) (r u : UserRef) (a : SockAddr) (c : Coordinates) :
    (GpsPc.coord a id c u .check).producer i r = .idle := ite_self _

private theorem producer_other {pc : GpsPc} (hr : pc.user ≠ some r) (hput : pc ≠ .put i) :
    pc.producer i r = .idle := by
  cases pc with
  | coord a id c u cpc => exact if_neg fun he => hr (congrArg some he)
  | put id => exact if_neg fun he => hput (congrArg GpsPc.put he)
  | idle | getCoord | getInit | init | flush => rfl

/-- The GPS thread works on something else, or puts the id on the queue. -/
private theorem gps_other {pc : GpsPc} (hu : s.hub.users r = some usr)
    (hr : s.gps.user ≠ some r)
    (hstale : ∀ a id c u cpc, s.gps = .coord a id c u cpc → id = i → u = r)
    (hm : GpsMoved env s.hub s.gps pc hub notes) :
    ∃ usr', hub.users r = some usr' ∧
      Moves (view i r usr s) (view i r usr' { s with gps := pc, hub, hist := s.hist ++ notes }) := by
  have hnotes : ∀ note ∈ notes, note.user ≠ r := fun note hn he => hr (he ▸ hm.notes_user note hn)
  refine ⟨usr, (hm.users_other hr).trans hu, ?_⟩
  have hsame (hput : s.gps ≠ .put i) (hp : pc.producer i r = .idle)
      (hq : hub.uqueue = s.hub.uqueue) :
      Moves (view i r usr s) (view i r usr { s with gps := pc, hub, hist := s.hist ++ notes }) :=
    Or.inl (view_same ⟨rfl, rfl, rfl⟩ (hp.trans (producer_other hr hput).symm)
      (congrArg (List.count i) hq) (fun _ => rfl) (accepts_other _ hnotes)
      (broadcasts_other _ hnotes))
  generalize hg : s.gps = g at hm
  rw [hg] at hr hsame
  cases hm with
  | coordFound => exact hsame nofun (producer_check ..) rfl
  | coordNone | warn | skip | initNone | initFound | badToken | goodToken | badIp | goodIp | set
  | ack | flush => exact hsame nofun rfl rfl
  | reject | allow | lon | lat | alt | decide | publish =>
    exact hsame nofun (producer_other hr nofun) rfl
  | @swap u _ _ _ _ id =>
    refine hsame nofun (producer_other nofun fun he => ?_) rfl
    cases he
    exact hr (congrArg some (hstale _ _ _ _ _ hg rfl))
  | @put id =>
    by_cases hid : id = i
    · subst hid
      refine Or.inr ?_
      have hp : (view id r usr s).producer = .putting := by
        change s.gps.producer id r = .putting
        rw [hg]
        exact if_pos rfl
      convert Step.put (m := view id r usr s) hp using 1
      refine Mailbox.ext rfl rfl rfl rfl ?_ rfl ?_ ?_
      · simp [view]
      · simp only [view, List.append_nil]
      · simp only [view, List.append_nil]
    · refine Or.inl (view_same ⟨rfl, rfl, rfl⟩ ?_ ?_ (fun _ => rfl) (accepts_other _ hnotes)
        (broadcasts_other _ hnotes))
      · rw [hg]
        exact (if_neg hid).symm
      · simp [hid]

private theorem gps_init {token : Int32} {ipc : InitPc} {pc : GpsPc}
    (hg : s.gps = .init a token r ipc) (hu : s.hub.users r = some usr)
    (hm : GpsMoved env s.hub (.init a token r ipc) pc hub notes) :
    ∃ usr', hub.users r = some usr' ∧
      Moves (view i r usr s) (view i r usr' { s with gps := pc, hub, hist := s.hist ++ notes }) := by
  have hp : s.gps.producer i r = .idle := by
    rw [hg]
    rfl
  cases hm with
  | badToken | goodToken | badIp | goodIp | ack =>
    exact ⟨usr, hu, Or.inl (view_same ⟨rfl, rfl, rfl⟩ hp.symm rfl (fun _ => rfl)
      (accepts_other _ nofun) (broadcasts_other _ nofun))⟩
  | set hu' =>
    cases hu.symm.trans hu'
    refine ⟨_, Function.update_self .., Or.inl (view_same ⟨rfl, rfl, rfl⟩ hp.symm rfl
      (fun _ => rfl) ?_ ?_)⟩
    · simp [accepts, acceptedOf]
    · simp [broadcasts, broadcastOf]

private theorem gps_view {pc : GpsPc} (hb : Bounded s) (hu : s.hub.users r = some usr)
    (hi : usr.id = i)
    (hstale : ∀ a id c u cpc, s.gps = .coord a id c u cpc → id = i → u = r)
    (hm : GpsMoved env s.hub s.gps pc hub notes) :
    ∃ usr', hub.users r = some usr' ∧
      Moves (view i r usr s) (view i r usr' { s with gps := pc, hub, hist := s.hist ++ notes }) := by
  by_cases hr : s.gps.user = some r
  · cases hg : s.gps with
    | coord a id c u cpc =>
      rw [hg] at hr hm
      cases hr
      exact gps_own hb hg hu hi hm
    | init a token u ipc =>
      rw [hg] at hr hm
      cases hr
      exact gps_init hg hu hm
    | idle | getCoord | put | getInit | flush =>
      rw [hg] at hr
      cases hr
  · exact gps_other hu hr hstale hm

end Gps

section Broadcast

variable {env : Env} {s : System n} {hub : Hub} {notes : List Note} {i : Int32} {r : UserRef}
  {usr : User} {j : Fin n} {pc : ThreadPc}

/-- The state after thread `j` has moved to `pc`. -/
private def moved (s : System n) (j : Fin n) (pc : ThreadPc) (hub : Hub) (notes : List Note) :
    System n :=
  { s with
    threads := Function.update s.threads j { s.threads j with pc }
    hub
    hist := s.hist ++ notes }

private theorem consumer_moved (i : Int32) (r : UserRef) (s : System n) (j : Fin n)
    (pc : ThreadPc) (hub : Hub) (notes : List Note) :
    (fun k => ((moved s j pc hub notes).threads k).pc.consumer i r) =
      Function.update (fun k => (s.threads k).pc.consumer i r) j (pc.consumer i r) := by
  funext k
  change (Function.update s.threads j _ k).pc.consumer i r = _
  rw [System.moved_pc, Function.update_apply]
  split_ifs <;> rfl

private theorem consumer_same (hsame : pc.consumer i r = (s.threads j).pc.consumer i r)
    (k : Fin n) :
    ((moved s j pc hub notes).threads k).pc.consumer i r = (s.threads k).pc.consumer i r := by
  have hk := congrFun (consumer_moved i r s j pc hub notes) k
  rw [hsame, Function.update_eq_self] at hk
  exact hk

private theorem thread_own {id : Int32} {tpc : TurnPc} (ht : (s.threads j).pc = .turn id r tpc)
    (hu : s.hub.users r = some usr)
    (hm : ThreadMoved env s.hub (.turn id r tpc) pc hub notes) :
    ∃ usr', hub.users r = some usr' ∧
      Moves (view i r usr s) (view i r usr' (moved s j pc hub notes)) := by
  have hc : (s.threads j).pc.consumer i r = tpc.consumer := by
    rw [ht]
    exact if_pos rfl
  have hc' (tpc' : TurnPc) : (ThreadPc.turn id r tpc').consumer i r = tpc'.consumer := if_pos rfl
  cases hm with
  | miss hu' hr =>
    cases hu.symm.trans hu'
    refine ⟨usr, hu, Or.inr ?_⟩
    convert Step.miss (m := view i r usr s) j hc (by simpa [view] using hr) using 1
    exact Mailbox.ext rfl rfl rfl rfl rfl (consumer_moved ..)
      (by simp only [view, moved, List.append_nil]) (by simp only [view, moved, List.append_nil])
  | @load u usr' slot _ hu' hr =>
    cases hu.symm.trans hu'
    refine ⟨usr, hu, Or.inr ?_⟩
    convert Step.load (m := view i r usr s) j (side slot) hc (by simp [view, hr]) using 1
    refine Mailbox.ext rfl rfl rfl rfl rfl ?_ (by simp only [view, moved, List.append_nil])
      (by simp only [view, moved, List.append_nil])
    exact (consumer_moved ..).trans (congrArg _ (hc' _))
  | @copyLon u usr' _ slot hu' =>
    cases hu.symm.trans hu'
    refine ⟨usr, hu, Or.inr ?_⟩
    convert Step.copy (m := view i r usr s) j (side slot) _ .longitude hc using 1
    refine Mailbox.ext rfl rfl rfl rfl rfl ?_ (by simp only [view, moved, List.append_nil])
      (by simp only [view, moved, List.append_nil])
    refine (consumer_moved ..).trans (congrArg _ ((hc' _).trans ?_))
    simp only [view, slots_side]
    rfl
  | @copyLat u usr' _ slot lon hu' =>
    cases hu.symm.trans hu'
    refine ⟨usr, hu, Or.inr ?_⟩
    convert Step.copy (m := view i r usr s) j (side slot) _ .latitude hc using 1
    refine Mailbox.ext rfl rfl rfl rfl rfl ?_ (by simp only [view, moved, List.append_nil])
      (by simp only [view, moved, List.append_nil])
    refine (consumer_moved ..).trans (congrArg _ ((hc' _).trans ?_))
    simp only [view, slots_side]
    rfl
  | @copyAlt u usr' _ slot lon lat hu' =>
    cases hu.symm.trans hu'
    refine ⟨usr, hu, Or.inr ?_⟩
    convert Step.copy (m := view i r usr s) j (side slot) _ .altitude hc using 1
    refine Mailbox.ext rfl rfl rfl rfl rfl ?_ (by simp only [view, moved, List.append_nil])
      (by simp only [view, moved, List.append_nil])
    refine (consumer_moved ..).trans (congrArg _ ((hc' _).trans ?_))
    simp only [view, slots_side, TurnPc.consumer]
    congr 1
    funext f
    cases f <;> rfl
  | @call u usr' _ slot coords hu' =>
    cases hu.symm.trans hu'
    refine ⟨usr, hu, Or.inr ?_⟩
    convert Step.call (m := view i r usr s) j (side slot) _ (fields coords) hc (fun _ => rfl)
      using 1
    refine Mailbox.ext rfl rfl rfl rfl rfl ?_ ?_ ?_
    · exact (consumer_moved ..).trans (congrArg _ (hc' _))
    · simp [view, moved, accepts, acceptedOf]
    · simp [view, moved, broadcasts, broadcastOf]
  | last | taken | free | get | notReady | isReady | pack | sendto =>
    refine ⟨usr, hu, Or.inl (view_same ⟨rfl, rfl, rfl⟩ rfl rfl (consumer_same ?_)
      (accepts_other _ nofun) (broadcasts_other _ nofun))⟩
    exact (hc' _).trans hc.symm
  | reset hu' =>
    cases hu.symm.trans hu'
    refine ⟨_, Function.update_self .., Or.inr ?_⟩
    convert Step.reset (m := view i r usr s) j hc using 1
    exact Mailbox.ext (by funext sd; cases sd <;> rfl) rfl rfl rfl rfl (consumer_moved ..)
      (by simp only [view, moved, List.append_nil]) (by simp only [view, moved, List.append_nil])

private theorem consumer_other {id : Int32} {u : UserRef} {tpc : TurnPc} (hur : u ≠ r) :
    (ThreadPc.turn id u tpc).consumer i r = .away := if_neg hur

private theorem thread_other (hw : Consistent s.hub s.cmd) (hu : s.hub.users r = some usr)
    (hreg : s.hub.idUmap.pointsTo i = some r) (hr : (s.threads j).pc.user ≠ some r)
    (hm : ThreadMoved env s.hub (s.threads j).pc pc hub notes) :
    ∃ usr', hub.users r = some usr' ∧
      Moves (view i r usr s) (view i r usr' (moved s j pc hub notes)) := by
  have hnotes : ∀ note ∈ notes, note.user ≠ r := fun note hn he => hr (he ▸ hm.notes_user note hn)
  refine ⟨usr, (hm.users_other hr).trans hu, ?_⟩
  have hsame (hc : pc.consumer i r = (s.threads j).pc.consumer i r)
      (hq : hub.uqueue.count i = s.hub.uqueue.count i) :
      Moves (view i r usr s) (view i r usr (moved s j pc hub notes)) :=
    Or.inl (view_same ⟨rfl, rfl, rfl⟩ rfl hq (consumer_same hc) (accepts_other _ hnotes)
      (broadcasts_other _ hnotes))
  generalize ht : (s.threads j).pc = t at hm hr hsame
  cases hm with
  | again | leave => exact hsame rfl rfl
  | @pull id ids hq =>
    by_cases hid : id = i
    · subst hid
      refine Or.inr ?_
      have haway : (view id r usr s).consumer j = .away := by
        change (s.threads j).pc.consumer id r = .away
        rw [ht]
        rfl
      convert Step.pull (m := view id r usr s) j haway (by simp [view, hq]) using 1
      refine Mailbox.ext rfl rfl rfl rfl ?_ ?_ ?_ ?_
      · simp [view, moved, hq]
      · exact (consumer_moved ..).trans (congrArg _ (if_pos rfl))
      · simp only [view, moved, List.append_nil]
      · simp only [view, moved, List.append_nil]
    · exact hsame (if_neg hid) (by simp [hq, hid])
  | @unknown id hnone =>
    have hid : id ≠ i := by
      rintro rfl
      cases hnone.symm.trans hreg
    exact hsame (if_neg hid).symm rfl
  | @found id u hsome =>
    refine hsame ?_ rfl
    by_cases hid : id = i
    · subst hid
      cases hsome.symm.trans hreg
      exact (if_pos rfl).trans (if_pos rfl).symm
    · have hur : u ≠ r := by
        rintro rfl
        obtain ⟨usr1, hu1, hid1⟩ := hw.id hsome
        obtain ⟨usr2, hu2, hid2⟩ := hw.id hreg
        cases hu1.symm.trans hu2
        exact hid (hid1.symm.trans hid2)
      exact (consumer_other hur).trans (if_neg hid).symm
  | miss | reset =>
    exact hsame (consumer_other fun he => hr (congrArg some he)).symm rfl
  | load | copyLon | copyLat | copyAlt | call | last | taken | free | get | notReady | isReady
  | pack | sendto =>
    have hur := fun he => hr (congrArg some he)
    exact hsame ((consumer_other hur).trans (consumer_other hur).symm) rfl

private theorem thread_view (hw : Consistent s.hub s.cmd) (hu : s.hub.users r = some usr)
    (hreg : s.hub.idUmap.pointsTo i = some r)
    (hm : ThreadMoved env s.hub (s.threads j).pc pc hub notes) :
    ∃ usr', hub.users r = some usr' ∧
      Moves (view i r usr s) (view i r usr' (moved s j pc hub notes)) := by
  by_cases hr : (s.threads j).pc.user = some r
  · cases ht : (s.threads j).pc with
    | turn id u tpc =>
      rw [ht] at hr hm
      cases hr
      exact thread_own ht hu hm
    | test | pull | lookup | exited =>
      rw [ht] at hr
      cases hr
  · exact thread_other hw hu hreg hr hm

end Broadcast

/-- The GPS thread has found a user with this id and may still queue the id. -/
def GpsPc.on (i : Int32) : GpsPc → Bool
  | .coord _ id _ _ _ => id = i
  | .put id => id = i
  | _ => false

/-- Something of a former user of the id is still on its way. -/
def Leftover (i : Int32) (s : System n) : Prop :=
  i ∈ s.hub.uqueue ∨ (∃ j, (s.threads j).pc = .lookup i) ∨ s.gps.on i

instance (i : Int32) (s : System n) : Decidable (Leftover i s) :=
  inferInstanceAs (Decidable (_ ∨ _))

/-- The id that the next step of the command thread gives to a user. -/
def CmdPc.handsOut : CmdPc → Option Int32
  | .reg _ _ id _ .putId => some id.toInt32
  | _ => none

/-- When a user gets the id, nothing of a former user is on its way. -/
def HandsOutClean (i : Int32) (s : System n) (a : Action n) : Prop :=
  a.isCmd → s.cmd.handsOut = some i → ¬Leftover i s

instance (i : Int32) (s : System n) (a : Action n) : Decidable (HandsOutClean i s a) :=
  inferInstanceAs (Decidable (_ → _ → _))

/-- The mailbox of whoever is registered with the id is in order, and the GPS thread works
with that id on no other user. -/
structure Handing (i : Int32) (s : System n) : Prop where
  mailbox : ∀ r, s.hub.idUmap.pointsTo i = some r →
    ∃ usr, s.hub.users r = some usr ∧ Inv (view i r usr s)
  fresh : ∀ r, s.hub.idUmap.pointsTo i = some r → ∀ a c u pc, s.gps = .coord a i c u pc → u = r

section Command

variable {env : Env} {h h' : Hub} {pc pc' : CmdPc} {notes : List Note} {i : Int32} {r : UserRef}

theorem CmdMoved.of_map (hm : CmdMoved env h pc pc' h' notes)
    (hr : h'.idUmap.pointsTo i = some r) : h.idUmap.pointsTo i = some r ∨
      ∃ x nick k, pc = .reg x nick k r .putId ∧ UInt32.toInt32 k = i ∧ h'.users = h.users := by
  cases hm with
  | aside ha =>
    rw [ha.id] at hr
    exact Or.inl hr
  | @putId x nick k u =>
    change (h.idUmap.put (UInt32.toInt32 k) (some u)).pointsTo i = some r at hr
    rw [SyncHashMap.pointsTo_put] at hr
    rcases Lib.of_update_some hr with ⟨rfl, rfl⟩ | ⟨-, hr⟩
    · exact Or.inr ⟨x, nick, k, rfl, rfl, rfl⟩
    · exact Or.inl hr
  | @eraseId x u k nick =>
    change (h.idUmap.erase k).pointsTo i = some r at hr
    rw [SyncHashMap.pointsTo_erase] at hr
    obtain ⟨-, hr⟩ := Lib.of_update_none hr
    exact Or.inl hr
  | create | putNick | store | token | get | read | eraseNick | delete | close => exact Or.inl hr

theorem CmdMoved.uqueue (hm : CmdMoved env h pc pc' h' notes) : h'.uqueue = h.uqueue := by
  cases hm with
  | aside ha => exact ha.uqueue
  | create | putNick | putId | store | token | get | read | eraseId | eraseNick | delete
  | close => rfl

theorem CmdMoved.notes_other (hm : CmdMoved env h pc pc' h' notes) (r : UserRef)
    (hist : List Note) : accepts r (hist ++ notes) = accepts r hist ∧
      broadcasts r (hist ++ notes) = broadcasts r hist := by
  cases hm with
  | token => simp [accepts, acceptedOf, broadcasts, broadcastOf]
  | aside | create | putNick | putId | store | get | read | eraseId | eraseNick | delete
  | close => rw [List.append_nil]; exact ⟨rfl, rfl⟩

end Command

namespace Handing

variable {env : Env} {s s' : System n} {hub : Hub} {notes : List Note} {i : Int32}

theorem boot : Handing i (System.boot n) where
  mailbox _ hr := nomatch hr
  fresh _ hr := nomatch hr

private theorem gps_step {pc : GpsPc} (h : Handing i s) (hw : Consistent s.hub s.cmd)
    (hb : Bounded s) (hm : GpsMoved env s.hub s.gps pc hub notes) :
    Handing i { s with gps := pc, hub, hist := s.hist ++ notes } where
  mailbox := by
    intro r hr
    change hub.idUmap.pointsTo i = some r at hr
    rw [hm.calm.id] at hr
    obtain ⟨usr, hu, hinv⟩ := h.mailbox r hr
    obtain ⟨usr', hu', hid⟩ := hw.id hr
    cases hu.symm.trans hu'
    obtain ⟨usr', hu', hmoves⟩ := gps_view hb hu hid
      (fun a id c u cpc hg he => h.fresh r hr a c u cpc (he ▸ hg)) hm
    exact ⟨usr', hu', hmoves.inv hinv⟩
  fresh := by
    intro r hr a c u cpc hg
    change hub.idUmap.pointsTo i = some r at hr
    rw [hm.calm.id] at hr
    change pc = _ at hg
    generalize hold : s.gps = g at hm
    cases hm with
    | coordFound hm =>
      cases hg
      exact Option.some.inj (hm.symm.trans hr)
    | reject | allow | lon | lat | alt | decide | publish =>
      cases hg
      exact h.fresh r hr _ _ _ _ hold
    | coordNone | warn | skip | swap | put | initNone | initFound | badToken | goodToken | badIp
    | goodIp | set | ack | flush => cases hg

private theorem thread_step {j : Fin n} {pc : ThreadPc} (h : Handing i s)
    (hw : Consistent s.hub s.cmd) (hm : ThreadMoved env s.hub (s.threads j).pc pc hub notes) :
    Handing i (moved s j pc hub notes) where
  mailbox := by
    intro r hr
    change hub.idUmap.pointsTo i = some r at hr
    rw [hm.calm.id] at hr
    obtain ⟨usr, hu, hinv⟩ := h.mailbox r hr
    obtain ⟨usr', hu', hmoves⟩ := thread_view hw hu hr hm
    exact ⟨usr', hu', hmoves.inv hinv⟩
  fresh := by
    intro r hr
    change hub.idUmap.pointsTo i = some r at hr
    rw [hm.calm.id] at hr
    exact h.fresh r hr

/-- The mailbox of a user that has just been put into `id_umap` is free. -/
private theorem born {r : UserRef} {usr : User} (hu : s.hub.users r = some usr)
    (hun : Unborn s r) (hl : ¬Leftover i s) : Inv (view i r usr s) := by
  have hacc : accepts r s.hist = [] := accepts_other [] hun.hist
  have hbro : broadcasts r s.hist = [] := broadcasts_other [] hun.hist
  refine .free ?_ ?_ ?_ (fun j => ?_) ?_
  · simp [view, hun.ready usr hu]
  · exact List.count_eq_zero.mpr fun hi => hl (Or.inl hi)
  · refine producer_other hun.gps fun hg => hl (Or.inr (Or.inr ?_))
    rw [hg]
    exact decide_eq_true rfl
  · change (s.threads j).pc.consumer i r = .away
    have hj := hun.threads j
    cases ht : (s.threads j).pc with
    | lookup id =>
      refine if_neg fun he => hl (Or.inr (Or.inl ⟨j, ?_⟩))
      rw [ht, he]
    | turn id u tpc =>
      rw [ht] at hj
      exact consumer_other fun he => hj (congrArg some he)
    | test | pull | exited => rfl
  · simp [published, view, hacc, hbro]

private theorem core_box {u v : User} (hc : core u = core v) :
    slots v = slots u ∧ v.empty = u.empty ∧ v.ready = u.ready := by
  have hslots : slots (core v) = slots (core u) := congrArg slots hc.symm
  have hempty : (core v).empty = (core u).empty := congrArg User.empty hc.symm
  have hready : (core v).ready = (core u).ready := congrArg User.ready hc.symm
  refine ⟨?_, hempty, hready⟩
  funext sd
  cases sd with
  | one => exact congrFun hslots .one
  | two => exact congrFun hslots .two

private theorem keep {r : UserRef} {usr usr' : User} (hinv : Inv (view i r usr s))
    (hcore : core usr = core usr') (hg : s'.gps.producer i r = s.gps.producer i r)
    (ht : s'.hub.uqueue.count i = s.hub.uqueue.count i)
    (hc : ∀ j, (s'.threads j).pc = (s.threads j).pc)
    (hh : accepts r s'.hist = accepts r s.hist ∧ broadcasts r s'.hist = broadcasts r s.hist) :
    Inv (view i r usr' s') := by
  have hview := view_same (core_box hcore) hg ht
    (fun j => congrArg (ThreadPc.consumer i r) (hc j)) hh.1 hh.2
  exact hview ▸ hinv

private theorem cmd_step {pc : CmdPc} (h : Handing i s) (hw : Consistent s.hub s.cmd)
    (hb : Bounded s) (hw' : Consistent hub pc) (hg : HandsOutClean i s (.cmd env))
    (hm : CmdMoved env s.hub s.cmd pc hub notes) :
    Handing i { s with cmd := pc, hub, hist := s.hist ++ notes } where
  mailbox := by
    intro r hr
    obtain ⟨usr', hu', -⟩ := hw'.id hr
    refine ⟨usr', hu', ?_⟩
    have ht := congrArg (List.count i) hm.uqueue
    cases hm.of_map hr with
    | inl hold =>
      obtain ⟨usr, hu, hinv⟩ := h.mailbox r hold
      obtain ⟨usr1, hu1, hcore⟩ := hm.before (Bounded.lt_of_map hw hold).ne hu'
      cases hu.symm.trans hu1
      exact keep hinv hcore rfl ht (fun _ => rfl) (hm.notes_other r s.hist)
    | inr hnew =>
      obtain ⟨x, nick, k, hcmd, hk, husers⟩ := hnew
      rw [husers] at hu'
      have hclean := hg rfl (by rw [hcmd, ← hk]; rfl)
      have hborn := born hu' (hb.unborn r (by rw [hcmd]; rfl)) hclean
      exact keep hborn rfl rfl ht (fun _ => rfl) (hm.notes_other r s.hist)
  fresh := by
    intro r hr a c u pc he
    cases hm.of_map hr with
    | inl hold => exact h.fresh r hold a c u pc he
    | inr hnew =>
      obtain ⟨x, nick, k, hcmd, hk, -⟩ := hnew
      refine absurd (Or.inr (Or.inr ?_)) (hg rfl (by rw [hcmd, ← hk]; rfl))
      rw [show s.gps = _ from he]
      exact decide_eq_true rfl

private theorem other_step (h : Handing i s) (hw : Consistent s.hub s.cmd)
    (hmap : s'.hub.idUmap = s.hub.idUmap) (husers : s'.hub.users = s.hub.users)
    (hg : s'.gps = s.gps ∨ s.gps = .idle ∧ ∀ r, s'.gps.producer i r = .idle ∧ s'.gps.user = none)
    (ht : i ≠ 0 → s'.hub.uqueue.count i = s.hub.uqueue.count i)
    (hc : ∀ j, (s'.threads j).pc = (s.threads j).pc) (hh : s'.hist = s.hist) : Handing i s' where
  mailbox := by
    intro r hr
    rw [hmap] at hr
    obtain ⟨usr, hu, hinv⟩ := h.mailbox r hr
    obtain ⟨usr1, hu1, hid⟩ := hw.id hr
    cases hu.symm.trans hu1
    have hp : s'.gps.producer i r = s.gps.producer i r := by
      cases hg with
      | inl he => rw [he]
      | inr he => exact (he.2 r).1.trans (by rw [he.1]; rfl)
    refine ⟨usr, husers ▸ hu, keep hinv rfl hp (ht (hid ▸ (hw.user hu).2.1)) hc ?_⟩
    rw [hh]
    exact ⟨rfl, rfl⟩
  fresh := by
    intro r hr a c u pc he
    rw [hmap] at hr
    cases hg with
    | inl hsame => exact h.fresh r hr a c u pc (hsame ▸ he)
    | inr hnone =>
      have hu := (hnone.2 r).2
      rw [he] at hu
      cases hu

end Handing

private theorem received_producer (theirAddr : SockAddr) (bytes : List UInt8) (i : Int32)
    (r : UserRef) : (received theirAddr bytes).producer i r = .idle := by
  simp only [received]
  split_ifs <;> rfl

namespace System

theorem handing_step {s s' : System n} {a : Action n} {i : Int32} (hs : s.step a = some s')
    (hsound : Sound s) (hg : HandsOutClean i s a) (h : Handing i s) : Handing i s' := by
  obtain ⟨hw, hb⟩ := hsound
  have hw' := consistent_step hs hw
  obtain ⟨-, hm⟩ := step_moved hs
  cases hm with
  | gps env pc hub notes hi he => exact h.gps_step hw hb (gpsStep_moved hi he)
  | thread j env pc hub notes hbl he => exact h.thread_step hw (threadStep_moved hbl he)
  | cmd env pc hub notes he => exact h.cmd_step hw hb hw' hg (cmdStep_moved he)
  | receive theirAddr bytes hi =>
    refine h.other_step hw rfl rfl (Or.inr ⟨hi, fun r => ?_⟩) (fun _ => rfl) (fun _ => rfl) rfl
    exact ⟨received_producer .., received_user ..⟩
  | timeout hi =>
    exact h.other_step hw rfl rfl (Or.inr ⟨hi, fun r => ⟨rfl, rfl⟩⟩) (fun _ => rfl) (fun _ => rfl)
      rfl
  | stop j =>
    exact h.other_step hw rfl rfl (Or.inl rfl) (fun _ => rfl) (stop_pc s j) rfl
  | wake =>
    refine h.other_step hw rfl rfl (Or.inl rfl) (fun hne => ?_) (fun _ => rfl) rfl
    simp [hne.symm]
  | accept | command | writable | close | fault =>
    exact h.other_step hw rfl rfl (Or.inl rfl) (fun _ => rfl) (fun _ => rfl) rfl

theorem mailbox_of_run {s : System n} {as : List (Action n)} {i : Int32} {r : UserRef}
    (hr : run step (boot n) as = some s) (hg : Guarded step (HandsOutClean i) (boot n) as)
    (hreg : s.hub.idUmap.map i = some (some r)) :
    ∃ usr, s.hub.users r = some usr ∧ Inv (view i r usr s) := by
  have halways : Always step (fun s => Sound s ∧ Handing i s) (boot n) as :=
    always_of_step (H := fun _ => True)
      (fun s a s' _ _ hg hs h => ⟨sound_step hs h.1, handing_step hs h.1 hg h.2⟩)
      (always_true _ _) hg ⟨sound_boot, .boot⟩
  exact (halways.last hr).2.mailbox r (SyncHashMap.pointsTo_eq_some.mpr hreg)

end System

end Gpshub.Threads
