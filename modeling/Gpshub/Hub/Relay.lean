import Gpshub.Hub.Broadcast

/-! A position on its way through the hub: the datagram it comes in, the slot it waits in and the
packages it leaves in. -/
namespace Gpshub
open CommandHandler GpsDataServer CoordsBroadcastThread Lib.Machine

/-- A gps data package. -/
structure GpsPkg where
  id : Int32
  coords : Coordinates
  deriving DecidableEq

/-- A package of 12 bytes has the altitude 0. -/
def GpsPkg.decode (pkg : List UInt8) : Option GpsPkg :=
  if pkg.length = 12 ∨ pkg.length = 16 then
    some ⟨toint pkg 0, toint pkg 4, toint pkg 8, altitude pkg pkg.length⟩
  else none

theorem coordsPkg_length (id : Int32) (c : Coordinates) :
    (coordsPkg id c).length = if 0 < c.altitude then 16 else 12 := by
  unfold coordsPkg
  split_ifs with ha <;> rfl

theorem altitude_coordsPkg (id : Int32) (c : Coordinates) :
    altitude (coordsPkg id c) (coordsPkg id c).length =
      if 0 < c.altitude then c.altitude else 0 := by
  rw [coordsPkg_length]
  by_cases ha : 0 < c.altitude
  · rw [if_pos ha, if_pos ha, altitude, if_pos rfl, coordsPkg, if_pos ha]
    exact toint_intBytes (intBytes id.toUInt32 ++ intBytes c.longitude.toUInt32 ++
      intBytes c.latitude.toUInt32) [] c.altitude
  · rw [if_neg ha, if_neg ha, altitude, if_neg (by decide)]

theorem decode_coordsPkg (id : Int32) (c : Coordinates) :
    GpsPkg.decode (coordsPkg id c) =
      some ⟨id, c.longitude, c.latitude, if 0 < c.altitude then c.altitude else 0⟩ := by
  have hlen := coordsPkg_length id c
  have hany : (coordsPkg id c).length = 12 ∨ (coordsPkg id c).length = 16 := by
    split_ifs at hlen
    · exact Or.inr hlen
    · exact Or.inl hlen
  have halt := altitude_coordsPkg id c
  have hid : toint (coordsPkg id c) 0 = id := by
    unfold coordsPkg
    simp only [List.append_assoc]
    exact toint_intBytes [] _ id
  have hlon : toint (coordsPkg id c) 4 = c.longitude := by
    unfold coordsPkg
    simp only [List.append_assoc]
    exact toint_intBytes (intBytes id.toUInt32) _ c.longitude
  have hlat : toint (coordsPkg id c) 8 = c.latitude := by
    unfold coordsPkg
    rw [List.append_assoc]
    exact toint_intBytes (intBytes id.toUInt32 ++ intBytes c.longitude.toUInt32) _ c.latitude
  rw [GpsPkg.decode, if_pos hany, hid, hlon, hlat, halt]

/-- A package says what it is made from exactly when the altitude is not negative. -/
theorem decode_coordsPkg_iff (id : Int32) (c : Coordinates) :
    GpsPkg.decode (coordsPkg id c) = some ⟨id, c⟩ ↔ 0 ≤ c.altitude := by
  have hzero (a : Int32) : (if 0 < a then a else 0) = a ↔ 0 ≤ a := by
    split_ifs with ha
    · exact iff_of_true rfl (Int32.le_of_lt ha)
    · constructor
      · intro h0
        exact h0 ▸ Int32.le_refl 0
      · intro hle
        exact Int32.le_antisymm hle (Int32.not_lt.mp ha)
  rw [decode_coordsPkg, Option.some.injEq, GpsPkg.mk.injEq, ← hzero]
  constructor
  · intro h
    exact congrArg Coordinates.altitude h.2
  · intro h
    rw [h]
    exact ⟨rfl, rfl⟩

/-- The slot that `processCoordinates` writes to, and the datagram it takes. -/
def written (h : Hub) (ev : Event) : Option (UserRef × Slot × List UInt8) :=
  match ev with
  | .datagram _ bytes => do
    let (u, _) ← takenFrom h ev
    let usr ← h.users u
    return (u, usr.empty, bytes.take BUF_LEN)
  | _ => none

/-- The hub, with the datagram that every slot was last written from. -/
structure Relay where
  hub : Hub
  last : UserRef → Slot → Option (List UInt8)

namespace Relay

def boot : Relay := ⟨.boot, fun _ _ => none⟩

def record (s : Relay) (ev : Event) : UserRef → Slot → Option (List UInt8) :=
  match written s.hub ev with
  | none => s.last
  | some (u, c, buf) => Function.update s.last u (Function.update (s.last u) c (some buf))

def step (s : Relay) (call : Event × Env) : Option Relay :=
  (s.hub.step call).map fun hub => { hub, last := s.record call.1 }

theorem step_eq_some {s s' : Relay} {call : Event × Env} :
    step s call = some s' ↔ ∃ h', s.hub.step call = some h' ∧ s' = ⟨h', s.record call.1⟩ := by
  rw [step, Option.map_eq_some_iff]
  exact exists_congr fun h' => and_congr_right fun _ => eq_comm

end Relay

section Taken

variable {h h' : Hub} {ev : Event} {u : UserRef} {usr : User} {c : Coordinates}
  {theirAddr : SockAddr} {bytes : List UInt8}

theorem takenFrom_eq_some (ht : takenFrom h (.datagram theirAddr bytes) = some (u, c)) :
    ((bytes.take BUF_LEN).length = 12 ∨ (bytes.take BUF_LEN).length = 16) ∧
      h.idUmap.pointsTo (toint (bytes.take BUF_LEN) 0) = some u ∧
      (∃ usr, h.users u = some usr ∧ socketEquals theirAddr usr.addrUdp = true) ∧
      c = ⟨toint (bytes.take BUF_LEN) 4, toint (bytes.take BUF_LEN) 8,
        altitude (bytes.take BUF_LEN) (bytes.take BUF_LEN).length⟩ := by
  simp only [takenFrom] at ht
  split_ifs at ht with hlen
  obtain ⟨v, hid, ht⟩ := Option.bind_eq_some_iff.mp ht
  obtain ⟨usr, hu, ht⟩ := Option.bind_eq_some_iff.mp ht
  split_ifs at ht with ha
  cases ht
  exact ⟨hlen, hid, ⟨usr, hu, ha⟩, rfl⟩

theorem event_of_taken (ht : takenFrom h ev = some (u, c)) :
    ∃ theirAddr bytes, ev = .datagram theirAddr bytes := by
  cases ev with
  | datagram theirAddr bytes => exact ⟨theirAddr, bytes, rfl⟩
  | _ => cases ht

theorem decode_of_taken (hwf : WellFormed h)
    (ht : takenFrom h (.datagram theirAddr bytes) = some (u, c)) (hu : h.users u = some usr) :
    GpsPkg.decode (bytes.take BUF_LEN) = some ⟨usr.id, c⟩ := by
  obtain ⟨hlen, hid, -, rfl⟩ := takenFrom_eq_some ht
  have hsame : toint (bytes.take BUF_LEN) 0 = usr.id := by
    obtain ⟨k, htag, -⟩ := hwf.directory.id hid
    obtain ⟨usr', hu', htag⟩ := WellFormed.tag_eq_some.mp htag
    cases hu.symm.trans hu'
    exact (congrArg Prod.fst htag).symm
  rw [GpsPkg.decode, if_pos hlen, hsame]

theorem users_of_taken {call : Event × Env} (hs : h.step call = some h')
    (ht : takenFrom h call.1 = some (u, c)) (hu : h.users u = some usr) :
    h'.users u = some (usr.stored c) := by
  obtain ⟨ev, env⟩ := call
  obtain ⟨theirAddr, bytes, rfl⟩ := event_of_taken ht
  obtain ⟨hlen, hid, ⟨usr', hu', ha⟩, rfl⟩ := takenFrom_eq_some ht
  cases hu.symm.trans hu'
  have he := Hub.step_eq_some.mp hs
  obtain ⟨h1, hp, he⟩ := bind_eq_ok.mp he
  have hget : h.idUmap.get (toint (bytes.take BUF_LEN) 0) =
      (some u, (h.idUmap.get (toint (bytes.take BUF_LEN) 0)).2) := by
    have hpoints := SyncHashMap.pointsTo_of_get h.idUmap (toint (bytes.take BUF_LEN) 0)
    rw [hid] at hpoints
    exact Prod.ext hpoints.symm rfl
  unfold process at hp
  dsimp only at hp
  rw [if_pos hlen, processCoordinates_some hget hu, if_pos ha] at hp
  cases hp
  rw [sendPendingCmd_users he]
  exact Function.update_self ..

end Taken

/-- The slots hold what the datagrams say that they were written from, and `ready` names one of
them that is not written to. -/
structure Recorded (last : Slot → Option (List UInt8)) (usr : User) : Prop where
  slot : ∀ c buf, last c = some buf → GpsPkg.decode buf = some ⟨usr.id, usr.slot c⟩
  ready : ∀ c, usr.ready = some c → c ≠ usr.empty ∧ last c ≠ none

namespace Recorded

variable {last : Slot → Option (List UInt8)} {u : UserRef} {usr usr' : User}

theorem new (env : Env) (nick : Nick) (id : UInt32) (session : Session) (token : Int32) :
    Recorded (fun _ => none) ((registerUser env nick id session).setToken token) where
  slot _ _ hlast := nomatch hlast
  ready _ hready := nomatch hready

theorem stored (hr : Recorded last usr) {buf : List UInt8} {c : Coordinates}
    (hd : GpsPkg.decode buf = some ⟨usr.id, c⟩) :
    Recorded (Function.update last usr.empty (some buf)) (usr.stored c) := by
  have hid : (usr.stored c).id = usr.id := congrArg Prod.fst (ident_stored usr c)
  refine ⟨fun d out hout => ?_, fun d hready => ?_⟩
  · rw [hid, slot_stored]
    by_cases hde : d = usr.empty
    · subst hde
      rw [Function.update_self] at hout ⊢
      cases hout
      exact hd
    · rw [Function.update_of_ne hde] at hout ⊢
      exact hr.slot d out hout
  · rcases ready_stored hready with ⟨rfl, hne⟩ | ⟨hready, hempty⟩
    · rw [Function.update_self]
      exact ⟨hne, Option.some_ne_none buf⟩
    · obtain ⟨hne, hlast⟩ := hr.ready d hready
      rw [hempty, Function.update_of_ne hne]
      exact ⟨hne, hlast⟩

theorem moved {h : Hub} {call : Event × Env} (hr : Recorded last usr)
    (hm : UserMoved h call u usr usr') (hnot : ∀ c, takenFrom h call.1 ≠ some (u, c)) :
    Recorded last usr' := by
  cases hm with
  | same | buddies | address => exact ⟨hr.slot, hr.ready⟩
  | coordinates c hc => exact absurd hc (hnot c)
  | reset => exact ⟨hr.slot, nofun⟩

end Recorded

structure Kept (s : Relay) : Prop where
  wellFormed : WellFormed s.hub
  fresh : ∀ u, s.hub.nextUser ≤ u → s.last u = fun _ => none
  users : ∀ u usr, s.hub.users u = some usr → Recorded (s.last u) usr

namespace Relay

variable {s s' : Relay} {u : UserRef} {usr : User} {ev : Event}

theorem record_of_taken {c : Coordinates} {theirAddr : SockAddr} {bytes : List UInt8}
    (ht : takenFrom s.hub (.datagram theirAddr bytes) = some (u, c))
    (hu : s.hub.users u = some usr) :
    s.record (.datagram theirAddr bytes) u =
      Function.update (s.last u) usr.empty (some (bytes.take BUF_LEN)) := by
  have hw : written s.hub (.datagram theirAddr bytes) =
      some (u, usr.empty, bytes.take BUF_LEN) := by
    simp only [written, ht, hu, Option.bind_eq_bind, Option.bind_some, Option.pure_def]
  rw [record, hw]
  exact Function.update_self ..

/-- The slots of the users for whom nothing is taken keep their datagrams. -/
theorem record_of_not_taken (hnot : ∀ c, takenFrom s.hub ev ≠ some (u, c)) :
    s.record ev u = s.last u := by
  unfold record
  cases hw : written s.hub ev with
  | none => rfl
  | some w =>
    obtain ⟨v, c, buf⟩ := w
    cases ev with
    | datagram theirAddr bytes =>
      obtain ⟨⟨v', c'⟩, ht, hw⟩ := Option.bind_eq_some_iff.mp hw
      obtain ⟨usr, -, hw⟩ := Option.bind_eq_some_iff.mp hw
      cases hw
      have hne : u ≠ v := by
        intro huv
        exact hnot c' (huv ▸ ht)
      exact Function.update_of_ne hne _ _
    | _ => cases hw

theorem kept_boot : Kept boot where
  wellFormed := .boot
  fresh _ _ := rfl
  users _ _ hu := nomatch hu

theorem kept_step {call : Event × Env} (hs : s.step call = some s') (hk : Kept s) : Kept s' := by
  obtain ⟨h', hh, rfl⟩ := step_eq_some.mp hs
  have htaken (u c) (ht : takenFrom s.hub call.1 = some (u, c)) :
      ∃ usr, s.hub.users u = some usr := by
    obtain ⟨theirAddr, bytes, hev⟩ := event_of_taken ht
    obtain ⟨-, -, ⟨usr, hu, -⟩, -⟩ := takenFrom_eq_some (hev ▸ ht)
    exact ⟨usr, hu⟩
  -- a reference that no user has had yet
  have hnew (u) (hu : s.hub.nextUser ≤ u) : s.record call.1 u = fun _ => none := by
    rw [record_of_not_taken, hk.fresh u hu]
    intro c ht
    obtain ⟨usr, husr⟩ := htaken u c ht
    exact absurd (hk.wellFormed.user husr).1 (Nat.not_lt.mpr hu)
  refine ⟨hk.wellFormed.step hh, fun u hu => hnew u ((nextUser_le_step hh).trans hu),
    fun u usr' hu' => ?_⟩
  rcases step_user hh hu' with ⟨usr, hu, hm⟩ | ⟨rfl, nick, id, session, rfl⟩
  · have hrec := hk.users u usr hu
    by_cases ht : ∃ c, takenFrom s.hub call.1 = some (u, c)
    · obtain ⟨c, ht⟩ := ht
      have hstored := users_of_taken hh ht hu
      cases hstored.symm.trans hu'
      obtain ⟨theirAddr, bytes, hev⟩ := event_of_taken ht
      rw [hev] at ht
      show Recorded (s.record call.1 u) (usr.stored c)
      rw [hev, record_of_taken ht hu]
      exact hrec.stored (decode_of_taken hk.wellFormed ht hu)
    · have hnot (c) : takenFrom s.hub call.1 ≠ some (u, c) := fun hc => ht ⟨c, hc⟩
      show Recorded (s.record call.1 u) usr'
      rw [record_of_not_taken hnot]
      exact hrec.moved hm hnot
  · show Recorded (s.record call.1 s.hub.nextUser) _
    rw [hnew s.hub.nextUser (le_refl _)]
    exact .new call.2 nick id session call.2.rand

theorem kept_of_run {calls : List (Event × Env)} (hr : run step boot calls = some s) : Kept s :=
  run_of_inv (fun _ _ _ hs hk => kept_step hs hk) hr kept_boot

end Relay

/-- The slot that the next turn broadcasts, and whose it is. -/
def broadcastSlot (h : Hub) : Option (UserRef × Slot) := do
  let id ← h.uqueue.head?
  let u ← h.idUmap.pointsTo id
  let usr ← h.users u
  let c ← usr.ready
  return (u, c)

theorem broadcasting_of_slot {h : Hub} {u : UserRef} {c : Slot}
    (hb : broadcastSlot h = some (u, c)) : ∃ usr, h.users u = some usr ∧ usr.ready = some c ∧
      broadcasting h = some (u, usr, usr.slot c) := by
  obtain ⟨id, hid, hb⟩ := Option.bind_eq_some_iff.mp hb
  obtain ⟨v, hv, hb⟩ := Option.bind_eq_some_iff.mp hb
  obtain ⟨usr, husr, hb⟩ := Option.bind_eq_some_iff.mp hb
  obtain ⟨sl, hsl, hb⟩ := Option.bind_eq_some_iff.mp hb
  cases hb
  exact ⟨usr, husr, hsl, broadcasting_eq_some.mpr ⟨id, c, hid, hv, husr, hsl, rfl⟩⟩

/-- A buddy reads the position of the datagram in the slot that is broadcast exactly when its
altitude is not negative. -/
theorem relayed_iff {s : Relay} {calls : List (Event × Env)}
    (hr : run Relay.step .boot calls = some s) {u : UserRef} {c : Slot}
    (hb : broadcastSlot s.hub = some (u, c)) (env : Env) :
    ∃ buf p, s.last u c = some buf ∧ GpsPkg.decode buf = some p ∧
      (∀ m ∈ posts env s.hub, ∃ b addr pkg, m = .position u b addr pkg ∧
        (GpsPkg.decode pkg = some p ↔ 0 ≤ p.coords.altitude)) ∧
      ∀ s', s.step (.pull, env) = some s' →
        s'.hub.out = s.hub.out ++ (posts env s.hub).map Mail.output := by
  have hk := Relay.kept_of_run hr
  obtain ⟨usr, hu, hready, hbr⟩ := broadcasting_of_slot hb
  have hrec := hk.users u usr hu
  obtain ⟨buf, hbuf⟩ := Option.ne_none_iff_exists'.mp (hrec.ready c hready).2
  refine ⟨buf, ⟨usr.id, usr.slot c⟩, hbuf, hrec.slot c buf hbuf, fun m hm => ?_, fun s' hs => ?_⟩
  · simp only [posts, hbr, List.mem_filterMap] at hm
    obtain ⟨nick, -, hpost⟩ := hm
    obtain ⟨b, buddy, -, -, -, rfl⟩ := post_eq_some.mp hpost
    exact ⟨b, buddy.addrUdp, coordsPkg usr.id (usr.slot c), rfl,
      decode_coordsPkg_iff usr.id (usr.slot c)⟩
  · obtain ⟨h', hh, rfl⟩ := Relay.step_eq_some.mp hs
    obtain ⟨id, sl, hq, -⟩ := broadcasting_eq_some.mp hbr
    obtain ⟨rest, hq⟩ : ∃ rest, s.hub.uqueue = id :: rest := by
      cases hqueue : s.hub.uqueue with
      | nil => simp [hqueue] at hq
      | cons i rest =>
        rw [hqueue] at hq
        cases hq
        exact ⟨rest, rfl⟩
    exact pull_out hq hh

/-- The same peers as in `sharing`; the position is `below` the sea. -/
def below : List (Event × Env) :=
  sharing.dropLast ++
    [(.datagram default (intBytes 1 ++ intBytes 5 ++ intBytes 6 ++ intBytes 4294967295), default)]

theorem relayed_iff_sharing : ∃ s, run Relay.step .boot sharing = some s ∧
    (posts sending s.hub).length = 2 ∧ ∃ buf p, s.last 0 .slot1 = some buf ∧
      GpsPkg.decode buf = some p ∧ ∀ m ∈ posts sending s.hub, ∃ b addr pkg,
        m = .position 0 b addr pkg ∧ (GpsPkg.decode pkg = some p ↔ 0 ≤ p.coords.altitude) := by
  have hrun : ∃ s, run Relay.step .boot sharing = some s ∧
      broadcastSlot s.hub = some (0, .slot1) ∧ (posts sending s.hub).length = 2 :=
    ⟨_, rfl, by decide +kernel, by decide +kernel⟩
  obtain ⟨s, hr, hb, hposts⟩ := hrun
  obtain ⟨buf, p, hbuf, hp, hread, -⟩ := @relayed_iff s sharing hr 0 .slot1 hb sending
  exact ⟨s, hr, hposts, buf, p, hbuf, hp, hread⟩

/-- An altitude of −1 is read as 0. -/
theorem relayed_counterexample :
    ¬∀ (calls : List (Event × Env)) (s : Relay) (u : UserRef) (c : Slot) (env : Env),
      run Relay.step .boot calls = some s → broadcastSlot s.hub = some (u, c) →
      ∃ buf p, s.last u c = some buf ∧ GpsPkg.decode buf = some p ∧
        ∀ m ∈ posts env s.hub, ∃ b addr pkg, m = .position u b addr pkg ∧
          GpsPkg.decode pkg = some p := by
  intro hall
  have hrun : ∃ s, run Relay.step .boot below = some s ∧
      broadcastSlot s.hub = some (0, .slot1) ∧
      (s.last 0 .slot1).bind GpsPkg.decode = some ⟨1, 5, 6, -1⟩ ∧
      Mail.position 0 0 default (coordsPkg 1 ⟨5, 6, -1⟩) ∈ posts sending s.hub :=
    ⟨_, rfl, by decide +kernel, by decide +kernel, by decide +kernel⟩
  obtain ⟨s, hr, hb, hread, hmem⟩ := hrun
  obtain ⟨buf, p, hbuf, hp, hposts⟩ := hall below s 0 .slot1 sending hr hb
  rw [hbuf, Option.bind_some, hp] at hread
  obtain ⟨b, addr, pkg, hm, hd⟩ := hposts _ hmem
  cases hm
  cases hread
  exact absurd hd (by decide +kernel)

end Gpshub
