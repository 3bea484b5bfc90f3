import Gpshub.Threads.Consistent

/-! The pointers to users that the threads hold: they come from `id_umap`, and `new` gives a
user that none of them points to. -/
namespace Gpshub.Threads
open CommandServer CommandHandler Lib.Machine

def GpsPc.user : GpsPc → Option UserRef
  | .coord _ _ _ u _ => some u
  | .init _ _ u _ => some u
  | _ => none

def ThreadPc.user : ThreadPc → Option UserRef
  | .turn _ u _ => some u
  | _ => none

def Note.user : Note → UserRef
  | .accepted u _ _ => u
  | .broadcast u _ => u
  | .initAddr u _ _ => u
  | .token u _ => u

section Moves

variable {env : Env} {h h' : Hub} {notes : List Note} {r : UserRef}

private theorem setUser_other {u : UserRef} {usr : User} (hr : u ≠ r) :
    (h.setUser u usr).users r = h.users r := Function.update_of_ne hr.symm ..

theorem GpsMoved.users_other {pc pc' : GpsPc} (hm : GpsMoved env h pc pc' h' notes)
    (hr : pc.user ≠ some r) : h'.users r = h.users r := by
  cases hm with
  | lon | lat | alt | publish | swap | set => exact setUser_other fun he => hr (congrArg some he)
  | coordNone | coordFound | reject | allow | warn | skip | decide | put | initNone | initFound
  | badToken | goodToken | badIp | goodIp | ack | flush => rfl

theorem ThreadMoved.users_other {pc pc' : ThreadPc} (hm : ThreadMoved env h pc pc' h' notes)
    (hr : pc.user ≠ some r) : h'.users r = h.users r := by
  cases hm with
  | reset => exact setUser_other fun he => hr (congrArg some he)
  | again | leave | pull | unknown | found | miss | load | copyLon | copyLat | copyAlt | call
  | last | taken | free | get | notReady | isReady | pack | sendto => rfl

theorem GpsMoved.user {pc pc' : GpsPc} (hm : GpsMoved env h pc pc' h' notes)
    (hu : pc'.user = some r) : pc.user = some r ∨ ∃ i, h.idUmap.pointsTo i = some r := by
  cases hm with
  | coordFound hm | initFound hm => cases hu; exact Or.inr ⟨_, hm⟩
  | coordNone | warn | skip | swap | put | initNone | ack | flush => cases hu
  | reject | allow | lon | lat | alt | decide | publish | badToken | goodToken | badIp | goodIp
  | set => exact Or.inl hu

theorem ThreadMoved.user {pc pc' : ThreadPc} (hm : ThreadMoved env h pc pc' h' notes)
    (hu : pc'.user = some r) : pc.user = some r ∨ ∃ i, h.idUmap.pointsTo i = some r := by
  cases hm with
  | found hm => cases hu; exact Or.inr ⟨_, hm⟩
  | again | leave | pull | unknown | miss | reset => cases hu
  | load | copyLon | copyLat | copyAlt | call | last | taken | free | get | notReady | isReady
  | pack | sendto => exact Or.inl hu

theorem GpsMoved.notes_user {pc pc' : GpsPc} (hm : GpsMoved env h pc pc' h' notes) :
    ∀ note ∈ notes, pc.user = some note.user := by
  intro note hn
  cases hm with
  | skip | publish | set =>
    cases List.mem_singleton.mp hn
    rfl
  | coordNone | coordFound | reject | allow | warn | lon | lat | alt | decide | swap | put
  | initNone | initFound | badToken | goodToken | badIp | goodIp | ack | flush => cases hn

theorem ThreadMoved.notes_user {pc pc' : ThreadPc} (hm : ThreadMoved env h pc pc' h' notes) :
    ∀ note ∈ notes, pc.user = some note.user := by
  intro note hn
  cases hm with
  | call =>
    cases List.mem_singleton.mp hn
    rfl
  | again | leave | pull | unknown | found | miss | load | copyLon | copyLat | copyAlt | last
  | taken | free | get | notReady | isReady | pack | sendto | reset => cases hn

theorem CmdMoved.nextUser_le {pc pc' : CmdPc} (hm : CmdMoved env h pc pc' h' notes) :
    h.nextUser ≤ h'.nextUser := by
  cases hm with
  | aside ha => exact ha.nextUser.ge
  | create => exact Nat.le_succ _
  | putNick | putId | store | token | get | read | eraseId | eraseNick | delete | close =>
    exact le_rfl

/-- The command thread creates users, and never writes to what others use of them. -/
theorem CmdMoved.users {pc pc' : CmdPc} {usr' : User} (hm : CmdMoved env h pc pc' h' notes)
    (hu' : h'.users r = some usr') : (∃ usr, h.users r = some usr ∧ core usr = core usr') ∨
      r = h.nextUser ∧ ∃ nick i session, usr' = registerUser env nick i session := by
  cases hm with
  | aside ha =>
    have hrest := ha.rest r
    rw [hu'] at hrest
    exact Or.inl (Option.map_eq_some_iff.mp hrest.symm)
  | create =>
    by_cases hr : r = h.nextUser
    · subst hr
      have hnew := (Function.update_self ..).symm.trans hu'
      exact Or.inr ⟨rfl, _, _, _, (Option.some.inj hnew).symm⟩
    · exact Or.inl ⟨usr', (Function.update_of_ne hr ..).symm.trans hu', rfl⟩
  | @token u usr _ _ _ hu =>
    change Function.update h.users u _ r = some usr' at hu'
    by_cases hru : r = u
    · subst hru
      rw [Function.update_self] at hu'
      cases hu'
      exact Or.inl ⟨usr, hu, rfl⟩
    · exact Or.inl ⟨usr', (Function.update_of_ne hru ..).symm.trans hu', rfl⟩
  | @delete _ u =>
    change Function.update h.users u none r = some usr' at hu'
    by_cases hru : r = u
    · subst hru
      rw [Function.update_self] at hu'
      cases hu'
    · exact Or.inl ⟨usr', (Function.update_of_ne hru ..).symm.trans hu', rfl⟩
  | putNick | putId | store | get | read | eraseId | eraseNick | close =>
    exact Or.inl ⟨usr', hu', rfl⟩

theorem CmdMoved.before {pc pc' : CmdPc} {usr' : User} (hm : CmdMoved env h pc pc' h' notes)
    (hr : r ≠ h.nextUser) (hu' : h'.users r = some usr') :
    ∃ usr, h.users r = some usr ∧ core usr = core usr' :=
  (hm.users hu').resolve_right fun hn => hr hn.1

end Moves

/-- No thread knows of the user, and nothing has been written to it. -/
structure Unborn {n : ℕ} (s : System n) (u : UserRef) : Prop where
  map : ∀ i, s.hub.idUmap.pointsTo i ≠ some u
  gps : s.gps.user ≠ some u
  threads : ∀ j, (s.threads j).pc.user ≠ some u
  hist : ∀ note ∈ s.hist, note.user ≠ u
  ready : ∀ usr, s.hub.users u = some usr → usr.ready = none

structure Bounded {n : ℕ} (s : System n) : Prop where
  gps : ∀ u, s.gps.user = some u → u < s.hub.nextUser
  threads : ∀ j u, (s.threads j).pc.user = some u → u < s.hub.nextUser
  hist : ∀ note ∈ s.hist, note.user < s.hub.nextUser
  unborn : ∀ u, s.cmd.unborn = some u → Unborn s u
  /-- The GPS thread writes to the user whose id is in the datagram. -/
  id : ∀ a i c u pc, s.gps = .coord a i c u pc → ∀ usr, s.hub.users u = some usr → usr.id = i

theorem Unborn.calm {n : ℕ} {s s' : System n} {u : UserRef} (hu : Unborn s u)
    (hc : Calm s.hub s'.hub) (hgps : s'.gps.user ≠ some u)
    (hthreads : ∀ j, (s'.threads j).pc.user ≠ some u) (hhist : ∀ note ∈ s'.hist, note.user ≠ u)
    (husers : s'.hub.users u = s.hub.users u) : Unborn s' u where
  map := by
    rw [hc.id]
    exact hu.map
  gps := hgps
  threads := hthreads
  hist := hhist
  ready := by
    rw [husers]
    exact hu.ready

namespace Bounded

variable {n : ℕ} {s : System n} {env : Env} {hub : Hub} {notes : List Note}

theorem boot : Bounded (System.boot n) where
  gps _ hu := nomatch hu
  threads _ _ hu := nomatch hu
  hist _ hn := nomatch hn
  unborn _ hu := nomatch hu
  id _ _ _ _ _ he := nomatch he

theorem lt_of_map (hw : Consistent s.hub s.cmd) {i : Int32} {u : UserRef}
    (hm : s.hub.idUmap.pointsTo i = some u) : u < s.hub.nextUser := by
  obtain ⟨usr, hu, -⟩ := hw.id hm
  exact (hw.user hu).1

private theorem append_notes {P : Note → Prop} (hh : ∀ note ∈ s.hist, P note)
    (hn : ∀ note ∈ notes, P note) : ∀ note ∈ s.hist ++ notes, P note := by
  intro note hm
  exact (List.mem_append.mp hm).elim (hh note) (hn note)

private theorem gps_step {pc : GpsPc} (hb : Bounded s) (hw : Consistent s.hub s.cmd)
    (hm : GpsMoved env s.hub s.gps pc hub notes) :
    Bounded { s with gps := pc, hub, hist := s.hist ++ notes } := by
  have hc := hm.calm
  have hnext : hub.nextUser = s.hub.nextUser := hc.nextUser
  constructor
  · intro u hu
    change u < hub.nextUser
    rw [hnext]
    exact (hm.user hu).elim (hb.gps u) fun ⟨i, hi⟩ => lt_of_map hw hi
  · intro j u hu
    change u < hub.nextUser
    rw [hnext]
    exact hb.threads j u hu
  · change ∀ note ∈ s.hist ++ notes, note.user < hub.nextUser
    rw [hnext]
    exact append_notes hb.hist fun note hn => hb.gps _ (hm.notes_user note hn)
  · intro u hu
    have hub := hb.unborn u hu
    refine hub.calm hc ?_ hub.threads ?_ (hm.users_other hub.gps)
    · intro hg
      exact (hm.user hg).elim hub.gps fun ⟨i, hi⟩ => hub.map i hi
    · exact append_notes hub.hist fun note hn he => hub.gps (he ▸ hm.notes_user note hn)
  · intro a i c u cpc he usr hu
    obtain ⟨old, hold, ha⟩ := hc.before hu
    rw [← (account_eq ha).1]
    change pc = _ at he
    generalize hg : s.gps = g at hm
    cases hm with
    | coordFound hm =>
      cases he
      obtain ⟨usr', hu', hid⟩ := hw.id hm
      cases hold.symm.trans hu'
      exact hid
    | reject | allow | lon | lat | alt | decide | publish =>
      cases he
      exact hb.id _ _ _ _ _ hg _ hold
    | coordNone | warn | skip | swap | put | initNone | initFound | badToken | goodToken | badIp
    | goodIp | set | ack | flush => cases he

private theorem thread_step {j : Fin n} {pc : ThreadPc} (hb : Bounded s)
    (hw : Consistent s.hub s.cmd) (hm : ThreadMoved env s.hub (s.threads j).pc pc hub notes) :
    Bounded { s with
      threads := Function.update s.threads j { s.threads j with pc }
      hub
      hist := s.hist ++ notes } := by
  have hc := hm.calm
  have hnext : hub.nextUser = s.hub.nextUser := hc.nextUser
  have huser {k : Fin n} {u : UserRef}
      (hk : (Function.update s.threads j { s.threads j with pc } k).pc.user = some u) :
      (∃ k, (s.threads k).pc.user = some u) ∨ ∃ i, s.hub.idUmap.pointsTo i = some u := by
    rw [System.moved_pc] at hk
    split_ifs at hk
    · exact (hm.user hk).imp_left fun hu => ⟨j, hu⟩
    · exact Or.inl ⟨k, hk⟩
  constructor
  · intro u hu
    change u < hub.nextUser
    rw [hnext]
    exact hb.gps u hu
  · intro k u hu
    change u < hub.nextUser
    rw [hnext]
    exact (huser hu).elim (fun ⟨k, hk⟩ => hb.threads k u hk) fun ⟨i, hi⟩ => lt_of_map hw hi
  · change ∀ note ∈ s.hist ++ notes, note.user < hub.nextUser
    rw [hnext]
    exact append_notes hb.hist fun note hn => hb.threads j _ (hm.notes_user note hn)
  · intro u hu
    have hub := hb.unborn u hu
    refine hub.calm hc hub.gps ?_ ?_ (hm.users_other (hub.threads j))
    · intro k hk
      exact (huser hk).elim (fun ⟨k, hk⟩ => hub.threads k hk) fun ⟨i, hi⟩ => hub.map i hi
    · exact append_notes hub.hist fun note hn he => hub.threads j (he ▸ hm.notes_user note hn)
  · intro a i c u cpc he usr hu
    obtain ⟨old, hold, ha⟩ := hc.before hu
    rw [← (account_eq ha).1]
    exact hb.id a i c u cpc he old hold

private theorem created_unborn (hb : Bounded s) (hw : Consistent s.hub s.cmd) {pc : CmdPc}
    {new : User} (hready : new.ready = none) :
    Unborn { s with
      hub := { s.hub.setUser s.hub.nextUser new with nextUser := s.hub.nextUser + 1 }
      cmd := pc
      hist := s.hist ++ [] } s.hub.nextUser where
  map i hi := (lt_of_map hw hi).false
  gps hg := (hb.gps _ hg).false
  threads j hj := (hb.threads j _ hj).false
  hist note hn he := by
    change note ∈ s.hist ++ [] at hn
    rw [List.append_nil] at hn
    exact (hb.hist note hn).ne he
  ready usr hu := by
    change Function.update s.hub.users s.hub.nextUser _ s.hub.nextUser = some usr at hu
    rw [Function.update_self] at hu
    cases hu
    exact hready

private theorem cmd_step {pc : CmdPc} (hb : Bounded s) (hw : Consistent s.hub s.cmd)
    (hm : CmdMoved env s.hub s.cmd pc hub notes) :
    Bounded { s with cmd := pc, hub, hist := s.hist ++ notes } := by
  have hle : s.hub.nextUser ≤ hub.nextUser := hm.nextUser_le
  constructor
  · exact fun u hu => (hb.gps u hu).trans_le hle
  · exact fun j u hu => (hb.threads j u hu).trans_le hle
  · refine append_notes (fun note hn => (hb.hist note hn).trans_le hle) fun note hn => ?_
    generalize s.cmd = c at hm
    cases hm with
    | token hu =>
      cases List.mem_singleton.mp hn
      exact (hw.user hu).1
    | aside | create | putNick | putId | store | get | read | eraseId | eraseNick | delete
    | close => cases hn
  · intro u hu
    change pc.unborn = some u at hu
    generalize hcmd : s.cmd = c at hm
    cases hm with
    | aside ha hpc hok hp => cases hp.2.1.symm.trans hu
    | create hs =>
      cases hu
      exact created_unborn hb hw rfl
    | putNick =>
      cases hu
      have hub := hb.unborn u (by rw [hcmd]; rfl)
      refine ⟨hub.map, hub.gps, hub.threads, ?_, hub.ready⟩
      exact append_notes hub.hist nofun
    | putId | store | token | get | read | eraseId | eraseNick | delete | close => cases hu
  · intro a i c u cpc he usr hu
    obtain ⟨old, hold, hcore⟩ := hm.before (hb.gps u (by rw [show s.gps = _ from he]; rfl)).ne hu
    rw [← id_of_core hcore]
    exact hb.id a i c u cpc he old hold

private theorem other_step {s' : System n} (hb : Bounded s)
    (hmap : s'.hub.idUmap = s.hub.idUmap) (husers : s'.hub.users = s.hub.users)
    (hnext : s'.hub.nextUser = s.hub.nextUser) (hhist : s'.hist = s.hist)
    (hgps : s'.gps = s.gps ∨ s'.gps.user = none)
    (hthreads : ∀ j, (s'.threads j).pc = (s.threads j).pc)
    (hcmd : s'.cmd = s.cmd ∨ s'.cmd.unborn = none) : Bounded s' := by
  have hg {u : UserRef} (hu : s'.gps.user = some u) : s.gps.user = some u := by
    cases hgps with
    | inl he => rwa [he] at hu
    | inr he => cases he.symm.trans hu
  constructor
  · rw [hnext]
    exact fun u hu => hb.gps u (hg hu)
  · intro j u hu
    rw [hthreads] at hu
    rw [hnext]
    exact hb.threads j u hu
  · rw [hhist, hnext]
    exact hb.hist
  · intro u hu
    cases hcmd with
    | inl he =>
      rw [he] at hu
      have hub := hb.unborn u hu
      refine ⟨hmap ▸ hub.map, fun hu' => hub.gps (hg hu'), fun j => ?_, hhist ▸ hub.hist,
        husers ▸ hub.ready⟩
      rw [hthreads]
      exact hub.threads j
    | inr he => cases he.symm.trans hu
  · intro a i c u cpc he
    cases hgps with
    | inl hsame =>
      rw [husers]
      exact hb.id a i c u cpc (hsame ▸ he)
    | inr hnone =>
      rw [he] at hnone
      cases hnone

end Bounded

theorem received_user (theirAddr : SockAddr) (bytes : List UInt8) :
    (received theirAddr bytes).user = none := by
  simp only [received]
  split_ifs <;> rfl

theorem handled_plain (pkg : CmdPkg) (x : SessionRef) (session : Session) :
    (handled pkg x session).Plain := by
  cases hu : session.user <;> simp only [handled, hu] <;> split_ifs <;> exact ⟨rfl, rfl, rfl⟩

theorem closing_plain (x : SessionRef) (session : Session) : (closing x session).Plain := by
  cases hu : session.user <;> simp only [closing, hu] <;> exact ⟨rfl, rfl, rfl⟩

namespace System

variable {n : ℕ} {s s' : System n} {a : Action n}

theorem bounded_step (hs : s.step a = some s') (hw : Consistent s.hub s.cmd) (hb : Bounded s) :
    Bounded s' := by
  obtain ⟨-, hm⟩ := step_moved hs
  cases hm with
  | receive theirAddr bytes hi =>
    exact hb.other_step rfl rfl rfl rfl (Or.inr (received_user ..)) (fun _ => rfl) (Or.inl rfl)
  | timeout hi => exact hb.other_step rfl rfl rfl rfl (Or.inr rfl) (fun _ => rfl) (Or.inl rfl)
  | gps env pc hub notes hi he => exact hb.gps_step hw (gpsStep_moved hi he)
  | thread j env pc hub notes hbl he => exact hb.thread_step hw (threadStep_moved hbl he)
  | stop j =>
    exact hb.other_step rfl rfl rfl rfl (Or.inl rfl) (stop_pc s j) (Or.inl rfl)
  | wake | accept | writable | fault =>
    exact hb.other_step rfl rfl rfl rfl (Or.inl rfl) (fun _ => rfl) (Or.inl rfl)
  | command ses pkg session hi hses =>
    exact hb.other_step rfl rfl rfl rfl (Or.inl rfl) (fun _ => rfl) (Or.inr (handled_plain ..).2.1)
  | close ses session hi hses =>
    exact hb.other_step rfl rfl rfl rfl (Or.inl rfl) (fun _ => rfl) (Or.inr (closing_plain ..).2.1)
  | cmd env pc hub notes he => exact hb.cmd_step hw (cmdStep_moved he)

/-- What holds in every state of every run. -/
def Sound (s : System n) : Prop := Consistent s.hub s.cmd ∧ Bounded s

theorem sound_step (hs : s.step a = some s') (h : Sound s) : Sound s' :=
  ⟨consistent_step hs h.1, bounded_step hs h.1 h.2⟩

theorem sound_boot : Sound (System.boot n) := ⟨.boot, .boot⟩

end System

end Gpshub.Threads
