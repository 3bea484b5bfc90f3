import Gpshub.Threads.Effects

/-! The invariant of the maps, the users and the sessions at every point of the command
thread, whatever the other threads do meanwhile. -/
namespace Gpshub.Threads
open CommandServer CommandHandler Lib.Machine

structure Consistent (h : Hub) (pc : CmdPc) : Prop where
  id : ∀ {i u}, h.idUmap.pointsTo i = some u → ∃ usr, h.users u = some usr ∧ usr.id = i
  nick : ∀ {k u}, h.nickUmap.pointsTo k = some u → ∃ usr, h.users u = some usr ∧ usr.nick = k
  user : ∀ {u usr}, h.users u = some usr → u < h.nextUser ∧ usr.id ≠ 0 ∧
    ∃ x, usr.sock = some x ∧ x < h.nextSession
  session : ∀ {x session}, h.sessions x = some session → session.sock = x ∧ x < h.nextSession
  /-- The user of a session is there, unless the session is being closed. -/
  login : ∀ {x session u}, h.sessions x = some session → session.user = some u →
    pc ≠ .closeEnd x → ∃ usr, h.users u = some usr ∧ usr.sock = some x
  locals : pc.Ok h

theorem Live.calm {h h' : Hub} {u : UserRef} (hl : Live h u) (hc : Calm h h') : Live h' u := by
  obtain ⟨usr, hu⟩ := hl
  obtain ⟨usr', hu', -⟩ := hc.after hu
  exact ⟨usr', hu'⟩

theorem AddPc.Ok.calm {h h' : Hub} {pc : AddPc} (hok : pc.Ok h) (hc : Calm h h') : pc.Ok h' := by
  cases pc with
  | get nick rest => exact hc.keys nick hok
  | buddy ptr nick rest => exact fun b hb => (hok b hb).calm hc
  | each | count | notify => trivial

theorem CmdPc.Ok.calm {h h' : Hub} {pc : CmdPc} (hok : pc.Ok h) (hc : Calm h h') : pc.Ok h' := by
  cases pc with
  | reg s nick id u rpc =>
    obtain ⟨usr, hu, hid, hnick, hsock⟩ := hok
    obtain ⟨usr', hu', ha⟩ := hc.after hu
    obtain ⟨h1, h2, h3, -⟩ := account_eq ha
    exact ⟨usr', hu', h1.trans hid, h2.trans hnick, h3.trans hsock⟩
  | add s u st apc => exact ⟨hok.1.calm hc, hok.2.calm hc⟩
  | rem u nicks => exact Live.calm hok hc
  | quitRead s u =>
    unfold CmdPc.Ok
    rw [hc.sessions]
    exact hok
  | quit s u id nick qpc =>
    obtain ⟨hs, ⟨usr, hu, hid, hnick⟩, hmap, hnmap⟩ := hok
    obtain ⟨usr', hu', ha⟩ := hc.after hu
    obtain ⟨h1, h2, -⟩ := account_eq ha
    refine ⟨hc.sessions ▸ hs, ⟨usr', hu', h1.trans hid, h2.trans hnick⟩, ?_, ?_⟩
    · rw [hc.id]
      exact hmap
    · rw [hc.nick]
      exact hnmap
  | regNew => exact hok
  | idle | regCount | regFail | regGen | closeEnd => trivial

namespace Consistent

variable {h h' : Hub} {pc pc' : CmdPc}

theorem boot : Consistent Hub.boot .idle where
  id hi := nomatch hi
  nick hk := nomatch hk
  user hu := nomatch hu
  session hs := nomatch hs
  login hs := nomatch hs
  locals := trivial

/-- A calm step moves the command thread at most to a point with as many promises kept. -/
theorem calm (hw : Consistent h pc) (hc : Calm h h') (hpc : ∀ x, pc = .closeEnd x → pc' = pc)
    (hok : pc.Ok h → pc'.Ok h) : Consistent h' pc' where
  id := by
    intro i u hi
    rw [hc.id] at hi
    obtain ⟨usr, hu, hid⟩ := hw.id hi
    obtain ⟨usr', hu', ha⟩ := hc.after hu
    exact ⟨usr', hu', (account_eq ha).1.trans hid⟩
  nick := by
    intro k u hk
    rw [hc.nick] at hk
    obtain ⟨usr, hu, hnick⟩ := hw.nick hk
    obtain ⟨usr', hu', ha⟩ := hc.after hu
    exact ⟨usr', hu', (account_eq ha).2.1.trans hnick⟩
  user := by
    intro u usr' hu'
    obtain ⟨usr, hu, ha⟩ := hc.before hu'
    rw [hc.nextUser, hc.nextSession, ← (account_eq ha).1, ← (account_eq ha).2.2.1]
    exact hw.user hu
  session := by
    rw [hc.sessions, hc.nextSession]
    exact hw.session
  login := by
    intro x session u hs hu hne
    rw [hc.sessions] at hs
    obtain ⟨usr, husr, hsock⟩ := hw.login hs hu fun he => hne ((hpc x he).trans he)
    obtain ⟨usr', husr', ha⟩ := hc.after husr
    exact ⟨usr', husr', (account_eq ha).2.2.1.trans hsock⟩
  locals := (hok hw.locals).calm hc

theorem nextUser_none (hw : Consistent h pc) : h.users h.nextUser = none := by
  cases hu : h.users h.nextUser with
  | none => rfl
  | some usr => exact absurd (hw.user hu).1 (lt_irrefl _)

theorem ne_nextUser (hw : Consistent h pc) {u : UserRef} {usr : User} (hu : h.users u = some usr) :
    u ≠ h.nextUser := (hw.user hu).1.ne

private theorem users_create (hw : Consistent h pc) {u : UserRef} {usr new : User}
    (hu : h.users u = some usr) : (h.setUser h.nextUser new).users u = some usr :=
  (Function.update_of_ne (hw.ne_nextUser hu) ..).trans hu

private theorem create (env : Env) {s : SessionRef} {nick : Nick} {i : UInt32} {session : Session}
    (hw : Consistent h (.regNew s nick i)) (hs : h.sessions s = some session) :
    Consistent { h.setUser h.nextUser (registerUser env nick i session) with
      nextUser := h.nextUser + 1 } (.reg s nick i h.nextUser .putNick) where
  id hi := by
    obtain ⟨usr, hu, hid⟩ := hw.id hi
    exact ⟨usr, hw.users_create hu, hid⟩
  nick hk := by
    obtain ⟨usr, hu, hnick⟩ := hw.nick hk
    exact ⟨usr, hw.users_create hu, hnick⟩
  user := by
    intro u usr hu
    change Function.update h.users h.nextUser _ u = some usr at hu
    rcases Lib.of_update_some hu with ⟨rfl, rfl⟩ | ⟨-, hu⟩
    · refine ⟨Nat.lt_succ_self _, fun h0 => hw.locals (congrArg Int32.toUInt32 h0), session.sock,
        rfl, ?_⟩
      rw [(hw.session hs).1]
      exact (hw.session hs).2
    · obtain ⟨hlt, hrest⟩ := hw.user hu
      exact ⟨Nat.lt_succ_of_lt hlt, hrest⟩
  session := hw.session
  login hx hu _ := by
    obtain ⟨usr, husr, hsock⟩ := hw.login hx hu nofun
    exact ⟨usr, hw.users_create husr, hsock⟩
  locals := ⟨_, Function.update_self .., rfl, rfl, congrArg some (hw.session hs).1⟩

private theorem putNick {s : SessionRef} {nick : Nick} {i : UInt32} {u : UserRef}
    (hw : Consistent h (.reg s nick i u .putNick)) :
    Consistent { h with nickUmap := h.nickUmap.put nick (some u) } (.reg s nick i u .putId) where
  id := hw.id
  nick := by
    intro k v hk
    change (h.nickUmap.put nick (some u)).pointsTo k = some v at hk
    rw [SyncHashMap.pointsTo_put] at hk
    rcases Lib.of_update_some hk with ⟨rfl, rfl⟩ | ⟨-, hk⟩
    · obtain ⟨usr, hu, -, hnick, -⟩ := hw.locals
      exact ⟨usr, hu, hnick⟩
    · exact hw.nick hk
  user := hw.user
  session := hw.session
  login hx hu _ := hw.login hx hu nofun
  locals := hw.locals

private theorem putId {s : SessionRef} {nick : Nick} {i : UInt32} {u : UserRef}
    (hw : Consistent h (.reg s nick i u .putId)) :
    Consistent { h with idUmap := h.idUmap.put i.toInt32 (some u) } (.reg s nick i u .store) where
  id := by
    intro k v hk
    change (h.idUmap.put i.toInt32 (some u)).pointsTo k = some v at hk
    rw [SyncHashMap.pointsTo_put] at hk
    rcases Lib.of_update_some hk with ⟨rfl, rfl⟩ | ⟨-, hk⟩
    · obtain ⟨usr, hu, hid, -⟩ := hw.locals
      exact ⟨usr, hu, hid⟩
    · exact hw.id hk
  nick := hw.nick
  user := hw.user
  session := hw.session
  login hx hu _ := hw.login hx hu nofun
  locals := hw.locals

private theorem store {s : SessionRef} {nick : Nick} {i : UInt32} {u : UserRef}
    {session : Session} (hw : Consistent h (.reg s nick i u .store))
    (hs : h.sessions s = some session) :
    Consistent (h.setSession s { session with user := some u }) (.reg s nick i u .ack) where
  id := hw.id
  nick := hw.nick
  user := hw.user
  session := by
    intro x ses hx
    change Function.update h.sessions s _ x = some ses at hx
    rcases Lib.of_update_some hx with ⟨rfl, rfl⟩ | ⟨-, hx⟩
    · exact ⟨(hw.session hs).1, (hw.session hs).2⟩
    · exact hw.session hx
  login := by
    intro x ses v hx hv _
    change Function.update h.sessions s _ x = some ses at hx
    rcases Lib.of_update_some hx with ⟨rfl, rfl⟩ | ⟨-, hx⟩
    · cases hv
      obtain ⟨usr, hu, -, -, hsock⟩ := hw.locals
      exact ⟨usr, hu, hsock⟩
    · exact hw.login hx hv nofun
  locals := hw.locals

private theorem token {s : SessionRef} {nick : Nick} {i : UInt32} {u : UserRef} {usr : User}
    {t : Int32} (hw : Consistent h (.reg s nick i u .token)) (hu : h.users u = some usr) :
    Consistent (h.setUser u (usr.setToken t)) (.reg s nick i u (.init t)) := by
  have hkeep {v : UserRef} {vsr : User} (hv : h.users v = some vsr) :
      ∃ vsr', (h.setUser u (usr.setToken t)).users v = some vsr' ∧ vsr'.ident = vsr.ident := by
    by_cases hvu : v = u
    · subst hvu
      cases hu.symm.trans hv
      exact ⟨_, Function.update_self .., rfl⟩
    · exact ⟨vsr, (Function.update_of_ne hvu ..).trans hv, rfl⟩
  constructor
  · intro k v hk
    obtain ⟨vsr, hv, hid⟩ := hw.id hk
    obtain ⟨vsr', hv', hi⟩ := hkeep hv
    exact ⟨vsr', hv', (congrArg (·.1) hi).trans hid⟩
  · intro k v hk
    obtain ⟨vsr, hv, hnick⟩ := hw.nick hk
    obtain ⟨vsr', hv', hi⟩ := hkeep hv
    exact ⟨vsr', hv', (congrArg (·.2.1) hi).trans hnick⟩
  · intro v vsr hv
    change Function.update h.users u _ v = some vsr at hv
    rcases Lib.of_update_some hv with ⟨rfl, rfl⟩ | ⟨-, hv⟩
    · have hold := hw.user hu
      exact hold
    · exact hw.user hv
  · exact hw.session
  · intro x session v hx hv _
    obtain ⟨vsr, hvsr, hsock⟩ := hw.login hx hv nofun
    obtain ⟨vsr', hv', hi⟩ := hkeep hvsr
    exact ⟨vsr', hv', (congrArg (·.2.2) hi).trans hsock⟩
  · obtain ⟨vsr, hv, hid, hnick, hsock⟩ := hw.locals
    obtain ⟨vsr', hv', hi⟩ := hkeep hv
    exact ⟨vsr', hv', (congrArg (·.1) hi).trans hid, (congrArg (·.2.1) hi).trans hnick,
      (congrArg (·.2.2) hi).trans hsock⟩

private theorem eraseId {s : SessionRef} {u : UserRef} {i : Int32} {nick : Nick}
    (hw : Consistent h (.quit s u i nick .eraseId)) :
    Consistent { h with idUmap := h.idUmap.erase i } (.quit s u i nick .eraseNick) where
  id := by
    intro k v hk
    change (h.idUmap.erase i).pointsTo k = some v at hk
    rw [SyncHashMap.pointsTo_erase] at hk
    obtain ⟨-, hk⟩ := Lib.of_update_none hk
    exact hw.id hk
  nick := hw.nick
  user := hw.user
  session := hw.session
  login hx hu _ := hw.login hx hu nofun
  locals := by
    obtain ⟨hs, hu, -, -⟩ := hw.locals
    refine ⟨hs, hu, fun _ => ?_, nofun⟩
    change (h.idUmap.erase i).pointsTo i ≠ some u
    rw [SyncHashMap.pointsTo_erase, Function.update_self]
    nofun

private theorem eraseNick {s : SessionRef} {u : UserRef} {i : Int32} {nick : Nick}
    (hw : Consistent h (.quit s u i nick .eraseNick)) :
    Consistent { h with nickUmap := h.nickUmap.erase nick } (.quit s u i nick .delete) where
  id := hw.id
  nick := by
    intro k v hk
    change (h.nickUmap.erase nick).pointsTo k = some v at hk
    rw [SyncHashMap.pointsTo_erase] at hk
    obtain ⟨-, hk⟩ := Lib.of_update_none hk
    exact hw.nick hk
  user := hw.user
  session := hw.session
  login hx hu _ := hw.login hx hu nofun
  locals := by
    obtain ⟨hs, hu, hid, -⟩ := hw.locals
    refine ⟨hs, hu, fun _ => hid nofun, fun _ => ?_⟩
    change (h.nickUmap.erase nick).pointsTo nick ≠ some u
    rw [SyncHashMap.pointsTo_erase, Function.update_self]
    nofun

/-- When the user is deleted no map points to it and no other session has it. -/
private theorem delete {s : SessionRef} {u : UserRef} {i : Int32} {nick : Nick}
    (hw : Consistent h (.quit s u i nick .delete)) :
    Consistent (h.deleteUser u) (.closeEnd s) := by
  obtain ⟨⟨session, hs, hsu⟩, ⟨usr, hu, hid, hnick⟩, hnoid, hnonick⟩ := hw.locals
  have hkeep {v : UserRef} {vsr : User} (hv : h.users v = some vsr) (hvu : v ≠ u) :
      (h.deleteUser u).users v = some vsr := (Function.update_of_ne hvu ..).trans hv
  constructor
  · intro k v hk
    obtain ⟨vsr, hv, hvid⟩ := hw.id hk
    refine ⟨vsr, hkeep hv ?_, hvid⟩
    rintro rfl
    cases hu.symm.trans hv
    rw [← hvid, hid] at hk
    exact hnoid nofun hk
  · intro k v hk
    obtain ⟨vsr, hv, hvnick⟩ := hw.nick hk
    refine ⟨vsr, hkeep hv ?_, hvnick⟩
    rintro rfl
    cases hu.symm.trans hv
    rw [← hvnick, hnick] at hk
    exact hnonick rfl hk
  · intro v vsr hv
    change Function.update h.users u none v = some vsr at hv
    obtain ⟨-, hv⟩ := Lib.of_update_none hv
    exact hw.user hv
  · exact hw.session
  · intro x ses v hx hv hne
    obtain ⟨vsr, hvsr, hsock⟩ := hw.login hx hv nofun
    refine ⟨vsr, hkeep hvsr ?_, hsock⟩
    rintro rfl
    obtain ⟨usr', hu', husock⟩ := hw.login hs hsu nofun
    cases hvsr.symm.trans hu'
    exact hne (congrArg CmdPc.closeEnd (Option.some.inj (husock.symm.trans hsock)))
  · trivial

private theorem close {s : SessionRef} {session : Session} (hw : Consistent h (.closeEnd s)) :
    Consistent (deleteSession s session h) .idle := by
  have hkeep {x : SessionRef} {ses : Session}
      (hx : (deleteSession s session h).sessions x = some ses) : x ≠ s ∧ h.sessions x = some ses := by
    change Function.update h.sessions s none x = some ses at hx
    obtain ⟨hxs, hx⟩ := Lib.of_update_none hx
    exact ⟨hxs, hx⟩
  constructor
  · exact hw.id
  · exact hw.nick
  · exact hw.user
  · intro x ses hx
    exact hw.session (hkeep hx).2
  · intro x ses u hx hu _
    obtain ⟨hne, hx'⟩ := hkeep hx
    refine hw.login hx' hu fun he => hne ?_
    cases he
    rfl
  · trivial

theorem cmd {env : Env} {notes : List Note} (hw : Consistent h pc)
    (hm : CmdMoved env h pc pc' h' notes) : Consistent h' pc' := by
  cases hm with
  | aside ha hpc hok hp => exact hw.calm ha.toCalm (fun x he => absurd he (hpc x)) hok
  | create hs => exact create env hw hs
  | putNick => exact putNick hw
  | putId => exact putId hw
  | store hs => exact store hw hs
  | token hu => exact token hw hu
  | get =>
    refine hw.calm (.lookUpNick h _) nofun fun hok => ⟨hok.1, fun b hb => ?_⟩
    rw [← SyncHashMap.pointsTo_of_get] at hb
    obtain ⟨usr, hu, -⟩ := hw.nick hb
    exact ⟨usr, hu⟩
  | read hu => exact hw.calm (.refl h) nofun fun hok => ⟨hok, ⟨_, hu, rfl, rfl⟩, nofun, nofun⟩
  | eraseId => exact eraseId hw
  | eraseNick => exact eraseNick hw
  | delete => exact delete hw
  | close hs => exact close hw

private theorem accept (hw : Consistent h .idle) (addr : SockAddr) :
    Consistent (incomingConnection addr h) .idle where
  id := hw.id
  nick := hw.nick
  user hu := by
    obtain ⟨hlt, hid, x, hsock, hx⟩ := hw.user hu
    exact ⟨hlt, hid, x, hsock, Nat.lt_succ_of_lt hx⟩
  session := by
    intro x session hs
    change Function.update h.sessions h.nextSession _ x = some session at hs
    rcases Lib.of_update_some hs with ⟨rfl, rfl⟩ | ⟨-, hs⟩
    · exact ⟨rfl, Nat.lt_succ_self _⟩
    · obtain ⟨hsock, hlt⟩ := hw.session hs
      exact ⟨hsock, Nat.lt_succ_of_lt hlt⟩
  login := by
    intro x session u hs hu hne
    change Function.update h.sessions h.nextSession _ x = some session at hs
    rcases Lib.of_update_some hs with ⟨rfl, rfl⟩ | ⟨-, hs⟩
    · cases hu
    · exact hw.login hs hu hne
  locals := trivial

private theorem handled_ok (hw : Consistent h .idle) {x : SessionRef} {session : Session}
    (hs : h.sessions x = some session) (pkg : CmdPkg) : (handled pkg x session).Ok h := by
  cases hu : session.user with
  | none =>
    simp only [handled, hu]
    split_ifs <;> trivial
  | some u =>
    have hl : Live h u := by
      obtain ⟨usr, husr, -⟩ := hw.login hs hu nofun
      exact ⟨usr, husr⟩
    simp only [handled, hu]
    split_ifs
    · trivial
    · exact ⟨hl, trivial⟩
    · exact hl
    · trivial

private theorem closing_ok {x : SessionRef} {session : Session}
    (hs : h.sessions x = some session) : (closing x session).Ok h := by
  unfold closing
  cases hu : session.user with
  | none => trivial
  | some u => exact ⟨session, hs, hu⟩

end Consistent

namespace System

variable {n : ℕ} {s s' : System n} {a : Action n}

theorem consistent_step (hs : s.step a = some s') (hw : Consistent s.hub s.cmd) :
    Consistent s'.hub s'.cmd := by
  obtain ⟨-, hm⟩ := step_moved hs
  cases hm with
  | receive | timeout | stop | fault => exact hw
  | gps env pc hub notes hi he =>
    exact hw.calm (gpsStep_moved hi he).calm (fun _ _ => rfl) fun hok => hok
  | thread j env pc hub notes hb he =>
    exact hw.calm (threadStep_moved hb he).calm (fun _ _ => rfl) fun hok => hok
  | wake =>
    exact hw.calm (.traffic s.hub ..) (fun _ _ => rfl) fun hok => hok
  | accept addr hi =>
    rw [hi] at hw
    exact hi ▸ Consistent.accept hw addr
  | command ses pkg session hi hses =>
    rw [hi] at hw
    exact hw.calm (.refl s.hub) nofun fun _ => hw.handled_ok hses pkg
  | writable ses env q o hi =>
    exact hw.calm (Aside.sent s.hub q o).toCalm (fun _ _ => rfl) fun hok => hok
  | close ses session hi hses =>
    rw [hi] at hw
    exact hw.calm (.refl s.hub) nofun fun _ => Consistent.closing_ok hses
  | cmd env pc hub notes he => exact hw.cmd (cmdStep_moved he)

end System

end Gpshub.Threads
