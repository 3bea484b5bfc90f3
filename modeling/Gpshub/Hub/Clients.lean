import Gpshub.Hub.Acts
import Gpshub.Hub.Maps

/-! What the handlers of one session leave alone: everything of the other clients. -/
namespace Gpshub
open CommandServer CommandHandler Lib.Machine

/-- The session that the command server handles the event for. -/
def Event.client : Event → Option SessionRef
  | .command s _ => some s
  | .writable s => some s
  | .close s => some s
  | _ => none

/-- Sessions other than `s`, their users, queues and acknowledgements are the same in `h`
and `h'`. -/
structure Others (s : SessionRef) (h h' : Hub) : Prop where
  sessions : ∀ {k}, k ≠ s → h'.sessions k = h.sessions k
  sockets : ∀ {k}, k ≠ s → h'.sockets k = h.sockets k
  sendQueue : ∀ {k}, k ≠ s → h'.sendQueue k = h.sendQueue k
  users : ∀ {u usr}, usr.sock ≠ some s → (h'.users u = some usr ↔ h.users u = some usr)
  entries : ∀ {u usr}, h.users u = some usr → usr.sock ≠ some s → SameEntries u h h'
  pending : h'.pendingCmdQueue = h.pendingCmdQueue
  uqueue : h'.uqueue = h.uqueue

/-- The session `s` owns its socket, and the user it is logged in as has that socket. -/
structure Owns (s : SessionRef) (h : Hub) : Prop where
  sock : ∀ {session}, h.sessions s = some session → session.sock = s
  user : ∀ {session u usr}, h.sessions s = some session → session.user = some u →
    h.users u = some usr → usr.sock = some s
  fresh : ∀ {u usr}, h.users u = some usr → u < h.nextUser

namespace Others

variable {s : SessionRef} {h h' : Hub}

theorem refl (s : SessionRef) (h : Hub) : Others s h h :=
  ⟨fun _ => rfl, fun _ => rfl, fun _ => rfl, fun _ => Iff.rfl,
    fun _ _ => ⟨fun _ => Iff.rfl, fun _ => Iff.rfl⟩, rfl, rfl⟩

theorem trans {a b c : Hub} (hab : Others s a b) (hbc : Others s b c) : Others s a c where
  sessions hk := (hbc.sessions hk).trans (hab.sessions hk)
  sockets hk := (hbc.sockets hk).trans (hab.sockets hk)
  sendQueue hk := (hbc.sendQueue hk).trans (hab.sendQueue hk)
  users hsock := (hbc.users hsock).trans (hab.users hsock)
  entries hu hsock := by
    have hb := hbc.entries ((hab.users hsock).mpr hu) hsock
    have ha := hab.entries hu hsock
    exact ⟨fun i => (hb.1 i).trans (ha.1 i), fun k => (hb.2 k).trans (ha.2 k)⟩
  pending := hbc.pending.trans hab.pending
  uqueue := hbc.uqueue.trans hab.uqueue

theorem sent (s : SessionRef) (h : Hub) (q : List CmdPkg) (o : List Output) :
    Others s h { h with sendQueue := Function.update h.sendQueue s q, out := o } := by
  constructor
  case sendQueue => exact fun hk => Function.update_of_ne hk ..
  case entries => exact fun _ _ => ⟨fun _ => Iff.rfl, fun _ => Iff.rfl⟩
  case users => exact fun _ => Iff.rfl
  all_goals first | rfl | exact fun _ => rfl

theorem setUser {u : UserRef} {usr usr' : User} (husr : h.users u = some usr)
    (hsock : usr.sock = some s) (hsock' : usr'.sock = some s) :
    Others s h (h.setUser u usr') := by
  constructor
  case users =>
    intro v vsr hv
    change Function.update h.users u (some usr') v = some vsr ↔ _
    by_cases hvu : v = u
    · subst hvu
      rw [Function.update_self, husr]
      constructor
      · intro he
        cases he
        exact absurd hsock' hv
      · intro he
        cases he
        exact absurd hsock hv
    · rw [Function.update_of_ne hvu]
  case entries => exact fun _ _ => ⟨fun _ => Iff.rfl, fun _ => Iff.rfl⟩
  all_goals first | rfl | exact fun _ => rfl

end Others

namespace Owns

variable {s : SessionRef} {h : Hub}

theorem of_wellFormed (hwf : WellFormed h) (s : SessionRef) : Owns s h where
  sock hs := (hwf.session hs).1
  user hs hu husr := by
    obtain ⟨usr, husr', hsock, -⟩ := hwf.login hs hu
    cases husr.symm.trans husr'
    exact hsock
  fresh hu := (hwf.user hu).1

theorem setUser (ho : Owns s h) {u : UserRef} {usr usr' : User} (husr : h.users u = some usr)
    (hsock' : usr'.sock = some s) : Owns s (h.setUser u usr') where
  sock := ho.sock
  user := by
    intro session v vsr hs hv hvsr
    change Function.update h.users u (some usr') v = some vsr at hvsr
    rcases Lib.of_update_some hvsr with ⟨rfl, rfl⟩ | ⟨-, hvsr⟩
    · exact hsock'
    · exact ho.user hs hv hvsr
  fresh := by
    intro v vsr hvsr
    change Function.update h.users u (some usr') v = some vsr at hvsr
    by_cases hvu : v = u
    · subst hvu
      exact ho.fresh husr
    · rw [Function.update_of_ne hvu] at hvsr
      exact ho.fresh hvsr

theorem logIn (ho : Owns s h) (env : Env) (nick : Nick) (id : UInt32) {session : Session}
    (hs : h.sessions s = some session) :
    Owns s (CommandHandler.logIn env nick id s session h) where
  sock := by
    intro x hx
    have hsock : session.sock = s := ho.sock hs
    change Function.update h.sessions s _ s = some x at hx
    rw [Function.update_self] at hx
    cases hx
    exact hsock
  user := by
    intro x u usr hx hu husr
    change Function.update h.sessions s _ s = some x at hx
    rw [Function.update_self] at hx
    cases hx
    cases hu
    change Function.update h.users h.nextUser _ h.nextUser = some usr at husr
    rw [Function.update_self] at husr
    cases husr
    exact congrArg some (ho.sock hs)
  fresh := by
    intro u usr husr
    change Function.update h.users h.nextUser _ u = some usr at husr
    by_cases hu : u = h.nextUser
    · exact hu ▸ Nat.lt_succ_self _
    · rw [Function.update_of_ne hu] at husr
      exact Nat.lt_succ_of_lt (ho.fresh husr)

end Owns

section Steps

variable {s : SessionRef} {h h' : Hub}

private theorem logIn_others (ho : Owns s h) (env : Env) {nick : Nick} {id : UInt32}
    {session : Session} (hs : h.sessions s = some session) (hnick : h.nickUmap.map nick = none)
    (hid : h.idUmap.map id.toInt32 = none) :
    Others s h (logIn env nick id s session h) := by
  constructor
  case sessions => exact fun hk => Function.update_of_ne hk ..
  case users =>
    intro u usr hsock
    change Function.update h.users h.nextUser _ u = some usr ↔ _
    by_cases hu : u = h.nextUser
    · subst hu
      rw [Function.update_self]
      constructor
      · intro he
        cases he
        exact absurd (congrArg some (ho.sock hs)) hsock
      · exact fun he => absurd (ho.fresh he) (lt_irrefl _)
    · rw [Function.update_of_ne hu]
  case entries =>
    intro u usr husr _
    have hne : some (some h.nextUser) ≠ some (some u) := by
      intro he
      cases he
      exact absurd (ho.fresh husr) (lt_irrefl _)
    constructor
    · intro i
      change Function.update h.idUmap.map id.toInt32 _ i = _ ↔ _
      by_cases hi : i = id.toInt32
      · subst hi
        rw [Function.update_self, hid]
        exact iff_of_false hne nofun
      · rw [Function.update_of_ne hi]
    · intro k
      change Function.update h.nickUmap.map nick _ k = _ ↔ _
      by_cases hk : k = nick
      · subst hk
        rw [Function.update_self, hnick]
        exact iff_of_false hne nofun
      · rw [Function.update_of_ne hk]
  all_goals first | rfl | exact fun _ => rfl

theorem act_others (ho : Owns s h) (ha : Act s h h') : Others s h h' ∧ Owns s h' := by
  cases ha with
  | send pkg answer he =>
    obtain ⟨q, o, rfl⟩ := send_update he
    exact ⟨.sent s h q o, ho.sock, ho.user, ho.fresh⟩
  | buddies session u usr usr' hs hu husr hb =>
    have hsock := ho.user hs hu husr
    obtain ⟨b, rfl, -⟩ := hb
    exact ⟨.setUser husr hsock hsock, ho.setUser husr hsock⟩
  | current c => exact ⟨⟨fun _ => rfl, fun _ => rfl, fun _ => rfl, fun _ => Iff.rfl,
      fun _ _ => ⟨fun _ => Iff.rfl, fun _ => Iff.rfl⟩, rfl, rfl⟩, ho.sock, ho.user, ho.fresh⟩
  | logIn env nick id session hs hnick hne hid =>
    exact ⟨logIn_others ho env hs hnick hid, ho.logIn env nick id hs⟩
  | token session u usr token hs hu husr =>
    have hsock := ho.user hs hu husr
    exact ⟨.setUser husr hsock hsock, ho.setUser husr hsock⟩

theorem acts_others (ho : Owns s h) (ha : Acts s h h') : Others s h h' := by
  refine (effects_rule (R := fun h h' => Owns s h → Others s h h' ∧ Owns s h') ?_ ?_ ?_ ha ho).1
  · exact fun h ho => ⟨.refl s h, ho⟩
  · intro a b c hab hbc ho
    obtain ⟨hb, hob⟩ := hab ho
    obtain ⟨hc, hoc⟩ := hbc hob
    exact ⟨hb.trans hc, hoc⟩
  · exact fun ha ho => act_others ho ha

private theorem deleteSession_others (s : SessionRef) {session : Session} (hsock : session.sock = s)
    (h : Hub) : Others s h (deleteSession s session h) := by
  subst hsock
  constructor
  case sessions => exact fun hk => Function.update_of_ne hk ..
  case sockets => exact fun hk => Function.update_of_ne hk ..
  case sendQueue => exact fun hk => Function.update_of_ne hk ..
  case users => exact fun _ => Iff.rfl
  case entries => exact fun _ _ => ⟨fun _ => Iff.rfl, fun _ => Iff.rfl⟩
  all_goals rfl

/-- Whatever the command server does for a session, it touches nothing of the other clients. -/
theorem step_others (hwf : WellFormed h) {call : Event × Env} (hc : call.1.client = some s)
    (hs : h.step call = some h') : Others s h h' := by
  obtain ⟨ev, env⟩ := call
  have he := Hub.step_eq_some.mp hs
  cases ev with
  | command k pkg =>
    cases hc
    obtain ⟨session, -, he⟩ := bind_eq_ok.mp he
    exact acts_others (.of_wellFormed hwf s) (handle_acts he)
  | writable k =>
    cases hc
    obtain ⟨q, o, rfl⟩ := sendQueued_update he
    exact .sent s h q o
  | close k =>
    cases hc
    obtain ⟨session, hses, hcase⟩ := closeConnection_eq_ok he
    have hsock : session.sock = s := (hwf.session hses).1
    rcases hcase with ⟨-, rfl⟩ | ⟨u, usr, hu, husr, rfl⟩
    · exact deleteSession_others s hsock h
    · obtain ⟨usr', husr', hus, -⟩ := hwf.login hses hu
      cases husr.symm.trans husr'
      have hdel := deleteSession_others s hsock (loggedOut u usr h)
      constructor
      case sessions => exact hdel.sessions
      case sockets => exact hdel.sockets
      case sendQueue => exact hdel.sendQueue
      case users =>
        intro v vsr hv
        refine (hdel.users hv).trans ?_
        change Function.update h.users u none v = some vsr ↔ _
        by_cases hvu : v = u
        · subst hvu
          rw [Function.update_self, husr]
          refine iff_of_false nofun fun hsame => ?_
          cases hsame
          exact hv hus
        · rw [Function.update_of_ne hvu]
      case entries =>
        intro v vsr hvsr hv
        refine hwf.sameEntries hs ?_
        rintro ⟨session', hses', hlogin⟩
        cases hses.symm.trans hses'
        cases hu.symm.trans hlogin
        cases husr.symm.trans hvsr
        exact hv hus
      all_goals rfl
  | _ => cases hc

theorem run_others (hwf : WellFormed h) {calls : List (Event × Env)}
    (hc : ∀ call ∈ calls, call.1.client = some s) (hr : run Hub.step h calls = some h') :
    Others s h h' := by
  induction calls generalizing h with
  | nil =>
    cases hr
    exact .refl s _
  | cons call rest ih =>
    obtain ⟨h1, hs, hr⟩ := run_cons.mp hr
    have hfirst : Others s h h1 := step_others hwf (hc call List.mem_cons_self) hs
    have hrest : Others s h1 h' :=
      ih (hwf.step hs) (fun x hx => hc x (List.mem_cons_of_mem call hx)) hr
    exact hfirst.trans hrest

end Steps
end Gpshub
