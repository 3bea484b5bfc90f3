import Gpshub.Threads.CmdHandlers
import Gpshub.Threads.Turns

/-! The threads one after the other: every run of the hub is such a run of the threads. -/
namespace Gpshub.Threads
open Lib Lib.Machine CommandServer CommandHandler GpsDataServer CoordsBroadcastThread

variable {n : ℕ}

/-- Every thread waits for an event or for the next id, and none has been stopped. -/
structure AtRest (s : System n) : Prop where
  gps : s.gps = .idle
  cmd : s.cmd = .idle
  fault : s.fault = none
  threads : ∀ j, s.threads j = ⟨true, .test⟩

/-- The GPS thread is at `g`, the others rest. -/
structure GpsAt (g : GpsPc × Hub) (s : System n) : Prop where
  gps : s.gps = g.1
  hub : s.hub = g.2
  cmd : s.cmd = .idle
  fault : s.fault = none
  threads : ∀ j, s.threads j = ⟨true, .test⟩

structure CmdAt (g : CmdPc × Hub) (s : System n) : Prop where
  cmd : s.cmd = g.1
  hub : s.hub = g.2
  gps : s.gps = .idle
  fault : s.fault = none
  threads : ∀ j, s.threads j = ⟨true, .test⟩

structure ThreadAt (j : Fin n) (g : ThreadPc × Hub) (s : System n) : Prop where
  thread : s.threads j = ⟨true, g.1⟩
  hub : s.hub = g.2
  gps : s.gps = .idle
  cmd : s.cmd = .idle
  fault : s.fault = none
  threads : ∀ k, k ≠ j → s.threads k = ⟨true, .test⟩

def Stopped (e : Abort) (s : System n) : Prop := s.fault = some e

section Hosted

variable {s s' : System n} {a : Action n}

theorem run_one (hs : System.step s a = some s') : run System.step s [a] = some s' :=
  run_cons.mpr ⟨s', hs, rfl⟩

/-- The system hosts a thread with the steps `stp`, which it takes with the actions `act` and where
`move` puts it at its new point. -/
theorem hosted {P : Type} (stp : Env → Hub → P → Except Abort (P × Hub × List Note))
    (act : Env → Action n) (move : P → System n → System n) {At : P × Hub → System n → Prop}
    (hhub : ∀ g s, At g s → s.hub = g.2)
    (hmove : ∀ g s pc hub hist, At g s → At (pc, hub) (move pc { s with hub, hist }))
    (hstep : ∀ g s, At g s → (∀ env, stp env g.2 g.1 = .ok (g.1, g.2, [])) ∨
      ∀ env, s.step (act env) = some (s.resume (stp env s.hub g.1) move)) :
    Hosts (fun env (g : P × Hub) => do let r ← stp env g.2 g.1; return (r.1, r.2.1))
      System.step At Stopped := by
  constructor
  · intro env g g' s hg hat
    obtain ⟨r, hr, hg'⟩ := bind_eq_ok.mp hg
    cases hg'
    rcases hstep g s hat with hstay | htake
    · have hsame : (g.1, g.2, []) = r := Except.ok.inj ((hstay env).symm.trans hr)
      rw [← hsame]
      exact ⟨[], s, rfl, hat⟩
    · have hs := htake env
      rw [hhub g s hat, hr] at hs
      exact ⟨_, _, run_one hs, hmove g s _ _ _ hat⟩
  · intro env g e s hg hat
    have hr : stp env g.2 g.1 = .error e := by
      cases hr : stp env g.2 g.1 with
      | ok r =>
        simp only [hr] at hg
        cases hg
      | error e' =>
        simp only [hr] at hg
        cases hg
        rfl
    rcases hstep g s hat with hstay | htake
    · have hcontra := (hstay env).symm.trans hr
      cases hcontra
    · have hs := htake env
      rw [hhub g s hat, hr] at hs
      exact ⟨_, _, run_one hs, rfl⟩

theorem gps_hosted : Hosts gpsMove System.step (GpsAt (n := n)) Stopped := by
  apply hosted gpsStep Action.gps System.setGps
  · intro g s hat
    exact hat.hub
  · intro g s pc hub hist hat
    exact ⟨rfl, rfl, hat.cmd, hat.fault, hat.threads⟩
  · intro g s hat
    by_cases hi : s.gps = .idle
    · left
      intro env
      rw [← hat.gps, hi]
      rfl
    · right
      intro env
      have hf : ¬s.fault ≠ none := not_not.mpr hat.fault
      rw [← hat.gps, System.step, if_neg hf]
      exact if_neg hi

theorem cmd_hosted : Hosts cmdMove System.step (CmdAt (n := n)) Stopped := by
  apply hosted cmdStep Action.cmd System.setCmd
  · intro g s hat
    exact hat.hub
  · intro g s pc hub hist hat
    exact ⟨rfl, rfl, hat.gps, hat.fault, hat.threads⟩
  · intro g s hat
    by_cases hi : s.cmd = .idle
    · left
      intro env
      rw [← hat.cmd, hi]
      rfl
    · right
      intro env
      have hf : ¬s.fault ≠ none := not_not.mpr hat.fault
      rw [← hat.cmd, System.step, if_neg hf]
      cases hc : s.cmd with
      | idle => exact absurd hc hi
      | _ => rfl

theorem threadStep_of_blocked {env : Env} {h : Hub} {pc : ThreadPc}
    (hb : Thread.blocked ⟨true, pc⟩ h = true) : threadStep env true h pc = .ok (pc, h, []) := by
  cases pc with
  | pull =>
    have hq : h.uqueue = [] := by simpa [Thread.blocked] using hb
    simp only [threadStep, hq]
  | exited => rfl
  | test | lookup | turn => simp [Thread.blocked] at hb

theorem thread_hosted (j : Fin n) : Hosts threadMove System.step (ThreadAt j) Stopped := by
  apply hosted (fun env => threadStep env true) (Action.thread j) (System.setThread j)
  · intro g s hat
    exact hat.hub
  · intro g s pc hub hist hat
    refine ⟨?_, rfl, hat.gps, hat.cmd, hat.fault, ?_⟩
    · simp only [System.setThread, Function.update_self, hat.thread]
    · intro k hk
      simp only [System.setThread, Function.update_of_ne hk]
      exact hat.threads k hk
  · intro g s hat
    by_cases hb : Thread.blocked ⟨true, g.1⟩ g.2 = true
    · left
      intro env
      exact threadStep_of_blocked hb
    · right
      intro env
      have hf : ¬s.fault ≠ none := not_not.mpr hat.fault
      rw [← hat.hub] at hb
      rw [System.step, if_neg hf, hat.thread]
      exact if_neg hb

end Hosted

/-- The event can happen: its session is open, an id is on the queue, and what is put there is the
id of `stop`. -/
def Takes (h : Hub) : Event → Prop
  | .command ses _ => h.sessions ses ≠ none
  | .writable ses => h.sessions ses ≠ none
  | .close ses => h.sessions ses ≠ none
  | .put id => id = 0
  | .pull => h.uqueue ≠ []
  | _ => True

/-- The threads can go on from `s` as the handler `x` does, alone. -/
structure Plays (s : System n) (x : Except Abort Hub) : Prop where
  ok : ∀ h, x = .ok h → ∃ as s', run System.step s as = some s' ∧ AtRest s' ∧ s'.hub = h
  error : ∀ e, x = .error e → Reported e → ∃ as s', run System.step s as = some s' ∧ Stopped e s'

section Events

variable {s s' : System n} {a : Action n} {x : Except Abort Hub} {h : Hub}

theorem Plays.first (hs : s.step a = some s') (h : Plays s' x) : Plays s x := by
  constructor
  · intro h' hx
    obtain ⟨as, t, has, ht⟩ := h.ok h' hx
    exact ⟨a :: as, t, run_cons.mpr ⟨s', hs, has⟩, ht⟩
  · intro e hx he
    obtain ⟨as, t, has, ht⟩ := h.error e hx he
    exact ⟨a :: as, t, run_cons.mpr ⟨s', hs, has⟩, ht⟩

theorem Plays.single (h : ∀ h', x = .ok h' → ∃ s', s.step a = some s' ∧ AtRest s' ∧ s'.hub = h')
    (he : ∀ e, x = .error e → ∃ s', s.step a = some s' ∧ Stopped e s') : Plays s x := by
  constructor
  · intro h' hx
    obtain ⟨s', hs, hs'⟩ := h h' hx
    exact ⟨[a], s', run_one hs, hs'⟩
  · intro e hx _
    obtain ⟨s', hs, hs'⟩ := he e hx
    exact ⟨[a], s', run_one hs, hs'⟩

theorem Plays.gps {pc : GpsPc} (hx : Computes gpsMove Reported (pc, h) x (fun h => (.idle, h)))
    (hat : GpsAt (pc, h) s) : Plays s x := by
  obtain ⟨hok, herror⟩ := gps_hosted.computes hx hat
  constructor
  · intro h' hx
    obtain ⟨as, s', has, hs'⟩ := hok h' hx
    exact ⟨as, s', has, ⟨hs'.gps, hs'.cmd, hs'.fault, hs'.threads⟩, hs'.hub⟩
  · exact herror

theorem Plays.cmd {pc : CmdPc} (hx : Computes cmdMove Reported (pc, h) x (fun h => (.idle, h)))
    (hat : CmdAt (pc, h) s) : Plays s x := by
  obtain ⟨hok, herror⟩ := cmd_hosted.computes hx hat
  constructor
  · intro h' hx
    obtain ⟨as, s', has, hs'⟩ := hok h' hx
    exact ⟨as, s', has, ⟨hs'.gps, hs'.cmd, hs'.fault, hs'.threads⟩, hs'.hub⟩
  · exact herror

theorem Plays.thread {j : Fin n} {pc : ThreadPc}
    (hx : Computes threadMove Reported (pc, h) x (fun h => (.test, h)))
    (hat : ThreadAt j (pc, h) s) : Plays s x := by
  obtain ⟨hok, herror⟩ := (thread_hosted j).computes hx hat
  constructor
  · intro h' hx
    obtain ⟨as, s', has, hs'⟩ := hok h' hx
    refine ⟨as, s', has, ⟨hs'.gps, hs'.cmd, hs'.fault, fun k => ?_⟩, hs'.hub⟩
    by_cases hk : k = j
    · rw [hk]
      exact hs'.thread
    · exact hs'.threads k hk
  · exact herror

theorem accept_alone (addr : SockAddr) (hs : AtRest s) :
    Plays s (.ok (incomingConnection addr s.hub)) := by
  have hf : ¬s.fault ≠ none := not_not.mpr hs.fault
  have hstep : s.step (.accept addr) = some { s with hub := incomingConnection addr s.hub } := by
    rw [System.step, if_neg hf, hs.cmd]
  apply Plays.single (a := .accept addr)
  · intro h' hx
    cases hx
    exact ⟨_, hstep, ⟨hs.gps, hs.cmd, hs.fault, hs.threads⟩, rfl⟩
  · intro e hx
    cases hx

theorem command_alone (env : Env) (ses : SessionRef) (pkg : CmdPkg) {session : Session}
    (hs : AtRest s) (hses : s.hub.sessions ses = some session) :
    Plays s (handle env pkg ses s.hub) := by
  have hf : ¬s.fault ≠ none := not_not.mpr hs.fault
  have hstep : s.step (.command ses pkg) = some (s.setCmd (handled pkg ses session)) := by
    rw [System.step, if_neg hf, hs.cmd, hses]
  have hat : CmdAt (handled pkg ses session, s.hub) (s.setCmd (handled pkg ses session)) :=
    ⟨rfl, rfl, hs.gps, hs.fault, hs.threads⟩
  apply Plays.first hstep
  exact .cmd (handle_alone pkg (Hub.session_eq_ok.mpr hses)) hat

theorem writable_alone (env : Env) (ses : SessionRef) {session : Session} (hs : AtRest s)
    (hses : s.hub.sessions ses = some session) : Plays s (sendQueued env ses s.hub) := by
  have hf : ¬s.fault ≠ none := not_not.mpr hs.fault
  have hstep : s.step (.writable ses env) = some (s.resume
      (do let h ← sendQueued env ses s.hub; return (.idle, h, [])) System.setCmd) := by
    rw [System.step, if_neg hf, hs.cmd, hses]
  apply Plays.single (a := .writable ses env)
  · intro h' hx
    rw [hx] at hstep
    exact ⟨_, hstep, ⟨hs.gps, rfl, hs.fault, hs.threads⟩, rfl⟩
  · intro e hx
    rw [hx] at hstep
    exact ⟨_, hstep, rfl⟩

theorem close_alone (ses : SessionRef) {session : Session} (hs : AtRest s)
    (hses : s.hub.sessions ses = some session) : Plays s (closeConnection ses s.hub) := by
  have hf : ¬s.fault ≠ none := not_not.mpr hs.fault
  have hstep : s.step (.close ses) = some (s.setCmd (closing ses session)) := by
    rw [System.step, if_neg hf, hs.cmd, hses]
  have hat : CmdAt (closing ses session, s.hub) (s.setCmd (closing ses session)) :=
    ⟨rfl, rfl, hs.gps, hs.fault, hs.threads⟩
  apply Plays.first hstep
  exact .cmd (closeConnection_alone (Hub.session_eq_ok.mpr hses)) hat

theorem datagram_alone (env : Env) (theirAddr : SockAddr) (bytes : List UInt8) (hs : AtRest s) :
    Plays s (incomingData env theirAddr bytes s.hub) := by
  have hf : ¬s.fault ≠ none := not_not.mpr hs.fault
  have hstep : s.step (.datagram theirAddr bytes) = some (s.setGps (received theirAddr bytes)) := by
    rw [System.step, if_neg hf]
    exact if_pos hs.gps
  have hat : GpsAt (received theirAddr bytes, s.hub) (s.setGps (received theirAddr bytes)) :=
    ⟨rfl, rfl, hs.cmd, hs.fault, hs.threads⟩
  apply Plays.first hstep
  exact .gps (incomingData_alone bytes) hat

theorem timeout_alone (env : Env) (hs : AtRest s) : Plays s (sendPendingCmd env s.hub) := by
  have hf : ¬s.fault ≠ none := not_not.mpr hs.fault
  have hstep : s.step .timeout = some (s.setGps .flush) := by
    rw [System.step, if_neg hf]
    exact if_pos hs.gps
  have hat : GpsAt (.flush, s.hub) (s.setGps .flush) :=
    ⟨rfl, rfl, hs.cmd, hs.fault, hs.threads⟩
  apply Plays.first hstep
  exact .gps sendPendingCmd_alone hat

theorem put_alone (hs : AtRest s) :
    Plays s (.ok { s.hub with uqueue := s.hub.uqueue ++ [0] }) := by
  have hf : ¬s.fault ≠ none := not_not.mpr hs.fault
  have hstep : s.step .wake =
      some { s with hub := { s.hub with uqueue := s.hub.uqueue ++ [0] } } := by
    rw [System.step, if_neg hf]
  apply Plays.single (a := .wake)
  · intro h' hx
    cases hx
    exact ⟨_, hstep, ⟨hs.gps, hs.cmd, hs.fault, hs.threads⟩, rfl⟩
  · intro e hx
    cases hx

theorem pull_alone (j : Fin n) (env : Env) {id : Int32} {rest : List Int32} (hs : AtRest s)
    (hq : s.hub.uqueue = id :: rest) : Plays s (turn env id { s.hub with uqueue := rest }) := by
  have hat : ThreadAt j (.test, s.hub) s :=
    ⟨hs.threads j, rfl, hs.gps, hs.cmd, hs.fault, fun k _ => hs.threads k⟩
  have hpull : threadMove env (.pull, s.hub) = .ok (.lookup id, { s.hub with uqueue := rest }) := by
    simp only [threadMove, threadStep, hq]
    rfl
  have hturn : Computes threadMove Reported (.test, s.hub)
      (turn env id { s.hub with uqueue := rest }) (fun h => (.test, h)) := by
    have htest : threadMove env (.test, s.hub) = .ok (.pull, s.hub) := rfl
    apply Computes.step env htest
    apply Computes.step env hpull
    exact turn_alone
  exact .thread hturn hat

theorem dispatch_alone (j : Fin n) (env : Env) (e : Event) (hs : AtRest s) (ht : Takes s.hub e) :
    Plays s (Hub.dispatch env s.hub e) := by
  cases e with
  | accept addr => exact accept_alone addr hs
  | command ses pkg =>
    obtain ⟨session, hses⟩ := Option.ne_none_iff_exists'.mp ht
    rw [Hub.dispatch, Hub.session_eq_ok.mpr hses]
    exact command_alone env ses pkg hs hses
  | writable ses =>
    obtain ⟨session, hses⟩ := Option.ne_none_iff_exists'.mp ht
    exact writable_alone env ses hs hses
  | close ses =>
    obtain ⟨session, hses⟩ := Option.ne_none_iff_exists'.mp ht
    exact close_alone ses hs hses
  | datagram theirAddr bytes => exact datagram_alone env theirAddr bytes hs
  | timeout => exact timeout_alone env hs
  | put id =>
    have hid : id = 0 := ht
    rw [hid]
    exact put_alone hs
  | pull =>
    obtain ⟨id, rest, hq⟩ := List.exists_cons_of_ne_nil ht
    rw [Hub.dispatch, hq]
    exact pull_alone j env hs hq

/-- An event that returns can happen, but for an id that nobody puts on the queue. -/
theorem takes_of_step {call : Event × Env} {h' : Hub} (hs : Hub.step h call = some h')
    (hput : ∀ id, call.1 = .put id → id = 0) : Takes h call.1 := by
  obtain ⟨e, env⟩ := call
  have he := Hub.step_eq_some.mp hs
  cases e with
  | accept | datagram | timeout => exact trivial
  | put id => exact hput id rfl
  | command ses pkg =>
    intro hnone
    obtain ⟨session, hses, -⟩ := bind_eq_ok.mp he
    cases (Hub.session_eq_ok.mp hses).symm.trans hnone
  | writable ses =>
    intro hnone
    obtain ⟨session, hses, -⟩ := bind_eq_ok.mp he
    cases (Hub.session_eq_ok.mp hses).symm.trans hnone
  | close ses =>
    intro hnone
    obtain ⟨session, hses, -⟩ := bind_eq_ok.mp he
    cases (Hub.session_eq_ok.mp hses).symm.trans hnone
  | pull =>
    intro hnil
    simp only [Hub.dispatch] at he
    rw [hnil] at he
    cases he

end Events

/-- The actions of each event take the system to rest again, and do what its handler does in one
step of the hub. -/
def Serves : System n → List (Event × Env) → List (List (Action n)) → System n → Prop
  | s, [], [], t => t = s
  | s, call :: calls, as :: rest, t =>
    ∃ m, run System.step s as = some m ∧ AtRest m ∧ s.hub.step call = some m.hub ∧
      Serves m calls rest t
  | _, _, _, _ => False

theorem Serves.run {parts : List (List (Action n))} : ∀ {s t : System n} {calls : List (Event × Env)},
    Serves s calls parts t → Lib.Machine.run System.step s parts.flatten = some t := by
  induction parts with
  | nil =>
    intro s t calls h
    cases calls with
    | nil => exact congrArg some h.symm
    | cons call calls => exact h.elim
  | cons as rest ih =>
    intro s t calls h
    cases calls with
    | nil => exact h.elim
    | cons call calls =>
      obtain ⟨m, has, -, -, hrest⟩ := h
      rw [List.flatten_cons]
      exact run_append.mpr ⟨m, has, ih hrest⟩

theorem serves_of_run (j : Fin n) {calls : List (Event × Env)} : ∀ {s : System n} {h : Hub},
    AtRest s → Lib.Machine.run Hub.step s.hub calls = some h →
      (∀ call ∈ calls, ∀ id, call.1 = .put id → id = 0) →
      ∃ parts t, Serves s calls parts t ∧ AtRest t ∧ t.hub = h := by
  induction calls with
  | nil =>
    intro s h hrest hr _
    exact ⟨[], s, rfl, hrest, Option.some.inj hr⟩
  | cons call calls ih =>
    intro s h hrest hr hput
    obtain ⟨h', hs, hr⟩ := run_cons.mp hr
    have htakes := takes_of_step hs (hput call List.mem_cons_self)
    obtain ⟨as, m, has, hm, rfl⟩ :=
      (dispatch_alone j call.2 call.1 hrest htakes).ok h' (Hub.step_eq_some.mp hs)
    obtain ⟨parts, t, hparts, ht, hh⟩ := ih hm hr fun c hc => hput c (List.mem_cons_of_mem _ hc)
    exact ⟨as :: parts, t, ⟨m, has, hm, hs, hparts⟩, ht, hh⟩

/-- Every run of the hub is a run of the threads in which each handler is run to its end by its
thread, in steps, before the next event: whatever the handlers do in one step of the hub, the
threads can do. Where the next handler fails, so does its thread. -/
theorem hub_runs_threads {n : ℕ} (j : Fin n) {calls : List (Event × Env)} {h : Hub}
    (hr : run Hub.step .boot calls = some h)
    (hput : ∀ call ∈ calls, ∀ id, call.1 = .put id → id = 0) :
    ∃ parts s, Serves (.boot n) calls parts s ∧ run System.step (.boot n) parts.flatten = some s ∧
      AtRest s ∧ s.hub = h ∧
      ∀ e env x, Takes h e → Hub.dispatch env h e = .error x → Reported x →
        ∃ bs s', run System.step s bs = some s' ∧ Stopped x s' := by
  have hboot : AtRest (System.boot n) := ⟨rfl, rfl, rfl, fun _ => rfl⟩
  obtain ⟨parts, s, hparts, hrest, rfl⟩ := serves_of_run j hboot hr hput
  refine ⟨parts, s, hparts, hparts.run, hrest, rfl, ?_⟩
  intro e env x ht hx hrep
  exact (dispatch_alone j env e hrest ht).error x hx hrep

/-- A peer registers, sets its address, sends a position that is broadcast, and hangs up. -/
def visit : List (Event × Env) :=
  [(.accept default, default), (.command 0 (.registerNick [97]), default),
    (.datagram default (intBytes 1 ++ intBytes 0), default),
    (.datagram default (intBytes 1 ++ intBytes 5 ++ intBytes 6), default), (.pull, default),
    (.close 0, default)]

theorem hub_runs_threads_visit : ∃ h, run Hub.step .boot visit = some h ∧
    ∃ parts s, Serves (.boot 1) visit parts s ∧
      run System.step (.boot 1) parts.flatten = some s ∧ AtRest s ∧ s.hub = h ∧
      ∀ e env x, Takes h e → Hub.dispatch env h e = .error x → Reported x →
        ∃ bs s', run System.step s bs = some s' ∧ Stopped x s' := by
  have hput : ∀ call ∈ visit, ∀ id, call.1 = .put id → id = 0 := by
    intro call hcall id hid
    simp only [visit, List.mem_cons, List.not_mem_nil, or_false] at hcall
    rcases hcall with rfl | rfl | rfl | rfl | rfl | rfl <;> cases hid
  exact ⟨_, rfl, hub_runs_threads 0 rfl hput⟩

end Gpshub.Threads
