import Gpshub.Hub.Clients
import Gpshub.Hub.Exceptions
import Gpshub.Server.GpsLoop
import Gpshub.Socket.Epoll

/-! The two servers as `Epoll::loop` runs them, one callback at a time. -/
namespace Gpshub
open Lib.Machine CommandServer

/-- How a server ends, other than by `stop`. -/
inductive Fault
  /-- A callback does not return. -/
  | abort (a : Abort)
  | epollException
  /-- `Epoll::loop` reads an entry of `events` that `epoll_wait` has not written. -/
  | badEvent
  /-- `sendPendingCmd` finds a deleted `Socket` in its queue. -/
  | deletedSocket
  deriving DecidableEq, Repr

/-- What an event of the command server belongs to. -/
inductive Watched
  | listening
  | client (s : SessionRef)
  deriving DecidableEq

/-- An entry of `events`; `ended` stands for `EPOLLERR`, `EPOLLHUP` and `EPOLLRDHUP`. -/
structure EpollEvent where
  watched : Watched
  pollin : Bool
  pollout : Bool
  ended : Bool
  deriving DecidableEq

/-- A connection that is accepted, with the memory of its buffer and whether `epoll_ctl`
succeeds for it. -/
structure Peer where
  addr : SockAddr
  memory : List UInt8
  size : memory.length = CMDPKG_MAX * 2
  ctl : Bool

/-- What comes from outside while one event of the command server is handled: `env` for the
packages that wait, and one for each package that is handed to `handle`. -/
structure Answers where
  env : Env
  accepted : List Peer
  recvs : List RecvResult
  cmds : ℕ → Env
  ctl : Bool

structure Servers where
  hub : Hub
  bufs : SessionRef → CircularBuffer
  cmdBuf : List UInt8
  epl : Epoll EpollEvent
  /-- `n` in `Epoll::loop` of the command server. -/
  n : ℕ
  i : ℕ

def lift {α : Type} : Except Abort α → Except Fault α := Except.mapError Fault.abort

namespace Servers

/-- The command server listens, and nobody has connected; `cmdBuf` is what its buffer holds. -/
def boot (cmdBuf : List UInt8) : Servers where
  hub := .boot
  bufs := fun _ => .new 0 []
  cmdBuf := cmdBuf
  epl := (Epoll.addEvent true (Epoll.new Epoll.DEFAULT_EDELTA)).1
  n := 0
  i := 0

/-- A handler of the command server. -/
def serve (env : Env) (ev : Event) (c : Servers) : Except Fault Servers := do
  let hub ← lift (c.hub.dispatch env ev)
  return { c with hub }

/-- `incomingConnection` -/
def acceptAll : List Peer → Servers → Except Fault Servers
  | [], c => .ok c
  | p :: rest, c =>
    let s := c.hub.nextSession
    let (epl, added) := c.epl.addEvent p.ctl
    if added then
      acceptAll rest { c with
        hub := incomingConnection p.addr c.hub
        bufs := Function.update c.bufs s (Receiver.new p.memory c.cmdBuf).buf
        epl }
    else .error .epollException

/-- `closeConnection` -/
def close (s : SessionRef) (ctl : Bool) (c : Servers) : Except Fault Servers := do
  let c ← serve default (.close s) c
  let (epl, removed) := c.epl.removeEvent ctl
  if removed then return { c with epl } else throw .epollException

/-- `incomingData`, when `i` packages have been handed to `handle`: after the last answer `Recv`
answers `EAGAIN`; an answer that is an error ends the loop as well. -/
def incomingData (s : SessionRef) (ctl : Bool) (cmds : ℕ → Env) :
    List RecvResult → ℕ → Servers → Except Fault Servers
  | .data bytes :: rest, i, c =>
    if bytes = [] then close s ctl c
    else do
      let (r, cmd) ← lift (receive bytes { buf := c.bufs s, cmdBuf := c.cmdBuf })
      let c := { c with bufs := Function.update c.bufs s r.buf, cmdBuf := r.cmdBuf }
      match cmd with
      | some cmd => do
        let c ← serve (cmds i) (.command s cmd) c
        incomingData s ctl cmds rest (i + 1) c
      | none => incomingData s ctl cmds rest i c
  | _, _, c => .ok c

def clientSocketClbk (s : SessionRef) (ev : EpollEvent) (a : Answers) (c : Servers) :
    Except Fault Servers := do
  let c ← (if ev.pollout then serve a.env (.writable s) c else .ok c)
  if ev.pollin then incomingData s a.ctl a.cmds a.recvs 0 c else .ok c

/-- The body of the loop over the events. The listening socket has no session that
`closeConnectionClbk` could close; a client's event points to its session. -/
def callback (ev : EpollEvent) (a : Answers) (c : Servers) : Except Fault Servers :=
  match ev.watched with
  | .listening => if ev.ended then .error (.abort .badSession) else acceptAll a.accepted c
  | .client s => do
    let _ ← lift (c.hub.session s)
    if ev.ended then close s a.ctl c else clientSocketClbk s ev a c

/-- A callback of the GPS data server: `sendPendingCmd` sends for every socket in the queue. -/
def gps (call : Event × Env) (c : Servers) : Except Fault Servers :=
  if c.hub.pendingCmdQueue.any fun pcmd => (c.hub.sockets pcmd.sock).deleted then
    .error .deletedSocket
  else serve call.2 call.1 c

/-- The next event of the batch. -/
def next (a : Answers) (c : Servers) : Except Fault Servers :=
  match c.epl.events[c.i]? with
  | some ev => callback ev a { c with i := c.i + 1 }
  | none => .error .badEvent

/-- The event belongs to a socket that is registered. -/
def registered (c : Servers) (ev : EpollEvent) : Bool :=
  match ev.watched with
  | .listening => true
  | .client s => (c.hub.sessions s).isSome

inductive Action
  /-- `epoll_wait` of the command server returns. -/
  | wait (evs : List EpollEvent)
  /-- The command server handles the next event. -/
  | handle (a : Answers)
  /-- A callback of the GPS data server. -/
  | gps (call : Event × Env)
  /-- A step of a broadcast thread, or another `put` on its queue. -/
  | other (call : Event × Env)

def step : Except Fault Servers → Action → Option (Except Fault Servers)
  | .ok c, .wait evs =>
    if c.i = c.n ∧ evs.length ≤ c.epl.eventsSize ∧ (evs.map EpollEvent.watched).Nodup ∧
        evs.all c.registered = true then
      some (.ok { c with epl := c.epl.wait evs, n := evs.length, i := 0 })
    else none
  | .ok c, .handle a => if c.i < c.n then some (c.next a) else none
  | .ok c, .gps call =>
    if GpsDataServer.ofLoop call.1 then some (c.gps call) else none
  | .ok c, .other call =>
    match call.1 with
    | .put _ => (c.hub.step call).map fun hub => .ok { c with hub }
    | .pull => (c.hub.step call).map fun hub => .ok { c with hub }
    | _ => none
  | .error _, _ => none

section Hub

variable {c c' : Servers} {s : SessionRef}

theorem lift_eq_ok {α : Type} {x : Except Abort α} {a : α} : lift x = .ok a ↔ x = .ok a := by
  cases x <;> simp [lift, Except.mapError]

theorem serve_eq_ok {env : Env} {ev : Event} : serve env ev c = .ok c' ↔
    ∃ hub, c.hub.step (ev, env) = some hub ∧ c' = { c with hub } := by
  unfold serve
  simp only [bind_eq_ok, lift_eq_ok, Hub.step_eq_some]
  refine exists_congr fun hub => and_congr_right fun _ => ⟨fun h => ?_, fun h => h ▸ rfl⟩
  cases h
  rfl

/-- The commands of the session with what each gets from outside, from the `i`-th one on. -/
def commands (s : SessionRef) (cmds : ℕ → Env) : List CmdPkg → ℕ → List (Event × Env)
  | [], _ => []
  | cmd :: rest, i => (.command s cmd, cmds i) :: commands s cmds rest (i + 1)

def closing (s : SessionRef) (closed : Bool) : List (Event × Env) :=
  if closed then [(.close s, default)] else []

/-- What a callback for the session has changed outside the hub, when `r` is what it leaves of
the bytes received. -/
structure Served (s : SessionRef) (ctl : Bool) (r : Receiver) (closed : Bool) (c c' : Servers) :
    Prop where
  bufs : c'.bufs = Function.update c.bufs s r.buf
  cmdBuf : c'.cmdBuf = r.cmdBuf
  epl : (if closed then c.epl.removeEvent ctl else (c.epl, true)) = (c'.epl, true)
  n : c'.n = c.n
  i : c'.i = c.i

theorem served_refl (s : SessionRef) (ctl : Bool) (c : Servers) :
    Served s ctl ⟨c.bufs s, c.cmdBuf⟩ false c c :=
  ⟨(Function.update_eq_self ..).symm, rfl, rfl, rfl, rfl⟩

theorem close_served {ctl : Bool} (hc : close s ctl c = .ok c') :
    run Hub.step c.hub (closing s true) = some c'.hub ∧
      Served s ctl ⟨c.bufs s, c.cmdBuf⟩ true c c' := by
  obtain ⟨c1, hserve, hc⟩ := bind_eq_ok.mp hc
  obtain ⟨hub, hs, rfl⟩ := serve_eq_ok.mp hserve
  dsimp only at hc
  split at hc
  · rename_i hremoved
    cases hc
    exact ⟨run_cons.mpr ⟨hub, hs, rfl⟩, (Function.update_eq_self ..).symm, rfl,
      Prod.ext rfl hremoved, rfl, rfl⟩
  · cases hc

/-- `incomingData` hands the packages to `handle` that the bytes of the session are taken
apart into, and closes the session at the end of the file. -/
theorem incomingData_served {ctl : Bool} {cmds : ℕ → Env} (recvs : List RecvResult) :
    ∀ {i : ℕ} {c : Servers}, incomingData s ctl cmds recvs i c = .ok c' →
      ∃ r pkgs closed, CommandServer.incomingData recvs ⟨c.bufs s, c.cmdBuf⟩ =
          .ok (r, pkgs, closed) ∧
        run Hub.step c.hub (commands s cmds pkgs i ++ closing s closed) = some c'.hub ∧
        Served s ctl r closed c c' := by
  induction recvs with
  | nil =>
    intro i c hc
    cases hc
    exact ⟨_, [], false, rfl, rfl, served_refl s ctl _⟩
  | cons answer rest ih =>
    intro i c hc
    cases answer with
    | again | error =>
      cases hc
      exact ⟨_, [], false, rfl, rfl, served_refl s ctl _⟩
    | data bytes =>
      rw [incomingData] at hc
      rw [CommandServer.incomingData]
      by_cases hb : bytes = []
      · rw [if_pos hb] at hc ⊢
        obtain ⟨hrun, hserved⟩ := close_served hc
        exact ⟨_, [], true, rfl, hrun, hserved⟩
      · rw [if_neg hb] at hc ⊢
        obtain ⟨⟨r, cmd⟩, hr, hc⟩ := bind_eq_ok.mp hc
        rw [lift_eq_ok] at hr
        rw [hr]
        have hself : Function.update c.bufs s r.buf s = r.buf := Function.update_self ..
        -- what the rest of the loop does is seen from the state after this round
        have hlater {hub : Hub} {r' : Receiver} {closed : Bool}
            (h : Served s ctl r' closed { c with
              hub, bufs := Function.update c.bufs s r.buf, cmdBuf := r.cmdBuf } c') :
            Served s ctl r' closed c c' :=
          ⟨h.bufs.trans (Function.update_idem ..), h.cmdBuf, h.epl, h.n, h.i⟩
        cases cmd with
        | none =>
          obtain ⟨r', pkgs, closed, hrest, hrun, hserved⟩ := ih hc
          simp only [hself] at hrest
          refine ⟨r', pkgs, closed, ?_, hrun, hlater hserved⟩
          simp only [bind, Except.bind, hrest]
          rfl
        | some cmd =>
          obtain ⟨c1, hserve, hc⟩ := bind_eq_ok.mp hc
          obtain ⟨hub, hs, rfl⟩ := serve_eq_ok.mp hserve
          obtain ⟨r', pkgs, closed, hrest, hrun, hserved⟩ := ih hc
          simp only [hself] at hrest
          refine ⟨r', cmd :: pkgs, closed, ?_, run_cons.mpr ⟨hub, hs, hrun⟩, hlater hserved⟩
          simp only [bind, Except.bind, hrest]
          rfl

/-- What a callback for a session makes of the bytes it receives: what it leaves of them, the
packages for `handle`, and whether it closes the session. -/
def received (ev : EpollEvent) (a : Answers) (r : Receiver) :
    Except Abort (Receiver × List CmdPkg × Bool) :=
  if ev.ended then .ok (r, [], true)
  else if ev.pollin then CommandServer.incomingData a.recvs r
  else .ok (r, [], false)

/-- The handlers that a callback for the session runs. -/
def calls (s : SessionRef) (ev : EpollEvent) (a : Answers) (pkgs : List CmdPkg) (closed : Bool) :
    List (Event × Env) :=
  (if ev.pollout = true ∧ ev.ended = false then [(.writable s, a.env)] else []) ++
    (commands s a.cmds pkgs 0 ++ closing s closed)

theorem client_served {ev : EpollEvent} {a : Answers} (hs : ev.watched = .client s)
    (hc : callback ev a c = .ok c') :
    ∃ r pkgs closed, received ev a ⟨c.bufs s, c.cmdBuf⟩ = .ok (r, pkgs, closed) ∧
      run Hub.step c.hub (calls s ev a pkgs closed) = some c'.hub ∧
      Served s a.ctl r closed c c' := by
  unfold callback at hc
  unfold received calls
  rw [hs] at hc
  obtain ⟨-, -, hc⟩ := bind_eq_ok.mp hc
  by_cases hended : ev.ended = true
  · rw [if_pos hended] at hc ⊢
    obtain ⟨hrun, hserved⟩ := close_served hc
    refine ⟨_, [], true, rfl, ?_, hserved⟩
    rw [if_neg (by simp [hended])]
    exact hrun
  · rw [if_neg hended] at hc ⊢
    unfold clientSocketClbk at hc
    obtain ⟨c1, h1, hc⟩ := bind_eq_ok.mp hc
    obtain ⟨hub, hout, rfl⟩ : ∃ hub, run Hub.step c.hub
        (if ev.pollout = true ∧ ev.ended = false then [(.writable s, a.env)] else []) = some hub ∧
        c1 = { c with hub } := by
      by_cases hpollout : ev.pollout = true
      · rw [if_pos hpollout] at h1
        obtain ⟨hub, hstep, rfl⟩ := serve_eq_ok.mp h1
        rw [if_pos ⟨hpollout, Bool.eq_false_of_not_eq_true hended⟩]
        exact ⟨hub, run_cons.mpr ⟨hub, hstep, rfl⟩, rfl⟩
      · rw [if_neg hpollout] at h1
        cases h1
        rw [if_neg fun h => hpollout h.1]
        exact ⟨c.hub, rfl, rfl⟩
    by_cases hpollin : ev.pollin = true
    · rw [if_pos hpollin] at hc ⊢
      obtain ⟨r, pkgs, closed, hr, hrun, hserved⟩ := incomingData_served _ hc
      exact ⟨r, pkgs, closed, hr, run_append.mpr ⟨hub, hout, hrun⟩,
        hserved.bufs, hserved.cmdBuf, hserved.epl, hserved.n, hserved.i⟩
    · rw [if_neg hpollin] at hc ⊢
      cases hc
      exact ⟨_, [], false, rfl, run_append.mpr ⟨hub, hout, rfl⟩,
        (Function.update_eq_self ..).symm, rfl, rfl, rfl, rfl⟩

theorem client_session {ev : EpollEvent} {a : Answers} (hs : ev.watched = .client s)
    (hc : callback ev a c = .ok c') : (c.hub.sessions s).isSome := by
  unfold callback at hc
  rw [hs] at hc
  obtain ⟨session, hsession, -⟩ := bind_eq_ok.mp hc
  rw [Hub.session_eq_ok.mp (lift_eq_ok.mp hsession)]
  rfl

theorem commands_client {cmds : ℕ → Env} (pkgs : List CmdPkg) :
    ∀ {i : ℕ}, ∀ call ∈ commands s cmds pkgs i, call.1.client = some s := by
  induction pkgs with
  | nil => exact fun _ => nofun
  | cons cmd rest ih =>
    intro i call hcall
    rcases List.mem_cons.mp hcall with rfl | hcall
    · rfl
    · exact ih call hcall

theorem calls_client {ev : EpollEvent} {a : Answers} {pkgs : List CmdPkg} {closed : Bool} :
    ∀ call ∈ calls s ev a pkgs closed, call.1.client = some s := by
  intro call hcall
  unfold calls closing at hcall
  rcases List.mem_append.mp hcall with hcall | hcall
  · split at hcall
    · rw [List.mem_singleton.mp hcall]
      rfl
    · cases hcall
  · rcases List.mem_append.mp hcall with hcall | hcall
    · exact commands_client pkgs call hcall
    · split at hcall
      · rw [List.mem_singleton.mp hcall]
        rfl
      · cases hcall

theorem gps_eq_ok {call : Event × Env} (hc : gps call c = .ok c') :
    ∃ hub, c.hub.step call = some hub ∧ c' = { c with hub } := by
  unfold gps at hc
  split at hc
  · cases hc
  · exact serve_eq_ok.mp hc

theorem other_eq_some {call : Event × Env} {r : Except Fault Servers}
    (hs : step (.ok c) (.other call) = some r) :
    ∃ hub, c.hub.step call = some hub ∧ r = .ok { c with hub } := by
  obtain ⟨ev, env⟩ := call
  cases ev with
  | put id =>
    change (c.hub.step (.put id, env)).map (fun hub => .ok { c with hub }) = some r at hs
    obtain ⟨hub, hh, hr⟩ := Option.map_eq_some_iff.mp hs
    exact ⟨hub, hh, hr.symm⟩
  | pull =>
    change (c.hub.step (.pull, env)).map (fun hub => .ok { c with hub }) = some r at hs
    obtain ⟨hub, hh, hr⟩ := Option.map_eq_some_iff.mp hs
    exact ⟨hub, hh, hr.symm⟩
  | _ => cases hs

end Hub

/-- A callback is not ended by a `SocketException`, by an entry of `events` that was never
written or by a deleted `Socket`. -/
structure Unharmed {α : Type} (r : Except Fault α) : Prop where
  exception : r ≠ .error (.abort .socketException)
  event : r ≠ .error .badEvent
  socket : r ≠ .error .deletedSocket

/-- No `send` of the callback fails in another way than with `EWOULDBLOCK`. -/
def Action.Sends : Action → Prop
  | .handle a => a.env.Sends ∧ ∀ i, (a.cmds i).Sends
  | .gps call => call.2.Sends
  | _ => True

/-- `events` still holds the event to be handled: since `epoll_wait` has returned, `addEvent`
and `removeEvent` have not replaced the array. No acknowledgement waits for a socket that has
been deleted. -/
def Kept : Except Fault Servers → Action → Prop
  | .ok c, .handle _ => c.i < c.epl.events.length
  | .ok c, .gps _ => ∀ pcmd ∈ c.hub.pendingCmdQueue, (c.hub.sockets pcmd.sock).deleted = false
  | _, _ => True

instance (r : Except Fault Servers) (a : Action) : Decidable (Kept r a) := by
  unfold Kept
  split <;> infer_instance

namespace Unharmed

variable {α β : Type}

theorem ok (a : α) : Unharmed (.ok a : Except Fault α) := ⟨nofun, nofun, nofun⟩

theorem lift {x : Except Abort α} (hx : NoSocketException x) : Unharmed (lift x) := by
  cases x with
  | ok a => exact ok a
  | error e =>
    refine ⟨fun he => ?_, nofun, nofun⟩
    cases he
    exact hx.ne rfl

theorem bind {x : Except Fault α} {f : α → Except Fault β} (hx : Unharmed x)
    (hf : ∀ a, x = .ok a → Unharmed (f a)) : Unharmed (x >>= f) := by
  cases x with
  | ok a => exact hf a rfl
  | error e =>
    have he : (Except.error e >>= f) = .error e := rfl
    rw [he]
    exact ⟨fun h => hx.exception (congrArg _ (Except.error.inj h)),
      fun h => hx.event (congrArg _ (Except.error.inj h)),
      fun h => hx.socket (congrArg _ (Except.error.inj h))⟩

end Unharmed

section Escapes

variable {c : Servers} {s : SessionRef}

theorem serve_unharmed {env : Env} {ev : Event} (hx : NoSocketException (c.hub.dispatch env ev)) :
    Unharmed (serve env ev c) :=
  (Unharmed.lift hx).bind fun _ _ => .ok _

theorem acceptAll_unharmed (peers : List Peer) :
    ∀ {c : Servers}, Unharmed (acceptAll peers c) := by
  induction peers with
  | nil => exact .ok _
  | cons p rest ih =>
    intro c
    rw [acceptAll]
    dsimp only
    split
    · exact ih
    · exact ⟨nofun, nofun, nofun⟩

theorem close_unharmed {ctl : Bool} : Unharmed (close s ctl c) := by
  have hclose : NoSocketException (c.hub.dispatch default (.close s)) := closeConnection_caught
  apply Unharmed.bind (serve_unharmed hclose)
  intro c1 _
  dsimp only
  split
  · exact .ok _
  · exact ⟨nofun, nofun, nofun⟩

theorem incomingData_unharmed {ctl : Bool} {cmds : ℕ → Env} (hsends : ∀ i, (cmds i).Sends)
    (recvs : List RecvResult) :
    ∀ {i : ℕ} {c : Servers}, Unharmed (incomingData s ctl cmds recvs i c) := by
  induction recvs with
  | nil => exact .ok _
  | cons answer rest ih =>
    intro i c
    cases answer with
    | again | error => exact .ok _
    | data bytes =>
      rw [incomingData]
      split
      · exact close_unharmed
      · apply Unharmed.bind (Unharmed.lift (receive_caught bytes _))
        intro p _
        obtain ⟨r, cmd⟩ := p
        cases cmd with
        | none => exact ih
        | some cmd =>
          have hcmd : NoSocketException (c.hub.dispatch (cmds i) (.command s cmd)) :=
            dispatch_caught (hsends i) nofun
          dsimp only
          apply Unharmed.bind
          · apply serve_unharmed
            exact hcmd
          · exact fun _ _ => ih

theorem callback_unharmed {ev : EpollEvent} {a : Answers} (henv : a.env.Sends)
    (hcmds : ∀ i, (a.cmds i).Sends) : Unharmed (callback ev a c) := by
  unfold callback
  cases ev.watched with
  | listening =>
    dsimp only
    split
    · exact ⟨nofun, nofun, nofun⟩
    · exact acceptAll_unharmed _
  | client s =>
    apply Unharmed.bind (Unharmed.lift (session_caught c.hub s))
    intro session _
    split
    · exact close_unharmed
    · have hout : Unharmed (if ev.pollout then serve a.env (.writable s) c else .ok c) := by
        split
        · exact serve_unharmed (dispatch_caught henv nofun)
        · exact .ok c
      apply hout.bind
      intro c1 _
      split
      · exact incomingData_unharmed hcmds _
      · exact .ok c1

theorem gps_unharmed {call : Event × Env} (henv : call.2.Sends)
    (hloop : GpsDataServer.ofLoop call.1 = true)
    (hlive : ∀ pcmd ∈ c.hub.pendingCmdQueue, (c.hub.sockets pcmd.sock).deleted = false) :
    Unharmed (gps call c) := by
  unfold gps
  split
  · rename_i hany
    obtain ⟨pcmd, hmem, hdeleted⟩ := List.any_eq_true.mp hany
    rw [hlive pcmd hmem] at hdeleted
    cases hdeleted
  · refine serve_unharmed (dispatch_caught henv ?_)
    intro hpull
    rw [hpull] at hloop
    cases hloop

theorem unharmed_step {r r' : Except Fault Servers} {a : Action} (hs : step r a = some r')
    (hsends : a.Sends) (hkept : Kept r a) : Unharmed r' := by
  cases r with
  | error e => cases hs
  | ok c =>
    cases a with
    | wait evs =>
      simp only [step, Option.ite_none_right_eq_some, Option.some.injEq] at hs
      obtain ⟨-, rfl⟩ := hs
      exact .ok _
    | handle a =>
      simp only [step, Option.ite_none_right_eq_some, Option.some.injEq] at hs
      obtain ⟨-, rfl⟩ := hs
      have hi : c.i < c.epl.events.length := hkept
      unfold next
      rw [List.getElem?_eq_getElem hi]
      exact callback_unharmed hsends.1 hsends.2
    | gps call =>
      simp only [step, Option.ite_none_right_eq_some, Option.some.injEq] at hs
      obtain ⟨hloop, rfl⟩ := hs
      exact gps_unharmed hsends hloop hkept
    | other call =>
      obtain ⟨hub, -, rfl⟩ := other_eq_some hs
      exact .ok _

end Escapes

end Servers
end Gpshub
