import Gpshub.Hub.State

/-! The command server: sending packages, new and closed connections. -/
namespace Gpshub.CommandServer

/-- `send(Session*, CmdPkg*)` -/
def send (h : Hub) (s : SessionRef) (p : CmdPkg) (answer : SendResult) : Except Abort Hub := do
  let session ← h.session s
  match answer with
  | .all => return h.emit (.tcp session.sock p p.getLen.toNat)
  | .part n => return h.emit (.tcp session.sock p n)
  | .wouldBlock =>
    return { h with sendQueue := Function.update h.sendQueue s (h.sendQueue s ++ [p]) }
  | .error => throw .socketException

/-- The loop of `send(EpollEvent*)` over the queue of the session; the `i`-th package is
the next. -/
def drain (answer : ℕ → SendResult) (s : SessionRef) (sock : SocketRef) :
    List CmdPkg → ℕ → Hub → Except Abort Hub
  | [], _, h => .ok { h with sendQueue := Function.update h.sendQueue s [] }
  | p :: rest, i, h =>
    match answer i with
    | .all => drain answer s sock rest (i + 1) (h.emit (.tcp sock p p.getLen.toNat))
    | .part n => drain answer s sock rest (i + 1) (h.emit (.tcp sock p n))
    | .wouldBlock => .ok { h with sendQueue := Function.update h.sendQueue s (p :: rest) }
    | .error => .error .socketException

/-- `send(EpollEvent*)`, the reaction to `EPOLLOUT` -/
def sendQueued (env : Env) (s : SessionRef) (h : Hub) : Except Abort Hub := do
  let session ← h.session s
  drain env.answer s session.sock (h.sendQueue s) 0 h

/-- One round of the loop of `incomingConnection`: the peer at `addr` is accepted. -/
def incomingConnection (addr : SockAddr) (h : Hub) : Hub :=
  let s := h.nextSession
  { h with
    sockets := Function.update h.sockets s { addr, deleted := false }
    sessions := Function.update h.sessions s (some { sock := s, user := none })
    sendQueue := Function.update h.sendQueue s []
    nextSession := s + 1 }

/-- A `send` changes nothing but the wire and the send queue of the session. -/
theorem send_update {h h' : Hub} {s : SessionRef} {p : CmdPkg} {answer : SendResult}
    (he : send h s p answer = .ok h') :
    ∃ q o, h' = { h with sendQueue := Function.update h.sendQueue s q, out := o } := by
  obtain ⟨session, -, he⟩ := bind_eq_ok.mp he
  have hsame : Function.update h.sendQueue s (h.sendQueue s) = h.sendQueue :=
    Function.update_eq_self s h.sendQueue
  cases answer with
  | all =>
    cases he
    exact ⟨h.sendQueue s, _, by rw [hsame]; rfl⟩
  | part n =>
    cases he
    exact ⟨h.sendQueue s, _, by rw [hsame]; rfl⟩
  | wouldBlock =>
    cases he
    exact ⟨_, h.out, rfl⟩
  | error => cases he

theorem send_eq_ok {h h' : Hub} {s : SessionRef} {p : CmdPkg} {answer : SendResult}
    (he : send h s p answer = .ok h') :
    ∃ q o, h' = { h with sendQueue := q, out := o } := by
  obtain ⟨q, o, h'e⟩ := send_update he
  exact ⟨_, o, h'e⟩

theorem drain_update {answer : ℕ → SendResult} {s : SessionRef} {sock : SocketRef}
    (ps : List CmdPkg) :
    ∀ {i : ℕ} {h h' : Hub}, drain answer s sock ps i h = .ok h' →
      ∃ q o, h' = { h with sendQueue := Function.update h.sendQueue s q, out := o } := by
  induction ps with
  | nil =>
    intro i h h' he
    cases he
    exact ⟨_, h.out, rfl⟩
  | cons p rest ih =>
    intro i h h' he
    rw [drain] at he
    cases ha : answer i with
    | all =>
      rw [ha] at he
      obtain ⟨q, o, rfl⟩ := ih he
      exact ⟨q, o, rfl⟩
    | part n =>
      rw [ha] at he
      obtain ⟨q, o, rfl⟩ := ih he
      exact ⟨q, o, rfl⟩
    | wouldBlock =>
      rw [ha] at he
      cases he
      exact ⟨_, h.out, rfl⟩
    | error =>
      rw [ha] at he
      cases he

theorem sendQueued_update {env : Env} {s : SessionRef} {h h' : Hub}
    (he : sendQueued env s h = .ok h') :
    ∃ q o, h' = { h with sendQueue := Function.update h.sendQueue s q, out := o } := by
  obtain ⟨session, -, he⟩ := bind_eq_ok.mp he
  exact drain_update _ he

theorem sendQueued_eq_ok {env : Env} {s : SessionRef} {h h' : Hub}
    (he : sendQueued env s h = .ok h') : ∃ q o, h' = { h with sendQueue := q, out := o } := by
  obtain ⟨q, o, h'e⟩ := sendQueued_update he
  exact ⟨_, o, h'e⟩

end Gpshub.CommandServer
