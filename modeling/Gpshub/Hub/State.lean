import Gpshub.User.UserIdGenerator

/-! The data that the two servers and the broadcast threads share. -/
namespace Gpshub

/-- The model keeps what a deleted `Socket` last held, so that a run can go on past the use
of a dangling pointer. -/
structure Socket where
  addr : SockAddr
  deleted : Bool
  deriving DecidableEq, Repr, Inhabited

/-- A `Session*` -/
abbrev SessionRef := ℕ

/-- A session without its two queues: `Hub.sendQueue` holds the packages to be sent, and the
receive buffer belongs to the framing of the commands. -/
structure Session where
  sock : SocketRef
  user : Option UserRef
  deriving DecidableEq, Repr

structure PendingCmd where
  cmd : CmdPkg
  sock : SocketRef
  deriving DecidableEq, Repr

/-- What `send(2)` on a non-blocking socket answers. -/
inductive SendResult
  | all
  | part (n : ℕ)
  | wouldBlock
  | error
  deriving DecidableEq, Repr, Inhabited

/-- What was handed to the network: the first `n` bytes of a package, or a datagram. -/
inductive Output
  | tcp (sock : SocketRef) (pkg : CmdPkg) (n : ℕ)
  | udp (addr : SockAddr) (bytes : List UInt8)
  deriving DecidableEq, Repr

structure Hub where
  idUmap : IdUserMap
  nickUmap : NickUserMap
  /-- `UserIdGenerator::current` -/
  current : UInt32
  users : UserRef → Option User
  sockets : SocketRef → Socket
  sessions : SessionRef → Option Session
  sendQueue : SessionRef → List CmdPkg
  uqueue : List Int32
  pendingCmdQueue : List PendingCmd
  /-- All that was sent so far, oldest first. -/
  out : List Output
  nextUser : UserRef
  nextSession : SessionRef

/-- What one call of a handler gets from outside: the answers of the kernel to its sends,
what `malloc` and `rand` return, what the unset fields of a new `User` hold, and the order
in which a hash set is gone through. -/
structure Env where
  answer : ℕ → SendResult
  flush : ℕ → SendResult
  sendto : ℕ → Bool
  junk : ℕ → UInt8
  addrUdp : SockAddr
  token : Int32
  rand : Int32
  order : List Nick
  deriving Inhabited

namespace Hub

/-- The state of a server that has just been started. -/
def boot : Hub where
  idUmap := .empty
  nickUmap := .empty
  current := 0
  users := fun _ => none
  sockets := fun _ => default
  sessions := fun _ => none
  sendQueue := fun _ => []
  uqueue := []
  pendingCmdQueue := []
  out := []
  nextUser := 0
  nextSession := 0

/-- `*u` for a pointer that is not `NULL`. -/
def deref (h : Hub) (u : UserRef) : Except Abort User :=
  match h.users u with
  | some usr => .ok usr
  | none => .error .badUser

def session (h : Hub) (s : SessionRef) : Except Abort Session :=
  match h.sessions s with
  | some session => .ok session
  | none => .error .badSession

def setUser (h : Hub) (u : UserRef) (usr : User) : Hub :=
  { h with users := Function.update h.users u (some usr) }

/-- `delete u` -/
def deleteUser (h : Hub) (u : UserRef) : Hub :=
  { h with users := Function.update h.users u none }

def setSession (h : Hub) (s : SessionRef) (session : Session) : Hub :=
  { h with sessions := Function.update h.sessions s (some session) }

def emit (h : Hub) (o : Output) : Hub := { h with out := h.out ++ [o] }

theorem deref_eq_ok {h : Hub} {u : UserRef} {usr : User} :
    h.deref u = .ok usr ↔ h.users u = some usr := by
  cases hu : h.users u <;> simp [deref, hu]

theorem session_eq_ok {h : Hub} {s : SessionRef} {session : Session} :
    h.session s = .ok session ↔ h.sessions s = some session := by
  cases hs : h.sessions s <;> simp [Hub.session, hs]

end Hub

/-- `p->` for a pointer that may be `NULL`. -/
def notNull {α : Type} (e : Abort) : Option α → Except Abort α
  | some a => .ok a
  | none => .error e

theorem notNull_eq_ok {α : Type} {e : Abort} {p : Option α} {a : α} :
    notNull e p = .ok a ↔ p = some a := by
  cases p <;> simp [notNull]

end Gpshub
