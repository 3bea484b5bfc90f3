import Gpshub.Lib.Machine
import Gpshub.Lib.Channel
import Gpshub.Hub.State

/-! Packages on their way to the clients: the queues of the two servers, with every `send(2)`
a step of its own and the two threads in any order. -/
namespace Gpshub.Delivery
open Lib Lib.Machine

inductive Via
  /-- `CommandServer::send` -/
  | send
  /-- `GpsDataServer::sendUdpInitAck` -/
  | ack
  deriving DecidableEq, Repr

/-- A package, and when, how and for whom it was submitted. -/
structure Packet where
  num : ℕ
  client : SocketRef
  via : Via
  pkg : CmdPkg
  deriving DecidableEq, Repr

/-- The number of bytes a `Send` of the package is asked to send. -/
def Packet.len (p : Packet) : ℕ := p.pkg.getLen.toNat

/-- Where the thread of the command server is. -/
inductive CmdPc
  | idle
  /-- In the loop of `send(EpollEvent*)`. -/
  | drain (client : SocketRef)
  deriving DecidableEq, Repr

/-- Where the thread of the GPS data server is. -/
inductive GpsPc
  | idle
  /-- In the loop of `sendPendingCmd`, at the `i`-th entry. -/
  | flush (i : ℕ)
  deriving DecidableEq, Repr

structure Outgoing where
  /-- All that was submitted so far, in order. -/
  submitted : List Packet
  sendQueue : SocketRef → List Packet
  pendingCmdQueue : List Packet
  /-- What the sockets took, in order, with the number of bytes. -/
  taken : List (Packet × ℕ)
  cmd : CmdPc
  gps : GpsPc
  /-- A `SocketException` has left a callback. -/
  failed : Bool

inductive Action
  /-- The command server sends a package to the client. -/
  | send (client : SocketRef) (pkg : CmdPkg) (answer : SendResult)
  /-- `EPOLLOUT` on the socket of the client. -/
  | writable (client : SocketRef)
  /-- The next round of the loop that `writable` has entered. -/
  | drain (answer : SendResult)
  /-- The GPS data server acknowledges an init package of the client. -/
  | ack (client : SocketRef) (pkg : CmdPkg) (answer : SendResult)
  /-- `sendPendingCmd` is called, after a datagram or a timeout. -/
  | sendPending
  /-- The next round of its loop. -/
  | flush (answer : SendResult)
  deriving DecidableEq

namespace Outgoing

def boot : Outgoing where
  submitted := []
  sendQueue := fun _ => []
  pendingCmdQueue := []
  taken := []
  cmd := .idle
  gps := .idle
  failed := false

def next (o : Outgoing) (client : SocketRef) (via : Via) (pkg : CmdPkg) : Packet :=
  ⟨o.submitted.length, client, via, pkg⟩

/-- The socket takes the first `n` bytes. -/
def take (o : Outgoing) (p : Packet) (n : ℕ) : Outgoing := { o with taken := o.taken ++ [(p, n)] }

/-- Where a package goes when its first `Send` would block. -/
def enqueue (o : Outgoing) (p : Packet) : Outgoing :=
  match p.via with
  | .send =>
    { o with sendQueue := Function.update o.sendQueue p.client (o.sendQueue p.client ++ [p]) }
  | .ack => { o with pendingCmdQueue := o.pendingCmdQueue ++ [p] }

def submit (o : Outgoing) (p : Packet) (answer : SendResult) : Outgoing :=
  let o := { o with submitted := o.submitted ++ [p] }
  match answer with
  | .all => o.take p p.len
  | .part n => o.take p n
  | .wouldBlock => o.enqueue p
  | .error => { o with failed := true }

/-- `CommandServer::send(Session*, CmdPkg*)` -/
def send (o : Outgoing) (client : SocketRef) (pkg : CmdPkg) (answer : SendResult) : Outgoing :=
  o.submit (o.next client .send pkg) answer

def sendUdpInitAck (o : Outgoing) (client : SocketRef) (pkg : CmdPkg) (answer : SendResult) :
    Outgoing :=
  o.submit (o.next client .ack pkg) answer

/-- The front of the `send_queue` has been sent. -/
def pop (o : Outgoing) (client : SocketRef) (rest : List Packet) : Outgoing :=
  { o with sendQueue := Function.update o.sendQueue client rest }

/-- One round of the loop of `CommandServer::send(EpollEvent*)`. -/
def drainStep (o : Outgoing) (client : SocketRef) (answer : SendResult) : Outgoing :=
  match o.sendQueue client with
  | [] => { o with cmd := .idle }
  | p :: rest =>
    match answer with
    | .all => (o.take p p.len).pop client rest
    | .part n => (o.take p n).pop client rest
    | .wouldBlock => { o with cmd := .idle }
    | .error => { o with failed := true }

/-- The `i`-th pending command has been sent. -/
def erase (o : Outgoing) (i : ℕ) : Outgoing :=
  { o with pendingCmdQueue := o.pendingCmdQueue.eraseIdx i }

/-- One round of the loop of `GpsDataServer::sendPendingCmd`. -/
def flushStep (o : Outgoing) (i : ℕ) (answer : SendResult) : Outgoing :=
  match o.pendingCmdQueue[i]? with
  | none => { o with gps := .idle }
  | some p =>
    match answer with
    | .all => (o.take p p.len).erase i
    | .part n => (o.take p n).erase i
    | .wouldBlock => { o with gps := .flush (i + 1) }
    | .error => { o with failed := true }

def step (o : Outgoing) (a : Action) : Option Outgoing :=
  if o.failed then none
  else
    match a with
    | .send client pkg answer => if o.cmd = .idle then some (o.send client pkg answer) else none
    | .writable client => if o.cmd = .idle then some { o with cmd := .drain client } else none
    | .drain answer =>
      match o.cmd with
      | .drain client => some (o.drainStep client answer)
      | .idle => none
    | .ack client pkg answer =>
      if o.gps = .idle then some (o.sendUdpInitAck client pkg answer) else none
    | .sendPending => if o.gps = .idle then some { o with gps := .flush 0 } else none
    | .flush answer =>
      match o.gps with
      | .flush i => some (o.flushStep i answer)
      | .idle => none

/-- The ways in which a step moves packages. -/
inductive Moved (o : Outgoing) : Action → Outgoing → Prop
  | submit (p : Packet) (a : Action) (answer : SendResult) (hnum : p.num = o.submitted.length)
      (ha : a = .send p.client p.pkg answer ∧ p.via = .send ∧ o.cmd = .idle ∨
        a = .ack p.client p.pkg answer ∧ p.via = .ack ∧ o.gps = .idle) :
    Moved o a (o.submit p answer)
  | pop (client : SocketRef) (p : Packet) (rest : List Packet) (n : ℕ) (answer : SendResult)
      (hpc : o.cmd = .drain client) (hq : o.sendQueue client = p :: rest)
      (hn : answer = .all ∧ n = p.len ∨ answer = .part n) :
    Moved o (.drain answer) ((o.take p n).pop client rest)
  | erase (i : ℕ) (p : Packet) (n : ℕ) (answer : SendResult) (hpc : o.gps = .flush i)
      (hp : o.pendingCmdQueue[i]? = some p) (hn : answer = .all ∧ n = p.len ∨ answer = .part n) :
    Moved o (.flush answer) ((o.take p n).erase i)
  | cmd (a : Action) (pc : CmdPc)
      (ha : (∃ client, a = .writable client ∧ o.cmd = .idle ∧ pc = .drain client) ∨
        ∃ answer client, a = .drain answer ∧ o.cmd = .drain client ∧ pc = .idle ∧
          (o.sendQueue client = [] ∨ answer = .wouldBlock)) :
    Moved o a { o with cmd := pc }
  | gps (a : Action) (pc : GpsPc)
      (ha : a = .sendPending ∨ ∃ answer, a = .flush answer ∧
        ∀ i p, o.gps = .flush i → o.pendingCmdQueue[i]? = some p → answer = .wouldBlock) :
    Moved o a { o with gps := pc }
  | fail (a : Action) (ha : a = .drain .error ∨ a = .flush .error) : Moved o a { o with failed := true }

theorem step_moved {o o' : Outgoing} {a : Action} (hs : step o a = some o') :
    o.failed = false ∧ Moved o a o' := by
  unfold step at hs
  by_cases hf : o.failed = true
  · rw [if_pos hf] at hs
    cases hs
  rw [if_neg hf] at hs
  refine ⟨Bool.eq_false_of_not_eq_true hf, ?_⟩
  cases a with
  | send client pkg answer =>
    simp only [Option.ite_none_right_eq_some, Option.some.injEq] at hs
    obtain ⟨hpc, rfl⟩ := hs
    exact .submit _ _ answer rfl (Or.inl ⟨rfl, rfl, hpc⟩)
  | writable client =>
    simp only [Option.ite_none_right_eq_some, Option.some.injEq] at hs
    obtain ⟨hpc, rfl⟩ := hs
    exact .cmd _ _ (Or.inl ⟨client, rfl, hpc, rfl⟩)
  | drain answer =>
    cases hpc : o.cmd with
    | idle => simp [hpc] at hs
    | drain client =>
      simp only [hpc, Option.some.injEq] at hs
      subst hs
      unfold drainStep
      cases hq : o.sendQueue client with
      | nil => exact .cmd _ _ (Or.inr ⟨answer, client, rfl, hpc, rfl, Or.inl hq⟩)
      | cons p rest =>
        cases answer with
        | all => exact .pop client p rest _ _ hpc hq (Or.inl ⟨rfl, rfl⟩)
        | part n => exact .pop client p rest n _ hpc hq (Or.inr rfl)
        | wouldBlock => exact .cmd _ _ (Or.inr ⟨_, client, rfl, hpc, rfl, Or.inr rfl⟩)
        | error => exact .fail _ (Or.inl rfl)
  | ack client pkg answer =>
    simp only [Option.ite_none_right_eq_some, Option.some.injEq] at hs
    obtain ⟨hpc, rfl⟩ := hs
    exact .submit _ _ answer rfl (Or.inr ⟨rfl, rfl, hpc⟩)
  | sendPending =>
    simp only [Option.ite_none_right_eq_some, Option.some.injEq] at hs
    obtain ⟨hpc, rfl⟩ := hs
    exact .gps _ _ (Or.inl rfl)
  | flush answer =>
    cases hpc : o.gps with
    | idle => simp [hpc] at hs
    | flush i =>
      simp only [hpc, Option.some.injEq] at hs
      subst hs
      unfold flushStep
      cases hp : o.pendingCmdQueue[i]? with
      | none =>
        refine .gps _ _ (Or.inr ⟨answer, rfl, fun j p hj hjp => ?_⟩)
        cases hpc.symm.trans hj
        cases hp.symm.trans hjp
      | some p =>
        cases answer with
        | all => exact .erase i p _ _ hpc hp (Or.inl ⟨rfl, rfl⟩)
        | part n => exact .erase i p n _ hpc hp (Or.inr rfl)
        | wouldBlock => exact .gps _ _ (Or.inr ⟨_, rfl, fun _ _ _ _ => rfl⟩)
        | error => exact .fail _ (Or.inr rfl)

end Outgoing
end Gpshub.Delivery
