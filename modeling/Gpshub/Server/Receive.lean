import Gpshub.Server.CmdPkg
import Gpshub.Util.CircularBuffer

/-! `CommandServer::incomingData`: from the bytes of a session to command packages. -/
namespace Gpshub.CommandServer

def CMDPKG_MAX : ℕ := 512

/-- What one `Recv` of at most `CMDPKG_MAX` bytes answers; no bytes means end of file. -/
inductive RecvResult
  | data (bytes : List UInt8)
  | again
  | error
  deriving DecidableEq, Repr

/-- The buffer of the session and the `cmd_buf` of the server. -/
structure Receiver where
  buf : CircularBuffer
  cmdBuf : List UInt8
  deriving DecidableEq, Repr

/-- A new session; `memory` is what `malloc` returned for its buffer. -/
def Receiver.new (memory cmdBuf : List UInt8) : Receiver where
  buf := .new (.ofNat (CMDPKG_MAX * 2)) memory
  cmdBuf := cmdBuf

/-- The end of a round of the loop, when the header has been read to `cmd_buf`: the package
that is handed to `handle`, if any. It borrows `cmd_buf` and terminates its data there. -/
def takePkg (buf : CircularBuffer) (cmdBuf : List UInt8) :
    Except Abort (Receiver × Option CmdPkg) := do
  let pkgLen := toushort cmdBuf 1
  if (pkgLen.toNat : ℤ) ≤ buf.size.toInt then
    let (buf, pkg) ← buf.get pkgLen.toNat
    let cmdBuf ← memcpy cmdBuf 0 pkg
    let cmd ← CmdPkg.ofBuffer cmdBuf
    return ({ buf, cmdBuf := cmd.bytes }, some cmd)
  else return ({ buf, cmdBuf }, none)

/-- One round of the loop, after `Recv` has written `bytes` to `cmd_buf`. -/
def receive (bytes : List UInt8) (r : Receiver) : Except Abort (Receiver × Option CmdPkg) := do
  let cmdBuf ← memcpy r.cmdBuf 0 bytes
  let (buf, _) ← r.buf.add (cmdBuf.take bytes.length)
  let header ← buf.read 3
  let cmdBuf ← memcpy cmdBuf 0 header
  takePkg buf cmdBuf

/-- `incomingData`, given the answers of `Recv` in order; after the last it answers
`EAGAIN`. The packages handed to `handle`, and whether the connection was closed. -/
def incomingData : List RecvResult → Receiver → Except Abort (Receiver × List CmdPkg × Bool)
  | .data bytes :: rest, r => do
    if bytes = [] then return (r, [], true)
    else
      let (r, cmd) ← receive bytes r
      let (r, cmds, closed) ← incomingData rest r
      return (r, cmd.toList ++ cmds, closed)
  | _, r => .ok (r, [], false)

/-- The calls of `incomingData` for one session, one for each `EPOLLIN`. -/
def notifications :
    List (List RecvResult) → Receiver → Except Abort (Receiver × List CmdPkg)
  | [], r => .ok (r, [])
  | answers :: rest, r => do
    let (r, cmds, closed) ← incomingData answers r
    if closed then return (r, cmds)
    else
      let (r, cmds') ← notifications rest r
      return (r, cmds ++ cmds')

/-- The loop of `incomingData` over these chunks of the stream, whatever calls they fall
into. -/
def feed : List (List UInt8) → Receiver → Except Abort (Receiver × List CmdPkg)
  | [], r => .ok (r, [])
  | bytes :: rest, r => do
    let (r, cmd) ← receive bytes r
    let (r, cmds) ← feed rest r
    return (r, cmd.toList ++ cmds)

theorem feed_append (xs ys : List (List UInt8)) :
    ∀ r, feed (xs ++ ys) r = (do
      let (r, cmds) ← feed xs r
      let (r, cmds') ← feed ys r
      return (r, cmds ++ cmds')) := by
  induction xs with
  | nil =>
    intro r
    rw [List.nil_append, feed]
    cases hy : feed ys r <;> simp [bind, Except.bind, pure, Except.pure, hy]
  | cons bytes rest ih =>
    intro r
    rw [List.cons_append, feed, feed]
    cases receive bytes r with
    | error e => rfl
    | ok x =>
      change (do let (r, cmds) ← feed (rest ++ ys) x.1; pure (r, x.2.toList ++ cmds)) = _
      rw [ih]
      cases hr : feed rest x.1 with
      | error e => simp [bind, Except.bind, hr]
      | ok y => cases hy : feed ys y.1 <;> simp [bind, Except.bind, pure, Except.pure, hr, hy]

theorem incomingData_data (chunks : List (List UInt8)) (hne : ∀ c ∈ chunks, c ≠ []) :
    ∀ r, incomingData (chunks.map .data) r = (do
      let (r, cmds) ← feed chunks r
      return (r, cmds, false)) := by
  induction chunks with
  | nil => exact fun _ => rfl
  | cons bytes rest ih =>
    intro r
    rw [List.map_cons, incomingData, if_neg (hne bytes List.mem_cons_self), feed]
    cases receive bytes r with
    | error e => rfl
    | ok x =>
      have ih' := ih (fun c hc => hne c (List.mem_cons_of_mem _ hc)) x.1
      simp only [bind, Except.bind, pure, Except.pure] at ih' ⊢
      rw [ih']
      cases feed rest x.1 <;> rfl

theorem notifications_data (calls : List (List (List UInt8)))
    (hne : ∀ c ∈ calls.flatten, c ≠ []) :
    ∀ r, notifications (calls.map fun chunks => chunks.map .data) r = feed calls.flatten r := by
  induction calls with
  | nil => exact fun _ => rfl
  | cons chunks rest ih =>
    intro r
    rw [List.flatten_cons] at hne ⊢
    rw [List.map_cons, notifications, feed_append,
      incomingData_data chunks fun c hc => hne c (List.mem_append_left _ hc)]
    cases feed chunks r with
    | error e => rfl
    | ok x =>
      have ih' := ih (fun c hc => hne c (List.mem_append_right _ hc)) x.1
      simp only [bind, Except.bind, pure, Except.pure, Bool.false_eq_true, if_false] at ih' ⊢
      rw [ih']

end Gpshub.CommandServer
