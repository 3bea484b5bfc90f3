import Gpshub.Hub.State

/-! The GPS data server: datagrams, and the acknowledgements that wait to be sent. -/
namespace Gpshub.GpsDataServer

def BUF_LEN : ℕ := 128

/-- The altitude is optional in a package of `n` bytes. -/
def altitude (buf : List UInt8) (n : ℕ) : Int32 := if n = 16 then toint buf 12 else 0

/-- `buf` holds a datagram of `n` bytes from `theirAddr`. -/
def processCoordinates (theirAddr : SockAddr) (buf : List UInt8) (n : ℕ) (h : Hub) :
    Except Abort Hub := do
  let id := (touint buf 0).toInt32
  let (ptr, idUmap) := h.idUmap.get id
  let h := { h with idUmap }
  match ptr with
  | none => return h
  | some u =>
    let usr ← h.deref u
    if ¬socketEquals theirAddr usr.addrUdp then return h
    else
      let usr := usr.setLongitude (toint buf 4)
      let usr := usr.setLatitude (toint buf 8)
      let usr := usr.setAltitude (altitude buf n)
      if usr.ready = none then
        let usr := usr.setReady (some usr.empty)
        let usr := usr.swapEmpty
        return { h.setUser u usr with uqueue := h.uqueue ++ [id] }
      else return h.setUser u usr

def udpInitAck (env : Env) (status : UInt8) : Except Abort CmdPkg := do
  let ack ← CmdPkg.new env.junk CmdPkg.INITIALIZE_UDP_ACK 4
  ack.setByte 0 status

def sendUdpInitAck (env : Env) (u : UserRef) (status : UInt8) (h : Hub) : Except Abort Hub := do
  let ack ← udpInitAck env status
  let usr ← h.deref u
  let sock ← notNull .badSession usr.sock
  match env.answer 0 with
  | .all => return h.emit (.tcp sock ack ack.getLen.toNat)
  | .part n => return h.emit (.tcp sock ack n)
  | .wouldBlock =>
    return { h with pendingCmdQueue := h.pendingCmdQueue ++ [{ cmd := ack, sock }] }
  | .error => throw .socketException

def initAddrUdp (env : Env) (theirAddr : SockAddr) (buf : List UInt8) (h : Hub) :
    Except Abort Hub := do
  let id := toint buf 0
  let token := toint buf 4
  let (ptr, idUmap) := h.idUmap.get id
  let h := { h with idUmap }
  match ptr with
  | none => return h
  | some u =>
    let usr ← h.deref u
    if token ≠ usr.token then sendUdpInitAck env u 0 h
    else
      let sock ← notNull .badSession usr.sock
      if ¬ipEquals (h.sockets sock).addr theirAddr then sendUdpInitAck env u 0 h
      else
        let h := h.setUser u (usr.setAddrUdp theirAddr)
        sendUdpInitAck env u 1 h

/-- The loop of `sendPendingCmd` from the `i`-th entry on: the entries that stay, and what
was sent. -/
def flushLoop (flush : ℕ → SendResult) :
    List PendingCmd → ℕ → Except Abort (List PendingCmd × List Output)
  | [], _ => .ok ([], [])
  | pcmd :: rest, i =>
    match flush i with
    | .all => do
      let (kept, sent) ← flushLoop flush rest (i + 1)
      return (kept, .tcp pcmd.sock pcmd.cmd pcmd.cmd.getLen.toNat :: sent)
    | .part n => do
      let (kept, sent) ← flushLoop flush rest (i + 1)
      return (kept, .tcp pcmd.sock pcmd.cmd n :: sent)
    | .wouldBlock => do
      let (kept, sent) ← flushLoop flush rest (i + 1)
      return (pcmd :: kept, sent)
    | .error => throw .socketException

def sendPendingCmd (env : Env) (h : Hub) : Except Abort Hub := do
  let (kept, sent) ← flushLoop env.flush h.pendingCmdQueue 0
  return { h with pendingCmdQueue := kept, out := h.out ++ sent }

/-- The part of `incomingData` before the pending commands are sent. -/
def process (env : Env) (theirAddr : SockAddr) (datagram : List UInt8) (h : Hub) :
    Except Abort Hub :=
  let buf := datagram.take BUF_LEN
  let n := buf.length
  if n = 12 ∨ n = 16 then processCoordinates theirAddr buf n h
  else if n = 8 then initAddrUdp env theirAddr buf h
  else return h

def incomingData (env : Env) (theirAddr : SockAddr) (datagram : List UInt8) (h : Hub) :
    Except Abort Hub := do
  let h ← process env theirAddr datagram h
  sendPendingCmd env h

/-- The id a datagram makes the server look up. -/
def lookedUp (datagram : List UInt8) : Option Int32 :=
  let buf := datagram.take BUF_LEN
  if buf.length = 12 ∨ buf.length = 16 ∨ buf.length = 8 then some (toint buf 0) else none

end Gpshub.GpsDataServer
