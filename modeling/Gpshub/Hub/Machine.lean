import Gpshub.Lib.Machine
import Gpshub.Server.CommandHandler
import Gpshub.Server.GpsDataServer
import Gpshub.HubThread.CoordsBroadcastThread

/-! The server as a machine in which every handler is one step. -/
namespace Gpshub
open CommandServer CommandHandler GpsDataServer CoordsBroadcastThread

inductive Event
  /-- The peer at `addr` connects. -/
  | accept (addr : SockAddr)
  /-- A complete package of the session is handled. -/
  | command (s : SessionRef) (pkg : CmdPkg)
  /-- `EPOLLOUT` on the socket of the session. -/
  | writable (s : SessionRef)
  | close (s : SessionRef)
  | datagram (theirAddr : SockAddr) (bytes : List UInt8)
  /-- `epoll_wait` of the GPS data server times out. -/
  | timeout
  /-- Any other `put` on the queue, such as the one of `CoordsBroadcastThread::stop`. -/
  | put (id : Int32)
  /-- A broadcast thread pulls the next id and goes once through its loop. -/
  | pull
  deriving DecidableEq

namespace Hub

def dispatch (env : Env) (h : Hub) : Event → Except Abort Hub
  | .accept addr => .ok (incomingConnection addr h)
  | .command s pkg => do
    let _ ← h.session s
    handle env pkg s h
  | .writable s => sendQueued env s h
  | .close s => closeConnection s h
  | .datagram theirAddr bytes => incomingData env theirAddr bytes h
  | .timeout => sendPendingCmd env h
  | .put id => .ok { h with uqueue := h.uqueue ++ [id] }
  | .pull =>
    match h.uqueue with
    | [] => .error .diverges
    | id :: rest => turn env id { h with uqueue := rest }

/-- One event, with what its handler is given from outside; `none` when the handler does
not return. -/
def step (h : Hub) (call : Event × Env) : Option Hub := (dispatch call.2 h call.1).toOption

def Booted (h : Hub) : Prop := h = boot

/-- The id that the event makes a handler look up in `id_umap`. -/
def looksUp (h : Hub) : Event → Option Int32
  | .datagram _ bytes => lookedUp bytes
  | .pull => h.uqueue.head?
  | _ => none

theorem step_eq_some {h h' : Hub} {call : Event × Env} :
    step h call = some h' ↔ dispatch call.2 h call.1 = .ok h' := by
  unfold step
  cases he : dispatch call.2 h call.1 <;> simp [Except.toOption]

end Hub
end Gpshub
