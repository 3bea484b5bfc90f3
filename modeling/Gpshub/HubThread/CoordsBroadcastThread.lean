import Gpshub.Hub.State
import Mathlib.Data.List.Perm.Basic

/-! The broadcast threads: one turn of the loop of `run`. -/
namespace Gpshub.CoordsBroadcastThread

/-- What is sent of `buf` for the coordinates of the user with this id. -/
def coordsPkg (id : Int32) (coords : Coordinates) : List UInt8 :=
  intBytes id.toUInt32 ++ intBytes coords.longitude.toUInt32 ++
    intBytes coords.latitude.toUInt32 ++
    if 0 < coords.altitude then intBytes coords.altitude.toUInt32 else []

/-- The order in which the copied buddies set is gone through. -/
def iterate (env : Env) (buddies : SyncHashSet Nick) : List Nick :=
  if env.order.isPerm buddies.set then env.order else buddies.set

/-- The loop of `broadcast`; `k` packages have been sent. -/
def sendAll (env : Env) (u : UserRef) (coords : Coordinates) :
    List Nick → ℕ → Hub → Except Abort Hub
  | [], _, h => .ok h
  | nick :: rest, k, h =>
    if 0 < h.nickUmap.count nick then do
      let (ptr, nickUmap) := h.nickUmap.get nick
      let h := { h with nickUmap }
      let buddy ← notNull .badUser ptr
      let buddyUser ← h.deref buddy
      if ¬buddyUser.udpReady then sendAll env u coords rest k h
      else
        let usr ← h.deref u
        if env.sendto k then
          sendAll env u coords rest (k + 1) (h.emit (.udp buddyUser.addrUdp (coordsPkg usr.id coords)))
        else throw .socketException
    else sendAll env u coords rest k h

def broadcast (env : Env) (u : UserRef) (coords : Coordinates) (h : Hub) : Except Abort Hub := do
  let usr ← h.deref u
  sendAll env u coords (iterate env usr.buddies) 0 h

/-- One turn of the loop of `run`, after `pull` has returned `id`. -/
def turn (env : Env) (id : Int32) (h : Hub) : Except Abort Hub := do
  let (ptr, idUmap) := h.idUmap.get id
  let h := { h with idUmap }
  match ptr with
  | none => return h
  | some u =>
    let usr ← h.deref u
    match usr.ready with
    | none => return h
    | some c =>
      let coordsCopy := usr.slot c
      let h ← broadcast env u coordsCopy h
      let usr ← h.deref u
      return h.setUser u (usr.setReady none)

end Gpshub.CoordsBroadcastThread
