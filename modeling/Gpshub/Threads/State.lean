import Gpshub.Server.CommandHandler
import Gpshub.Server.GpsDataServer
import Gpshub.HubThread.CoordsBroadcastThread

/-! The threads of the server, each at a point between two accesses to what they share: the
GPS thread, the command thread and `n` broadcast threads. -/
namespace Gpshub.Threads
open CommandHandler

/-- Points of `processCoordinates` where the user is known. -/
inductive CoordPc
  | check
  | warn
  | lon
  | lat
  | alt
  | ready
  | set
  | swap
  deriving DecidableEq

/-- Points of `initAddrUdp` where the user is known. -/
inductive InitPc
  | token
  | ip
  | set
  | ack (status : UInt8)
  deriving DecidableEq

inductive GpsPc
  | idle
  | getCoord (theirAddr : SockAddr) (id : Int32) (c : Coordinates)
  | coord (theirAddr : SockAddr) (id : Int32) (c : Coordinates) (u : UserRef) (pc : CoordPc)
  | put (id : Int32)
  | getInit (theirAddr : SockAddr) (id token : Int32)
  | init (theirAddr : SockAddr) (token : Int32) (u : UserRef) (pc : InitPc)
  /-- `sendPendingCmd` is next. -/
  | flush
  deriving DecidableEq

/-- Points of the loop of `run`, and of `broadcast`, where the user is known. -/
inductive TurnPc
  | load
  | copyLon (c : Slot)
  | copyLat (c : Slot) (lon : Int32)
  | copyAlt (c : Slot) (lon lat : Int32)
  | call (c : Slot) (coords : Coordinates)
  | each (coords : Coordinates) (nicks : List Nick)
  | get (coords : Coordinates) (nick : Nick) (rest : List Nick)
  | udpReady (coords : Coordinates) (buddy : Option UserRef) (rest : List Nick)
  | pack (coords : Coordinates) (buddy : UserRef) (rest : List Nick)
  | sendto (coords : Coordinates) (buddy : UserRef) (buf : List UInt8) (rest : List Nick)
  | reset
  deriving DecidableEq

inductive ThreadPc
  | test
  | pull
  | lookup (id : Int32)
  | turn (id : Int32) (u : UserRef) (pc : TurnPc)
  | exited
  deriving DecidableEq

structure Thread where
  loop : Bool
  pc : ThreadPc
  deriving DecidableEq

/-- Points of `registerNick` where the user has been created. -/
inductive RegPc
  | putNick
  | putId
  | store
  | ack
  | token
  | init (token : Int32)
  deriving DecidableEq

/-- Points of `addBuddies`. -/
inductive AddPc
  | each (nicks : List Nick)
  | count (nick : Nick) (rest : List Nick)
  | get (nick : Nick) (rest : List Nick)
  | buddy (ptr : Option UserRef) (nick : Nick) (rest : List Nick)
  | notify (rest : List Nick)
  deriving DecidableEq

/-- Points of `quit` after the id and the nick of the user have been read. -/
inductive QuitPc
  | eraseId
  | eraseNick
  | delete
  deriving DecidableEq

inductive CmdPc
  | idle
  | regCount (s : SessionRef) (nick : Nick)
  | regFail (s : SessionRef) (status : UInt8)
  | regGen (s : SessionRef) (nick : Nick) (n : UInt32)
  | regNew (s : SessionRef) (nick : Nick) (id : UInt32)
  | reg (s : SessionRef) (nick : Nick) (id : UInt32) (u : UserRef) (pc : RegPc)
  | add (s : SessionRef) (u : UserRef) (st : AddState) (pc : AddPc)
  | rem (u : UserRef) (nicks : List Nick)
  | quitRead (s : SessionRef) (u : UserRef)
  | quit (s : SessionRef) (u : UserRef) (id : Int32) (nick : Nick) (pc : QuitPc)
  /-- The rest of `closeConnection`. -/
  | closeEnd (s : SessionRef)

/-- What the properties speak of, written down as it happens. -/
inductive Note
  /-- `processCoordinates` has taken the coordinates for the user, and found `ready` to be
  `NULL` or not. -/
  | accepted (u : UserRef) (c : Coordinates) (foundNull : Bool)
  /-- `run` passes the copied coordinates to `broadcast`. -/
  | broadcast (u : UserRef) (c : Coordinates)
  /-- `initAddrUdp` has stored the address. -/
  | initAddr (u : UserRef) (addr : SockAddr) (token : Int32)
  /-- `registerNick` has given the token to the user. -/
  | token (u : UserRef) (token : Int32)
  deriving DecidableEq

structure System (n : ℕ) where
  hub : Hub
  gps : GpsPc
  cmd : CmdPc
  threads : Fin n → Thread
  hist : List Note
  /-- What has stopped the server, if it is stopped. -/
  fault : Option Abort

/-- The state of a server that has just been started. -/
def System.boot (n : ℕ) : System n where
  hub := .boot
  gps := .idle
  cmd := .idle
  threads := fun _ => { loop := true, pc := .test }
  hist := []
  fault := none

def Booted {n : ℕ} (s : System n) : Prop := s = .boot n

end Gpshub.Threads
