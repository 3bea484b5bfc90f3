import Gpshub.Client.Messages

/-! The Python client: what it knows, and how it answers the packages of the server. -/
namespace Gpshub

/-- A `GpsChannel` and the local address of its socket. -/
structure GpsChannel where
  uid : UInt32
  addr : SockAddr
  deriving DecidableEq

/-- The datagram that `init_udp` sends. -/
def GpsChannel.initUdp (c : GpsChannel) (token : UInt32) : List UInt8 :=
  intBytes c.uid ++ intBytes token

/-- `opened` counts the calls of `_connect_gps_channel`, each of which starts a thread. -/
structure GpshubClient where
  nick : Nick
  buddies : Nick
  userid : Option UInt32
  token : Option UInt32
  gpsChannel : Option GpsChannel
  udpInitialized : Bool
  /-- The `CmdChannelListener` has not ended. -/
  listening : Bool
  opened : ℕ

namespace GpshubClient
open CmdChannel

/-- A client that has sent its `REGISTER_NICK`. -/
def start (nick buddies : Nick) : GpshubClient where
  nick := nick
  buddies := buddies
  userid := none
  token := none
  gpsChannel := none
  udpInitialized := false
  listening := true
  opened := 0

/-- `_connect_gps_channel`; the new socket gets the address `addr`. -/
def connectGpsChannel (addr : SockAddr) (c : GpshubClient) : Option GpshubClient := do
  let uid ← c.userid
  return { c with gpsChannel := some ⟨uid, addr⟩, opened := c.opened + 1 }

/-- `_handle_cmd_pkg`, and the commands it sends; `none` is an exception, or `exit(1)`. -/
def handleCmdPkg (addr : SockAddr) (c : GpshubClient) : Decoded →
    Option (GpshubClient × List CmdPkg)
  | .registerNickAck status userid =>
    if status = 1 then do
      let c := { c with userid }
      let c ← if c.token.isSome then c.connectGpsChannel addr else some c
      return (c, [.addBuddies c.buddies])
    else none
  | .initializeUdp token => do
    let c := { c with token := some token }
    let c ←
      if c.userid.isSome then connectGpsChannel addr { c with udpInitialized := false }
      else some c
    return (c, [])
  | .initializeUdpAck status => some ({ c with udpInitialized := c.udpInitialized || status = 1 }, [])
  | .buddiesIds _ => some (c, [])
  | .unknown => some (c, [])

/-- One round of the loop of `CmdChannelListener.run`, in which `pkg` arrives. -/
def hear (addr : SockAddr) (pkg : CmdPkg) (c : GpshubClient) : GpshubClient × List CmdPkg :=
  match (CmdChannel.read pkg).bind (c.handleCmdPkg addr) with
  | some r => r
  | none => ({ c with listening := false }, [])

/-- One round of the loop of `_initialize_udp`: where from, and what, is sent. -/
def initializeUdp (c : GpshubClient) : Option (SockAddr × List UInt8) :=
  if c.udpInitialized then none
  else do
    let channel ← c.gpsChannel
    let token ← c.token
    return (channel.addr, channel.initUdp token)

end GpshubClient
end Gpshub
