import Gpshub.Server.CmdPkg
import Gpshub.Thread.SyncHashMap

/-! Users: identity, buddies, the two coordinate slots, the UDP address. -/
namespace Gpshub

structure Coordinates where
  longitude : Int32
  latitude : Int32
  altitude : Int32
  deriving DecidableEq, Repr, Inhabited

/-- The two `Coordinates` a user owns; the pointers `empty` and `ready` name one of them. -/
inductive Slot
  | slot1
  | slot2
  deriving DecidableEq, Repr

def Slot.other : Slot → Slot
  | .slot1 => .slot2
  | .slot2 => .slot1

/-- A `Socket*` -/
abbrev SocketRef := ℕ

structure User where
  id : Int32
  nick : Nick
  buddies : SyncHashSet Nick
  slot1 : Coordinates
  slot2 : Coordinates
  empty : Slot
  ready : Option Slot
  addrUdp : SockAddr
  udpReady : Bool
  sock : Option SocketRef
  token : Int32
  deriving DecidableEq, Repr

namespace User

/-- `User(id, nick)`. The constructor does not set `addr_udp` and `token`: they keep what is
in the memory. -/
def new (id : Int32) (nick : Nick) (addrUdp : SockAddr) (token : Int32) : User where
  id := id
  nick := nick
  buddies := .empty
  slot1 := ⟨0, 0, 0⟩
  slot2 := ⟨0, 0, 0⟩
  empty := .slot1
  ready := none
  addrUdp := addrUdp
  udpReady := false
  sock := none
  token := token

def slot (u : User) : Slot → Coordinates
  | .slot1 => u.slot1
  | .slot2 => u.slot2

def setSlot (u : User) : Slot → Coordinates → User
  | .slot1, c => { u with slot1 := c }
  | .slot2, c => { u with slot2 := c }

section SetSlot

variable (u : User) (c : Slot) (x : Coordinates)

@[simp] theorem empty_setSlot : (u.setSlot c x).empty = u.empty := by
  cases c <;> rfl

@[simp] theorem ready_setSlot : (u.setSlot c x).ready = u.ready := by
  cases c <;> rfl

@[simp] theorem buddies_setSlot : (u.setSlot c x).buddies = u.buddies := by
  cases c <;> rfl

theorem slot_setSlot_self : (u.setSlot c x).slot c = x := by
  cases c <;> rfl

variable {c} in
theorem slot_setSlot_ne {d : Slot} (hd : d ≠ c) : (u.setSlot c x).slot d = u.slot d := by
  cases c <;> cases d <;> first | rfl | exact absurd rfl hd

end SetSlot

/-- `u->getEmpty()->longitude = val` -/
def setLongitude (u : User) (val : Int32) : User :=
  u.setSlot u.empty { u.slot u.empty with longitude := val }

def setLatitude (u : User) (val : Int32) : User :=
  u.setSlot u.empty { u.slot u.empty with latitude := val }

def setAltitude (u : User) (val : Int32) : User :=
  u.setSlot u.empty { u.slot u.empty with altitude := val }

def setReady (u : User) (c : Option Slot) : User := { u with ready := c }

/-- `setEmpty` as `processCoordinates` calls it: the slot that was not empty before. -/
def swapEmpty (u : User) : User :=
  { u with empty := if u.empty = .slot1 then .slot2 else .slot1 }

def setAddrUdp (u : User) (addr : SockAddr) : User :=
  { u with addrUdp := addr, udpReady := true }

def setSockPtr (u : User) (sock : SocketRef) : User := { u with sock := some sock }

def setToken (u : User) (token : Int32) : User := { u with token }

def insertBuddy (u : User) (nick : Nick) : User := { u with buddies := u.buddies.insert nick }

def eraseBuddy (u : User) (nick : Nick) : User := { u with buddies := u.buddies.erase nick }

/-- The part of a user that is fixed at registration. -/
def ident (u : User) : Int32 × Nick × Option SocketRef := (u.id, u.nick, u.sock)

end User
end Gpshub
