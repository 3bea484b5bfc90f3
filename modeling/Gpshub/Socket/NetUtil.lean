import Gpshub.Base.Memory
import Mathlib.Data.BitVec

/-! Socket addresses and the byte order conversions of `netutil`. -/
namespace Gpshub

def AF_INET : UInt16 := 2

/-- What the code reads of a `sockaddr_storage`: the family, the port (at the same place
in `sockaddr_in` and `sockaddr_in6`) and the two addresses (at different places). -/
structure SockAddr where
  family : UInt16
  port : UInt16
  sinAddr : UInt32
  sin6Addr : BitVec 128
  deriving DecidableEq, Repr, Inhabited

def socketEquals (sa1 sa2 : SockAddr) : Bool :=
  if sa1.family ≠ sa2.family then false
  else if sa1.family = AF_INET then sa1.sinAddr == sa2.sinAddr && sa1.port == sa2.port
  else sa1.sin6Addr == sa2.sin6Addr && sa1.port == sa2.port

def ipEquals (sa1 sa2 : SockAddr) : Bool :=
  if sa1.family ≠ sa2.family then false
  else if sa1.family = AF_INET then sa1.sinAddr == sa2.sinAddr
  else sa1.sin6Addr == sa2.sin6Addr

/-- `ntohl` of the four bytes at `index`. -/
def touint (buf : List UInt8) (index : ℕ) : UInt32 :=
  .ofNat ((byteAt buf index).toNat * 2 ^ 24 + (byteAt buf (index + 1)).toNat * 2 ^ 16 +
    (byteAt buf (index + 2)).toNat * 2 ^ 8 + (byteAt buf (index + 3)).toNat)

def toint (buf : List UInt8) (index : ℕ) : Int32 := (touint buf index).toInt32

/-- `ntohs` of the two bytes at `index`. -/
def toushort (buf : List UInt8) (index : ℕ) : UInt16 :=
  .ofNat ((byteAt buf index).toNat * 2 ^ 8 + (byteAt buf (index + 1)).toNat)

/-- The bytes `htons` leaves in memory. -/
def shortBytes (val : UInt16) : List UInt8 :=
  [.ofNat (val.toNat / 2 ^ 8), .ofNat val.toNat]

/-- The bytes `htonl` leaves in memory. -/
def intBytes (val : UInt32) : List UInt8 :=
  [.ofNat (val.toNat / 2 ^ 24), .ofNat (val.toNat / 2 ^ 16), .ofNat (val.toNat / 2 ^ 8),
    .ofNat val.toNat]

/-- `tobytes` for `unsigned short` -/
def tobytesUShort (buf : List UInt8) (index : ℕ) (val : UInt16) : Except Abort (List UInt8) :=
  memcpy buf index (shortBytes val)

/-- `tobytes` for `int` -/
def tobytesInt (buf : List UInt8) (index : ℕ) (val : Int32) : Except Abort (List UInt8) :=
  memcpy buf index (intBytes val.toUInt32)

theorem toushort_toNat (buf : List UInt8) (index : ℕ) :
    (toushort buf index).toNat =
      (byteAt buf index).toNat * 256 + (byteAt buf (index + 1)).toNat := by
  have h1 := (byteAt buf index).toNat_lt
  have h2 := (byteAt buf (index + 1)).toNat_lt
  simp only [toushort, UInt16.toNat_ofNat']
  omega

theorem toushort_congr {buf buf' : List UInt8} {index : ℕ}
    (h1 : byteAt buf index = byteAt buf' index)
    (h2 : byteAt buf (index + 1) = byteAt buf' (index + 1)) :
    toushort buf index = toushort buf' index := by
  simp only [toushort, h1, h2]

theorem touint_intBytes (pre post : List UInt8) (val : UInt32) :
    touint (pre ++ (intBytes val ++ post)) pre.length = val := by
  have hlt := val.toNat_lt
  have h0 := byteAt_append_add pre (intBytes val ++ post) 0
  have h1 := byteAt_append_add pre (intBytes val ++ post) 1
  have h2 := byteAt_append_add pre (intBytes val ++ post) 2
  have h3 := byteAt_append_add pre (intBytes val ++ post) 3
  apply UInt32.toNat_inj.mp
  rw [Nat.add_zero] at h0
  simp only [touint, h0, h1, h2, h3]
  show (UInt32.ofNat ((UInt8.ofNat (val.toNat / 2 ^ 24)).toNat * 2 ^ 24 +
    (UInt8.ofNat (val.toNat / 2 ^ 16)).toNat * 2 ^ 16 +
    (UInt8.ofNat (val.toNat / 2 ^ 8)).toNat * 2 ^ 8 + (UInt8.ofNat val.toNat).toNat)).toNat = _
  simp only [UInt32.toNat_ofNat', UInt8.toNat_ofNat']
  omega

theorem toint_intBytes (pre post : List UInt8) (val : Int32) :
    toint (pre ++ (intBytes val.toUInt32 ++ post)) pre.length = val := by
  rw [toint, touint_intBytes, Int32.toInt32_toUInt32]

theorem toushort_shortBytes (pre post : List UInt8) (val : UInt16) :
    toushort (pre ++ (shortBytes val ++ post)) pre.length = val := by
  have hlt := val.toNat_lt
  have h0 := byteAt_append_add pre (shortBytes val ++ post) 0
  have h1 := byteAt_append_add pre (shortBytes val ++ post) 1
  apply UInt16.toNat_inj.mp
  rw [Nat.add_zero] at h0
  rw [toushort_toNat, h0, h1]
  show (UInt8.ofNat (val.toNat / 2 ^ 8)).toNat * 256 + (UInt8.ofNat val.toNat).toNat = _
  simp only [UInt8.toNat_ofNat']
  omega

@[simp] theorem shortBytes_length (val : UInt16) : (shortBytes val).length = 2 := rfl

@[simp] theorem intBytes_length (val : UInt32) : (intBytes val).length = 4 := rfl

end Gpshub
