import Gpshub.Socket.NetUtil

/-! Command packages: one type byte, two length bytes, the data. -/
namespace Gpshub

/-- A C string: bytes up to, and without, the terminating `'\0'`. -/
abbrev Nick := List UInt8

/-- `CmdPkg` owns its bytes or borrows a buffer that holds more than the package. -/
structure CmdPkg where
  bytes : List UInt8
  deriving DecidableEq, Repr, Inhabited

namespace CmdPkg

def REGISTER_NICK : UInt8 := 1
def ADD_BUDDIES : UInt8 := 2
def REMOVE_BUDDIES : UInt8 := 3
def REGISTER_NICK_ACK : UInt8 := 101
def INITIALIZE_UDP : UInt8 := 105
def INITIALIZE_UDP_ACK : UInt8 := 106
def BUDDIES_IDS : UInt8 := 150

def getType (p : CmdPkg) : UInt8 := byteAt p.bytes 0

def getLen (p : CmdPkg) : UInt16 := toushort p.bytes 1

/-- The string that starts at `bytes + 3`. -/
def getData (p : CmdPkg) : Nick := (p.bytes.drop 3).takeWhile (· ≠ 0)

/-- The bytes a `Send` of the package is given. -/
def getBytes (p : CmdPkg) : List UInt8 := p.bytes.take p.getLen.toNat

/-- `CmdPkg(char* buf)`: borrows `buf` and terminates its data in place. -/
def ofBuffer (buf : List UInt8) : Except Abort CmdPkg := do
  let bytes ← store buf (toushort buf 1).toNat 0
  return { bytes }

/-- `CmdPkg(char type, unsigned short len)`; `junk` is what `malloc` leaves in the block. -/
def new (junk : ℕ → UInt8) (type : UInt8) (len : UInt16) : Except Abort CmdPkg := do
  let bytes := (List.range (len.toNat + 1)).map junk
  let bytes ← store bytes len.toNat 0
  let bytes ← store bytes 0 type
  let bytes ← tobytesUShort bytes 1 len
  return { bytes }

/-- `getData()[index] = val` -/
def setByte (p : CmdPkg) (index : ℕ) (val : UInt8) : Except Abort CmdPkg := do
  let bytes ← store p.bytes (3 + index) val
  return { bytes }

def setInt (p : CmdPkg) (index : ℕ) (val : Int32) : Except Abort CmdPkg := do
  let bytes ← tobytesInt p.bytes (3 + index) val
  return { bytes }

def setBytes (p : CmdPkg) (index : ℕ) (buf : List UInt8) : Except Abort CmdPkg := do
  let bytes ← memcpy p.bytes (3 + index) buf
  return { bytes }

/-- A fresh package has the type it was made with, and room for its header. -/
theorem new_eq_ok {junk : ℕ → UInt8} {type : UInt8} {len : UInt16} {p : CmdPkg}
    (he : new junk type len = .ok p) : p.getType = type ∧ 3 ≤ p.bytes.length := by
  obtain ⟨a, ha, he⟩ := bind_eq_ok.mp he
  obtain ⟨b, hb, he⟩ := bind_eq_ok.mp he
  obtain ⟨c, hc, he⟩ := bind_eq_ok.mp he
  cases he
  obtain ⟨hlen, rfl⟩ := memcpy_eq_ok hc
  unfold store at hb
  split_ifs at hb with ha0
  cases hb
  simp only [List.length_set, shortBytes_length] at hlen
  constructor
  · simp only [getType]
    rw [List.append_assoc, byteAt_append_left (by simp; omega), byteAt_take one_pos]
    simp [byteAt, List.getD_eq_getElem?_getD, ha0]
  · simp only [List.length_append, List.length_take, List.length_drop, List.length_set,
      shortBytes_length]
    omega

/-- There is a fresh package of every length that leaves room for the header. -/
theorem new_ok (junk : ℕ → UInt8) (type : UInt8) {len : UInt16} (hlen : 3 ≤ len.toNat) :
    ∃ p, new junk type len = .ok p ∧ p.bytes.length = len.toNat + 1 ∧ p.getLen = len := by
  have hn : ((List.range (len.toNat + 1)).map junk).length = len.toNat + 1 := by simp
  unfold new
  generalize (List.range (len.toNat + 1)).map junk = mem at hn
  dsimp only
  rw [store_eq (by omega), ok_bind, store_eq (by rw [List.length_set]; omega), ok_bind]
  have hset : ((mem.set len.toNat 0).set 0 type).length = len.toNat + 1 := by simpa using hn
  generalize (mem.set len.toNat 0).set 0 type = head at hset
  have hroom : 1 + (shortBytes len).length ≤ head.length := by
    rw [hset, shortBytes_length]
    omega
  have hcopy := memcpy_eq hroom
  have hone : (head.take 1).length = 1 := by
    rw [List.length_take]
    omega
  refine ⟨⟨head.take 1 ++ shortBytes len ++ head.drop (1 + (shortBytes len).length)⟩, ?_, ?_, ?_⟩
  · rw [tobytesUShort, hcopy]
    rfl
  · exact (memcpy_length hcopy).trans hset
  · have hread := toushort_shortBytes (head.take 1) (head.drop (1 + (shortBytes len).length)) len
    rw [hone, ← List.append_assoc] at hread
    exact hread

theorem setInt_ok {p : CmdPkg} {index : ℕ} (val : Int32) (hi : 3 + index + 4 ≤ p.bytes.length) :
    ∃ q, p.setInt index val = .ok q ∧ q.bytes.length = p.bytes.length := by
  have hroom : 3 + index + (intBytes val.toUInt32).length ≤ p.bytes.length := hi
  have hcopy := memcpy_eq hroom
  exact ⟨⟨_⟩, by rw [setInt, tobytesInt, hcopy]; rfl, memcpy_length hcopy⟩

theorem setBytes_ok {p : CmdPkg} {index : ℕ} {buf : List UInt8}
    (hi : 3 + index + buf.length ≤ p.bytes.length) :
    ∃ q, p.setBytes index buf = .ok q ∧ q.bytes.length = p.bytes.length := by
  have hcopy := memcpy_eq hi
  exact ⟨⟨_⟩, by rw [setBytes, hcopy]; rfl, memcpy_length hcopy⟩

theorem header_congr {p q : CmdPkg} (h : q.bytes.take 3 = p.bytes.take 3) :
    q.getType = p.getType ∧ q.getLen = p.getLen := by
  have hbyte (i : ℕ) (hi : i < 3) : byteAt q.bytes i = byteAt p.bytes i := by
    rw [← byteAt_take hi, h, byteAt_take hi]
  exact ⟨hbyte 0 (by decide), toushort_congr (hbyte 1 (by decide)) (hbyte 2 (by decide))⟩

theorem setInt_eq_ok {p q : CmdPkg} {index : ℕ} {val : Int32} (he : p.setInt index val = .ok q) :
    3 + index + 4 ≤ p.bytes.length ∧ q.bytes =
      p.bytes.take (3 + index) ++ intBytes val.toUInt32 ++ p.bytes.drop (3 + index + 4) := by
  obtain ⟨bytes, hb, he⟩ := bind_eq_ok.mp he
  cases he
  exact memcpy_eq_ok hb

theorem setBytes_eq_ok {p q : CmdPkg} {index : ℕ} {buf : List UInt8}
    (he : p.setBytes index buf = .ok q) :
    3 + index + buf.length ≤ p.bytes.length ∧ q.bytes =
      p.bytes.take (3 + index) ++ buf ++ p.bytes.drop (3 + index + buf.length) := by
  obtain ⟨bytes, hb, he⟩ := bind_eq_ok.mp he
  cases he
  exact memcpy_eq_ok hb

/-- What a client sends to register `nick`, as `ofBuffer` leaves it. -/
def registerNick (nick : Nick) : CmdPkg :=
  ⟨REGISTER_NICK :: shortBytes (.ofNat (3 + nick.length)) ++ nick ++ [0]⟩

end CmdPkg
end Gpshub
