import Gpshub.Hub.Reply

/-! What the Python client reads from each package of the server. -/
namespace Gpshub

namespace CmdChannel

/-- What `__decode_pkg` adds to the dictionary of a package. -/
inductive Decoded
  | registerNickAck (status : UInt8) (userid : Option UInt32)
  | buddiesIds (buddies : UInt32 → Option Nick)
  | initializeUdp (token : UInt32)
  | initializeUdpAck (status : UInt8)
  | unknown

/-- `none` is an `IndexError` or a `struct.error`, here and below. -/
def decodeNickAck (data : List UInt8) : Option Decoded := do
  let status ← data[0]?
  if status = 1 then
    let userid ← unpackUInt data 1
    return .registerNickAck status (some userid)
  else return .registerNickAck status none

def decodeInitializeUdp (data : List UInt8) : Option Decoded := do
  let token ← unpackUInt data 0
  return .initializeUdp token

def decodeInitializeUdpAck (data : List UInt8) : Option Decoded := do
  let status ← data[0]?
  return .initializeUdpAck status

/-- `__decode_pkg` -/
def decodePkg (type : UInt8) (len : UInt16) (data : List UInt8) : Option Decoded :=
  if type = CmdPkg.REGISTER_NICK_ACK then decodeNickAck data
  else if type = CmdPkg.BUDDIES_IDS then (decodeBuddiesIds len data).map .buddiesIds
  else if type = CmdPkg.INITIALIZE_UDP then decodeInitializeUdp data
  else if type = CmdPkg.INITIALIZE_UDP_ACK then decodeInitializeUdpAck data
  else some .unknown

/-- `read`, when the whole package has arrived. -/
def read (p : CmdPkg) : Option Decoded := decodePkg p.getType p.getLen (p.getBytes.drop 3)

end CmdChannel

namespace CmdPkg

/-- A package whose header is followed by `mem`. -/
def make (type : UInt8) (len : UInt16) (mem : List UInt8) : CmdPkg :=
  ⟨type :: (shortBytes len ++ mem)⟩

section Make

variable {type : UInt8} {len : UInt16} {mem : List UInt8} {p q : CmdPkg}

@[simp] theorem getType_make : (make type len mem).getType = type := rfl

@[simp] theorem getLen_make : (make type len mem).getLen = len :=
  toushort_shortBytes [type] mem len

theorem drop_getBytes_make : (make type len mem).getBytes.drop 3 = mem.take (len.toNat - 3) := by
  rw [getBytes, getLen_make, List.drop_take]
  rfl

/-- `malloc` and the constructor leave a header and room for the data and the terminator. -/
theorem new_eq_make {junk : ℕ → UInt8} (he : new junk type len = .ok p) :
    ∃ mem, mem.length + 2 = len.toNat ∧ p = make type len mem := by
  obtain ⟨a, ha, he⟩ := bind_eq_ok.mp he
  obtain ⟨b, hb, he⟩ := bind_eq_ok.mp he
  obtain ⟨c, hc, he⟩ := bind_eq_ok.mp he
  cases he
  unfold store at ha hb
  split_ifs at ha hb with hlen hpos
  cases ha
  cases hb
  obtain ⟨hroom, rfl⟩ := memcpy_eq_ok hc
  generalize hm : ((List.range (len.toNat + 1)).map junk).set len.toNat 0 = m at hroom hpos
  have hmlen : m.length = len.toNat + 1 := by
    rw [← hm]
    simp
  cases m with
  | nil => exact absurd hpos (lt_irrefl 0)
  | cons x m =>
    refine ⟨m.drop 2, ?_, rfl⟩
    simp only [List.set_cons_zero, List.length_cons, shortBytes_length] at hroom hmlen
    rw [List.length_drop]
    omega

theorem setByte_make {index : ℕ} {val : UInt8} (he : (make type len mem).setByte index val = .ok q) :
    q = make type len (mem.set index val) := by
  obtain ⟨bytes, hb, he⟩ := bind_eq_ok.mp he
  cases he
  unfold store at hb
  split_ifs at hb
  cases hb
  rw [Nat.add_comm]
  rfl

theorem setInt_make {index : ℕ} {val : Int32} (he : (make type len mem).setInt index val = .ok q) :
    q = make type len (mem.take index ++ intBytes val.toUInt32 ++ mem.drop (index + 4)) := by
  obtain ⟨-, hq⟩ := setInt_eq_ok he
  rw [Nat.add_comm 3 index, Nat.add_right_comm index 3 4] at hq
  obtain ⟨bytes⟩ := q
  cases hq
  rfl

theorem setBytes_make {index : ℕ} {buf : List UInt8}
    (he : (make type len mem).setBytes index buf = .ok q) :
    q = make type len (mem.take index ++ buf ++ mem.drop (index + buf.length)) := by
  obtain ⟨-, hq⟩ := setBytes_eq_ok he
  rw [Nat.add_comm 3 index, Nat.add_right_comm index 3 buf.length] at hq
  obtain ⟨bytes⟩ := q
  cases hq
  rfl

end Make
end CmdPkg

section Packages

variable {env : Env} {p : CmdPkg}
open CommandHandler GpsDataServer CmdChannel

theorem registerFail_data {status : UInt8} (he : registerFail env status = .ok p) :
    p.getType = CmdPkg.REGISTER_NICK_ACK ∧ p.getBytes.drop 3 = [status] := by
  obtain ⟨a, ha, he⟩ := bind_eq_ok.mp he
  obtain ⟨mem, hlen, rfl⟩ := CmdPkg.new_eq_make ha
  cases CmdPkg.setByte_make he
  refine ⟨rfl, ?_⟩
  rw [CmdPkg.drop_getBytes_make]
  obtain ⟨x, y, rfl⟩ := List.length_eq_two.mp (Nat.succ.inj (Nat.succ.inj hlen))
  rfl

theorem registerOk_data {id : Int32} (he : registerOk env id = .ok p) :
    p.getType = CmdPkg.REGISTER_NICK_ACK ∧ p.getBytes.drop 3 = 1 :: intBytes id.toUInt32 := by
  obtain ⟨a, ha, he⟩ := bind_eq_ok.mp he
  obtain ⟨mem, hlen, rfl⟩ := CmdPkg.new_eq_make ha
  obtain ⟨b, hb, he⟩ := bind_eq_ok.mp he
  cases CmdPkg.setByte_make hb
  cases CmdPkg.setInt_make he
  refine ⟨rfl, ?_⟩
  rw [CmdPkg.drop_getBytes_make]
  cases mem with
  | nil => cases hlen
  | cons x mem => rfl

theorem initUdp_data {token : Int32} (he : initUdp env token = .ok p) :
    p.getType = CmdPkg.INITIALIZE_UDP ∧ p.getBytes.drop 3 = intBytes token.toUInt32 := by
  obtain ⟨a, ha, he⟩ := bind_eq_ok.mp he
  obtain ⟨mem, hlen, rfl⟩ := CmdPkg.new_eq_make ha
  cases CmdPkg.setInt_make he
  refine ⟨rfl, ?_⟩
  rw [CmdPkg.drop_getBytes_make]
  rfl

theorem udpInitAck_data {status : UInt8} (he : udpInitAck env status = .ok p) :
    p.getType = CmdPkg.INITIALIZE_UDP_ACK ∧ p.getBytes.drop 3 = [status] := by
  obtain ⟨a, ha, he⟩ := bind_eq_ok.mp he
  obtain ⟨mem, hlen, rfl⟩ := CmdPkg.new_eq_make ha
  cases CmdPkg.setByte_make he
  refine ⟨rfl, ?_⟩
  rw [CmdPkg.drop_getBytes_make]
  obtain ⟨x, y, rfl⟩ := List.length_eq_two.mp (Nat.succ.inj (Nat.succ.inj hlen))
  rfl

theorem writeIds_make {type : UInt8} {len : UInt16} (ids : List (Int32 × Nick)) :
    ∀ {offset : ℕ} {mem : List UInt8} {q : CmdPkg},
      writeIds ids offset (.make type len mem) = .ok q → ∃ mem', q = .make type len mem' := by
  induction ids with
  | nil =>
    intro offset mem q he
    cases he
    exact ⟨mem, rfl⟩
  | cons e ids ih =>
    intro offset mem q he
    obtain ⟨a, ha, he⟩ := bind_eq_ok.mp he
    cases CmdPkg.setInt_make ha
    obtain ⟨b, hb, he⟩ := bind_eq_ok.mp he
    cases CmdPkg.setBytes_make hb
    exact ih he

theorem idsPkg_type {ids : List (Int32 × Nick)} {len : ℕ} (he : idsPkg env ids len = .ok p) :
    p.getType = CmdPkg.BUDDIES_IDS := by
  obtain ⟨a, ha, he⟩ := bind_eq_ok.mp he
  obtain ⟨mem, -, rfl⟩ := CmdPkg.new_eq_make ha
  obtain ⟨mem', rfl⟩ := writeIds_make ids he
  rfl

theorem unpackUInt_intBytes (pre post : List UInt8) (val : UInt32) :
    unpackUInt (pre ++ (intBytes val ++ post)) pre.length = some val := by
  have hlen : pre.length + 4 ≤ (pre ++ (intBytes val ++ post)).length := by
    simp only [List.length_append, intBytes_length]
    omega
  rw [unpackUInt, if_pos hlen, touint_intBytes]

theorem read_registerFail {status : UInt8} (hs : status ≠ 1)
    (he : registerFail env status = .ok p) : CmdChannel.read p = some (.registerNickAck status none) := by
  obtain ⟨htype, hdata⟩ := registerFail_data he
  rw [CmdChannel.read, htype, hdata]
  show decodeNickAck [status] = _
  simp [decodeNickAck, hs]

theorem read_registerOk {id : Int32} (he : registerOk env id = .ok p) :
    CmdChannel.read p = some (.registerNickAck 1 (some id.toUInt32)) := by
  obtain ⟨htype, hdata⟩ := registerOk_data he
  have hid : unpackUInt (1 :: intBytes id.toUInt32) 1 = some id.toUInt32 := by
    have hread := unpackUInt_intBytes [1] [] id.toUInt32
    rwa [List.append_nil] at hread
  rw [CmdChannel.read, htype, hdata]
  show decodeNickAck (1 :: intBytes id.toUInt32) = _
  rw [decodeNickAck, hid]
  rfl

theorem read_initUdp {token : Int32} (he : initUdp env token = .ok p) :
    CmdChannel.read p = some (.initializeUdp token.toUInt32) := by
  obtain ⟨htype, hdata⟩ := initUdp_data he
  have htoken : unpackUInt (intBytes token.toUInt32) 0 = some token.toUInt32 := by
    have hread := unpackUInt_intBytes [] [] token.toUInt32
    rwa [List.append_nil] at hread
  rw [CmdChannel.read, htype, hdata]
  show decodeInitializeUdp (intBytes token.toUInt32) = _
  simp [decodeInitializeUdp, htoken]

theorem read_udpInitAck {status : UInt8} (he : udpInitAck env status = .ok p) :
    CmdChannel.read p = some (.initializeUdpAck status) := by
  obtain ⟨htype, hdata⟩ := udpInitAck_data he
  rw [CmdChannel.read, htype, hdata]
  rfl

theorem read_buddiesIds (htype : p.getType = CmdPkg.BUDDIES_IDS) :
    CmdChannel.read p = (decodeBuddiesIds p.getLen (p.getBytes.drop 3)).map .buddiesIds := by
  rw [CmdChannel.read, htype]
  rfl

end Packages
end Gpshub
