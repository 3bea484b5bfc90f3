import Gpshub.Base.Memory
import Mathlib.Data.Nat.ModEq
import Mathlib.Tactic.Ring

/-! `CircularBuffer` as the code computes it, and what its calls do within its bounds. -/
namespace Gpshub

/-- `start` and `end` count all bytes ever taken and added: they are reduced modulo the
capacity only when an index is computed. -/
structure CircularBuffer where
  buf : List UInt8
  capacity : Int32
  start : Int32
  end_ : Int32
  count : Int32
  deriving DecidableEq, Repr

namespace CircularBuffer

/-- `memory` is what `malloc(capacity)` returns. -/
def new (capacity : Int32) (memory : List UInt8) : CircularBuffer :=
  { buf := memory, capacity, start := 0, end_ := 0, count := 0 }

/-- The element `buf[j]` names. -/
def cell (mem : List UInt8) (j : Int32) : Except Abort ℕ :=
  if 0 ≤ j ∧ j.toNatClampNeg < mem.length then .ok j.toNatClampNeg else .error .badIndex

/-- The loop of `add`: `n` bytes are written, the rest is to come. -/
def addLoop (c : CircularBuffer) (mem : List UInt8) :
    List UInt8 → ℕ → Except Abort (List UInt8 × ℕ)
  | [], n => .ok (mem, n)
  | b :: rest, n =>
    let j := (c.end_ + Int32.ofNat n) % c.capacity
    if j = c.start ∧ 0 < n then .ok (mem, n)
    else do
      let k ← cell mem j
      addLoop c (mem.set k b) rest (n + 1)

/-- `add(bytes, len)` with `len` the number of the bytes. -/
def add (c : CircularBuffer) (bytes : List UInt8) : Except Abort (CircularBuffer × ℕ) := do
  let (mem, n) ← c.addLoop c.buf bytes 0
  return ({ c with
    buf := mem
    end_ := c.end_ + Int32.ofNat n
    count := c.count + Int32.ofNat n }, n)

/-- The loop `get` and `read` share, from its `i`-th round on: the bytes copied out. -/
def copyLoop (c : CircularBuffer) : ℕ → ℕ → Except Abort (List UInt8)
  | 0, _ => .ok []
  | left + 1, i =>
    let j := (c.start + Int32.ofNat i) % c.capacity
    if j = c.end_ ∧ 0 < i then .ok []
    else do
      let k ← cell c.buf j
      let rest ← copyLoop c left (i + 1)
      return byteAt c.buf k :: rest

def get (c : CircularBuffer) (len : ℕ) : Except Abort (CircularBuffer × List UInt8) := do
  let bytes ← c.copyLoop len 0
  return ({ c with
    start := c.start + Int32.ofNat bytes.length
    count := c.count - Int32.ofNat bytes.length }, bytes)

def read (c : CircularBuffer) (len : ℕ) : Except Abort (List UInt8) := c.copyLoop len 0

def size (c : CircularBuffer) : Int32 := c.count

/-- The memory `mem` of a buffer of capacity `cap` that was given the bytes `s` in all: the
last `cap` of them stand at their positions modulo `cap`. -/
def Shows (mem : List UInt8) (cap : ℕ) (s : List UInt8) : Prop :=
  mem.length = cap ∧
    ∀ p, p < s.length → s.length ≤ p + cap → byteAt mem (p % cap) = byteAt s p

/-- The buffer of capacity `cap` was given the bytes `s` in all, never more than it had
room for, and `taken` of them have been taken out. -/
structure Holds (c : CircularBuffer) (cap : ℕ) (s : List UInt8) (taken : ℕ) : Prop where
  capacity : c.capacity = Int32.ofNat cap
  pos : 0 < cap
  small : cap < 2 ^ 31
  start : c.start = Int32.ofNat taken
  end_ : c.end_ = Int32.ofNat s.length
  count : c.count = Int32.ofNat (s.length - taken)
  order : taken ≤ s.length
  room : s.length ≤ taken + cap
  total : s.length < 2 ^ 31
  memory : Shows c.buf cap s

/-- The positions from which `%` still gets the right index: below `2 ^ 31`, `2 ^ 31` itself
for a capacity that divides it, and all of them in a buffer of one byte. -/
def Indexable (cap p : ℕ) : Prop := cap = 1 ∨ p < 2 ^ 31 ∨ p = 2 ^ 31 ∧ cap ∣ 2 ^ 31

/-- As `Holds`, for as long as the positions of all bytes added can be indexed. -/
structure Ring (c : CircularBuffer) (cap : ℕ) (s : List UInt8) (taken : ℕ) : Prop where
  capacity : c.capacity = Int32.ofNat cap
  pos : 0 < cap
  small : cap < 2 ^ 31
  start : c.start = Int32.ofNat taken
  end_ : c.end_ = Int32.ofNat s.length
  count : c.count = Int32.ofNat (s.length - taken)
  order : taken ≤ s.length
  room : s.length ≤ taken + cap
  indexable : ∀ p < s.length, Indexable cap p
  memory : Shows c.buf cap s

theorem Holds.ring {c : CircularBuffer} {cap taken : ℕ} {s : List UInt8}
    (h : Holds c cap s taken) : Ring c cap s taken where
  capacity := h.capacity
  pos := h.pos
  small := h.small
  start := h.start
  end_ := h.end_
  count := h.count
  order := h.order
  room := h.room
  indexable _ hp := Or.inr (Or.inl (hp.trans h.total))
  memory := h.memory

theorem Ring.holds {c : CircularBuffer} {cap taken : ℕ} {s : List UInt8}
    (h : Ring c cap s taken) (htotal : s.length < 2 ^ 31) : Holds c cap s taken where
  capacity := h.capacity
  pos := h.pos
  small := h.small
  start := h.start
  end_ := h.end_
  count := h.count
  order := h.order
  room := h.room
  total := htotal
  memory := h.memory

theorem ofNat_inj {a b : ℕ} (ha : a < 2 ^ 31) (hb : b < 2 ^ 31) :
    Int32.ofNat a = Int32.ofNat b ↔ a = b := by
  rw [← Int32.toInt_inj, Int32.toInt_ofNat_of_lt ha, Int32.toInt_ofNat_of_lt hb]
  omega

theorem ofNat_inj_of_lt {a b : ℕ} (ha : a < 2 ^ 32) (hb : b < 2 ^ 32) :
    Int32.ofNat a = Int32.ofNat b ↔ a = b := by
  constructor
  · intro h
    have hbits : (Int32.ofNat a).toBitVec.toNat = (Int32.ofNat b).toBitVec.toNat := by rw [h]
    rw [Int32.toBitVec_ofNat', Int32.toBitVec_ofNat', BitVec.toNat_ofNat, BitVec.toNat_ofNat]
      at hbits
    omega
  · rintro rfl
    rfl

theorem ofNat_add (a b : ℕ) : Int32.ofNat a + Int32.ofNat b = Int32.ofNat (a + b) :=
  (Int32.ofNat_add a b).symm

theorem ofNat_sub {a b : ℕ} (h : b ≤ a) :
    Int32.ofNat a - Int32.ofNat b = Int32.ofNat (a - b) := by
  have h2 : a - b + b = a := by omega
  have h3 : Int32.ofNat a = Int32.ofNat (a - b) + Int32.ofNat b := by rw [ofNat_add, h2]
  rw [h3, Int32.add_sub_cancel]

/-- While the positions stay below `2 ^ 31`, an index is the position modulo the capacity.
The position `2 ^ 31` itself has wrapped to the least `int`, whose remainder is still right
for a capacity that divides it. -/
theorem ofNat_mod {a cap : ℕ} (ha : a < 2 ^ 31 ∨ a = 2 ^ 31 ∧ cap ∣ 2 ^ 31)
    (hcap : cap < 2 ^ 31) : Int32.ofNat a % Int32.ofNat cap = Int32.ofNat (a % cap) := by
  rcases ha with ha | ⟨rfl, hd⟩
  · have hm : a % cap < 2 ^ 31 := (Nat.mod_le a cap).trans_lt ha
    rw [← Int32.toInt_inj, Int32.toInt_mod, Int32.toInt_ofNat_of_lt ha,
      Int32.toInt_ofNat_of_lt hcap, Int32.toInt_ofNat_of_lt hm]
    rfl
  · have hmin : (Int32.ofNat (2 ^ 31)).toInt = -(2 ^ 31 : ℕ) := by decide
    have hz : (2 ^ 31 : ℕ) % cap = 0 := Nat.mod_eq_zero_of_dvd hd
    have hi : ((2 ^ 31 : ℕ) : ℤ).tmod cap = 0 :=
      Int.tmod_eq_zero_of_dvd (Int.natCast_dvd_natCast.mpr hd)
    rw [← Int32.toInt_inj, Int32.toInt_mod, hmin, Int32.toInt_ofNat_of_lt hcap, hz,
      Int.neg_tmod, hi]
    rfl

theorem Indexable.of_lt {cap p : ℕ} (hp : p < 2 ^ 31) : Indexable cap p := Or.inr (Or.inl hp)

theorem Indexable.le {cap p : ℕ} (h : Indexable cap p) (hcap : cap ≠ 1) : p ≤ 2 ^ 31 := by
  obtain h1 | hlt | ⟨rfl, -⟩ := h
  · exact absurd h1 hcap
  · exact hlt.le
  · exact le_rfl

theorem Indexable.mod {cap p : ℕ} (h : Indexable cap p) (hcap : cap < 2 ^ 31) :
    Int32.ofNat p % Int32.ofNat cap = Int32.ofNat (p % cap) := by
  obtain rfl | h := h
  · rw [← Int32.toInt_inj, Int32.toInt_mod, Nat.mod_one]
    exact Int.tmod_one _
  · exact ofNat_mod h hcap

theorem cell_ofNat {mem : List UInt8} {k : ℕ} (h : k < mem.length) (hk : k < 2 ^ 31) :
    cell mem (Int32.ofNat k) = .ok k := by
  have h1 : (Int32.ofNat k).toNatClampNeg = k := Int32.toNatClampNeg_ofNat_of_lt hk
  have h0 : (0 : Int32) ≤ Int32.ofNat k := by
    rw [Int32.le_iff_toInt_le, Int32.toInt_ofNat_of_lt hk]
    exact Int.natCast_nonneg k
  unfold cell
  rw [h1, if_pos ⟨h0, h⟩]

theorem mod_ne_of_lt {a b cap : ℕ} (hab : a < b) (hb : b < a + cap) : a % cap ≠ b % cap := by
  intro h
  have hd : cap ∣ b - a := (Nat.modEq_iff_dvd' hab.le).mp h
  have := Nat.le_of_dvd (by omega) hd
  omega

theorem Shows.push {mem s : List UInt8} {cap : ℕ} (hcap : 0 < cap) (h : Shows mem cap s)
    (b : UInt8) : Shows (mem.set (s.length % cap) b) cap (s ++ [b]) := by
  obtain ⟨hlen, hlast⟩ := h
  refine ⟨by rw [List.length_set, hlen], fun p hp hw => ?_⟩
  rw [List.length_append, List.length_singleton] at hp hw
  have hmod : s.length % cap < mem.length := by
    rw [hlen]
    exact Nat.mod_lt _ hcap
  by_cases hps : p < s.length
  · have hne : p % cap ≠ s.length % cap := mod_ne_of_lt hps (by omega)
    rw [byteAt_append_left hps, ← hlast p hps (by omega)]
    simp only [byteAt, List.getD_eq_getElem?_getD, List.getElem?_set_ne hne.symm]
  · have hpe : p = s.length := by omega
    subst hpe
    simp [byteAt, List.getD_eq_getElem?_getD, List.getElem?_set_self hmod]

section Calls

variable {c : CircularBuffer} {cap taken : ℕ} {s : List UInt8}

/-- Where more than one byte is held, the positions have not gone past the last index. -/
theorem Ring.length_le (h : Ring c cap s taken) (hcap : cap ≠ 1) : s.length ≤ 2 ^ 31 + 1 := by
  by_contra hlong
  have := (h.indexable (2 ^ 31 + 1) (by omega)).le hcap
  omega

theorem Ring.ne_start (h : Ring c cap s taken) {i : ℕ} (hi : 0 < i)
    (hroom : s.length + i < taken + cap) (hindex : Indexable cap (s.length + i)) :
    (c.end_ + Int32.ofNat i) % c.capacity ≠ c.start := by
  intro he
  have horder := h.order
  have hlt : (s.length + i) % cap < cap := Nat.mod_lt _ h.pos
  have hsmall := h.small
  have hle := h.length_le (by omega)
  rw [h.end_, h.capacity, h.start, ofNat_add, hindex.mod h.small,
    ofNat_inj_of_lt (by omega) (by omega)] at he
  have hself : taken % cap = taken := Nat.mod_eq_of_lt (he ▸ hlt)
  exact mod_ne_of_lt (show taken < s.length + i by omega) hroom (hself.trans he.symm)

private theorem addLoop_eq (h : Ring c cap s taken) (rest : List UInt8) :
    ∀ (done mem : List UInt8), Shows mem cap (s ++ done) →
      s.length + done.length + rest.length ≤ taken + cap →
      (∀ p < s.length + done.length + rest.length, Indexable cap p) →
      ∃ mem', c.addLoop mem rest done.length = .ok (mem', done.length + rest.length) ∧
        Shows mem' cap (s ++ done ++ rest) := by
  induction rest with
  | nil =>
    intro done mem hm _ _
    exact ⟨mem, rfl, by simpa using hm⟩
  | cons b rest ih =>
    intro done mem hm hroom hindex
    rw [List.length_cons] at hroom hindex
    have hpos := h.pos
    have horder := h.order
    let t := s.length + done.length
    have ht : (s ++ done).length = t := List.length_append
    have htc : t % cap < cap := Nat.mod_lt _ hpos
    have hts : t % cap < 2 ^ 31 := htc.trans h.small
    have hj : (c.end_ + Int32.ofNat done.length) % c.capacity = Int32.ofNat (t % cap) := by
      rw [h.end_, h.capacity, ofNat_add, (hindex _ (by omega)).mod h.small]
    have hgo : ¬(Int32.ofNat (t % cap) = c.start ∧ 0 < done.length) := fun hstop =>
      h.ne_start hstop.2 (by omega) (hindex _ (by omega)) (hj.trans hstop.1)
    have hk : cell mem (Int32.ofNat (t % cap)) = .ok (t % cap) :=
      cell_ofNat (hm.1.symm ▸ htc) hts
    have hm' : Shows (mem.set (t % cap) b) cap (s ++ (done ++ [b])) := by
      have hp := hm.push hpos b
      rwa [ht, List.append_assoc] at hp
    obtain ⟨mem', he, hs⟩ := ih (done ++ [b]) _ hm' (by simp; omega)
      (fun p hp => hindex p (by simp at hp; omega))
    refine ⟨mem', ?_, by simpa using hs⟩
    rw [List.length_append, List.length_singleton] at he
    rw [addLoop, hj, if_neg hgo, hk]
    change c.addLoop (mem.set (t % cap) b) rest (done.length + 1) = _
    rw [he, List.length_cons]
    congr 2
    omega

theorem Ring.add_eq (h : Ring c cap s taken) (bytes : List UInt8)
    (hroom : s.length + bytes.length ≤ taken + cap)
    (hindex : ∀ p < s.length + bytes.length, Indexable cap p) :
    ∃ c', c.add bytes = .ok (c', bytes.length) ∧ Ring c' cap (s ++ bytes) taken := by
  have hm : Shows c.buf cap (s ++ []) := by simpa using h.memory
  obtain ⟨mem, he, hs⟩ := addLoop_eq h bytes [] c.buf hm (by simpa using hroom)
    (by simpa using hindex)
  rw [List.length_nil, Nat.zero_add] at he
  rw [List.append_nil] at hs
  have horder := h.order
  refine ⟨_, by rw [add, he]; rfl, ?_⟩
  exact {
    capacity := h.capacity
    pos := h.pos
    small := h.small
    start := h.start
    end_ := by rw [List.length_append, ← ofNat_add, ← h.end_]
    count := by
      rw [List.length_append, show s.length + bytes.length - taken =
        s.length - taken + bytes.length by omega, ← ofNat_add, ← h.count]
    order := by rw [List.length_append]; omega
    room := by rw [List.length_append]; omega
    indexable := by rwa [List.length_append]
    memory := hs }

theorem Holds.add_eq (h : Holds c cap s taken) (bytes : List UInt8)
    (hroom : s.length + bytes.length ≤ taken + cap)
    (htotal : s.length + bytes.length < 2 ^ 31) :
    ∃ c', c.add bytes = .ok (c', bytes.length) ∧ Holds c' cap (s ++ bytes) taken := by
  obtain ⟨c', hadd, h'⟩ := h.ring.add_eq bytes hroom fun p hp => .of_lt (hp.trans htotal)
  exact ⟨c', hadd, h'.holds (by rwa [List.length_append])⟩

/-- What the cell of position `p` shows: the byte at `p`, and past the end of the stream the
byte one capacity earlier. -/
def ringByte (cap : ℕ) (s : List UInt8) (p : ℕ) : UInt8 :=
  if p < s.length then byteAt s p else byteAt s (p - cap)

theorem Ring.index_eq (h : Ring c cap s taken) {i : ℕ} (hi : Indexable cap (taken + i)) :
    (c.start + Int32.ofNat i) % c.capacity = Int32.ofNat ((taken + i) % cap) := by
  rw [h.start, h.capacity, ofNat_add, hi.mod h.small]

private theorem Ring.cell_eq (h : Ring c cap s taken) (p : ℕ) :
    cell c.buf (Int32.ofNat (p % cap)) = .ok (p % cap) := by
  have hp : p % cap < cap := Nat.mod_lt _ h.pos
  exact cell_ofNat (h.memory.1.symm ▸ hp) (hp.trans h.small)

private theorem Ring.copyLoop_succ (h : Ring c cap s taken) (k : ℕ) {i : ℕ}
    (hi : taken + i < s.length) :
    c.copyLoop (k + 1) i =
      (do let rest ← c.copyLoop k (i + 1); pure (byteAt s (taken + i) :: rest)) := by
  have hroom := h.room
  have hp : (taken + i) % cap < 2 ^ 31 := (Nat.mod_lt _ h.pos).trans h.small
  have hgo : ¬(Int32.ofNat ((taken + i) % cap) = c.end_ ∧ 0 < i) := by
    rintro ⟨he, h0⟩
    have hle := h.length_le (by omega)
    rw [h.end_, ofNat_inj_of_lt (by omega) (by omega)] at he
    have := Nat.mod_le (taken + i) cap
    omega
  rw [copyLoop, h.index_eq (h.indexable _ hi), if_neg hgo, h.cell_eq,
    ← h.memory.2 (taken + i) hi (by omega)]
  rfl

private theorem drop_eq_cons {p : ℕ} (h : p < s.length) :
    s.drop p = byteAt s p :: s.drop (p + 1) := by
  rw [List.drop_eq_getElem_cons h]
  simp [byteAt, h]

/-- Inside the unread bytes the loop of `get` and `read` copies them in order. -/
theorem Ring.copyLoop_eq (h : Ring c cap s taken) :
    ∀ k i, taken + i + k ≤ s.length → c.copyLoop k i = .ok ((s.drop (taken + i)).take k) := by
  intro k
  induction k with
  | zero => intro i _; simp [copyLoop]
  | succ k ih =>
    intro i hi
    rw [h.copyLoop_succ k (by omega), ih (i + 1) (by omega),
      drop_eq_cons (p := taken + i) (by omega), List.take_succ_cons]
    rfl

/-- Before the buffer has been gone round once, a read past the end stops there. -/
theorem Holds.copyLoop_short (h : Holds c cap s taken) (hs : s.length < cap) :
    ∀ k i, taken + i ≤ s.length → s.length ≤ taken + i + k → 0 < i ∨ taken < s.length →
      c.copyLoop k i = .ok (s.drop (taken + i)) := by
  intro k
  induction k with
  | zero =>
    intro i hi hk _
    rw [copyLoop, List.drop_eq_nil_of_le (by omega)]
  | succ k ih =>
    intro i hi hk h0
    have htotal := h.total
    by_cases hend : taken + i = s.length
    · have hstop : Int32.ofNat ((taken + i) % cap) = c.end_ ∧ 0 < i := by
        rw [hend, Nat.mod_eq_of_lt hs, h.end_]
        exact ⟨rfl, by omega⟩
      rw [copyLoop, h.ring.index_eq (.of_lt (by omega)), if_pos hstop,
        List.drop_eq_nil_of_le (by omega)]
    · rw [h.ring.copyLoop_succ k (by omega), ih (i + 1) (by omega) (by omega) (by omega),
        drop_eq_cons (p := taken + i) (by omega)]
      rfl

/-- Once the buffer has been gone round, a read past the end never stops: it goes on with
what stood there one capacity earlier. -/
theorem Holds.copyLoop_round (h : Holds c cap s taken) (hs : cap ≤ s.length) :
    ∀ k i, taken + i + k ≤ s.length + cap →
      (taken + i + k ≤ 2 ^ 31 ∨ taken + i + k = 2 ^ 31 + 1 ∧ cap ∣ 2 ^ 31) →
      c.copyLoop k i = .ok ((List.range' (taken + i) k).map (ringByte cap s)) := by
  intro k
  induction k with
  | zero => intro i _ _; rfl
  | succ k ih =>
    intro i hk hbound
    have htotal := h.total
    have hroom := h.room
    have horder := h.order
    let p := taken + i
    have hp : p % cap < cap := Nat.mod_lt _ h.pos
    have hgo : ¬(Int32.ofNat (p % cap) = c.end_ ∧ 0 < i) := by
      rintro ⟨he, -⟩
      rw [h.end_, ofNat_inj (hp.trans h.small) htotal] at he
      omega
    have hbyte : byteAt c.buf (p % cap) = ringByte cap s p := by
      unfold ringByte
      split_ifs with hps
      · exact h.memory.2 p hps (by omega)
      · rw [← h.memory.2 (p - cap) (by omega) (by omega), ← Nat.mod_eq_sub_mod (by omega)]
    rw [copyLoop, h.ring.index_eq (Or.inr (by omega)), if_neg hgo, h.ring.cell_eq]
    change (do let rest ← c.copyLoop k (i + 1); pure (byteAt c.buf (p % cap) :: rest)) = _
    rw [ih (i + 1) (by omega) (by omega), hbyte, List.range'_succ]
    rfl

/-- What stands at `j` after the oldest bytes were read to the front of `mem`, also where
there are not that many. -/
def shown (cap : ℕ) (s : List UInt8) (taken : ℕ) (mem : List UInt8) (j : ℕ) : UInt8 :=
  if taken + j < s.length then byteAt s (taken + j)
  else if s.length < cap then byteAt mem j
  else byteAt s (taken + j - cap)

theorem Holds.read_eq (h : Holds c cap s taken) (len : ℕ) (mem : List UInt8)
    (hne : taken < s.length) (hlen : len ≤ cap) (hmem : len ≤ mem.length)
    (hbound : taken + len ≤ 2 ^ 31 ∨ taken + len = 2 ^ 31 + 1 ∧ cap ∣ 2 ^ 31) :
    ∃ bytes mem', c.read len = .ok bytes ∧ memcpy mem 0 bytes = .ok mem' ∧
      mem'.length = mem.length ∧ ∀ j < len, byteAt mem' j = shown cap s taken mem j := by
  obtain ⟨bytes, hread, hle, hbytes⟩ : ∃ bytes, c.read len = .ok bytes ∧ bytes.length ≤ len ∧
      ∀ j < len, (if j < bytes.length then byteAt bytes j else byteAt mem j) =
        shown cap s taken mem j := by
    unfold shown
    by_cases hin : taken + len ≤ s.length
    · refine ⟨(s.drop taken).take len, h.ring.copyLoop_eq len 0 hin, by simp, fun j hj => ?_⟩
      have hl : ((s.drop taken).take len).length = len := by simp; omega
      rw [hl, if_pos hj, if_pos (by omega)]
      simp [byteAt, List.getD_eq_getElem?_getD, hj]
    · by_cases hs : s.length < cap
      · refine ⟨s.drop taken, h.copyLoop_short hs len 0 (by omega) (by omega) (Or.inr hne),
          by simp; omega, fun j hj => ?_⟩
        rw [List.length_drop, if_pos hs]
        by_cases hjs : taken + j < s.length
        · rw [if_pos (by omega), if_pos hjs]
          simp [byteAt, List.getD_eq_getElem?_getD]
        · rw [if_neg (by omega), if_neg hjs]
      · refine ⟨_, h.copyLoop_round (by omega) len 0 (by omega) hbound, by simp, fun j hj => ?_⟩
        rw [if_neg hs, List.length_map, List.length_range', if_pos hj]
        simp [byteAt, List.getD_eq_getElem?_getD, hj, ringByte]
  refine ⟨bytes, _, hread, memcpy_eq (by omega), ?_, fun j hj => ?_⟩
  · exact memcpy_length (memcpy_eq (by omega))
  · rw [byteAt_copy, hbytes j hj]

theorem Ring.get_eq (h : Ring c cap s taken) {len : ℕ} (hlen : taken + len ≤ s.length) :
    ∃ c', c.get len = .ok (c', (s.drop taken).take len) ∧ Ring c' cap s (taken + len) := by
  have hc := h.copyLoop_eq len 0 (by omega)
  rw [Nat.add_zero] at hc
  have hl : ((s.drop taken).take len).length = len := by
    rw [List.length_take, List.length_drop]
    omega
  have hroom := h.room
  refine ⟨_, by rw [get, hc]; rfl, ?_⟩
  exact {
    capacity := h.capacity
    pos := h.pos
    small := h.small
    start := by rw [← ofNat_add, ← h.start, hl]
    end_ := h.end_
    count := by rw [hl, h.count, ofNat_sub (by omega), Nat.sub_add_eq]
    order := hlen
    room := by omega
    indexable := h.indexable
    memory := h.memory }

theorem Holds.get_eq (h : Holds c cap s taken) {len : ℕ} (hlen : taken + len ≤ s.length) :
    ∃ c', c.get len = .ok (c', (s.drop taken).take len) ∧ Holds c' cap s (taken + len) := by
  obtain ⟨c', hget, h'⟩ := h.ring.get_eq hlen
  exact ⟨c', hget, h'.holds h.total⟩

theorem holds_new {cap : ℕ} {memory : List UInt8} (hpos : 0 < cap) (hsmall : cap < 2 ^ 31)
    (hmem : memory.length = cap) : Holds (new (Int32.ofNat cap) memory) cap [] 0 where
  capacity := rfl
  pos := hpos
  small := hsmall
  start := rfl
  end_ := rfl
  count := rfl
  order := le_rfl
  room := by simp
  total := by simp
  memory := ⟨hmem, fun p hp _ => absurd hp (Nat.not_lt_zero p)⟩

end Calls

end CircularBuffer
end Gpshub
