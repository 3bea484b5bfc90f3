import Gpshub.Util.RingBounds

/-! What is left of a `CircularBuffer` that is given more than it has room for: its counters,
and which of its cells were ever written. -/
namespace Gpshub.CircularBuffer

/-- The buffer took `e` bytes and handed out `t` of them. Nothing is said about how many it
has room for, nor about what its cells hold. -/
structure Counts (c : CircularBuffer) (cap t e : ℕ) : Prop where
  capacity : c.capacity = Int32.ofNat cap
  one_lt : 1 < cap
  small : cap < 2 ^ 31
  length : c.buf.length = cap
  start : c.start = Int32.ofNat t
  end_ : c.end_ = Int32.ofNat e
  count : c.count = Int32.ofNat (e - t)
  order : t ≤ e
  indexable : ∀ p < e, Indexable cap p

/-- Two arrays agree on the cells of the first `e` positions. -/
def Agree (cap e : ℕ) (mem mem' : List UInt8) : Prop :=
  mem.length = mem'.length ∧ ∀ k < cap, k < e → byteAt mem k = byteAt mem' k

/-- Two buffers with the same counters that agree on the cells ever written. -/
def Alike (cap e : ℕ) (c c' : CircularBuffer) : Prop :=
  c' = { c with buf := c'.buf } ∧ Agree cap e c.buf c'.buf

section Counts

variable {c c' : CircularBuffer} {cap t e : ℕ}

theorem Ring.counts {s : List UInt8} {taken : ℕ} (h : Ring c cap s taken) (hcap : 1 < cap) :
    Counts c cap taken s.length where
  capacity := h.capacity
  one_lt := hcap
  small := h.small
  length := h.memory.1
  start := h.start
  end_ := h.end_
  count := h.count
  order := h.order
  indexable := h.indexable

theorem cell_eq_ok {mem : List UInt8} {j : Int32} {k : ℕ} (h : cell mem j = .ok k) :
    0 ≤ j ∧ k < mem.length ∧ j.toNatClampNeg = k := by
  unfold cell at h
  split_ifs at h with hj
  cases h
  exact ⟨hj.1, hj.2, rfl⟩

theorem Counts.pos (h : Counts c cap t e) : 0 < cap := by
  have := h.one_lt
  omega

theorem Counts.le (h : Counts c cap t e) : e ≤ 2 ^ 31 + 1 := by
  have hcap : cap ≠ 1 := by
    have := h.one_lt
    omega
  by_contra hlong
  have := (h.indexable (2 ^ 31 + 1) (by omega)).le hcap
  omega

/-- A size that is not below a number of bytes is one that has not run over. -/
theorem Counts.le_of_size (h : Counts c cap t e) {len : ℕ} (hlen : (len : ℤ) ≤ c.size.toInt) :
    t + len ≤ e := by
  have hle := h.le
  have horder := h.order
  by_cases hsmall : e - t < 2 ^ 31
  · rw [size, h.count, Int32.toInt_ofNat_of_lt hsmall] at hlen
    omega
  · have hneg : c.size.toInt < 0 := by
      rw [size, h.count]
      obtain heq | heq : e - t = 2 ^ 31 ∨ e - t = 2 ^ 31 + 1 := by omega
      · rw [heq]
        decide
      · rw [heq]
        decide
    omega

theorem Counts.index_eq (h : Counts c cap t e) {i : ℕ} (hi : t + i < e) :
    (c.start + Int32.ofNat i) % c.capacity = Int32.ofNat ((t + i) % cap) := by
  rw [h.start, h.capacity, ofNat_add, (h.indexable _ hi).mod h.small]

/-- The test of `get` and `read` does not stop them within the bytes there are. -/
theorem Counts.ne_end (h : Counts c cap t e) {i : ℕ} (hi : t + i < e) :
    (c.start + Int32.ofNat i) % c.capacity ≠ c.end_ := by
  have hle := h.le
  have hlt : (t + i) % cap < cap := Nat.mod_lt _ h.pos
  have hsmall := h.small
  rw [h.index_eq hi, h.end_, ne_eq, ofNat_inj_of_lt (by omega) (by omega)]
  have hmod := Nat.mod_le (t + i) cap
  omega

theorem Counts.cell_eq (h : Counts c cap t e) {i : ℕ} (hi : t + i < e) :
    cell c.buf ((c.start + Int32.ofNat i) % c.capacity) = .ok ((t + i) % cap) := by
  have hlt : (t + i) % cap < cap := Nat.mod_lt _ h.pos
  have hlen := h.length
  rw [h.index_eq hi]
  exact cell_ofNat (by omega) (hlt.trans h.small)

/-- Within the bytes there are, `get` and `read` copy as many as they are asked for. -/
theorem Counts.copyLoop_eq (h : Counts c cap t e) {k : ℕ} :
    ∀ {i : ℕ}, t + i + k ≤ e → ∃ bytes, c.copyLoop k i = .ok bytes ∧ bytes.length = k := by
  induction k with
  | zero => exact fun _ => ⟨[], rfl, rfl⟩
  | succ k ih =>
    intro i hi
    obtain ⟨bytes, hcopy, hlen⟩ := ih (show t + (i + 1) + k ≤ e by omega)
    have hne := h.ne_end (show t + i < e by omega)
    refine ⟨byteAt c.buf ((t + i) % cap) :: bytes, ?_, congrArg Nat.succ hlen⟩
    rw [copyLoop, if_neg fun hstop => hne hstop.1, h.cell_eq (by omega), ok_bind, hcopy]
    rfl

theorem Counts.get_eq (h : Counts c cap t e) {len : ℕ} (hlen : t + len ≤ e) :
    ∃ c' bytes, c.get len = .ok (c', bytes) ∧ c.copyLoop len 0 = .ok bytes ∧
      bytes.length = len ∧ c'.buf = c.buf ∧ Counts c' cap (t + len) e := by
  obtain ⟨bytes, hcopy, hl⟩ := h.copyLoop_eq (show t + 0 + len ≤ e by omega)
  let c' : CircularBuffer := { c with
    start := c.start + Int32.ofNat bytes.length
    count := c.count - Int32.ofNat bytes.length }
  refine ⟨c', bytes, by rw [get, hcopy]; rfl, hcopy, hl, rfl, ?_⟩
  exact {
    capacity := h.capacity
    one_lt := h.one_lt
    small := h.small
    length := h.length
    start := by rw [← ofNat_add, ← h.start, ← hl]
    end_ := h.end_
    count := by rw [Nat.sub_add_eq, ← ofNat_sub (by omega), ← h.count, ← hl]
    order := hlen
    indexable := h.indexable }

theorem lt_of_index {x : Int32} (hsmall : cap < 2 ^ 31) (hpos : 0 < cap) (ht : t ≤ 2 ^ 31 + 1)
    (he : x % Int32.ofNat cap = Int32.ofNat t) : t < cap := by
  have habs : (Int32.ofNat t).toInt.natAbs < cap := by
    rw [← he, Int32.toInt_mod, Int32.toInt_ofNat_of_lt hsmall, Int.natAbs_tmod,
      Int.natAbs_natCast]
    exact Nat.mod_lt _ hpos
  obtain hlt | rfl | rfl : t < 2 ^ 31 ∨ t = 2 ^ 31 ∨ t = 2 ^ 31 + 1 := by omega
  · rwa [Int32.toInt_ofNat_of_lt hlt, Int.natAbs_natCast] at habs
  · have hmin : (Int32.ofNat (2 ^ 31)).toInt.natAbs = 2 ^ 31 := by decide
    omega
  · have hmin : (Int32.ofNat (2 ^ 31 + 1)).toInt.natAbs = 2 ^ 31 - 1 := by decide
    omega

/-- `add` stops early only when as many bytes are held as there are cells. -/
theorem Counts.full_of_start (h : Counts c cap t e) {n : ℕ}
    (hindex : ∀ p < e + n, Indexable cap p)
    (hstop : (c.end_ + Int32.ofNat n) % c.capacity = c.start ∧ 0 < n) : t + cap ≤ e + n := by
  have hle := h.le
  have horder := h.order
  have hsmall := h.small
  obtain ⟨he, hn⟩ := hstop
  rw [h.end_, h.capacity, h.start, ofNat_add] at he
  have hlt : t < cap := lt_of_index hsmall h.pos (by omega) he
  have hnonneg : 0 ≤ Int32.ofNat (e + n) % Int32.ofNat cap := by
    rw [he, Int32.le_iff_toInt_le, Int32.toInt_ofNat_of_lt (by omega)]
    exact Int.natCast_nonneg t
  have hpos := (index_nonneg_iff h.pos hsmall hindex).mp hnonneg
  have hmod : (e + n) % cap < cap := Nat.mod_lt _ h.pos
  rw [hpos.mod hsmall, ofNat_inj_of_lt (by omega) (by omega)] at he
  have hself : t % cap = t := Nat.mod_eq_of_lt hlt
  by_contra hfree
  exact mod_ne_of_lt (show t < e + n by omega) (by omega) (hself.trans he.symm)

theorem addLoop_length {mem mem' rest : List UInt8} {n n' : ℕ}
    (h : c.addLoop mem rest n = .ok (mem', n')) : mem'.length = mem.length := by
  induction rest generalizing mem n with
  | nil =>
    cases h
    rfl
  | cons b rest ih =>
    rw [addLoop] at h
    split_ifs at h
    · cases h
      rfl
    · obtain ⟨k, -, h⟩ := bind_eq_ok.mp h
      rw [ih h, List.length_set]

/-- However many bytes it is asked to take, `add` keeps the counters right. -/
theorem Counts.add_ok (h : Counts c cap t e) {bytes : List UInt8} {n : ℕ}
    (hadd : c.add bytes = .ok (c', n)) :
    Counts c' cap t (e + n) ∧ n ≤ bytes.length ∧ (n = bytes.length ∨ t + cap ≤ e + n) := by
  obtain ⟨⟨mem, n'⟩, hloop, hadd⟩ := bind_eq_ok.mp hadd
  cases hadd
  obtain ⟨-, hle, hnonneg, hend⟩ := addLoop_ok hloop
  have horder := h.order
  have hindex : ∀ p < e + n, Indexable cap p := by
    refine indexable_add h.pos h.small h.indexable fun i hi => ?_
    have hi' := hnonneg i (Nat.zero_le i) hi
    rwa [h.end_, h.capacity, ofNat_add] at hi'
  refine ⟨?_, by omega, ?_⟩
  · exact {
      capacity := h.capacity
      one_lt := h.one_lt
      small := h.small
      length := (addLoop_length hloop).trans h.length
      start := h.start
      end_ := by rw [← ofNat_add, ← h.end_]
      count := by rw [Nat.sub_add_comm horder, ← ofNat_add, ← h.count]
      order := by omega
      indexable := hindex }
  · by_cases hall : n = bytes.length
    · exact Or.inl hall
    · exact Or.inr (h.full_of_start hindex (hend (by omega)))

theorem Agree.set {mem mem' : List UInt8} (h : Agree cap e mem mem') (hlen : mem.length = cap)
    (b : UInt8) : Agree cap (e + 1) (mem.set (e % cap) b) (mem'.set (e % cap) b) := by
  obtain ⟨hl, heq⟩ := h
  refine ⟨by rw [List.length_set, List.length_set, hl], fun k hk hke => ?_⟩
  by_cases hnew : k = e % cap
  · subst hnew
    have hk' : e % cap < mem.length := by omega
    simp [byteAt, List.getD_eq_getElem?_getD, List.getElem?_set_self hk',
      List.getElem?_set_self (hl ▸ hk')]
  · have hke' : k < e := by
      by_contra hnot
      have hself : e % cap = e := Nat.mod_eq_of_lt (by omega)
      omega
    rw [byteAt_set_ne b hnew, byteAt_set_ne b hnew]
    exact heq k hk hke'

theorem addLoop_buf (c : CircularBuffer) (buf rest : List UInt8) :
    ∀ (mem : List UInt8) (n : ℕ),
      { c with buf := buf }.addLoop mem rest n = c.addLoop mem rest n := by
  induction rest with
  | nil => exact fun _ _ => rfl
  | cons b rest ih =>
    intro mem n
    rw [addLoop, addLoop]
    simp only [ih]

/-- The loop of `add` never looks at what the cells hold, and leaves the same bytes in those
it writes. -/
theorem addLoop_agree (hpos : 0 < cap) (hsmall : cap < 2 ^ 31)
    (hcap : c.capacity = Int32.ofNat cap) (hend : c.end_ = Int32.ofNat e)
    {rest : List UInt8} :
    ∀ {mem mem' mem1 mem1' : List UInt8} {n n1 n1' : ℕ}, mem.length = cap →
      (∀ p < e + n, Indexable cap p) → Agree cap (e + n) mem mem' →
      c.addLoop mem rest n = .ok (mem1, n1) → c.addLoop mem' rest n = .ok (mem1', n1') →
      n1' = n1 ∧ Agree cap (e + n1) mem1 mem1' := by
  induction rest with
  | nil =>
    intro mem mem' mem1 mem1' n n1 n1' _ _ ha h h'
    cases h
    cases h'
    exact ⟨rfl, ha⟩
  | cons b rest ih =>
    intro mem mem' mem1 mem1' n n1 n1' hlen hindex ha h h'
    rw [addLoop] at h h'
    split_ifs at h h' with hstop
    · cases h
      cases h'
      exact ⟨rfl, ha⟩
    · obtain ⟨k, hk, h⟩ := bind_eq_ok.mp h
      obtain ⟨k', hk', h'⟩ := bind_eq_ok.mp h'
      obtain ⟨hnonneg, -, hj⟩ := cell_eq_ok hk
      obtain ⟨-, -, hj'⟩ := cell_eq_ok hk'
      rw [hend, hcap, ofNat_add] at hnonneg hj hj'
      have hnew : Indexable cap (e + n) := (index_nonneg_iff hpos hsmall hindex).mp hnonneg
      have hlt : (e + n) % cap < 2 ^ 31 := (Nat.mod_lt _ hpos).trans hsmall
      rw [hnew.mod hsmall, Int32.toNatClampNeg_ofNat_of_lt hlt] at hj hj'
      subst hj
      subst hj'
      have hindex' : ∀ p < e + (n + 1), Indexable cap p := by
        intro p hp
        obtain rfl | hold := eq_or_lt_of_le (show p ≤ e + n by omega)
        · exact hnew
        · exact hindex p hold
      exact ih (by rw [List.length_set, hlen]) hindex' (ha.set hlen b) h h'

theorem Counts.add_alike (h : Counts c cap t e) {d d' : CircularBuffer} {bytes : List UInt8}
    {n n' : ℕ} (ha : Alike cap e c c') (hadd : c.add bytes = .ok (d, n))
    (hadd' : c'.add bytes = .ok (d', n')) : n' = n ∧ Alike cap (e + n) d d' := by
  obtain ⟨hc, hagree⟩ := ha
  obtain ⟨⟨mem, m⟩, hloop, hadd⟩ := bind_eq_ok.mp hadd
  obtain ⟨⟨mem', m'⟩, hloop', hadd'⟩ := bind_eq_ok.mp hadd'
  cases hadd
  cases hadd'
  rw [hc, addLoop_buf] at hloop'
  obtain ⟨rfl, hmem⟩ := addLoop_agree (n := 0) h.pos h.small h.capacity h.end_ h.length
    h.indexable hagree hloop hloop'
  refine ⟨rfl, ?_, hmem⟩
  rw [hc]

theorem Counts.of_alike (h : Counts c cap t e) (ha : Alike cap e c c') : Counts c' cap t e := by
  obtain ⟨hc, hlen, -⟩ := ha
  rw [hc]
  exact { h with length := hlen.symm.trans h.length }

/-- Where `get` and `read` may look, there are bytes that were added: past the end they stop,
or every cell has been written. -/
theorem Counts.copyLoop_alike (h : Counts c cap t e) (ha : Alike cap e c c') {k : ℕ} :
    ∀ {i : ℕ} {bytes : List UInt8}, 0 < i ∨ t < e → t + i ≤ e ∨ cap ≤ e →
      c.copyLoop k i = .ok bytes → c'.copyLoop k i = .ok bytes := by
  obtain ⟨hc, hlen, heq⟩ := ha
  induction k with
  | zero => exact fun _ _ hcopy => hcopy
  | succ k ih =>
    intro i bytes h0 hle hcopy
    have hcap := h.length
    have hsmall := h.small
    rw [copyLoop] at hcopy ⊢
    have hsame : c'.start = c.start ∧ c'.capacity = c.capacity ∧ c'.end_ = c.end_ := by
      rw [hc]
      exact ⟨rfl, rfl, rfl⟩
    rw [hsame.1, hsame.2.1, hsame.2.2]
    split_ifs at hcopy ⊢ with hstop
    · exact hcopy
    · obtain ⟨j, hj, hcopy⟩ := bind_eq_ok.mp hcopy
      obtain ⟨rest, hrest, hcopy⟩ := bind_eq_ok.mp hcopy
      obtain ⟨hnonneg, hjl, hjn⟩ := cell_eq_ok hj
      have hpast : t + i < e ∨ cap ≤ e := by
        by_contra hnot
        have hend : (c.start + Int32.ofNat i) % c.capacity = c.end_ := by
          rw [h.start, h.capacity, ofNat_add, show t + i = e by omega, h.end_,
            (Indexable.of_lt (by omega)).mod hsmall, Nat.mod_eq_of_lt (by omega)]
        exact hstop ⟨hend, by omega⟩
      have hje : j < e := by
        obtain hin | hround := hpast
        · by_cases hround : cap ≤ e
          · omega
          · have hcell := h.cell_eq hin
            rw [hcell] at hj
            cases hj
            have := Nat.mod_le (t + i) cap
            omega
        · omega
      have hj' : cell c'.buf ((c.start + Int32.ofNat i) % c.capacity) = .ok j := by
        rw [← hj, cell, cell, hlen]
      have hrest' := ih (Or.inl (Nat.succ_pos i)) (by omega) hrest
      rw [hj', ok_bind, hrest', ← heq j (by omega) hje]
      exact hcopy

theorem Counts.get_alike (h : Counts c cap t e) (ha : Alike cap e c c') {d d' : CircularBuffer}
    {len : ℕ} {block block' : List UInt8} (hne : t < e) (hget : c.get len = .ok (d, block))
    (hget' : c'.get len = .ok (d', block')) : block' = block ∧ Alike cap e d d' := by
  obtain ⟨out, hcopy, hget⟩ := bind_eq_ok.mp hget
  obtain ⟨out', hcopy', hget'⟩ := bind_eq_ok.mp hget'
  have hsame := h.copyLoop_alike ha (Or.inr hne) (Or.inl h.order) hcopy
  cases hsame.symm.trans hcopy'
  cases hget
  cases hget'
  refine ⟨rfl, ?_, ha.2⟩
  rw [ha.1]

theorem Counts.unread_alike (h : Counts c cap t e) (ha : Alike cap e c c') :
    c'.unread = c.unread := by
  obtain ⟨hc, -, heq⟩ := ha
  have hsame : c'.start = c.start ∧ c'.capacity = c.capacity ∧ c'.size = c.size := by
    rw [hc]
    exact ⟨rfl, rfl, rfl⟩
  unfold unread
  rw [hsame.1, hsame.2.1, hsame.2.2]
  refine List.map_congr_left fun i hi => ?_
  have hsize := List.mem_range.mp hi
  rw [← Int32.toNat_toInt] at hsize
  have hheld : t + (i + 1) ≤ e := h.le_of_size (by omega)
  have hlt : (t + i) % cap < cap := Nat.mod_lt _ h.pos
  have hsmall := h.small
  rw [h.index_eq (i := i) (by omega), Int32.toNatClampNeg_ofNat_of_lt (by omega)]
  exact (heq _ hlt ((Nat.mod_le _ _).trans_lt (by omega))).symm

end Counts

end Gpshub.CircularBuffer
