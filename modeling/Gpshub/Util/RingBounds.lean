import Gpshub.Util.RingCalls

/-! What the calls of a `CircularBuffer` do when they ask for more than there is, and for how
long its indices stay inside the array. -/
namespace Gpshub.CircularBuffer

open Lib Machine

/-- `capacity - size()` -/
def room (c : CircularBuffer) : ℕ := (c.capacity - c.size).toNatClampNeg

/-- The call takes as much as there is of what it asks for, and answers that much. -/
def Correct (c : CircularBuffer) : Call → Prop
  | .add bytes => ∃ c', c.add bytes = .ok (c', min bytes.length c.room) ∧
      c'.unread = c.unread ++ bytes.take c.room
  | .get len => ∃ c', c.get len = .ok (c', c.unread.take len) ∧ c'.unread = c.unread.drop len
  | .read len => c.read len = .ok (c.unread.take len)
  | .size => True

/-- The test of the loop ends a call that asks for too much: it is not made for the first
byte, and it compares an index with a position. The indices written to are none below `0`. -/
def Meets (c : CircularBuffer) : Call → Prop
  | .add bytes =>
    (bytes.length ≤ c.room ∨
      0 < c.room ∧ (c.end_ + Int32.ofNat c.room) % c.capacity = c.start) ∧
    ∀ i < min bytes.length c.room, 0 ≤ (c.end_ + Int32.ofNat i) % c.capacity
  | .get len => len ≤ c.unread.length ∨
      0 < c.unread.length ∧ (c.start + Int32.ofNat c.unread.length) % c.capacity = c.end_
  | .read len => len ≤ c.unread.length ∨
      0 < c.unread.length ∧ (c.start + Int32.ofNat c.unread.length) % c.capacity = c.end_
  | .size => True

/-- The indices `j` that a loop computes from its `i`-th round on, when it goes from position
`base` and stops at `stop`. -/
def indices (base stop capacity : Int32) : ℕ → ℕ → List Int32
  | 0, _ => []
  | left + 1, i =>
    let j := (base + Int32.ofNat i) % capacity
    if j = stop ∧ 0 < i then [j] else j :: indices base stop capacity left (i + 1)

/-- The indices that the loop of a call computes. -/
def callIndices (c : CircularBuffer) : Call → List Int32
  | .add bytes => indices c.end_ c.start c.capacity bytes.length 0
  | .get len => indices c.start c.end_ c.capacity len 0
  | .read len => indices c.start c.end_ c.capacity len 0
  | .size => []

def InRange (c : CircularBuffer) (k : Call) : Prop :=
  ∀ j ∈ c.callIndices k, 0 ≤ j ∧ j < c.capacity

instance (c : CircularBuffer) : (k : Call) → Decidable (Meets c k)
  | .add bytes => inferInstanceAs (Decidable ((bytes.length ≤ c.room ∨ _) ∧ ∀ i < _, _))
  | .get len => inferInstanceAs (Decidable (len ≤ c.unread.length ∨ _))
  | .read len => inferInstanceAs (Decidable (len ≤ c.unread.length ∨ _))
  | .size => inferInstanceAs (Decidable True)

/-- The loop of `add` stops at an index that is `start`, or with the last byte. -/
theorem addLoop_ok {c : CircularBuffer} {rest : List UInt8} :
    ∀ {mem mem' : List UInt8} {n n' : ℕ}, c.addLoop mem rest n = .ok (mem', n') →
      n ≤ n' ∧ n' ≤ n + rest.length ∧
      (∀ i, n ≤ i → i < n' → 0 ≤ (c.end_ + Int32.ofNat i) % c.capacity) ∧
      (n' < n + rest.length → (c.end_ + Int32.ofNat n') % c.capacity = c.start ∧ 0 < n') := by
  induction rest with
  | nil =>
    intro mem mem' n n' h
    cases h
    exact ⟨le_rfl, le_rfl, fun i h1 h2 => absurd h1 (by omega), fun h => absurd h (by simp)⟩
  | cons b rest ih =>
    intro mem mem' n n' h
    rw [addLoop] at h
    split_ifs at h with hstop
    · cases h
      exact ⟨le_rfl, by omega, fun i h1 h2 => absurd h1 (by omega), fun _ => hstop⟩
    · obtain ⟨k, hk, h⟩ := bind_eq_ok.mp h
      have hcell : 0 ≤ (c.end_ + Int32.ofNat n) % c.capacity := by
        unfold cell at hk
        split_ifs at hk with h0
        exact h0.1
      obtain ⟨hle, hle', hindex, hend⟩ := ih h
      rw [List.length_cons]
      refine ⟨by omega, by omega, fun i h1 h2 => ?_, fun hlt => hend (by omega)⟩
      obtain rfl | hi := eq_or_lt_of_le h1
      · exact hcell
      · exact hindex i hi h2

theorem addLoop_append {c : CircularBuffer} {xs : List UInt8} (ys : List UInt8) :
    ∀ {mem mem' : List UInt8} {n : ℕ}, c.addLoop mem xs n = .ok (mem', n + xs.length) →
      c.addLoop mem (xs ++ ys) n = c.addLoop mem' ys (n + xs.length) := by
  induction xs with
  | nil =>
    intro mem mem' n h
    cases h
    rfl
  | cons b xs ih =>
    intro mem mem' n h
    rw [addLoop] at h
    rw [List.cons_append, addLoop]
    split_ifs at h ⊢ with hstop
    · simp at h
    · obtain ⟨k, hk, h⟩ := bind_eq_ok.mp h
      rw [List.length_cons] at h ⊢
      rw [hk, ok_bind, ih (by rw [h]; congr 2; omega), Nat.add_right_comm, Nat.add_assoc]

theorem add_append_of_stop {c c' : CircularBuffer} {xs : List UInt8} (ys : List UInt8)
    (h : c.add xs = .ok (c', xs.length))
    (hstop : (c.end_ + Int32.ofNat xs.length) % c.capacity = c.start ∧ 0 < xs.length) :
    c.add (xs ++ ys) = .ok (c', xs.length) := by
  obtain ⟨⟨mem, n⟩, hloop, h⟩ := bind_eq_ok.mp h
  have hn : n = xs.length := congrArg Prod.snd (Except.ok.inj h)
  subst hn
  have hend : c.addLoop mem ys xs.length = .ok (mem, xs.length) := by
    cases ys with
    | nil => rfl
    | cons b ys => rw [addLoop, if_pos hstop]
  have happ := addLoop_append ys (n := 0) (by rwa [Nat.zero_add])
  rw [Nat.zero_add, hend] at happ
  rw [add, happ]
  exact h

/-- Of more bytes than there is room for, `add` takes those that fill the buffer. -/
theorem Ring.add_full {c : CircularBuffer} {cap taken : ℕ} {s : List UInt8}
    (h : Ring c cap s taken) (htaken : taken < cap) (front rest : List UInt8)
    (hpos : 0 < front.length) (hroom : s.length + front.length = taken + cap)
    (hindex : ∀ p ≤ s.length + front.length, Indexable cap p) :
    ∃ c', c.add (front ++ rest) = .ok (c', front.length) ∧ Ring c' cap (s ++ front) taken := by
  obtain ⟨c', hadd, hring⟩ := h.add_eq front (by omega) fun p hp => hindex p (by omega)
  have hfull : (c.end_ + Int32.ofNat front.length) % c.capacity = c.start := by
    have hmod : (s.length + front.length) % cap = taken := by
      rw [hroom, Nat.add_mod_right, Nat.mod_eq_of_lt htaken]
    rw [h.end_, h.capacity, ofNat_add, (hindex _ (by omega)).mod h.small, hmod, h.start]
  exact ⟨c', add_append_of_stop rest hadd ⟨hfull, hpos⟩, hring⟩

/-- The loop of `get` and `read` stops at an index that is `end`, or with the last byte. -/
theorem copyLoop_ok {c : CircularBuffer} {k : ℕ} :
    ∀ {i : ℕ} {bytes : List UInt8}, c.copyLoop k i = .ok bytes →
      bytes.length ≤ k ∧ (bytes.length < k →
        (c.start + Int32.ofNat (i + bytes.length)) % c.capacity = c.end_ ∧
          0 < i + bytes.length) := by
  induction k with
  | zero =>
    intro i bytes h
    cases h
    exact ⟨le_rfl, fun h => absurd h (Nat.lt_irrefl 0)⟩
  | succ k ih =>
    intro i bytes h
    rw [copyLoop] at h
    split_ifs at h with hstop
    · cases h
      exact ⟨Nat.zero_le _, fun _ => hstop⟩
    · obtain ⟨j, hj, h⟩ := bind_eq_ok.mp h
      obtain ⟨rest, hrest, h⟩ := bind_eq_ok.mp h
      cases h
      obtain ⟨hle, hend⟩ := ih hrest
      rw [List.length_cons, show i + (rest.length + 1) = i + 1 + rest.length by omega]
      exact ⟨by omega, fun hlt => hend (by omega)⟩

theorem copyLoop_add {c : CircularBuffer} {k : ℕ} (l : ℕ) :
    ∀ {i : ℕ} {bytes : List UInt8}, c.copyLoop k i = .ok bytes → bytes.length = k →
      c.copyLoop (k + l) i = (bytes ++ ·) <$> c.copyLoop l (i + k) := by
  induction k with
  | zero =>
    intro i bytes h _
    cases h
    rw [Nat.zero_add, Nat.add_zero]
    cases c.copyLoop l i <;> rfl
  | succ k ih =>
    intro i bytes h hlen
    rw [copyLoop] at h
    rw [Nat.succ_add, copyLoop]
    split_ifs at h ⊢ with hstop
    · cases h
      cases hlen
    · obtain ⟨j, hj, h⟩ := bind_eq_ok.mp h
      obtain ⟨rest, hrest, h⟩ := bind_eq_ok.mp h
      cases h
      rw [hj, ok_bind, ih hrest (Nat.succ.inj hlen), Nat.add_right_comm, Nat.add_assoc]
      cases c.copyLoop l (i + (k + 1)) <;> rfl

theorem Indexable.nonneg {cap p : ℕ} (h : Indexable cap p) (hpos : 0 < cap)
    (hsmall : cap < 2 ^ 31) : 0 ≤ Int32.ofNat p % Int32.ofNat cap := by
  have hlt : p % cap < 2 ^ 31 := (Nat.mod_lt _ hpos).trans hsmall
  rw [h.mod hsmall, Int32.le_iff_toInt_le, Int32.toInt_ofNat_of_lt hlt]
  exact Int.natCast_nonneg _

/-- As long as the positions before it can be indexed, a position can be exactly when its
remainder is not negative. -/
theorem index_nonneg_iff {cap q : ℕ} (hpos : 0 < cap) (hsmall : cap < 2 ^ 31)
    (hprev : ∀ p < q, Indexable cap p) :
    0 ≤ Int32.ofNat q % Int32.ofNat cap ↔ Indexable cap q := by
  constructor
  · intro h
    by_contra hq
    have hcap : cap ≠ 1 := fun h => hq (Or.inl h)
    have hlo : 2 ^ 31 ≤ q := by
      by_contra hlt
      exact hq (.of_lt (by omega))
    have hhi : q ≤ 2 ^ 31 + 1 := by
      by_contra hgt
      have := (hprev (2 ^ 31 + 1) (by omega)).le hcap
      omega
    -- the position is `-x` for the least or the second least `int`
    obtain ⟨x, hx, hdvd⟩ : ∃ x : ℕ, (Int32.ofNat q).toInt = -(x : ℤ) ∧ ¬cap ∣ x := by
      obtain rfl | rfl : q = 2 ^ 31 ∨ q = 2 ^ 31 + 1 := by omega
      · exact ⟨2 ^ 31, by decide, fun hd => hq (Or.inr (Or.inr ⟨rfl, hd⟩))⟩
      · refine ⟨2 ^ 31 - 1, by decide, fun hd => hcap ?_⟩
        obtain h1 | hlt | ⟨-, hd'⟩ := hprev (2 ^ 31) (by omega)
        · exact h1
        · omega
        · exact Nat.dvd_one.mp ((Nat.dvd_add_right hd).mp hd')
    rw [Int32.le_iff_toInt_le, Int32.toInt_mod, hx, Int32.toInt_ofNat_of_lt hsmall,
      Int.neg_tmod] at h
    have hmod : ((x : ℤ)).tmod cap = (x % cap : ℕ) := rfl
    have hne : x % cap ≠ 0 := fun h0 => hdvd (Nat.dvd_of_mod_eq_zero h0)
    rw [hmod] at h
    change (0 : ℤ) ≤ _ at h
    omega
  · exact fun h => h.nonneg hpos hsmall

/-- Where the indices written to are not negative, the positions can be indexed. -/
theorem indexable_add {cap e n : ℕ} (hpos : 0 < cap) (hsmall : cap < 2 ^ 31)
    (hold : ∀ p < e, Indexable cap p)
    (hn : ∀ i < n, 0 ≤ Int32.ofNat (e + i) % Int32.ofNat cap) :
    ∀ p < e + n, Indexable cap p := by
  induction n with
  | zero => exact hold
  | succ n ih =>
    intro p hp
    have hprev := ih fun i hi => hn i (by omega)
    by_cases hpn : p < e + n
    · exact hprev p hpn
    · obtain rfl : p = e + n := by omega
      have hlast := hn n (Nat.lt_succ_self n)
      exact (index_nonneg_iff hpos hsmall hprev).mp hlast

theorem mem_indices {base stop capacity j : Int32} {left : ℕ} :
    ∀ {i : ℕ}, j ∈ indices base stop capacity left i →
      ∃ m, m < i + left ∧ j = (base + Int32.ofNat m) % capacity := by
  induction left with
  | zero => exact fun h => absurd h List.not_mem_nil
  | succ left ih =>
    intro i h
    rw [indices] at h
    have hrest : j = (base + Int32.ofNat i) % capacity ∨
        j ∈ indices base stop capacity left (i + 1) := by
      split_ifs at h
      · exact Or.inl (List.mem_singleton.mp h)
      · exact List.mem_cons.mp h
    obtain rfl | h := hrest
    · exact ⟨i, by omega, rfl⟩
    · obtain ⟨m, hm, he⟩ := ih h
      exact ⟨m, by omega, he⟩

theorem mem_indices_of_ne {base stop capacity : Int32} {m left : ℕ}
    (hne : ∀ i < m, 0 < i → (base + Int32.ofNat i) % capacity ≠ stop) :
    ∀ {i : ℕ}, i ≤ m → m < i + left →
      (base + Int32.ofNat m) % capacity ∈ indices base stop capacity left i := by
  induction left with
  | zero => exact fun h1 h2 => absurd h2 (by omega)
  | succ left ih =>
    intro i h1 h2
    rw [indices]
    by_cases him : i = m
    · subst him
      split_ifs <;> exact List.mem_cons_self
    · have hgo : ¬((base + Int32.ofNat i) % capacity = stop ∧ 0 < i) := fun hstop =>
        hne i (by omega) hstop.2 hstop.1
      rw [if_neg hgo]
      exact List.mem_cons_of_mem _ (ih (by omega) (by omega))

section Ring

variable {c : CircularBuffer} {cap taken : ℕ} {s : List UInt8}

theorem Ring.room_eq (h : Ring c cap s taken) : c.room = taken + cap - s.length := by
  have horder := h.order
  have hroom := h.room
  have hsmall := h.small
  rw [CircularBuffer.room, size, h.capacity, h.count, ofNat_sub (by omega),
    Int32.toNatClampNeg_ofNat_of_lt (by omega)]
  omega

theorem Ring.unread_length (h : Ring c cap s taken) : c.unread.length = s.length - taken := by
  rw [h.unread_eq, List.length_drop]

theorem Ring.indexable_of_nonneg (h : Ring c cap s taken) {n : ℕ}
    (hn : ∀ i < n, 0 ≤ (c.end_ + Int32.ofNat i) % c.capacity) :
    ∀ p < s.length + n, Indexable cap p := by
  refine indexable_add h.pos h.small h.indexable fun i hi => ?_
  have hnonneg := hn i hi
  rwa [h.end_, h.capacity, ofNat_add] at hnonneg

theorem Ring.add_meets (h : Ring c cap s taken) {bytes : List UInt8}
    (hm : Meets c (.add bytes)) :
    ∃ c', c.add bytes = .ok (c', min bytes.length c.room) ∧
      Ring c' cap (s ++ bytes.take c.room) taken := by
  obtain ⟨hfits, hnonneg⟩ := hm
  have hroom := h.room
  have hr := h.room_eq
  have hl : (bytes.take c.room).length = min bytes.length c.room := by
    rw [List.length_take, Nat.min_comm]
  have hindex := h.indexable_of_nonneg hnonneg
  obtain ⟨c', hadd, h'⟩ := h.add_eq (bytes.take c.room) (by omega) (by rwa [hl])
  refine ⟨c', ?_, h'⟩
  obtain hle | ⟨hpos, hstop⟩ := hfits
  · rwa [List.take_of_length_le hle, ← Nat.min_eq_left hle] at hadd
  · by_cases hle : bytes.length ≤ c.room
    · rwa [List.take_of_length_le hle, ← Nat.min_eq_left hle] at hadd
    · rw [Nat.min_eq_right (by omega)] at hl
      have happ := add_append_of_stop (bytes.drop c.room) hadd (by rw [hl]; exact ⟨hstop, hpos⟩)
      rwa [List.take_append_drop, hl, ← Nat.min_eq_right (by omega : c.room ≤ bytes.length)]
        at happ

theorem Ring.copyLoop_iff (h : Ring c cap s taken) (len : ℕ) :
    c.copyLoop len 0 = .ok ((s.drop taken).take len) ↔ len ≤ s.length - taken ∨
      0 < s.length - taken ∧
        (c.start + Int32.ofNat (s.length - taken)) % c.capacity = c.end_ := by
  have horder := h.order
  by_cases hle : len ≤ s.length - taken
  · exact iff_of_true (h.copyLoop_eq len 0 (by omega)) (Or.inl hle)
  · have hall : (s.drop taken).take len = s.drop taken :=
      List.take_of_length_le (by rw [List.length_drop]; omega)
    have hl : (s.drop taken).length = s.length - taken := List.length_drop
    rw [hall]
    constructor
    · intro hok
      obtain ⟨-, hend⟩ := copyLoop_ok hok
      rw [hl, Nat.zero_add] at hend
      have hstop := hend (by omega)
      exact Or.inr ⟨hstop.2, hstop.1⟩
    · rintro (hlen | ⟨hpos, hstop⟩)
      · exact absurd hlen hle
      · have hheld : c.copyLoop (s.length - taken) 0 = .ok (s.drop taken) := by
          rw [h.copyLoop_eq _ 0 (by omega), Nat.add_zero,
            List.take_of_length_le (by rw [hl])]
        obtain ⟨l, rfl⟩ : ∃ l, len = s.length - taken + (l + 1) :=
          ⟨len - (s.length - taken) - 1, by omega⟩
        rw [copyLoop_add (l + 1) hheld hl, Nat.zero_add, copyLoop, if_pos ⟨hstop, hpos⟩]
        exact congrArg _ (List.append_nil _)

theorem Ring.get_meets (h : Ring c cap s taken) {len : ℕ} (hm : Meets c (.get len)) :
    ∃ c', c.get len = .ok (c', (s.drop taken).take len) ∧
      Ring c' cap s (taken + min len (s.length - taken)) := by
  have horder := h.order
  have hl : (s.drop taken).length = s.length - taken := List.length_drop
  have htake : (s.drop taken).take (min len (s.length - taken)) = (s.drop taken).take len := by
    rw [← hl, ← List.take_eq_take_min]
  have hcopy : c.copyLoop len 0 = .ok ((s.drop taken).take len) := by
    refine (h.copyLoop_iff len).mpr ?_
    rw [← h.unread_length]
    exact hm
  have hheld : c.copyLoop (min len (s.length - taken)) 0 = .ok ((s.drop taken).take len) := by
    rw [h.copyLoop_eq _ 0 (by omega), Nat.add_zero, htake]
  have hsame : c.get len = c.get (min len (s.length - taken)) := by
    rw [get, get, hcopy, hheld]
  obtain ⟨c', hget, h'⟩ := h.get_eq (show taken + min len (s.length - taken) ≤ s.length by omega)
  exact ⟨c', by rw [hsame, hget, htake], h'⟩

/-- A call is correct in just the states in which its loop stops in time. -/
theorem Ring.correct_iff (h : Ring c cap s taken) (k : Call) : Correct c k ↔ Meets c k := by
  have hu := h.unread_eq
  have hl := h.unread_length
  have horder := h.order
  have hroom := h.room
  cases k with
  | add bytes =>
    constructor
    · rintro ⟨c', hadd, -⟩
      obtain ⟨⟨mem, n⟩, hloop, hadd⟩ := bind_eq_ok.mp hadd
      have hn : n = min bytes.length c.room := congrArg Prod.snd (Except.ok.inj hadd)
      obtain ⟨-, -, hindex, hend⟩ := addLoop_ok hloop
      refine ⟨?_, fun i hi => hindex i (Nat.zero_le i) (hn ▸ hi)⟩
      by_cases hle : bytes.length ≤ c.room
      · exact Or.inl hle
      · rw [Nat.min_eq_right (by omega)] at hn
        obtain ⟨hstop, hpos⟩ := hend (by omega)
        exact Or.inr ⟨hn ▸ hpos, hn ▸ hstop⟩
    · intro hm
      obtain ⟨c', hadd, h'⟩ := h.add_meets hm
      refine ⟨c', hadd, ?_⟩
      rw [h'.unread_eq, hu, List.drop_append_of_le_length horder]
  | get len =>
    constructor
    · rintro ⟨c', hget, -⟩
      obtain ⟨bytes, hcopy, hget⟩ := bind_eq_ok.mp hget
      have hb : bytes = c.unread.take len := congrArg Prod.snd (Except.ok.inj hget)
      have hiff := h.copyLoop_iff len
      rw [← hu, ← hl] at hiff
      exact hiff.mp (hcopy.trans (congrArg _ hb))
    · intro hm
      obtain ⟨c', hget, h'⟩ := h.get_meets hm
      refine ⟨c', by rw [hu]; exact hget, ?_⟩
      rw [h'.unread_eq, hu, List.drop_drop]
      by_cases hle : len ≤ s.length - taken
      · rw [Nat.min_eq_left hle]
      · rw [List.drop_eq_nil_of_le (by omega), List.drop_eq_nil_of_le (by omega)]
  | read len =>
    have hiff := h.copyLoop_iff len
    rwa [← hu, ← hl] at hiff
  | size => exact Iff.rfl

theorem Ring.step_meets (h : Ring c cap s taken) {k : Call} (hm : Meets c k) :
    ∃ c', c.step k = some c' ∧ ∃ s' taken', Ring c' cap s' taken' := by
  cases k with
  | add bytes =>
    obtain ⟨c', hadd, h'⟩ := h.add_meets hm
    exact ⟨c', step_eq (by rw [call, hadd]; rfl), _, _, h'⟩
  | get len =>
    obtain ⟨c', hget, h'⟩ := h.get_meets hm
    exact ⟨c', step_eq (by rw [call, hget]; rfl), _, _, h'⟩
  | read len =>
    have hread : c.read len = _ := (h.correct_iff (.read len)).mpr hm
    exact ⟨c, step_eq (by rw [call, hread]; rfl), _, _, h⟩
  | size => exact ⟨c, rfl, _, _, h⟩

/-- Asked for more than there is, a buffer takes or hands out just what there is, call after
call, if and only if each of these calls meets its end in the test of the loop. -/
theorem new_correct_iff {memory : List UInt8} (hpos : 0 < cap) (hsmall : cap < 2 ^ 31)
    (hmem : memory.length = cap) (calls : List Call) :
    (Checked step Correct (new (Int32.ofNat cap) memory) calls ↔
      Checked step Meets (new (Int32.ofNat cap) memory) calls) ∧
    (Checked step Meets (new (Int32.ofNat cap) memory) calls →
      ∃ c, run step (new (Int32.ofNat cap) memory) calls = some c ∧
        0 ≤ c.size.toInt ∧ c.size.toInt ≤ cap) := by
  have hnew : ∃ s taken, Ring (new (Int32.ofNat cap) memory) cap s taken :=
    ⟨_, _, ring_new hpos hsmall hmem⟩
  constructor
  · refine checked_iff (I := fun c => ∃ s taken, Ring c cap s taken) (F := fun _ _ => True)
      ?_ ?_ hnew (checked_true _ _)
    · rintro c k c' ⟨s, taken, h⟩ - hk hs
      obtain ⟨c1, hs1, h1⟩ := h.step_meets ((h.correct_iff k).mp hk)
      cases hs.symm.trans hs1
      exact h1
    · rintro c k ⟨s, taken, h⟩ -
      exact h.correct_iff k
  · intro hmeets
    obtain ⟨c, hrun, s, taken, h⟩ :=
      run_of_checked (I := fun c => ∃ s taken, Ring c cap s taken)
        (fun c k ⟨s, taken, h⟩ hk => h.step_meets hk) hnew hmeets
    have hroom := h.room
    refine ⟨c, hrun, ?_⟩
    rw [h.size_eq]
    omega

theorem new_correct_iff_stopped :
    Checked step Correct (new 2 [0, 0]) [.add [1, 2, 3], .get 1, .get 1] ∧
    ∃ c, run step (new 2 [0, 0]) [.add [1, 2, 3], .get 1, .get 1] = some c ∧
      0 ≤ c.size.toInt ∧ c.size.toInt ≤ (2 : ℕ) :=
  have h := new_correct_iff (show 0 < 2 by decide) (by decide) (show [0, 0].length = 2 from rfl)
    [.add [1, 2, 3], .get 1, .get 1]
  have hm : Checked step Meets (new 2 [0, 0]) [.add [1, 2, 3], .get 1, .get 1] := by
    decide +kernel
  ⟨h.1.mpr hm, h.2 hm⟩

/-- A full buffer takes one byte more, in the place of the oldest. -/
theorem add_overfills : ∃ c, run step (new 2 [0, 0]) [.add [1, 2]] = some c ∧
    c.unread = [1, 2] ∧ c.room = 0 ∧ ¬Correct c (.add [3]) ∧
    ∃ c', c.add [3] = .ok (c', 1) ∧ c'.size = 3 ∧ c'.buf = [3, 2] := by
  refine ⟨⟨[1, 2], 2, 0, 2, 2⟩, by decide +kernel, by decide +kernel, by decide +kernel, ?_,
    ⟨[3, 2], 2, 0, 3, 3⟩, by decide +kernel, rfl, rfl⟩
  rintro ⟨c', hadd, -⟩
  have htook : (add ⟨[1, 2], 2, 0, 2, 2⟩ [3]).map Prod.snd = .ok 1 := by decide +kernel
  rw [hadd] at htook
  have hmin : min [(3 : UInt8)].length (room ⟨[1, 2], 2, 0, 2, 2⟩) = 1 := Except.ok.inj htook
  exact absurd hmin (by decide +kernel)

theorem Ring.index_in_range (h : Ring c cap s taken) {p : ℕ} (hp : Indexable cap p) :
    0 ≤ Int32.ofNat p % c.capacity ∧ Int32.ofNat p % c.capacity < c.capacity := by
  have hsmall := h.small
  have hlt : p % cap < cap := Nat.mod_lt _ h.pos
  rw [h.capacity]
  refine ⟨hp.nonneg h.pos hsmall, ?_⟩
  rw [hp.mod hsmall, Int32.lt_iff_toInt_lt, Int32.toInt_ofNat_of_lt (by omega),
    Int32.toInt_ofNat_of_lt hsmall]
  exact Int.ofNat_lt.mpr hlt

/-- Within the bounds, the indices of a call are in range exactly when the positions of all
bytes added so far, its own included, can be indexed. -/
theorem Ring.inRange_iff (h : Ring c cap s taken) {k : Call} (hk : Within c k) :
    InRange c k ↔ ∀ p < s.length + k.given.length, Indexable cap p := by
  have hold (len : ℕ) (hlen : (len : ℤ) ≤ c.size.toInt) :
      ∀ j ∈ indices c.start c.end_ c.capacity len 0, 0 ≤ j ∧ j < c.capacity := by
    intro j hj
    rw [h.size_eq] at hlen
    obtain ⟨m, hm, rfl⟩ := mem_indices hj
    rw [h.start, ofNat_add]
    exact h.index_in_range (h.indexable _ (by omega))
  cases k with
  | add bytes =>
    change (bytes.length : ℤ) ≤ _ at hk
    rw [h.capacity_eq, h.size_eq] at hk
    have horder := h.order
    have hroom := h.room
    constructor
    · intro hin
      refine h.indexable_of_nonneg fun m => ?_
      induction m using Nat.strong_induction_on with
      | _ m ih =>
        intro hm
        change m < bytes.length at hm
        have hindex : ∀ p < s.length + m, Indexable cap p :=
          h.indexable_of_nonneg fun i hi => ih i hi (hi.trans hm)
        have hne : ∀ i < m, 0 < i → (c.end_ + Int32.ofNat i) % c.capacity ≠ c.start :=
          fun i hi h0 => h.ne_start h0 (by omega) (hindex _ (by omega))
        have hmem := mem_indices_of_ne hne (Nat.zero_le m) (by omega : m < 0 + bytes.length)
        exact (hin _ hmem).1
    · intro hindex j hj
      obtain ⟨m, hm, rfl⟩ := mem_indices hj
      rw [h.end_, ofNat_add]
      rw [Nat.zero_add] at hm
      exact h.index_in_range (hindex _ (Nat.add_lt_add_left hm _))
  | get len => exact iff_of_true (hold len hk) h.indexable
  | read len => exact iff_of_true (hold len hk) h.indexable
  | size => exact iff_of_true (fun j hj => absurd hj List.not_mem_nil) h.indexable

/-- Along a run within the bounds the indices stay in range exactly as long as the positions
can be indexed. -/
theorem Ring.checked_inRange_iff {calls : List Call} :
    ∀ {c : CircularBuffer} {s : List UInt8} {taken : ℕ}, Ring c cap s taken →
      Checked step Within c calls →
      (Checked step InRange c calls ↔
        ∀ p < s.length + (Fifo.given calls).length, Indexable cap p) := by
  induction calls with
  | nil => exact fun h _ => iff_of_true trivial h.indexable
  | cons k ks ih =>
    intro c s taken h hw
    rw [Fifo.given_cons, List.length_append, ← Nat.add_assoc]
    have hnext (hk : ∀ p < s.length + k.given.length, Indexable cap p) :
        ∃ c', c.step k = some c' ∧ (Checked step InRange c' ks ↔
          ∀ p < s.length + k.given.length + (Fifo.given ks).length, Indexable cap p) := by
      obtain ⟨c', hcall, h', -⟩ := h.call_eq hw.1 hk
      refine ⟨c', step_eq hcall, ?_⟩
      rw [ih h' (hw.2 c' (step_eq hcall)), List.length_append]
    constructor
    · rintro ⟨hin, hrest⟩
      obtain ⟨c', hs, hiff⟩ := hnext ((h.inRange_iff hw.1).mp hin)
      exact hiff.mp (hrest c' hs)
    · intro hall
      have hk : ∀ p < s.length + k.given.length, Indexable cap p := fun p hp =>
        hall p (by omega)
      obtain ⟨c', hs, hiff⟩ := hnext hk
      refine ⟨(h.inRange_iff hw.1).mpr hk, fun c1 hs1 => ?_⟩
      cases hs.symm.trans hs1
      exact hiff.mpr hall

theorem indexable_session {p : ℕ} : Indexable 1024 p ↔ p ≤ 2 ^ 31 := by
  constructor
  · exact fun h => h.le (by decide)
  · intro hp
    obtain rfl | hlt := eq_or_lt_of_le hp
    · exact Or.inr (Or.inr ⟨rfl, by decide⟩)
    · exact .of_lt hlt

/-- The buffer of a session: its indices stay in range while no more than `2 ^ 31 + 1` bytes
are added to it, and leave it with the next one. -/
theorem session_inRange_iff {memory : List UInt8} (hmem : memory.length = 1024)
    {calls : List Call} (hwithin : Checked step Within (new 1024 memory) calls) :
    Checked step InRange (new 1024 memory) calls ↔
      (Fifo.given calls).length ≤ 2 ^ 31 + 1 := by
  have hnew : Ring (new 1024 memory) 1024 [] 0 := ring_new (by decide) (by decide) hmem
  rw [hnew.checked_inRange_iff hwithin, List.length_nil, Nat.zero_add]
  constructor
  · intro hall
    by_contra hlong
    have := indexable_session.mp (hall (2 ^ 31 + 1) (by omega))
    omega
  · exact fun hle p hp => indexable_session.mpr (by omega)

theorem session_inRange_started :
    Checked step Within (new 1024 (List.replicate 1024 0)) [.add [1, 0, 3], .read 3, .get 3] ∧
    Checked step InRange (new 1024 (List.replicate 1024 0)) [.add [1, 0, 3], .read 3, .get 3] :=
  have hwithin : Checked step Within (new 1024 (List.replicate 1024 0))
      [.add [1, 0, 3], .read 3, .get 3] := by decide +kernel
  ⟨hwithin, (session_inRange_iff List.length_replicate hwithin).mpr (by decide)⟩

/-- Fill the buffer and empty it again. -/
def cycle : List Call := [.add (List.replicate 1024 0), .get 1024]

theorem given_cycles (ks : List Call) (n : ℕ) :
    (Fifo.given ((List.replicate n cycle).flatten ++ ks)).length =
      1024 * n + (Fifo.given ks).length := by
  induction n with
  | zero => simp
  | succ n ih =>
    have hcycle : Fifo.given cycle = List.replicate 1024 0 := by
      simp only [cycle, Fifo.given_cons, Fifo.Call.given, Fifo.given_nil, List.append_nil]
    rw [List.replicate_succ, List.flatten_cons, List.append_assoc, Fifo.given_append,
      List.length_append, ih, hcycle, List.length_replicate]
    omega

/-- Any number of cycles keeps to the bounds, and leaves the buffer empty. -/
theorem checked_cycles {ks : List Call} (n : ℕ) :
    ∀ {c : CircularBuffer} {s : List UInt8}, Ring c 1024 s s.length →
      s.length + 1024 * n ≤ 2 ^ 31 →
      (∀ c' s', Ring c' 1024 s' s'.length → Checked step Within c' ks) →
      Checked step Within c ((List.replicate n cycle).flatten ++ ks) := by
  induction n with
  | zero => exact fun h _ hks => hks _ _ h
  | succ n ih =>
    intro c s h hlen hks
    have hl : (List.replicate 1024 (0 : UInt8)).length = 1024 := List.length_replicate
    have hadd : Within c (.add (List.replicate 1024 0)) := by
      change ((List.replicate 1024 (0 : UInt8)).length : ℤ) ≤ _
      rw [h.capacity_eq, h.size_eq, hl]
      omega
    have hindex : ∀ p < s.length + (List.replicate 1024 (0 : UInt8)).length,
        Indexable 1024 p := fun p hp => indexable_session.mpr (by omega)
    obtain ⟨c1, hc1, h1, -⟩ := h.call_eq hadd hindex
    change Ring c1 1024 (s ++ List.replicate 1024 0) s.length at h1
    have hs1 : (s ++ List.replicate 1024 (0 : UInt8)).length = s.length + 1024 := by
      rw [List.length_append, hl]
    have hget : Within c1 (.get 1024) := by
      change ((1024 : ℕ) : ℤ) ≤ _
      rw [h1.size_eq, hs1]
      omega
    obtain ⟨c2, hc2, h2⟩ := h1.get_eq (show s.length + 1024 ≤ _ from hs1.ge)
    refine ⟨hadd, fun c1' hs1' => ?_⟩
    cases (step_eq hc1).symm.trans hs1'
    refine ⟨hget, fun c2' hs2' => ?_⟩
    cases (step_eq (k := .get 1024) (by rw [call, hc2]; rfl)).symm.trans hs2'
    exact ih (hs1 ▸ h2) (by omega) hks

/-- After `2 ^ 31` bytes that were all taken out again, the second byte of the next `add` has
a negative index. -/
theorem session_leaves_range :
    Checked step Within (new 1024 (List.replicate 1024 0))
      ((List.replicate (2 ^ 21) cycle).flatten ++ [.add [0, 0]]) ∧
    ¬Checked step InRange (new 1024 (List.replicate 1024 0))
      ((List.replicate (2 ^ 21) cycle).flatten ++ [.add [0, 0]]) := by
  have hnew : Ring (new 1024 (List.replicate 1024 0)) 1024 [] 0 :=
    ring_new (by decide) (by decide) List.length_replicate
  have hwithin : Checked step Within (new 1024 (List.replicate 1024 0))
      ((List.replicate (2 ^ 21) cycle).flatten ++ [.add [0, 0]]) := by
    refine checked_cycles (2 ^ 21) hnew (by decide) fun c s h => ⟨?_, fun _ _ => trivial⟩
    change (([0, 0] : List UInt8).length : ℤ) ≤ _
    rw [h.capacity_eq, h.size_eq, Nat.sub_self]
    decide
  refine ⟨hwithin, fun hin => ?_⟩
  have hall := (hnew.checked_inRange_iff hwithin).mp hin (2 ^ 31 + 1)
  rw [given_cycles] at hall
  have := indexable_session.mp (hall (by decide))
  omega

end Ring

end Gpshub.CircularBuffer
