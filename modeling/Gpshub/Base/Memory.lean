import Mathlib.Data.List.Basic

/-! Byte arrays as the C++ code uses them: an access outside the array does not return. -/
namespace Gpshub

/-- The ways in which the modelled code does not return normally. -/
inductive Abort
  /-- A `SocketException` leaves the function. -/
  | socketException
  /-- `NULL` or a deleted `User` is dereferenced. -/
  | badUser
  /-- `NULL` or a deleted `Session` or its `Socket` pointer is dereferenced. -/
  | badSession
  /-- An array is accessed outside its bounds. -/
  | badIndex
  /-- A loop that never ends. -/
  | diverges
  deriving DecidableEq, Repr

theorem bind_eq_ok {ε α β : Type} {x : Except ε α} {f : α → Except ε β} {b : β} :
    (x >>= f) = .ok b ↔ ∃ a, x = .ok a ∧ f a = .ok b := by
  constructor
  · intro h
    cases x with
    | error e => cases h
    | ok a => exact ⟨a, rfl, h⟩
  · rintro ⟨a, rfl, h⟩
    exact h

theorem ok_bind {ε α β : Type} (a : α) (f : α → Except ε β) :
    ((.ok a : Except ε α) >>= f) = f a := rfl

theorem error_bind {ε α β : Type} (e : ε) (f : α → Except ε β) :
    ((.error e : Except ε α) >>= f) = .error e := rfl

@[simp] theorem map_ok {ε α β : Type} (f : α → β) (a : α) :
    f <$> (.ok a : Except ε α) = .ok (f a) := rfl

@[simp] theorem map_error {ε α β : Type} (f : α → β) (e : ε) :
    f <$> (.error e : Except ε α) = .error e := rfl

/-- `mem[i] = b` -/
def store (mem : List UInt8) (i : ℕ) (b : UInt8) : Except Abort (List UInt8) :=
  if i < mem.length then .ok (mem.set i b) else .error .badIndex

/-- `memcpy(mem + i, src, n)`, with `n` the length of `src`. -/
def memcpy (mem : List UInt8) (i : ℕ) (src : List UInt8) : Except Abort (List UInt8) :=
  if i + src.length ≤ mem.length then
    .ok (mem.take i ++ src ++ mem.drop (i + src.length))
  else .error .badIndex

/-- `mem[i]`; the readers below only use it inside the array. -/
def byteAt (mem : List UInt8) (i : ℕ) : UInt8 := mem.getD i 0

theorem memcpy_eq {mem src : List UInt8} {i : ℕ} (h : i + src.length ≤ mem.length) :
    memcpy mem i src = .ok (mem.take i ++ src ++ mem.drop (i + src.length)) := if_pos h

theorem store_eq {mem : List UInt8} {i : ℕ} {b : UInt8} (h : i < mem.length) :
    store mem i b = .ok (mem.set i b) := if_pos h

theorem memcpy_eq_ok {mem src out : List UInt8} {i : ℕ} (h : memcpy mem i src = .ok out) :
    i + src.length ≤ mem.length ∧ out = mem.take i ++ src ++ mem.drop (i + src.length) := by
  unfold memcpy at h
  split_ifs at h with hi
  cases h
  exact ⟨hi, rfl⟩

theorem memcpy_front {mem src out : List UInt8} (h : memcpy mem 0 src = .ok out) :
    out = src ++ mem.drop src.length := by
  obtain ⟨-, rfl⟩ := memcpy_eq_ok h
  rw [List.take_zero, List.nil_append, Nat.zero_add]

theorem take_of_memcpy {mem src out : List UInt8} (h : memcpy mem 0 src = .ok out) :
    out.take src.length = src := by
  rw [memcpy_front h, List.take_left]

theorem memcpy_length {mem src out : List UInt8} {i : ℕ} (h : memcpy mem i src = .ok out) :
    out.length = mem.length := by
  obtain ⟨hi, rfl⟩ := memcpy_eq_ok h
  simp only [List.length_append, List.length_take, List.length_drop]
  omega

theorem byteAt_append_left {a b : List UInt8} {i : ℕ} (h : i < a.length) :
    byteAt (a ++ b) i = byteAt a i := by
  simp [byteAt, List.getD_eq_getElem?_getD, List.getElem?_append_left h]

theorem byteAt_append_add (a b : List UInt8) (k : ℕ) : byteAt (a ++ b) (a.length + k) = byteAt b k := by
  have hk : a.length ≤ a.length + k := Nat.le_add_right _ k
  simp [byteAt, List.getD_eq_getElem?_getD, List.getElem?_append_right hk]

theorem byteAt_take {a : List UInt8} {i n : ℕ} (h : i < n) : byteAt (a.take n) i = byteAt a i := by
  simp [byteAt, List.getD_eq_getElem?_getD, h]

theorem byteAt_drop (a : List UInt8) (n i : ℕ) : byteAt (a.drop n) i = byteAt a (n + i) := by
  simp [byteAt, List.getD_eq_getElem?_getD]

theorem byteAt_set_ne {a : List UInt8} {i k : ℕ} (b : UInt8) (h : i ≠ k) :
    byteAt (a.set k b) i = byteAt a i := by
  simp [byteAt, List.getD_eq_getElem?_getD, List.getElem?_set_ne h.symm]

theorem byteAt_set_zero (a : List UInt8) (i k : ℕ) : byteAt (a.set k 0) i = 0 ∨
    byteAt (a.set k 0) i = byteAt a i := by
  by_cases h : i = k
  · subst h
    by_cases hi : i < a.length <;> simp [byteAt, List.getD_eq_getElem?_getD, hi]
  · exact Or.inr (byteAt_set_ne 0 h)

/-- A copy to the front of the array shows the copied bytes, then the old contents. -/
theorem byteAt_copy {mem src : List UInt8} (i : ℕ) :
    byteAt (mem.take 0 ++ src ++ mem.drop (0 + src.length)) i =
      if i < src.length then byteAt src i else byteAt mem i := by
  simp only [byteAt, List.take_zero, List.nil_append, Nat.zero_add, List.getD_eq_getElem?_getD]
  split_ifs with h
  · rw [List.getElem?_append_left h]
  · rw [List.getElem?_append_right (by omega), List.getElem?_drop]
    congr 2
    omega

end Gpshub
