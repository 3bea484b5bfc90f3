import Mathlib.Data.List.Flatten
import Mathlib.Data.List.TakeDrop
import Mathlib.Data.Nat.Find
import Mathlib.Order.MinMax
import Mathlib.Order.Monotone.Basic

/-! Streams cut into frames, and servers that handle at most one frame a turn. -/
namespace Lib.Framing

variable {α : Type*} (frames : List (List α))

/-- Where the `k`-th frame starts in the stream. -/
def offset (k : ℕ) : ℕ := (frames.take k).flatten.length

/-- How many frames lie whole in the first `r` elements of the stream. -/
def whole (r : ℕ) : ℕ := Nat.findGreatest (fun k => offset frames k ≤ r) frames.length

@[simp] theorem offset_zero : offset frames 0 = 0 := rfl

@[simp] theorem offset_length : offset frames frames.length = frames.flatten.length := by
  rw [offset, List.take_length]

variable {frames}

theorem offset_succ {k : ℕ} (hk : k < frames.length) :
    offset frames (k + 1) = offset frames k + frames[k].length := by
  rw [offset, offset, List.take_succ_eq_append_getElem hk, List.flatten_append,
    List.length_append]
  simp

theorem offset_le_succ (k : ℕ) : offset frames k ≤ offset frames (k + 1) := by
  by_cases hk : k < frames.length
  · rw [offset_succ hk]
    exact Nat.le_add_right ..
  · rw [offset, offset, List.take_of_length_le (by omega), List.take_of_length_le (by omega)]

theorem offset_mono {j k : ℕ} (h : j ≤ k) : offset frames j ≤ offset frames k :=
  monotone_nat_of_le_succ offset_le_succ h

theorem offset_le_flatten (k : ℕ) : offset frames k ≤ frames.flatten.length := by
  by_cases hk : k ≤ frames.length
  · rw [← offset_length]
    exact offset_mono hk
  · rw [offset, List.take_of_length_le (by omega)]

theorem flatten_take (k : ℕ) :
    (frames.take k).flatten = frames.flatten.take (offset frames k) := by
  have h : frames.flatten = (frames.take k).flatten ++ (frames.drop k).flatten := by
    rw [← List.flatten_append, List.take_append_drop]
  rw [h, offset, List.take_left]

theorem frame_eq {k : ℕ} (hk : k < frames.length) :
    (frames.flatten.drop (offset frames k)).take frames[k].length = frames[k] := by
  have h : frames.flatten =
      (frames.take k).flatten ++ (frames[k] ++ (frames.drop (k + 1)).flatten) := by
    rw [← List.flatten_cons, ← List.drop_eq_getElem_cons hk, ← List.flatten_append,
      List.take_append_drop]
  rw [h, offset, List.drop_left, List.take_left]

theorem whole_le (frames : List (List α)) (r : ℕ) : whole frames r ≤ frames.length := Nat.findGreatest_le _

theorem offset_whole_le (r : ℕ) : offset frames (whole frames r) ≤ r := by
  unfold whole
  exact Nat.findGreatest_spec (P := fun k => offset frames k ≤ r) (Nat.zero_le _) (Nat.zero_le r)

theorem le_whole_iff {k r : ℕ} (hk : k ≤ frames.length) :
    k ≤ whole frames r ↔ offset frames k ≤ r := by
  constructor
  · intro h
    exact (offset_mono h).trans (offset_whole_le r)
  · intro h
    exact Nat.le_findGreatest hk h

/-- How many frames have been handled after `i` turns, when `arrived i` are there by then and
each turn handles at most one. -/
def inTurn (arrived : ℕ → ℕ) : ℕ → ℕ
  | 0 => 0
  | i + 1 => min (inTurn arrived i + 1) (arrived (i + 1))

/-- The server has caught up with `n` frames by turn `m` exactly if there was never a turn
with fewer turns to come than frames outstanding. -/
theorem le_inTurn_iff {arrived : ℕ → ℕ} (h0 : arrived 0 = 0) (m : ℕ) :
    ∀ n, n ≤ inTurn arrived m ↔ ∀ i ≤ m, n ≤ arrived i + (m - i) := by
  induction m with
  | zero =>
    intro n
    simp [inTurn, h0]
  | succ m ih =>
    intro n
    have hprev : n ≤ inTurn arrived m + 1 ↔ ∀ i ≤ m, n ≤ arrived i + (m + 1 - i) := by
      have hn := ih (n - 1)
      constructor
      · intro h i hi
        have := hn.mp (by omega) i hi
        omega
      · intro h
        have : n - 1 ≤ inTurn arrived m := hn.mpr fun i hi => by
          have := h i hi
          omega
        omega
    rw [inTurn, le_min_iff, hprev]
    constructor
    · rintro ⟨hle, hlast⟩ i hi
      by_cases him : i = m + 1
      · subst him
        omega
      · exact hle i (by omega)
    · intro h
      refine ⟨fun i hi => h i (by omega), ?_⟩
      have := h (m + 1) le_rfl
      omega

theorem inTurn_le {arrived : ℕ → ℕ} (h0 : arrived 0 = 0) (i : ℕ) : inTurn arrived i ≤ arrived i := by
  cases i with
  | zero => rw [h0, inTurn]
  | succ i => exact min_le_right ..

end Lib.Framing
