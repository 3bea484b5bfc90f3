import Gpshub.Lib.Machine
import Mathlib.Logic.Function.Iterate

/-! A pointer that goes from place to place and stops at the first free one. -/
namespace Lib.Rotor
open Lib.Machine Function

variable {π : Type*} (next : π → π)

/-- `q` is `k` places after `p` and free, and no place between them is. -/
structure FirstAfter (free : π → Prop) (p : π) (k : ℕ) (q : π) : Prop where
  pos : 0 < k
  at_k : next^[k] p = q
  free_k : free q
  passed : ∀ j, 0 < j → j < k → ¬free (next^[j] p)

/-- Looks at `rounds` places after `p`. -/
def search (free : π → Prop) [DecidablePred free] : ℕ → π → Option π
  | 0, _ => none
  | rounds + 1, p => if free (next p) then some (next p) else search free rounds (next p)

section Search

variable {next} {free : π → Prop}

theorem FirstAfter.succ {p q : π} {k : ℕ} (h : FirstAfter next free (next p) k q)
    (hp : ¬free (next p)) : FirstAfter next free p (k + 1) q where
  pos := k.succ_pos
  at_k := h.at_k
  free_k := h.free_k
  passed := by
    intro j hj hjk
    obtain ⟨j, rfl⟩ := Nat.exists_eq_succ_of_ne_zero (Nat.ne_of_gt hj)
    rw [iterate_succ_apply]
    rcases Nat.eq_zero_or_pos j with rfl | hpos
    · exact hp
    · exact h.passed j hpos (by omega)

variable [DecidablePred free]

theorem search_eq_none {rounds : ℕ} : ∀ {p : π}, search next free rounds p = none ↔
    ∀ k, 0 < k → k ≤ rounds → ¬free (next^[k] p) := by
  induction rounds with
  | zero =>
    intro p
    exact iff_of_true rfl fun k hk hle => by omega
  | succ rounds ih =>
    intro p
    rw [search]
    split_ifs with hp
    · refine iff_of_false nofun fun hall => ?_
      exact hall 1 Nat.one_pos (by omega) hp
    · rw [ih]
      constructor
      · intro hall k hk hle
        obtain ⟨k, rfl⟩ := Nat.exists_eq_succ_of_ne_zero (Nat.ne_of_gt hk)
        rw [iterate_succ_apply]
        rcases Nat.eq_zero_or_pos k with rfl | hpos
        · exact hp
        · exact hall k hpos (by omega)
      · intro hall k hk hle
        have h := hall (k + 1) k.succ_pos (by omega)
        rwa [iterate_succ_apply] at h

theorem search_eq_some {rounds : ℕ} : ∀ {p q : π}, search next free rounds p = some q →
    ∃ k ≤ rounds, FirstAfter next free p k q := by
  induction rounds with
  | zero => intro p q h; cases h
  | succ rounds ih =>
    intro p q h
    rw [search] at h
    split_ifs at h with hp
    · cases h
      exact ⟨1, by omega, Nat.one_pos, rfl, hp, fun j hj hj1 => by omega⟩
    · obtain ⟨k, hk, hf⟩ := ih h
      exact ⟨k + 1, by omega, hf.succ hp⟩

theorem exists_search {rounds k : ℕ} {p : π} (hk : 0 < k) (hle : k ≤ rounds)
    (hfree : free (next^[k] p)) :
    ∃ q, search next free rounds p = some q ∧ ∃ k ≤ rounds, FirstAfter next free p k q := by
  have hne : search next free rounds p ≠ none := fun h => search_eq_none.mp h k hk hle hfree
  obtain ⟨q, hq⟩ := Option.ne_none_iff_exists'.mp hne
  exact ⟨q, hq, search_eq_some hq⟩

end Search

/-- On its first `m` moves from `x` on, `y` is not met. -/
def Misses (x y : π) (m : ℕ) : Prop := ∀ j, 0 < j → j ≤ m → next^[j] x ≠ y

section Misses

variable {next} {x y : π} {m : ℕ}

theorem misses_zero : Misses next x y 0 := fun j hj hle => by omega

theorem Misses.move {free : π → Prop} {k : ℕ} {q : π} (hm : Misses next x y m)
    (hf : FirstAfter next free (next^[m] x) k q) (hy : free y) (hq : q ≠ y) :
    Misses next x y (m + k) := by
  intro j hj hle
  by_cases hjm : j ≤ m
  · exact hm j hj hjm
  · have hmj : m < j := Nat.lt_of_not_le hjm
    obtain ⟨i, rfl⟩ := Nat.exists_eq_add_of_lt hmj
    have hi : next^[m + i + 1] x = next^[i + 1] (next^[m] x) := by
      rw [← iterate_add_apply, show i + 1 + m = m + i + 1 by omega]
    rw [hi]
    rcases Nat.lt_or_ge (i + 1) k with hik | hki
    · intro he
      apply hf.passed (i + 1) i.succ_pos hik
      rw [he]
      exact hy
    · have hk : i + 1 = k := by omega
      rw [hk, hf.at_k]
      exact hq

theorem not_misses_turn (hm : 0 < m) (hturn : next^[m] x = x) (hy : ∃ i, next^[i] x = y) :
    ¬Misses next x y m := by
  intro hmiss
  obtain ⟨i, hi⟩ := hy
  have hturns : next^[m * (i / m)] x = x := by
    rw [iterate_mul]
    exact iterate_fixed hturn (i / m)
  have hmod : next^[i % m] x = y := by
    rw [← Nat.mod_add_div i m, iterate_add_apply, hturns] at hi
    exact hi
  rcases Nat.eq_zero_or_pos (i % m) with h0 | hpos
  · rw [h0] at hmod
    exact hmiss m hm (Nat.le_refl m) (hturn.trans hmod)
  · exact hmiss (i % m) hpos (Nat.le_of_lt (Nat.mod_lt i hm)) hmod

end Misses

section Runs

variable {next} {σ α : Type*} {step : σ → α → Option σ}

/-- When each step leaves the pointer alone or moves it to the first free place, which is
then no longer free, it comes back to a place only if no other place of the circle was
free all the time. -/
theorem not_always_free (pos : σ → π) (free : σ → π → Prop)
    (hstep : ∀ s a s', step s a = some s' → pos s' = pos s ∨
      (∃ k, FirstAfter next (free s) (pos s) k (pos s')) ∧ ¬free s' (pos s'))
    {s t : σ} {as : List α} {y : π} {k : ℕ} (hr : run step s as = some t)
    (hback : FirstAfter next (free t) (pos t) k (pos s)) (hy : ∃ i, next^[i] (pos s) = y)
    (hne : pos s ≠ y) : ¬Always step (fun s => free s y) s as := by
  intro hfree
  have hinv : Always step (fun t => ∃ m, next^[m] (pos s) = pos t ∧
      Misses next (pos s) y m) s as := by
    refine always_of_step ?_ hfree (guarded_true s as) ⟨0, rfl, misses_zero⟩
    intro r a r' hyr hyr' _ hs hI
    obtain ⟨m, hm, hmiss⟩ := hI
    rcases hstep r a r' hs with hpos | ⟨⟨k, hf⟩, htaken⟩
    · exact ⟨m, hm.trans hpos.symm, hmiss⟩
    · rw [← hm] at hf
      have hq : pos r' ≠ y := fun he => htaken (he ▸ hyr')
      refine ⟨m + k, ?_, hmiss.move hf hyr hq⟩
      rw [Nat.add_comm, iterate_add_apply]
      exact hf.at_k
  obtain ⟨m, hm, hmiss⟩ := hinv.last hr
  rw [← hm] at hback
  have hturn : next^[m + k] (pos s) = pos s := by
    rw [Nat.add_comm, iterate_add_apply]
    exact hback.at_k
  have hlong : 0 < m + k := Nat.add_pos_right m hback.pos
  exact not_misses_turn hlong hturn hy (hmiss.move hback (hfree.last hr) hne)

end Runs
end Lib.Rotor
