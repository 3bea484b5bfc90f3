import Gpshub.Lib.Machine
import Mathlib.Data.List.Count

/-! Runs that come to an end: a rank that certain steps lower, and no step raises. -/
namespace Lib.Machine

variable {σ α : Type*} {step : σ → α → Option σ} {I : σ → Prop} {K : α → Bool} {rank : σ → ℕ}

/-- In the states of `I`, which are not left, a step of the kind `K` lowers the rank, and no step
raises it. -/
structure Ranked (step : σ → α → Option σ) (I : σ → Prop) (K : α → Bool) (rank : σ → ℕ) : Prop where
  keeps : ∀ s a s', step s a = some s' → I s → I s'
  lowers : ∀ s a s', step s a = some s' → I s → K a = true → rank s' < rank s
  raises : ∀ s a s', step s a = some s' → I s → rank s' ≤ rank s

/-- A run has no more steps of the kind `K` than the rank is lowered by. -/
theorem Ranked.countP_add_le (h : Ranked step I K rank) {as : List α} :
    ∀ {s s' : σ}, run step s as = some s' → I s → as.countP K + rank s' ≤ rank s := by
  induction as with
  | nil =>
    intro s s' hr hs
    cases hr
    simp
  | cons a as ih =>
    intro s s' hr hs
    obtain ⟨s1, hstep, hr⟩ := run_cons.mp hr
    have hrest := ih hr (h.keeps s a s1 hstep hs)
    by_cases hK : K a = true
    · have hlow := h.lowers s a s1 hstep hs hK
      rw [List.countP_cons_of_pos hK]
      omega
    · have hle := h.raises s a s1 hstep hs
      rw [List.countP_cons_of_neg hK]
      omega

/-- Where some step lowers the rank as long as the goal is not reached, it can be reached. -/
theorem exists_run_to {goal : σ → Prop} (hstep : ∀ s, I s → ¬goal s →
      ∃ a s', step s a = some s' ∧ I s' ∧ rank s' < rank s) {s : σ} (hs : I s) :
    ∃ as s', run step s as = some s' ∧ I s' ∧ goal s' := by
  induction hn : rank s using Nat.strongRecOn generalizing s with
  | ind n ih =>
    by_cases hgoal : goal s
    · exact ⟨[], s, rfl, hs, hgoal⟩
    · obtain ⟨a, s1, h1, hs1, hlow⟩ := hstep s hs hgoal
      obtain ⟨as, s', hr, hend⟩ := ih (rank s1) (hn ▸ hlow) hs1 rfl
      exact ⟨a :: as, s', run_cons.mpr ⟨s1, h1, hr⟩, hend⟩

theorem Ranked.length_add_le (h : Ranked step I (fun _ => true) rank) {s s' : σ} {as : List α}
    (hr : run step s as = some s') (hs : I s) : as.length + rank s' ≤ rank s := by
  have hle := h.countP_add_le hr hs
  rwa [List.countP_true] at hle

theorem Ranked.exists_end (h : Ranked step I (fun _ => true) rank) {s : σ} (hs : I s) :
    ∃ as s', run step s as = some s' ∧ ∀ a, step s' a = none := by
  have hgo : ∀ s, I s → (¬∀ a, step s a = none) →
      ∃ a s', step s a = some s' ∧ I s' ∧ rank s' < rank s := by
    intro s hs hmore
    obtain ⟨a, ha⟩ := not_forall.mp hmore
    obtain ⟨s1, h1⟩ := Option.ne_none_iff_exists'.mp ha
    exact ⟨a, s1, h1, h.keeps s a s1 h1 hs, h.lowers s a s1 h1 hs rfl⟩
  obtain ⟨as, s', hr, -, hend⟩ := exists_run_to hgo hs
  exact ⟨as, s', hr, hend⟩

end Lib.Machine
