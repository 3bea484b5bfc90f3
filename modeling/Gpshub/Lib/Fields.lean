import Mathlib.Data.List.Basic
import Mathlib.Algebra.BigOperators.Group.List.Basic
import Mathlib.Algebra.GroupWithZero.Nat

/-! Lists that are divided into fields by a separator. -/
namespace Lib.Fields

variable {α : Type*}

/-- `f` is a part of `l` without separators that cannot be made longer. -/
def IsField (sep : α) (l f : List α) : Prop :=
  sep ∉ f ∧ ∃ pre post, l = pre ++ f ++ post ∧
    (pre = [] ∨ ∃ p, pre = p ++ [sep]) ∧ (post = [] ∨ ∃ q, post = sep :: q)

/-- The induction over the fields of a list: the last one, and one in front of others. -/
theorem fields_induction (sep : α) {P : List α → Prop} (last : ∀ f, sep ∉ f → P f)
    (more : ∀ f rest, sep ∉ f → P rest → P (f ++ sep :: rest)) (l : List α) : P l := by
  induction h : l.length using Nat.strongRecOn generalizing l with
  | ind n ih =>
    by_cases hl : sep ∈ l
    · obtain ⟨f, rest, rfl, hf⟩ := List.eq_append_cons_of_mem hl
      have hlt : rest.length < n := by
        rw [← h, List.length_append, List.length_cons]
        omega
      exact more f rest hf (ih rest.length hlt rest rfl)
    · exact last l hl

variable {sep : α} {f : List α}

theorem isField_of_not_mem {l : List α} (hl : sep ∉ l) : IsField sep l f ↔ f = l := by
  constructor
  · rintro ⟨-, pre, post, rfl, hpre, hpost⟩
    have hnil : pre = [] := by
      apply hpre.resolve_right
      rintro ⟨p, rfl⟩
      exact hl (by simp)
    have hnil' : post = [] := by
      apply hpost.resolve_right
      rintro ⟨q, rfl⟩
      exact hl (by simp)
    rw [hnil, hnil', List.nil_append, List.append_nil]
  · rintro rfl
    exact ⟨hl, [], [], by simp, Or.inl rfl, Or.inl rfl⟩

section Split

variable [DecidableEq α]

/-- Two lists with the same first separator agree in front of it and behind it. -/
theorem first_sep_inj {f' rest rest' : List α} (hf : sep ∉ f) (hf' : sep ∉ f')
    (he : f ++ sep :: rest = f' ++ sep :: rest') : f = f' ∧ rest = rest' := by
  have hsplit := congrArg (List.splitOn sep) he
  rw [List.splitOn_append_cons_self_of_not_mem hf,
    List.splitOn_append_cons_self_of_not_mem hf'] at hsplit
  have hhead : f = f' := (List.cons.inj hsplit).1
  subst hhead
  exact ⟨rfl, (List.cons.inj (List.append_cancel_left he)).2⟩

theorem isField_cons {g rest : List α} (hg : sep ∉ g) :
    IsField sep (g ++ sep :: rest) f ↔ f = g ∨ IsField sep rest f := by
  constructor
  · rintro ⟨hf, pre, post, he, hpre, hpost⟩
    rcases hpre with rfl | ⟨p, rfl⟩
    · left
      rcases hpost with rfl | ⟨q, rfl⟩
      · have hmem : sep ∈ f := by
          have hsep : sep ∈ g ++ sep :: rest := by simp
          rw [he] at hsep
          simpa using hsep
        exact absurd hmem hf
      · rw [List.nil_append] at he
        exact (first_sep_inj hg hf he).1.symm
    · right
      have he' : g ++ sep :: rest = p ++ sep :: (f ++ post) := by simpa using he
      by_cases hp : sep ∈ p
      · obtain ⟨p1, p2, rfl, hp1⟩ := List.eq_append_cons_of_mem hp
        rw [List.append_assoc] at he'
        have hrest := (first_sep_inj hg hp1 he').2
        exact ⟨hf, p2 ++ [sep], post, by simpa using hrest, Or.inr ⟨p2, rfl⟩, hpost⟩
      · have hrest := (first_sep_inj hg hp he').2
        exact ⟨hf, [], post, by simpa using hrest, Or.inl rfl, hpost⟩
  · rintro (rfl | ⟨hf, pre, post, rfl, hpre, hpost⟩)
    · exact ⟨hg, [], sep :: rest, by simp, Or.inl rfl, Or.inr ⟨rest, rfl⟩⟩
    · refine ⟨hf, g ++ sep :: pre, post, by simp, Or.inr ?_, hpost⟩
      rcases hpre with rfl | ⟨p, rfl⟩
      · exact ⟨g, rfl⟩
      · exact ⟨g ++ sep :: p, by simp⟩

theorem mem_splitOn {l : List α} : f ∈ l.splitOn sep ↔ IsField sep l f := by
  induction l using fields_induction sep with
  | last l hl => rw [List.splitOn_eq_singleton hl, List.mem_singleton, isField_of_not_mem hl]
  | more g rest hg ih =>
    rw [List.splitOn_append_cons_self_of_not_mem hg, List.mem_cons, ih, isField_cons hg]

theorem sep_not_mem_of_mem_splitOn {l : List α} (hf : f ∈ l.splitOn sep) : sep ∉ f :=
  (mem_splitOn.mp hf).1

/-- Every field takes up its own length, and the place of one separator but for the last. -/
theorem sum_length_splitOn (sep : α) (l : List α) :
    ((l.splitOn sep).map fun f => f.length + 1).sum = l.length + 1 := by
  induction l using fields_induction sep with
  | last l hl => simp [List.splitOn_eq_singleton hl]
  | more g rest hg ih =>
    rw [List.splitOn_append_cons_self_of_not_mem hg, List.map_cons, List.sum_cons, ih,
      List.length_append, List.length_cons]
    omega

end Split
end Lib.Fields
