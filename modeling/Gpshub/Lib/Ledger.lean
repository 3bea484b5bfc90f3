import Mathlib.Data.List.Perm.Basic
import Mathlib.Data.List.Nodup

/-! Objects at places: each object is at one place, once, and moves from one place to another. -/
namespace Lib

variable {P α : Type*}

/-- The objects of `all` are those at the places, each at one place and once. -/
structure Placed (all : List α) (f : P → List α) : Prop where
  nodup : ∀ p, (f p).Nodup
  one : ∀ {p q x}, x ∈ f p → x ∈ f q → p = q
  mem : ∀ x, x ∈ all ↔ ∃ p, x ∈ f p

/-- The objects `xs` move from `p` to `q`. -/
structure Transfer (p q : P) (xs : List α) (f f' : P → List α) : Prop where
  ne : p ≠ q
  src : (f p).Perm (xs ++ f' p)
  dst : (f' q).Perm (f q ++ xs)
  rest : ∀ r, r ≠ p → r ≠ q → f' r = f r

namespace Placed

variable {all : List α} {f f' : P → List α} {p q : P} {xs : List α} {x : α}

theorem empty : Placed [] fun _ : P => ([] : List α) where
  nodup _ := List.nodup_nil
  one hx := absurd hx List.not_mem_nil
  mem x := by simp

theorem transfer (h : Placed all f) (ht : Transfer p q xs f f') : Placed all f' := by
  have hsrc : (xs ++ f' p).Nodup := ht.src.nodup_iff.mp (h.nodup p)
  have hdisj (x : α) (hx : x ∈ xs) (hx' : x ∈ f' p) : False :=
    List.disjoint_of_nodup_append hsrc hx hx'
  have hfrom (x : α) (hx : x ∈ xs ∨ x ∈ f' p) : x ∈ f p :=
    ht.src.mem_iff.mpr (List.mem_append.mpr hx)
  -- where an object is after the move, and where it was before
  have hback {r : P} {x : α} (hx : x ∈ f' r) : x ∈ f r ∧ (r = p → x ∉ xs) ∨ r = q ∧ x ∈ xs := by
    by_cases hp : r = p
    · subst hp
      exact Or.inl ⟨hfrom x (Or.inr hx), fun _ hxs => hdisj x hxs hx⟩
    · by_cases hq : r = q
      · subst hq
        rcases List.mem_append.mp (ht.dst.mem_iff.mp hx) with hx | hx
        · exact Or.inl ⟨hx, fun he => absurd he hp⟩
        · exact Or.inr ⟨rfl, hx⟩
      · rw [ht.rest r hp hq] at hx
        exact Or.inl ⟨hx, fun he => absurd he hp⟩
  constructor
  · intro r
    by_cases hp : r = p
    · subst hp
      exact hsrc.of_append_right
    · by_cases hq : r = q
      · subst hq
        rw [ht.dst.nodup_iff, List.nodup_append']
        refine ⟨h.nodup r, hsrc.of_append_left, fun x hx hxs => ?_⟩
        exact ht.ne (h.one (hfrom x (Or.inl hxs)) hx)
      · rw [ht.rest r hp hq]
        exact h.nodup r
  · intro r s x hr hs
    rcases hback hr with ⟨hr', hrxs⟩ | ⟨rfl, hxs⟩
    · rcases hback hs with ⟨hs', -⟩ | ⟨rfl, hxs⟩
      · exact h.one hr' hs'
      · have hrp : r = p := h.one hr' (hfrom x (Or.inl hxs))
        exact absurd hxs (hrxs hrp)
    · rcases hback hs with ⟨hs', hsxs⟩ | ⟨rfl, -⟩
      · have hsp : s = p := h.one hs' (hfrom x (Or.inl hxs))
        exact absurd hxs (hsxs hsp)
      · rfl
  · intro x
    rw [h.mem]
    constructor
    · rintro ⟨r, hr⟩
      by_cases hp : r = p
      · subst hp
        rcases List.mem_append.mp (ht.src.mem_iff.mp hr) with hxs | hx
        · exact ⟨q, ht.dst.mem_iff.mpr (List.mem_append_right _ hxs)⟩
        · exact ⟨r, hx⟩
      · by_cases hq : r = q
        · subst hq
          exact ⟨r, ht.dst.mem_iff.mpr (List.mem_append_left _ hr)⟩
        · exact ⟨r, by rwa [ht.rest r hp hq]⟩
    · rintro ⟨r, hr⟩
      rcases hback hr with ⟨hr', -⟩ | ⟨-, hxs⟩
      · exact ⟨r, hr'⟩
      · exact ⟨p, hfrom x (Or.inl hxs)⟩

theorem add (h : Placed all f) (hx : x ∉ all) (hp : (f' p).Perm (f p ++ [x]))
    (hrest : ∀ r, r ≠ p → f' r = f r) : Placed (all ++ [x]) f' := by
  have hnew (r : P) : x ∉ f r := fun hr => hx ((h.mem x).mpr ⟨r, hr⟩)
  have hback {r : P} {y : α} (hy : y ∈ f' r) : y ∈ f r ∨ r = p ∧ y = x := by
    by_cases hr : r = p
    · subst hr
      rcases List.mem_append.mp (hp.mem_iff.mp hy) with hy | hy
      · exact Or.inl hy
      · exact Or.inr ⟨rfl, List.mem_singleton.mp hy⟩
    · rw [hrest r hr] at hy
      exact Or.inl hy
  constructor
  · intro r
    by_cases hr : r = p
    · subst hr
      rw [hp.nodup_iff, List.nodup_append']
      refine ⟨h.nodup r, List.nodup_singleton x, fun y hy hyx => ?_⟩
      rw [List.mem_singleton.mp hyx] at hy
      exact hnew r hy
    · rw [hrest r hr]
      exact h.nodup r
  · intro r s y hr hs
    rcases hback hr with hr' | ⟨rfl, rfl⟩
    · rcases hback hs with hs' | ⟨rfl, rfl⟩
      · exact h.one hr' hs'
      · exact absurd hr' (hnew r)
    · rcases hback hs with hs' | ⟨rfl, -⟩
      · exact absurd hs' (hnew s)
      · rfl
  · intro y
    rw [List.mem_append, h.mem, List.mem_singleton]
    constructor
    · rintro (⟨r, hr⟩ | rfl)
      · by_cases hrp : r = p
        · subst hrp
          exact ⟨r, hp.mem_iff.mpr (List.mem_append_left _ hr)⟩
        · exact ⟨r, by rwa [hrest r hrp]⟩
      · exact ⟨p, hp.mem_iff.mpr (List.mem_append_right _ (List.mem_singleton.mpr rfl))⟩
    · rintro ⟨r, hr⟩
      rcases hback hr with hr' | ⟨-, rfl⟩
      · exact Or.inl ⟨r, hr'⟩
      · exact Or.inr rfl

end Placed
end Lib
