import Mathlib.Logic.Function.Basic

/-! Partial maps, and directories that list the same members by id and by name. -/
namespace Lib

/-- What is found in a map after an entry is written is that entry, or was there before. -/
theorem of_update_some {α β : Type*} [DecidableEq α] {f : α → Option β} {a k : α} {b c : β}
    (h : Function.update f a (some b) k = some c) : k = a ∧ c = b ∨ k ≠ a ∧ f k = some c := by
  by_cases hk : k = a
  · subst hk
    rw [Function.update_self] at h
    exact Or.inl ⟨rfl, (Option.some.inj h).symm⟩
  · rw [Function.update_of_ne hk] at h
    exact Or.inr ⟨hk, h⟩

theorem of_update_none {α β : Type*} [DecidableEq α] {f : α → Option β} {a k : α} {c : β}
    (h : Function.update f a none k = some c) : k ≠ a ∧ f k = some c := by
  have hk : k ≠ a := by
    rintro rfl
    rw [Function.update_self] at h
    cases h
  rw [Function.update_of_ne hk] at h
  exact ⟨hk, h⟩

namespace Directory

variable {ι κ ρ : Type*} {byId : ι → Option ρ} {byName : κ → Option ρ}
  {tag : ρ → Option (ι × κ)}

/-- `tag` is what a member says of itself. Each list has a member only under its own id or
name, and then the other list has it too. -/
structure Inverse (byId : ι → Option ρ) (byName : κ → Option ρ) (tag : ρ → Option (ι × κ)) :
    Prop where
  id : ∀ {i r}, byId i = some r → ∃ k, tag r = some (i, k) ∧ byName k = some r
  name : ∀ {k r}, byName k = some r → ∃ i, tag r = some (i, k) ∧ byId i = some r

namespace Inverse

theorem empty (tag : ρ → Option (ι × κ)) :
    Inverse (fun _ : ι => none) (fun _ : κ => none) tag :=
  ⟨nofun, nofun⟩

theorem listed_iff (h : Inverse byId byName tag) {i : ι} {k : κ} {r : ρ}
    (ht : tag r = some (i, k)) : byId i = some r ↔ byName k = some r := by
  constructor
  · intro hi
    obtain ⟨k', ht', hk⟩ := h.id hi
    cases ht.symm.trans ht'
    exact hk
  · intro hk
    obtain ⟨i', ht', hi⟩ := h.name hk
    cases ht.symm.trans ht'
    exact hi

theorem tag_of_id (h : Inverse byId byName tag) {i : ι} {k : κ} {t : ι} {r : ρ}
    (hi : byId i = some r) (ht : tag r = some (t, k)) : t = i := by
  obtain ⟨k', ht', -⟩ := h.id hi
  cases ht.symm.trans ht'
  rfl

theorem tag_of_name (h : Inverse byId byName tag) {i : ι} {k : κ} {t : κ} {r : ρ}
    (hk : byName k = some r) (ht : tag r = some (i, t)) : t = k := by
  obtain ⟨i', ht', -⟩ := h.name hk
  cases ht.symm.trans ht'
  rfl

theorem unique (h : Inverse byId byName tag) {i j : ι} {k l : κ} {r s : ρ}
    (hr : tag r = some (i, k)) (hs : tag s = some (j, l)) (hir : byId i = some r)
    (hjs : byId j = some s) : (i = j → r = s) ∧ (k = l → r = s) := by
  have hkr := (h.listed_iff hr).mp hir
  have hls := (h.listed_iff hs).mp hjs
  refine ⟨fun he => ?_, fun he => ?_⟩
  · exact Option.some.inj (hir.symm.trans (he ▸ hjs))
  · exact Option.some.inj (hkr.symm.trans (he ▸ hls))

section Updates

variable [DecidableEq ι] [DecidableEq κ] [DecidableEq ρ]

theorem insert (h : Inverse byId byName tag) {i : ι} {k : κ} {r : ρ} (hi : byId i = none)
    (hk : byName k = none) (hr : tag r = none) :
    Inverse (Function.update byId i (some r)) (Function.update byName k (some r))
      (Function.update tag r (some (i, k))) := by
  constructor
  · intro j q hq
    rcases of_update_some hq with ⟨rfl, rfl⟩ | ⟨-, hq⟩
    · exact ⟨k, Function.update_self .., Function.update_self ..⟩
    · obtain ⟨l, ht, hl⟩ := h.id hq
      have hqr : q ≠ r := fun he => by rw [he, hr] at ht; cases ht
      have hlk : l ≠ k := fun he => by rw [he, hk] at hl; cases hl
      exact ⟨l, by rw [Function.update_of_ne hqr, ht], by rw [Function.update_of_ne hlk, hl]⟩
  · intro l q hq
    rcases of_update_some hq with ⟨rfl, rfl⟩ | ⟨-, hq⟩
    · exact ⟨i, Function.update_self .., Function.update_self ..⟩
    · obtain ⟨j, ht, hj⟩ := h.name hq
      have hqr : q ≠ r := fun he => by rw [he, hr] at ht; cases ht
      have hji : j ≠ i := fun he => by rw [he, hi] at hj; cases hj
      exact ⟨j, by rw [Function.update_of_ne hqr, ht], by rw [Function.update_of_ne hji, hj]⟩

/-- A listed member may leave, and what it said of itself be forgotten. -/
theorem erase (h : Inverse byId byName tag) {i : ι} {k : κ} {r : ρ}
    (hr : tag r = some (i, k)) (hi : byId i = some r) :
    Inverse (Function.update byId i none) (Function.update byName k none)
      (Function.update tag r none) := by
  have hk := (h.listed_iff hr).mp hi
  constructor
  · intro j q hq
    have hj : j ≠ i := fun he => by rw [he, Function.update_self] at hq; cases hq
    rw [Function.update_of_ne hj] at hq
    obtain ⟨l, ht, hl⟩ := h.id hq
    have hqr : q ≠ r := fun he => hj (h.tag_of_id hq (he ▸ hr)).symm
    have hlk : l ≠ k := fun he => hqr (Option.some.inj (hl.symm.trans (he ▸ hk)))
    exact ⟨l, by rw [Function.update_of_ne hqr, ht], by rw [Function.update_of_ne hlk, hl]⟩
  · intro l q hq
    have hl : l ≠ k := fun he => by rw [he, Function.update_self] at hq; cases hq
    rw [Function.update_of_ne hl] at hq
    obtain ⟨j, ht, hj⟩ := h.name hq
    have hqr : q ≠ r := fun he => hl (h.tag_of_name hq (he ▸ hr)).symm
    have hji : j ≠ i := fun he => hqr (Option.some.inj (hj.symm.trans (he ▸ hi)))
    exact ⟨j, by rw [Function.update_of_ne hqr, ht], by rw [Function.update_of_ne hji, hj]⟩

end Updates

end Inverse

section Others

variable [DecidableEq ι]

theorem insert_other {i j : ι} {r q : ρ} (hi : byId i = none) (hq : q ≠ r) :
    Function.update byId i (some r) j = some q ↔ byId j = some q := by
  by_cases hj : j = i
  · subst hj
    simp [hi, hq.symm]
  · rw [Function.update_of_ne hj]

theorem erase_other {i j : ι} {r q : ρ} (hi : byId i = some r) (hq : q ≠ r) :
    Function.update byId i none j = some q ↔ byId j = some q := by
  by_cases hj : j = i
  · subst hj
    simp [hi, hq.symm]
  · rw [Function.update_of_ne hj]

end Others

end Directory
end Lib
