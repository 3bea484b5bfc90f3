import Gpshub.Lib.Machine

/-! Two runs side by side: calls whose results are related, and a machine next to another run of
itself. -/
namespace Lib

universe u v

/-- Whenever both calls return, their results are related. -/
def Both {ε : Type u} {α β : Type v} (R : α → β → Prop) (x : Except ε α) (y : Except ε β) : Prop :=
  ∀ a b, x = .ok a → y = .ok b → R a b

namespace Both

variable {ε : Type u} {α β γ δ : Type v} {R : α → β → Prop} {S : γ → δ → Prop}

theorem ok {a : α} {b : β} (h : R a b) : Both R (.ok a : Except ε α) (.ok b) := by
  intro a' b' ha hb
  cases ha
  cases hb
  exact h

theorem left {x : Except ε α} {e : ε} (hx : x = .error e) {y : Except ε β} : Both R x y := by
  intro a b ha
  cases hx.symm.trans ha

theorem bind {x : Except ε α} {y : Except ε β} {f : α → Except ε γ} {g : β → Except ε δ}
    (hx : Both R x y) (hf : ∀ a b, R a b → Both S (f a) (g b)) : Both S (x >>= f) (y >>= g) := by
  cases x with
  | error e => exact left rfl
  | ok a =>
    cases y with
    | error e =>
      intro c d _ hd
      cases hd
    | ok b => exact hf a b (hx a b rfl rfl)

/-- Both calls start with the same one. -/
theorem andThen {x : Except ε α} {f : α → Except ε γ} {g : α → Except ε δ}
    (hf : ∀ a, x = .ok a → Both S (f a) (g a)) : Both S (x >>= f) (x >>= g) := by
  cases x with
  | error e => exact left rfl
  | ok a => exact hf a rfl

end Both

namespace Machine

variable {σ α β : Type*} (step : σ → α → Option σ) (f g : β → α)

/-- The machine twice, where a label stands for one label of each copy. -/
def both (p : σ × σ) (b : β) : Option (σ × σ) :=
  (step p.1 (f b)).bind fun s => (step p.2 (g b)).map fun t => (s, t)

variable {step f g}

theorem both_eq_some {p q : σ × σ} {b : β} :
    both step f g p b = some q ↔ step p.1 (f b) = some q.1 ∧ step p.2 (g b) = some q.2 := by
  obtain ⟨s, t⟩ := q
  unfold both
  cases hs : step p.1 (f b) <;> cases ht : step p.2 (g b) <;> simp

theorem Guarded.fst {G : σ → α → Prop} {p : σ × σ} {bs : List β}
    (h : Guarded step G p.1 (bs.map f)) :
    Guarded (both step f g) (fun p b => G p.1 (f b)) p bs := by
  induction bs generalizing p with
  | nil => trivial
  | cons b bs ih =>
    intro q hq
    obtain ⟨hG, hrest⟩ := h q.1 (both_eq_some.mp hq).1
    exact ⟨hG, ih hrest⟩

theorem Guarded.snd {G : σ → α → Prop} {p : σ × σ} {bs : List β}
    (h : Guarded step G p.2 (bs.map g)) :
    Guarded (both step f g) (fun p b => G p.2 (g b)) p bs := by
  induction bs generalizing p with
  | nil => trivial
  | cons b bs ih =>
    intro q hq
    obtain ⟨hG, hrest⟩ := h q.2 (both_eq_some.mp hq).2
    exact ⟨hG, ih hrest⟩

theorem Guarded.left {G : σ → α → Prop} {s : σ} {as bs : List α}
    (h : Guarded step G s (as ++ bs)) : Guarded step G s as := by
  induction as generalizing s with
  | nil => trivial
  | cons a as ih =>
    intro s' hs
    obtain ⟨hG, hrest⟩ := h s' hs
    exact ⟨hG, ih hrest⟩

theorem Guarded.and {G H : σ → α → Prop} {s : σ} {as : List α} (hG : Guarded step G s as)
    (hH : Guarded step H s as) : Guarded step (fun s a => G s a ∧ H s a) s as := by
  induction as generalizing s with
  | nil => trivial
  | cons a as ih =>
    intro s' hs
    obtain ⟨hg, hG'⟩ := hG s' hs
    obtain ⟨hh, hH'⟩ := hH s' hs
    exact ⟨⟨hg, hh⟩, ih hG' hH'⟩

end Machine
end Lib
