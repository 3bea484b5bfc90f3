import Gpshub.Lib.Machine

/-! A thread that runs alone: the small steps that it takes, and the call that they compute. -/
namespace Lib

universe u v

variable {E : Type*} {ε : Type u} {γ α β : Type v}

/-- The thread goes from `g` to the result `r` by steps of its own, each with an argument from
outside. -/
inductive Ends (f : E → γ → Except ε γ) : γ → Except ε γ → Prop
  | here (g : γ) : Ends f g (.ok g)
  | next {x : E} {g g' : γ} {r : Except ε γ} (hs : f x g = .ok g') (hr : Ends f g' r) : Ends f g r
  | fail {x : E} {g : γ} {e : ε} (hs : f x g = .error e) : Ends f g (.error e)

theorem Ends.trans {f : E → γ → Except ε γ} {g g' : γ} {r : Except ε γ} {m : Except ε γ}
    (h : Ends f g m) (hm : m = .ok g') (hr : Ends f g' r) : Ends f g r := by
  induction h with
  | here g =>
    cases hm
    exact hr
  | next hs _ ih => exact .next hs (ih hm)
  | fail hs => cases hm

/-- From `g` the steps compute the call `x`, whose results are states by `post`. Nothing is said
of errors outside `R`. -/
structure Computes (f : E → γ → Except ε γ) (R : ε → Prop) (g : γ) (x : Except ε β)
    (post : β → γ) : Prop where
  ok : ∀ b, x = .ok b → Ends f g (.ok (post b))
  error : ∀ e, x = .error e → R e → Ends f g (.error e)

namespace Computes

variable {f : E → γ → Except ε γ} {R : ε → Prop} {g g' : γ} {x : Except ε α} {k : α → Except ε β}
  {p : α → γ} {post : β → γ} {b : β} {e : ε}

theorem done (hg : g = post b) : Computes f R g (.ok b) post := by
  constructor
  · intro b' hb
    cases hb
    rw [hg]
    exact .here _
  · intro e he
    cases he

theorem excluded (he : ¬R e) : Computes f R g (.error e : Except ε β) post := by
  constructor
  · intro b hb
    cases hb
  · intro e' he' hR
    cases he'
    exact absurd hR he

theorem step {y : Except ε β} (env : E) (hs : f env g = .ok g') (h : Computes f R g' y post) :
    Computes f R g y post where
  ok b hb := .next hs (h.ok b hb)
  error e he hR := .next hs (h.error e he hR)

theorem after {y : Except ε β} (hg : Ends f g (.ok g')) (h : Computes f R g' y post) :
    Computes f R g y post where
  ok b hb := hg.trans rfl (h.ok b hb)
  error e he hR := hg.trans rfl (h.error e he hR)

theorem failed (env : E) (hs : f env g = .error e) :
    Computes f R g (.error e : Except ε β) post := by
  constructor
  · intro b hb
    cases hb
  · intro e' he _
    cases he
    exact .fail hs

theorem call (env : E) (hs : f env g = x >>= fun a => pure (p a)) : Computes f R g x p := by
  constructor
  · intro a ha
    rw [ha] at hs
    exact .next hs (.here _)
  · intro e he _
    rw [he] at hs
    exact .fail hs

theorem bind (hx : Computes f R g x p)
    (hk : ∀ a, x = .ok a → Computes f R (p a) (k a) post) : Computes f R g (x >>= k) post := by
  cases hxe : x with
  | ok a =>
    have hstart : Ends f g (.ok (p a)) := hx.ok a hxe
    constructor
    · intro b hb
      exact hstart.trans rfl ((hk a hxe).ok b hb)
    · intro e he hR
      exact hstart.trans rfl ((hk a hxe).error e he hR)
  | error e =>
    constructor
    · intro b hb
      cases hb
    · intro e' he hR
      cases he
      exact hx.error e hxe hR

/-- The call reads `a` from the state, and where it cannot the next step fails as well. -/
theorem read (env : E) (hfail : ∀ e, x = .error e → f env g = .error e)
    (hk : ∀ a, x = .ok a → Computes f R g (k a) post) : Computes f R g (x >>= k) post := by
  cases hxe : x with
  | ok a => exact hk a hxe
  | error e => exact failed env (hfail e hxe)

end Computes

/-- A machine lets a thread take its steps: `At g s` says that the thread is at `g` in the state
`s`, and `Bad e s` that the error `e` has stopped it. -/
structure Hosts {σ A : Type*} (f : E → γ → Except ε γ) (step : σ → A → Option σ)
    (At : γ → σ → Prop) (Bad : ε → σ → Prop) : Prop where
  next : ∀ x g g' s, f x g = .ok g' → At g s → ∃ as s', Machine.run step s as = some s' ∧ At g' s'
  fail : ∀ x g e s, f x g = .error e → At g s → ∃ as s', Machine.run step s as = some s' ∧ Bad e s'

namespace Hosts

variable {σ A : Type*} {f : E → γ → Except ε γ} {step : σ → A → Option σ} {At : γ → σ → Prop}
  {Bad : ε → σ → Prop} {g : γ} {r : Except ε γ} {s : σ}

theorem ends (h : Hosts f step At Bad) (he : Ends f g r) (hs : At g s) :
    (∀ g', r = .ok g' → ∃ as s', Machine.run step s as = some s' ∧ At g' s') ∧
      ∀ e, r = .error e → ∃ as s', Machine.run step s as = some s' ∧ Bad e s' := by
  induction he generalizing s with
  | here g =>
    constructor
    · intro g' hg'
      cases hg'
      exact ⟨[], s, rfl, hs⟩
    · intro e he
      cases he
  | next hf _ ih =>
    obtain ⟨as, s1, has, hs1⟩ := h.next _ _ _ s hf hs
    have hrest := ih hs1
    constructor
    · intro g' hg'
      obtain ⟨bs, s', hbs, hs'⟩ := hrest.1 g' hg'
      exact ⟨as ++ bs, s', Machine.run_append.mpr ⟨s1, has, hbs⟩, hs'⟩
    · intro e he
      obtain ⟨bs, s', hbs, hs'⟩ := hrest.2 e he
      exact ⟨as ++ bs, s', Machine.run_append.mpr ⟨s1, has, hbs⟩, hs'⟩
  | fail hf =>
    constructor
    · intro g' hg'
      cases hg'
    · intro e he
      cases he
      exact h.fail _ _ _ s hf hs

theorem computes {R : ε → Prop} {x : Except ε β} {post : β → γ} (h : Hosts f step At Bad)
    (hx : Computes f R g x post) (hs : At g s) :
    (∀ b, x = .ok b → ∃ as s', Machine.run step s as = some s' ∧ At (post b) s') ∧
      ∀ e, x = .error e → R e → ∃ as s', Machine.run step s as = some s' ∧ Bad e s' := by
  constructor
  · intro b hb
    exact (h.ends (hx.ok b hb) hs).1 _ rfl
  · intro e he hR
    exact (h.ends (hx.error e he hR) hs).2 _ rfl

end Hosts
end Lib
