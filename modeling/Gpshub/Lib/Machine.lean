import Mathlib.Data.List.Basic
import Mathlib.Logic.Relation

/-! Deterministic labelled machines: runs, reachable states, and the rules by which what
one step preserves holds along a whole run. -/
namespace Lib.Machine

variable {σ α : Type*} (step : σ → α → Option σ)

/-- Takes the labels in order; `none` as soon as one of them is not enabled. -/
def run : σ → List α → Option σ
  | s, [] => some s
  | s, a :: as => (step s a).bind fun s' => run s' as

/-- `P` holds in every state met along the run, its two ends included. -/
def Always (P : σ → Prop) : σ → List α → Prop
  | s, [] => P s
  | s, a :: as => P s ∧ ∀ s', step s a = some s' → Always P s' as

/-- Every step taken along the run satisfies `G`, a condition on its label and on the
state before it. -/
def Guarded (G : σ → α → Prop) : σ → List α → Prop
  | _, [] => True
  | s, a :: as => ∀ s', step s a = some s' → G s a ∧ Guarded G s' as

instance Guarded.decidable {G : σ → α → Prop} [∀ s a, Decidable (G s a)] :
    ∀ (s : σ) (as : List α), Decidable (Guarded step G s as)
  | _, [] => .isTrue trivial
  | s, a :: as =>
    match h : step s a with
    | none => .isTrue fun _ hs => nomatch h.symm.trans hs
    | some s' =>
      haveI : Decidable (Guarded step G s' as) := Guarded.decidable s' as
      decidable_of_iff (G s a ∧ Guarded step G s' as)
        ⟨fun hg _ hs => Option.some.inj (h.symm.trans hs) ▸ hg, fun hg => hg s' h⟩

/-- Every label asked for along the run satisfies `G`, whether or not it is then enabled. -/
def Checked (G : σ → α → Prop) : σ → List α → Prop
  | _, [] => True
  | s, a :: as => G s a ∧ ∀ s', step s a = some s' → Checked G s' as

instance Checked.decidable {G : σ → α → Prop} [∀ s a, Decidable (G s a)] :
    ∀ (s : σ) (as : List α), Decidable (Checked step G s as)
  | _, [] => .isTrue trivial
  | s, a :: as =>
    match h : step s a with
    | none => decidable_of_iff (G s a)
        ⟨fun hg => ⟨hg, fun _ hs => nomatch h.symm.trans hs⟩, fun hg => hg.1⟩
    | some s' =>
      haveI : Decidable (Checked step G s' as) := Checked.decidable s' as
      decidable_of_iff (G s a ∧ Checked step G s' as)
        ⟨fun hg => ⟨hg.1, fun _ hs => Option.some.inj (h.symm.trans hs) ▸ hg.2⟩,
          fun hg => ⟨hg.1, hg.2 s' h⟩⟩

def Reachable (init : σ → Prop) (t : σ) : Prop :=
  ∃ s as, init s ∧ run step s as = some t

variable {step}

@[simp] theorem run_nil (s : σ) : run step s [] = some s := rfl

theorem run_cons {s t : σ} {a : α} {as : List α} :
    run step s (a :: as) = some t ↔ ∃ s', step s a = some s' ∧ run step s' as = some t := by
  simp only [run, Option.bind_eq_some_iff]

theorem run_append {s t : σ} {as bs : List α} :
    run step s (as ++ bs) = some t ↔ ∃ m, run step s as = some m ∧ run step m bs = some t := by
  induction as generalizing s with
  | nil => simp
  | cons a as ih =>
    simp only [List.cons_append, run_cons, ih]
    constructor
    · rintro ⟨s', hs, m, hm, ht⟩
      exact ⟨m, ⟨s', hs, hm⟩, ht⟩
    · rintro ⟨m, ⟨s', hs, hm⟩, ht⟩
      exact ⟨s', hs, m, hm, ht⟩

theorem Always.head {P : σ → Prop} {s : σ} {as : List α} (h : Always step P s as) : P s := by
  cases as with
  | nil => exact h
  | cons a as => exact h.1

theorem Always.last {P : σ → Prop} {s t : σ} {as : List α} (h : Always step P s as)
    (hr : run step s as = some t) : P t := by
  induction as generalizing s with
  | nil =>
    cases hr
    exact h
  | cons a as ih =>
    obtain ⟨s', hs, ht⟩ := run_cons.mp hr
    exact ih (h.2 s' hs) ht

theorem Always.mono {P Q : σ → Prop} {s : σ} {as : List α} (hPQ : ∀ s, P s → Q s)
    (h : Always step P s as) : Always step Q s as := by
  induction as generalizing s with
  | nil => exact hPQ s h
  | cons a as ih => exact ⟨hPQ s h.1, fun s' hs => ih (h.2 s' hs)⟩

theorem Guarded.of_append {G : σ → α → Prop} {s t : σ} {as bs : List α}
    (h : Guarded step G s (as ++ bs)) (hr : run step s as = some t) : Guarded step G t bs := by
  induction as generalizing s with
  | nil =>
    cases hr
    exact h
  | cons a as ih =>
    obtain ⟨s', hs, ht⟩ := run_cons.mp hr
    exact ih (h s' hs).2 ht

theorem Guarded.append {G : σ → α → Prop} {s : σ} {as bs : List α} (ha : Guarded step G s as)
    (hb : ∀ t, run step s as = some t → Guarded step G t bs) : Guarded step G s (as ++ bs) := by
  induction as generalizing s with
  | nil => exact hb s rfl
  | cons a as ih =>
    intro s' hs
    have hrest := ha s' hs
    exact ⟨hrest.1, ih hrest.2 fun t ht => hb t (run_cons.mpr ⟨s', hs, ht⟩)⟩

/-- The run rule: what every step preserves, given that the run keeps to `H` and its steps
to `G`, holds along the run. -/
theorem always_of_step {H I : σ → Prop} {G : σ → α → Prop}
    (hstep : ∀ s a s', H s → H s' → G s a → step s a = some s' → I s → I s')
    {s : σ} {as : List α} (hH : Always step H s as) (hG : Guarded step G s as) (hI : I s) :
    Always step I s as := by
  induction as generalizing s with
  | nil => exact hI
  | cons a as ih =>
    refine ⟨hI, fun s' hs => ?_⟩
    obtain ⟨hg, hG'⟩ := hG s' hs
    exact ih (hH.2 s' hs) hG' (hstep s a s' hH.1 (hH.2 s' hs).head hg hs hI)

theorem always_true (s : σ) (as : List α) : Always step (fun _ => True) s as := by
  induction as generalizing s with
  | nil => trivial
  | cons a as ih => exact ⟨trivial, fun s' _ => ih s'⟩

theorem guarded_true (s : σ) (as : List α) : Guarded step (fun _ _ => True) s as := by
  induction as generalizing s with
  | nil => trivial
  | cons a as ih => exact fun s' _ => ⟨trivial, ih s'⟩

theorem Guarded.and_labels {G : σ → α → Prop} {W : α → Prop} {s : σ} {as : List α}
    (hG : Guarded step G s as) (hW : ∀ a ∈ as, W a) :
    Guarded step (fun s a => W a ∧ G s a) s as := by
  induction as generalizing s with
  | nil => trivial
  | cons a as ih =>
    intro s' hs
    obtain ⟨hg, hG'⟩ := hG s' hs
    exact ⟨⟨hW a List.mem_cons_self, hg⟩, ih hG' fun b hb => hW b (List.mem_cons_of_mem a hb)⟩

theorem always_of_inv {I : σ → Prop}
    (hstep : ∀ s a s', step s a = some s' → I s → I s') {s : σ} (as : List α) (hI : I s) :
    Always step I s as :=
  always_of_step (fun s a s' _ _ _ hs => hstep s a s' hs) (always_true s as)
    (guarded_true s as) hI

/-- Under an invariant, a condition on the steps that gives another one gives it in every run. -/
theorem guarded_mono {I : σ → Prop} {F G : σ → α → Prop}
    (hstep : ∀ s a s', step s a = some s' → I s → I s') (hFG : ∀ s a, I s → F s a → G s a)
    {s : σ} {as : List α} (hI : I s) (h : Guarded step F s as) : Guarded step G s as := by
  induction as generalizing s with
  | nil => trivial
  | cons a as ih =>
    intro s' hs
    obtain ⟨hf, hF⟩ := h s' hs
    exact ⟨hFG s a hI hf, ih (hstep s a s' hs hI) hF⟩

theorem run_of_inv {I : σ → Prop} (hstep : ∀ s a s', step s a = some s' → I s → I s')
    {s t : σ} {as : List α} (hr : run step s as = some t) (hI : I s) : I t :=
  (always_of_inv hstep as hI).last hr

theorem run_of_labels {I : σ → Prop} {W : α → Prop}
    (hstep : ∀ s a s', W a → step s a = some s' → I s → I s') {s t : σ} {as : List α}
    (hr : run step s as = some t) (hW : ∀ a ∈ as, W a) (hI : I s) : I t := by
  induction as generalizing s with
  | nil =>
    cases hr
    exact hI
  | cons a as ih =>
    obtain ⟨s', hs, hr⟩ := run_cons.mp hr
    have ha : W a := hW a List.mem_cons_self
    exact ih hr (fun b hb => hW b (List.mem_cons_of_mem a hb)) (hstep s a s' ha hs hI)

/-- Under the invariant `H`, what holds exactly while all steps satisfy `G`: along every run
whose labels satisfy `W`, `P` holds throughout if and only if all steps satisfy `G`. -/
theorem always_iff_guarded {H I P : σ → Prop} {G : σ → α → Prop} {W : α → Prop}
    (hH : ∀ s a s', step s a = some s' → H s → H s') (hP : ∀ s, H s → I s → P s)
    (hstep : ∀ s a s', step s a = some s' → W a → H s → I s →
      (G s a → I s') ∧ (P s' → G s a))
    {s : σ} {as : List α} (hW : ∀ a ∈ as, W a) (h : H s) (hI : I s) :
    Always step P s as ↔ Guarded step G s as := by
  induction as generalizing s with
  | nil => exact iff_of_true (hP s h hI) trivial
  | cons a as ih =>
    have ha : W a := hW a List.mem_cons_self
    have has : ∀ b ∈ as, W b := fun b hb => hW b (List.mem_cons_of_mem a hb)
    constructor
    · intro hA s' hs
      obtain ⟨hkeep, hback⟩ := hstep s a s' hs ha h hI
      have hg : G s a := hback (hA.2 s' hs).head
      exact ⟨hg, (ih has (hH s a s' hs h) (hkeep hg)).mp (hA.2 s' hs)⟩
    · intro hG
      refine ⟨hP s h hI, fun s' hs => ?_⟩
      obtain ⟨hg, hG'⟩ := hG s' hs
      have hI' : I s' := (hstep s a s' hs ha h hI).1 hg
      exact (ih has (hH s a s' hs h) hI').mpr hG'

/-- When a step keeps the invariant and has the property `F` exactly if it satisfies `G`, a
run keeps the invariant throughout, and all its steps have the property, exactly if all its
steps satisfy `G`. -/
theorem always_and_guarded_iff {H I : σ → Prop} {F G : σ → α → Prop}
    (hH : ∀ s a s', step s a = some s' → H s → H s')
    (hstep : ∀ s a s', step s a = some s' → H s → I s → (I s' ∧ F s a ↔ G s a))
    {s : σ} {as : List α} (h : H s) (hI : I s) :
    Always step I s as ∧ Guarded step F s as ↔ Guarded step G s as := by
  induction as generalizing s with
  | nil => exact iff_of_true ⟨hI, trivial⟩ trivial
  | cons a as ih =>
    constructor
    · rintro ⟨hA, hF⟩ s' hs
      obtain ⟨hf, hF'⟩ := hF s' hs
      have hI' : I s' := (hA.2 s' hs).head
      exact ⟨(hstep s a s' hs h hI).mp ⟨hI', hf⟩,
        (ih (hH s a s' hs h) hI').mp ⟨hA.2 s' hs, hF'⟩⟩
    · intro hG
      have hboth (s' : σ) (hs : step s a = some s') :
          F s a ∧ Always step I s' as ∧ Guarded step F s' as := by
        obtain ⟨hg, hG'⟩ := hG s' hs
        obtain ⟨hI', hf⟩ := (hstep s a s' hs h hI).mpr hg
        exact ⟨hf, (ih (hH s a s' hs h) hI').mpr hG'⟩
      exact ⟨⟨hI, fun s' hs => (hboth s' hs).2.1⟩,
        fun s' hs => ⟨(hboth s' hs).1, (hboth s' hs).2.2⟩⟩

theorem Checked.guarded {G : σ → α → Prop} {s : σ} {as : List α} (h : Checked step G s as) :
    Guarded step G s as := by
  induction as generalizing s with
  | nil => trivial
  | cons a as ih => exact fun s' hs => ⟨h.1, ih (h.2 s' hs)⟩

/-- Of the labels that satisfy `F`, `G` and `H` accept the same runs when they accept the same
labels under an invariant, and the steps they accept keep it. -/
theorem checked_iff {I : σ → Prop} {F G H : σ → α → Prop}
    (hstep : ∀ s a s', I s → F s a → G s a → step s a = some s' → I s')
    (hGH : ∀ s a, I s → F s a → (G s a ↔ H s a)) {s : σ} {as : List α} (hI : I s)
    (hF : Checked step F s as) : Checked step G s as ↔ Checked step H s as := by
  induction as generalizing s with
  | nil => rfl
  | cons a as ih =>
    have hrest (hG : G s a) (s' : σ) (hs : step s a = some s') :
        Checked step G s' as ↔ Checked step H s' as :=
      ih (hstep s a s' hI hF.1 hG hs) (hF.2 s' hs)
    constructor
    · rintro ⟨hG, h⟩
      exact ⟨(hGH s a hI hF.1).mp hG, fun s' hs => (hrest hG s' hs).mp (h s' hs)⟩
    · rintro ⟨hH, h⟩
      have hG : G s a := (hGH s a hI hF.1).mpr hH
      exact ⟨hG, fun s' hs => (hrest hG s' hs).mpr (h s' hs)⟩

/-- Labels that are enabled, and keep the invariant, when they satisfy `G`. -/
theorem run_of_checked {I : σ → Prop} {G : σ → α → Prop}
    (hstep : ∀ s a, I s → G s a → ∃ s', step s a = some s' ∧ I s') {s : σ} {as : List α}
    (hI : I s) (hG : Checked step G s as) : ∃ t, run step s as = some t ∧ I t := by
  induction as generalizing s with
  | nil => exact ⟨s, rfl, hI⟩
  | cons a as ih =>
    obtain ⟨s', hs, hI'⟩ := hstep s a hI hG.1
    obtain ⟨t, ht, hIt⟩ := ih hI' (hG.2 s' hs)
    exact ⟨t, run_cons.mpr ⟨s', hs, ht⟩, hIt⟩

theorem checked_true (s : σ) (as : List α) : Checked step (fun _ _ => True) s as := by
  induction as generalizing s with
  | nil => trivial
  | cons a as ih => exact ⟨trivial, fun s' _ => ih s'⟩

/-- Under the invariant `H`, what no step brings about has held all along if it holds at the
end. -/
theorem always_of_last {H P : σ → Prop} (hH : ∀ s a s', step s a = some s' → H s → H s')
    (hback : ∀ s a s', step s a = some s' → H s → P s' → P s) {s t : σ} {as : List α}
    (hr : run step s as = some t) (h : H s) (ht : P t) : Always step P s as := by
  induction as generalizing s with
  | nil =>
    cases hr
    exact ht
  | cons a as ih =>
    obtain ⟨s', hs, hr⟩ := run_cons.mp hr
    have hA : Always step P s' as := ih hr (hH s a s' hs h)
    refine ⟨hback s a s' hs h hA.head, fun x hx => ?_⟩
    cases hs.symm.trans hx
    exact hA

theorem Reachable.next {init : σ → Prop} {s s' : σ} {a : α} (h : Reachable step init s)
    (hs : step s a = some s') : Reachable step init s' := by
  obtain ⟨i, as, hi, hr⟩ := h
  have hlast : run step s [a] = some s' := run_cons.mpr ⟨s', hs, rfl⟩
  exact ⟨i, as ++ [a], hi, run_append.mpr ⟨s, hr, hlast⟩⟩

theorem reachable_of_inv {init I : σ → Prop} (hinit : ∀ s, init s → I s)
    (hstep : ∀ s a s', step s a = some s' → I s → I s') {t : σ}
    (h : Reachable step init t) : I t := by
  obtain ⟨s, as, hs, hr⟩ := h
  exact run_of_inv hstep hr (hinit s hs)

/-- The rule for any number of effects: a preorder that contains every single one. -/
theorem effects_rule {r R : σ → σ → Prop} (hrefl : ∀ s, R s s)
    (htrans : ∀ {a b c}, R a b → R b c → R a c) (hr : ∀ {a b}, r a b → R a b) {a b : σ}
    (hab : Relation.ReflTransGen r a b) : R a b :=
  Relation.ReflTransGen.trans_induction_on hab hrefl hr fun _ _ => htrans

/-- Simulation: when every step of one machine is matched by a run of another, so is every run
whose labels satisfy `W`. -/
theorem run_simulated {τ β : Type*} {f : τ → β → Option τ} {R : σ → τ → Prop} {W : α → Prop}
    (hstep : ∀ s a s' t, W a → step s a = some s' → R s t →
      ∃ bs t', run f t bs = some t' ∧ R s' t')
    {s s' : σ} {t : τ} {as : List α} (hr : run step s as = some s') (hW : ∀ a ∈ as, W a)
    (hR : R s t) : ∃ bs t', run f t bs = some t' ∧ R s' t' := by
  induction as generalizing s t with
  | nil =>
    cases hr
    exact ⟨[], t, rfl, hR⟩
  | cons a as ih =>
    obtain ⟨s1, hs, hr⟩ := run_cons.mp hr
    obtain ⟨bs, t1, hbs, hR1⟩ := hstep s a s1 t (hW a List.mem_cons_self) hs hR
    obtain ⟨cs, t', hcs, hR'⟩ := ih hr (fun b hb => hW b (List.mem_cons_of_mem a hb)) hR1
    exact ⟨bs ++ cs, t', run_append.mpr ⟨t1, hbs, hcs⟩, hR'⟩

end Lib.Machine
