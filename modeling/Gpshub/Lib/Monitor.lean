import Mathlib.Data.Finset.Card

/-! A mutex with a condition variable, and when no thread waits for work that is there. -/
namespace Lib

/-- `P` says where the thread is that holds the mutex. -/
structure Monitor (T P : Type*) where
  inside : Option (T × P)
  /-- The threads that wait on the condition. -/
  waiting : Finset T
  /-- The threads that have been woken and have not got the mutex back. -/
  woken : Finset T
  apart : Disjoint waiting woken
  outside : ∀ t p, inside = some (t, p) → t ∉ waiting ∧ t ∉ woken

namespace Monitor

variable {T P : Type*}

def free : Monitor T P where
  inside := none
  waiting := ∅
  woken := ∅
  apart := Finset.disjoint_empty_left ∅
  outside := nofun

/-- The thread inside goes on. -/
def goOn (m : Monitor T P) (p : P) : Monitor T P where
  inside := m.inside.map fun i => (i.1, p)
  waiting := m.waiting
  woken := m.woken
  apart := m.apart
  outside := by
    intro u q hu
    obtain ⟨i, hi, heq⟩ := Option.map_eq_some_iff.mp hu
    cases heq
    exact m.outside i.1 i.2 hi

/-- The thread inside unlocks the mutex. -/
def leave (m : Monitor T P) : Monitor T P := { m with inside := none, outside := nofun }

section Steps

variable [DecidableEq T]

/-- A thread locks the mutex. -/
def enter (m : Monitor T P) (t : T) (p : P) : Option (Monitor T P) :=
  if h : m.inside.isNone ∧ t ∉ m.waiting ∧ t ∉ m.woken then
    some { m with
      inside := some (t, p)
      outside := by
        intro u q hu
        cases hu
        exact h.2 }
  else none

/-- The thread inside unlocks the mutex and waits, in one step. -/
def wait (m : Monitor T P) : Monitor T P :=
  match h : m.inside with
  | none => m
  | some (t, p) =>
    { inside := none
      waiting := insert t m.waiting
      woken := m.woken
      apart := Finset.disjoint_insert_left.mpr ⟨(m.outside t p h).2, m.apart⟩
      outside := nofun }

/-- A thread that waits is woken, for whatever reason. -/
def wake (m : Monitor T P) (t : T) : Option (Monitor T P) :=
  if h : t ∈ m.waiting then
    some { m with
      waiting := m.waiting.erase t
      woken := insert t m.woken
      apart := Finset.disjoint_insert_right.mpr
        ⟨Finset.notMem_erase t m.waiting, m.apart.mono_left (Finset.erase_subset t m.waiting)⟩
      outside := by
        intro u p hu
        obtain ⟨hw, hk⟩ := m.outside u p hu
        have hne : u ≠ t := fun heq => hw (heq ▸ h)
        refine ⟨fun hin => hw (Finset.mem_of_mem_erase hin), fun hin => ?_⟩
        exact hk (Finset.mem_of_mem_insert_of_ne hin hne) }
  else none

/-- The signal wakes one of the threads that wait, if there is one. -/
def signal (m : Monitor T P) : Option T → Option (Monitor T P)
  | none => if m.waiting = ∅ then some m else none
  | some t => m.wake t

/-- A woken thread gets the mutex back. -/
def resume (m : Monitor T P) (t : T) (p : P) : Option (Monitor T P) :=
  if h : m.inside.isNone ∧ t ∈ m.woken then
    some { m with
      inside := some (t, p)
      woken := m.woken.erase t
      apart := m.apart.mono_right (Finset.erase_subset t m.woken)
      outside := by
        intro u q hu
        cases hu
        exact ⟨Finset.disjoint_right.mp m.apart h.2, Finset.notMem_erase t m.woken⟩ }
  else none

end Steps

section Awake

variable {t u : T} {p : P} {m m' : Monitor T P}

/-- The thread does not wait, nor has it been woken. -/
def Awake (t : T) (m : Monitor T P) : Prop := t ∉ m.waiting ∧ t ∉ m.woken

theorem Awake.goOn (h : Awake t m) : Awake t (m.goOn p) := h

theorem Awake.leave (h : Awake t m) : Awake t m.leave := h

variable [DecidableEq T]

theorem Awake.enter (h : Awake t m) (hm : m.enter u p = some m') : Awake t m' := by
  unfold Monitor.enter at hm
  split_ifs at hm
  cases hm
  exact h

theorem Awake.wait (h : Awake t m) (hi : ∀ p, m.inside ≠ some (t, p)) : Awake t m.wait := by
  unfold Monitor.wait
  split
  · exact h
  · rename_i u p hu
    have hne : t ≠ u := by
      rintro rfl
      exact hi p hu
    exact ⟨fun hin => h.1 (Finset.mem_of_mem_insert_of_ne hin hne), h.2⟩

theorem Awake.wake (h : Awake t m) (hm : m.wake u = some m') : Awake t m' := by
  unfold Monitor.wake at hm
  split_ifs at hm with hu
  cases hm
  have hne : t ≠ u := by
    rintro rfl
    exact h.1 hu
  exact ⟨fun hin => h.1 (Finset.mem_of_mem_erase hin),
    fun hin => h.2 (Finset.mem_of_mem_insert_of_ne hin hne)⟩

theorem Awake.signal {w : Option T} (h : Awake t m) (hm : m.signal w = some m') : Awake t m' := by
  cases w with
  | none =>
    unfold Monitor.signal at hm
    split_ifs at hm
    cases hm
    exact h
  | some u => exact Awake.wake h hm

theorem Awake.resume (h : Awake t m) (hm : m.resume u p = some m') : Awake t m' := by
  unfold Monitor.resume at hm
  split_ifs at hm
  cases hm
  exact ⟨h.1, fun hin => h.2 (Finset.mem_of_mem_erase hin)⟩

theorem enter_free (hm : m.enter u p = some m') : m.inside = none := by
  unfold enter at hm
  split_ifs at hm with hfree
  exact Option.isNone_iff_eq_none.mp hfree.1

theorem resume_free (hm : m.resume u p = some m') : m.inside = none := by
  unfold resume at hm
  split_ifs at hm with hfree
  exact Option.isNone_iff_eq_none.mp hfree.1

end Awake

/-- What the thread inside owes, when it owes `owed p` at `p`: signals that it has still to
give, or work that it has been woken for. -/
def owes (owed : P → ℕ) (m : Monitor T P) : ℕ := (m.inside.map fun i => owed i.2).getD 0

/-- No more work is left than threads are on their way to it, or no thread waits. -/
def Covered (owed : P → ℕ) (work : ℕ) (m : Monitor T P) : Prop :=
  m.waiting.Nonempty → work ≤ m.woken.card + m.owes owed

variable {owed : P → ℕ} {work work' : ℕ} {m m' : Monitor T P} {t : T} {p q : P}

theorem owes_of_inside (hi : m.inside = some (t, p)) : m.owes owed = owed p := by
  rw [owes, hi]
  rfl

theorem owes_of_free (hi : m.inside = none) : m.owes owed = 0 := by
  rw [owes, hi]
  rfl

theorem inside_goOn (hi : m.inside = some (t, p)) : (m.goOn q).inside = some (t, q) := by
  show m.inside.map _ = _
  rw [hi]
  rfl

theorem inside_wait [DecidableEq T] (m : Monitor T P) : m.wait.inside = none := by
  unfold wait
  split
  · assumption
  · rfl

theorem enter_inside [DecidableEq T] (h : m.enter t p = some m') : m'.inside = some (t, p) := by
  unfold enter at h
  split_ifs at h
  cases h
  rfl

theorem resume_inside [DecidableEq T] (h : m.resume t p = some m') : m'.inside = some (t, p) := by
  unfold resume at h
  split_ifs at h
  cases h
  rfl

theorem wake_card [DecidableEq T] (h : m.wake t = some m') :
    m'.inside = m.inside ∧ m'.woken.card = m.woken.card + 1 ∧
      (m'.waiting.Nonempty → m.waiting.Nonempty) := by
  unfold wake at h
  split_ifs at h with hin
  cases h
  have hnot : t ∉ m.woken := Finset.disjoint_left.mp m.apart hin
  exact ⟨rfl, Finset.card_insert_of_notMem hnot, fun _ => ⟨t, hin⟩⟩

theorem signal_inside [DecidableEq T] {w : Option T} (h : m.signal w = some m') :
    m'.inside = m.inside := by
  cases w with
  | none =>
    unfold signal at h
    split_ifs at h
    cases h
    rfl
  | some u => exact (wake_card h).1

theorem exists_signal [DecidableEq T] (m : Monitor T P) : ∃ w m', m.signal w = some m' := by
  by_cases hnone : m.waiting = ∅
  · exact ⟨none, m, if_pos hnone⟩
  · obtain ⟨t, ht⟩ := Finset.nonempty_iff_ne_empty.mpr hnone
    exact ⟨some t, _, dif_pos ht⟩

namespace Covered

theorem free : Covered owed work (free : Monitor T P) :=
  fun hne => absurd hne Finset.not_nonempty_empty

/-- What the thread inside leaves of the work has to be covered by what it then owes. -/
theorem goOn (hc : Covered owed work m) (hi : m.inside = some (t, p))
    (hle : work' + owed p ≤ work + owed q) : Covered owed work' (m.goOn q) := by
  intro hne
  have hwork := hc hne
  rw [owes_of_inside hi] at hwork
  rw [owes_of_inside (inside_goOn hi)]
  show work' ≤ m.woken.card + owed q
  omega

theorem leave (hc : Covered owed work m) (hi : m.inside = some (t, p)) (hp : owed p = 0) :
    Covered owed work m.leave := by
  intro hne
  have hwork := hc hne
  rw [owes_of_inside hi, hp] at hwork
  exact hwork

variable [DecidableEq T]

theorem enter (hc : Covered owed work m) (h : m.enter t p = some m') : Covered owed work m' := by
  unfold Monitor.enter at h
  split_ifs at h with hfree
  cases h
  intro hne
  have hle := hc hne
  rw [owes_of_free (Option.isNone_iff_eq_none.mp hfree.1)] at hle
  exact hle.trans (Nat.le_add_right _ _)

theorem wait (m : Monitor T P) : Covered owed 0 m.wait := fun _ => Nat.zero_le _

theorem wake (hc : Covered owed work m) (h : m.wake t = some m') : Covered owed work m' := by
  obtain ⟨hinside, hcard, hwaits⟩ := wake_card h
  intro hne
  have hwork := hc (hwaits hne)
  have hsame : m'.owes owed = m.owes owed := by rw [owes, owes, hinside]
  omega

theorem signal (hc : Covered owed work m) (hi : m.inside = some (t, p)) {w : Option T}
    (h : m.signal w = some m') (hle : owed p ≤ owed q + 1) : Covered owed work (m'.goOn q) := by
  cases w with
  | none =>
    unfold Monitor.signal at h
    split_ifs at h with hnone
    cases h
    intro hne
    change m.waiting.Nonempty at hne
    rw [hnone] at hne
    exact absurd hne Finset.not_nonempty_empty
  | some u =>
    obtain ⟨hinside, hcard, hwaits⟩ := wake_card h
    intro hne
    have hwork := hc (hwaits hne)
    rw [owes_of_inside hi] at hwork
    rw [owes_of_inside (inside_goOn (hinside.trans hi))]
    show work ≤ m'.woken.card + owed q
    omega

theorem resume (hc : Covered owed work m) (h : m.resume t p = some m') (hp : 1 ≤ owed p) :
    Covered owed work m' := by
  unfold Monitor.resume at h
  split_ifs at h with hfree
  cases h
  intro hne
  have hwork := hc hne
  rw [owes_of_free (Option.isNone_iff_eq_none.mp hfree.1)] at hwork
  have hcard := Finset.card_erase_add_one hfree.2
  show work ≤ (m.woken.erase t).card + owed p
  omega

end Covered
end Monitor
end Lib
