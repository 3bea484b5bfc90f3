import Gpshub.Lib.Rank
import Gpshub.Thread.BlockingQueue

/-! `handle_stop` runs on the stack of the thread that the signal interrupts, and its calls of
`put` need the mutex of the queue. -/
namespace Gpshub.BlockingQueue
open Lib Lib.Machine

/-- The queue while `handle_stop` runs, which has the name `none`; the threads of the server have
the names `some t`. -/
structure Signalled (T : Type) where
  queue : State (Option T) Int32
  /-- The thread that the signal has interrupted, and the calls of `stop` that have not returned. -/
  handler : Option (T × ℕ)

inductive SignalAction (T : Type)
  /-- What a thread of the server does. -/
  | thread (a : Action T Int32)
  | signal (t : T)
  /-- `put(0)` of the next call of `stop` gets the mutex. -/
  | put
  /-- `put(0)` goes on; its signal wakes `w`. -/
  | go (w : Option (Option T))

namespace Signalled

variable {T : Type} [DecidableEq T]

def boot : Signalled T := ⟨.new, none⟩

/-- `handle_stop` has interrupted the thread, and has not returned to it. -/
def suspended (s : Signalled T) (t : T) : Bool :=
  match s.handler with
  | none => false
  | some (u, k) => u = t && 0 < k

/-- The thread whose step the action is goes on; a thread that only is woken does nothing. -/
def goesOn (s : Signalled T) : Action T Int32 → Bool
  | .put t _ | .pull t | .resume t => !s.suspended t
  | .go _ =>
    match s.queue.monitor.inside with
    | some (some t, _) => !s.suspended t
    | _ => false
  | .spurious _ => true

/-- The action of the thread that has this name. -/
def named : Action T Int32 → Action (Option T) Int32
  | .put t x => .put (some t) x
  | .pull t => .pull (some t)
  | .go w => .go (w.map some)
  | .spurious t => .spurious (some t)
  | .resume t => .resume (some t)

/-- `n` is the number of broadcast threads; the signal comes once. -/
def step (n : ℕ) (s : Signalled T) : SignalAction T → Option (Signalled T)
  | .thread a =>
    if s.goesOn a then (s.queue.step (named a)).map fun queue => { s with queue } else none
  | .signal t => if s.handler.isNone then some { s with handler := some (t, n) } else none
  | .put =>
    match s.handler with
    | some (_, _ + 1) => (s.queue.step (.put none 0)).map fun queue => { s with queue }
    | _ => none
  | .go w =>
    match s.handler, s.queue.monitor.inside with
    | some (t, k), some (none, p) =>
      (goStep w s.queue p).map fun queue =>
        { queue, handler := some (t, if p = .unlock then k - 1 else k) }
    | _, _ => none

/-- All calls of `stop` have returned. -/
def Returned (s : Signalled T) : Prop := ∃ t, s.handler = some (t, 0)

end Signalled

section Inside

variable {T α : Type} [DecidableEq T] {s s' : State T α} {t : T} {p : Point α} {w : Option T}

/-- The steps up to the next time that the mutex is free. -/
def Point.left : Point α → ℕ
  | .push _ => 3
  | .signal => 2
  | .unlock => 1
  | .test _ => 4
  | .wait => 1
  | .front _ => 3
  | .pop _ _ => 2

theorem Point.left_pos (p : Point α) : 0 < p.left := by
  cases p <;> exact Nat.succ_pos _

/-- The points of `put`. -/
def Point.putting : Point α → Bool
  | .push _ | .signal | .unlock => true
  | _ => false

theorem goStep_inside (hi : s.monitor.inside = some (t, p)) (hs : goStep w s p = some s') :
    s'.monitor.inside = none ∨ ∃ q, s'.monitor.inside = some (t, q) ∧ q.left < p.left := by
  cases p with
  | push x =>
    cases hs
    exact Or.inr ⟨.signal, Monitor.inside_goOn hi, by simp [Point.left]⟩
  | signal =>
    obtain ⟨m, hm, rfl⟩ := Option.map_eq_some_iff.mp hs
    have hin : m.inside = some (t, .signal) := (Monitor.signal_inside hm).trans hi
    exact Or.inr ⟨.unlock, Monitor.inside_goOn hin, by simp [Point.left]⟩
  | unlock =>
    cases hs
    exact Or.inl rfl
  | test resumed =>
    simp only [goStep] at hs
    split at hs
    · cases hs
      exact Or.inr ⟨.wait, Monitor.inside_goOn hi, by simp [Point.left]⟩
    · cases hs
      exact Or.inr ⟨.front resumed, Monitor.inside_goOn hi, by simp [Point.left]⟩
  | wait =>
    cases hs
    exact Or.inl (Monitor.inside_wait s.monitor)
  | front resumed =>
    simp only [goStep] at hs
    split at hs
    · cases hs
    · cases hs
      exact Or.inr ⟨.pop _ resumed, Monitor.inside_goOn hi, by simp [Point.left]⟩
  | pop x resumed =>
    cases hs
    exact Or.inr ⟨.unlock, Monitor.inside_goOn hi, by simp [Point.left]⟩

theorem goStep_putting (hi : s.monitor.inside = some (t, p)) (hp : p.putting = true)
    (hs : goStep w s p = some s') :
    (p = .unlock ∧ s'.monitor.inside = none) ∨
      p ≠ .unlock ∧ ∃ q, s'.monitor.inside = some (t, q) ∧ q.putting = true ∧ q.left < p.left := by
  cases p with
  | push x =>
    cases hs
    exact Or.inr ⟨nofun, .signal, Monitor.inside_goOn hi, rfl, by simp [Point.left]⟩
  | signal =>
    obtain ⟨m, hm, rfl⟩ := Option.map_eq_some_iff.mp hs
    have hin : m.inside = some (t, .signal) := (Monitor.signal_inside hm).trans hi
    exact Or.inr ⟨nofun, .unlock, Monitor.inside_goOn hin, rfl, by simp [Point.left]⟩
  | unlock =>
    cases hs
    exact Or.inl ⟨rfl, rfl⟩
  | test | wait | front | pop => cases hp

theorem step_awake {a : Action T α} (hs : s.step a = some s') (h : Monitor.Awake t s.monitor)
    (hi : s.monitor.inside ≠ some (t, .wait)) : Monitor.Awake t s'.monitor := by
  cases a with
  | put u x =>
    obtain ⟨m, hm, rfl⟩ := Option.map_eq_some_iff.mp hs
    exact h.enter hm
  | pull u =>
    obtain ⟨m, hm, rfl⟩ := Option.map_eq_some_iff.mp hs
    exact h.enter hm
  | spurious u =>
    obtain ⟨m, hm, rfl⟩ := Option.map_eq_some_iff.mp hs
    exact h.wake hm
  | resume u =>
    obtain ⟨m, hm, rfl⟩ := Option.map_eq_some_iff.mp hs
    exact h.resume hm
  | go w =>
    unfold State.step at hs
    cases hin : s.monitor.inside with
    | none => simp only [hin, reduceCtorEq] at hs
    | some i =>
      obtain ⟨u, p⟩ := i
      rw [hin] at hs hi
      cases p with
      | push | unlock | pop =>
        cases hs
        exact h
      | signal =>
        obtain ⟨m, hm, rfl⟩ := Option.map_eq_some_iff.mp hs
        exact (h.signal hm).goOn
      | wait =>
        cases hs
        apply h.wait
        intro q hq
        rw [hin] at hq
        cases hq
        exact hi rfl
      | test | front =>
        simp only [goStep] at hs
        split at hs <;> cases hs <;> exact h

end Inside

namespace Signalled

variable {T : Type} [DecidableEq T] {n : ℕ} {s s' : Signalled T} {t : T} {a : SignalAction T}

inductive Moved (n : ℕ) (s : Signalled T) : SignalAction T → Signalled T → Prop
  /-- A thread gets the mutex. -/
  | come (a : Action T Int32) (u : T) (p : Point Int32) (queue : State (Option T) Int32)
      (hu : s.suspended u = false) (hfree : s.queue.monitor.inside = none)
      (hin : queue.monitor.inside = some (some u, p)) : Moved n s (.thread a) { s with queue }
  | go (w : Option T) (u : T) (p : Point Int32) (queue : State (Option T) Int32)
      (hu : s.suspended u = false) (hi : s.queue.monitor.inside = some (some u, p))
      (hgo : goStep (w.map some) s.queue p = some queue) :
    Moved n s (.thread (.go w)) { s with queue }
  | woken (u : T) (queue : State (Option T) Int32)
      (hin : queue.monitor.inside = s.queue.monitor.inside) (hitems : queue.items = s.queue.items) :
    Moved n s (.thread (.spurious u)) { s with queue }
  | signal (t : T) (hn : s.handler = none) : Moved n s (.signal t) { s with handler := some (t, n) }
  | put (t : T) (k : ℕ) (queue : State (Option T) Int32) (hh : s.handler = some (t, k + 1))
      (hfree : s.queue.monitor.inside = none)
      (hin : queue.monitor.inside = some (none, .push 0)) : Moved n s .put { s with queue }
  | handlerGo (w : Option (Option T)) (t : T) (k : ℕ) (p : Point Int32)
      (queue : State (Option T) Int32) (hh : s.handler = some (t, k))
      (hi : s.queue.monitor.inside = some (none, p)) (hgo : goStep w s.queue p = some queue) :
    Moved n s (.go w) { queue, handler := some (t, if p = .unlock then k - 1 else k) }

private theorem thread_moved {b : Action T Int32} (hg : s.goesOn b = true)
    {queue : State (Option T) Int32} (hs : s.queue.step (named b) = some queue) :
    Moved n s (.thread b) { s with queue } := by
  cases b with
  | put u x =>
    obtain ⟨m, hm, rfl⟩ := Option.map_eq_some_iff.mp hs
    exact .come _ u _ _ (Bool.not_eq_true' _ ▸ hg) (Monitor.enter_free hm) (Monitor.enter_inside hm)
  | pull u =>
    obtain ⟨m, hm, rfl⟩ := Option.map_eq_some_iff.mp hs
    exact .come _ u _ _ (Bool.not_eq_true' _ ▸ hg) (Monitor.enter_free hm) (Monitor.enter_inside hm)
  | resume u =>
    obtain ⟨m, hm, rfl⟩ := Option.map_eq_some_iff.mp hs
    exact .come _ u _ _ (Bool.not_eq_true' _ ▸ hg) (Monitor.resume_free hm)
      (Monitor.resume_inside hm)
  | spurious u =>
    obtain ⟨m, hm, rfl⟩ := Option.map_eq_some_iff.mp hs
    exact .woken u _ (Monitor.wake_card hm).1 rfl
  | go w =>
    unfold goesOn at hg
    dsimp only at hg
    split at hg
    · rename_i u p hi
      unfold named State.step at hs
      rw [hi] at hs
      exact .go w u p _ (Bool.not_eq_true' _ ▸ hg) hi hs
    · cases hg

theorem step_moved (hs : s.step n a = some s') : Moved n s a s' := by
  cases a with
  | thread b =>
    simp only [step] at hs
    split_ifs at hs with hg
    obtain ⟨queue, hq, rfl⟩ := Option.map_eq_some_iff.mp hs
    exact thread_moved hg hq
  | signal t =>
    simp only [step] at hs
    split_ifs at hs with hn
    cases hs
    exact .signal t (Option.isNone_iff_eq_none.mp hn)
  | put =>
    simp only [step] at hs
    split at hs
    · rename_i t k hh
      obtain ⟨queue, hq, rfl⟩ := Option.map_eq_some_iff.mp hs
      obtain ⟨m, hm, rfl⟩ := Option.map_eq_some_iff.mp hq
      exact .put t k _ hh (Monitor.enter_free hm) (Monitor.enter_inside hm)
    · cases hs
  | go w =>
    simp only [step] at hs
    split at hs
    · rename_i t k p hh hi
      obtain ⟨queue, hq, rfl⟩ := Option.map_eq_some_iff.mp hs
      exact .handlerGo w t k p queue hh hi hq
    · cases hs

theorem step_queue (hs : s.step n a = some s') :
    s'.queue = s.queue ∨ ∃ b, s.queue.step b = some s'.queue := by
  cases a with
  | thread b =>
    simp only [step] at hs
    split_ifs at hs with hg
    obtain ⟨queue, hq, rfl⟩ := Option.map_eq_some_iff.mp hs
    exact Or.inr ⟨named b, hq⟩
  | signal t =>
    simp only [step] at hs
    split_ifs at hs
    cases hs
    exact Or.inl rfl
  | put =>
    simp only [step] at hs
    split at hs
    · obtain ⟨queue, hq, rfl⟩ := Option.map_eq_some_iff.mp hs
      exact Or.inr ⟨.put none 0, hq⟩
    · cases hs
  | go w =>
    simp only [step] at hs
    split at hs
    · rename_i t k p hh hi
      obtain ⟨queue, hq, rfl⟩ := Option.map_eq_some_iff.mp hs
      refine Or.inr ⟨.go w, ?_⟩
      unfold State.step
      rw [hi]
      exact hq
    · cases hs

/-- What holds in every run: `handle_stop` puts, and does nothing else with the queue. -/
structure Puts (s : Signalled T) : Prop where
  reached : ∃ as, run State.step .new as = some s.queue
  awake : s.queue.monitor.Awake none
  putting : ∀ p, s.queue.monitor.inside = some (none, p) → p.putting = true

theorem puts_boot : Puts (boot : Signalled T) where
  reached := ⟨[], rfl⟩
  awake := ⟨Finset.notMem_empty none, Finset.notMem_empty none⟩
  putting := nofun

theorem puts_step (hs : s.step n a = some s') (h : Puts s) : Puts s' where
  reached := by
    obtain ⟨as, hr⟩ := h.reached
    rcases step_queue hs with hsame | ⟨b, hb⟩
    · rw [hsame]
      exact ⟨as, hr⟩
    · exact ⟨as ++ [b], run_append.mpr ⟨s.queue, hr, run_cons.mpr ⟨s'.queue, hb, rfl⟩⟩⟩
  awake := by
    rcases step_queue hs with hsame | ⟨b, hb⟩
    · rw [hsame]
      exact h.awake
    · apply step_awake hb h.awake
      intro hwait
      cases h.putting _ hwait
  putting := by
    intro q hq
    cases step_moved hs with
    | come b u p queue hu hfree hin =>
      rw [hin] at hq
      cases hq
    | go w u p queue hu hi hgo =>
      rcases goStep_inside hi hgo with hnone | ⟨r, hr, -⟩
      · rw [hnone] at hq
        cases hq
      · rw [hr] at hq
        cases hq
    | woken u queue hin =>
      rw [hin] at hq
      exact h.putting q hq
    | signal t hn => exact h.putting q hq
    | put t k queue hh hfree hin =>
      rw [hin] at hq
      cases hq
      rfl
    | handlerGo w t k p queue hh hi hgo =>
      rcases goStep_putting hi (h.putting p hi) hgo with ⟨-, hnone⟩ | ⟨-, r, hr, hput, -⟩
      · rw [hnone] at hq
        cases hq
      · rw [hr] at hq
        cases hq
        exact hput

theorem puts_of_run {as : List (SignalAction T)} (hr : run (step n) boot as = some s) : Puts s :=
  run_of_inv (fun _ _ _ hs h => puts_step hs h) hr puts_boot

/-- The thread that is interrupted does not have the mutex, as long as `handle_stop` runs. -/
structure Clear (t : T) (s : Signalled T) : Prop extends Puts s where
  handler : ∃ k, s.handler = some (t, k) ∧
    (0 < k → ∀ p, s.queue.monitor.inside ≠ some (some t, p))

theorem not_suspended {k : ℕ} {u : T} (hh : s.handler = some (t, k)) (hu : s.suspended u = false)
    (hk : 0 < k) : u ≠ t := by
  rintro rfl
  simp [suspended, hh, hk] at hu

theorem clear_step (hs : s.step n a = some s') (h : Clear t s) : Clear t s' where
  toPuts := puts_step hs h.toPuts
  handler := by
    obtain ⟨k, hh, hclear⟩ := h.handler
    cases step_moved hs with
    | come b u p queue hu hfree hin =>
      refine ⟨k, hh, fun hk q hq => ?_⟩
      rw [hin] at hq
      cases hq
      exact not_suspended hh hu hk rfl
    | go w u p queue hu hi hgo =>
      refine ⟨k, hh, fun hk q hq => ?_⟩
      rcases goStep_inside hi hgo with hnone | ⟨r, hr, -⟩
      · rw [hnone] at hq
        cases hq
      · rw [hr] at hq
        cases hq
        exact not_suspended hh hu hk rfl
    | woken u queue hin =>
      refine ⟨k, hh, fun hk => ?_⟩
      rw [hin]
      exact hclear hk
    | signal u hn =>
      rw [hh] at hn
      cases hn
    | put u j queue hu hfree hin =>
      refine ⟨k, hh, fun _ q hq => ?_⟩
      rw [hin] at hq
      cases hq
    | handlerGo w u j p queue hu hi hgo =>
      rw [hh] at hu
      cases hu
      refine ⟨_, rfl, fun _ q hq => ?_⟩
      rcases goStep_inside hi hgo with hnone | ⟨r, hr, -⟩
      · rw [hnone] at hq
        cases hq
      · rw [hr] at hq
        cases hq

/-- How far `handle_stop` is from its end. -/
def distance (s : Signalled T) : ℕ :=
  8 * (s.handler.elim 0 (·.2)) +
    match s.queue.monitor.inside with
    | none => 4
    | some (none, p) => p.left
    | some (some _, p) => 4 + p.left

/-- Whoever has the mutex can go on with a signal to a thread of the server. -/
theorem exists_goStep (h : Puts s) {u : Option T} {p : Point Int32}
    (hi : s.queue.monitor.inside = some (u, p)) :
    ∃ w queue, goStep (Option.map some w) s.queue p = some queue := by
  obtain ⟨as, hr⟩ := h.reached
  obtain ⟨w, queue, hs⟩ := inside_goes_on hr hi
  unfold State.step at hs
  rw [hi] at hs
  cases p with
  | push | unlock | test | wait | front | pop => exact ⟨none, queue, hs⟩
  | signal =>
    match w with
    | none => exact ⟨none, queue, hs⟩
    | some (some v) => exact ⟨some v, queue, hs⟩
    | some none =>
      -- `handle_stop` does not wait
      obtain ⟨m, hm, -⟩ := Option.map_eq_some_iff.mp hs
      change s.queue.monitor.wake none = some m at hm
      unfold Monitor.wake at hm
      split_ifs at hm with hin
      exact absurd hin h.awake.1

theorem exists_nearer (h : Clear t s) (hret : ¬s.Returned) :
    ∃ a s', s.step n a = some s' ∧ Clear t s' ∧ s'.distance < s.distance := by
  obtain ⟨k, hh, hclear⟩ := h.handler
  obtain ⟨k, rfl⟩ : ∃ j, k = j + 1 := by
    cases k with
    | zero => exact absurd ⟨t, hh⟩ hret
    | succ j => exact ⟨j, rfl⟩
  suffices ∃ a s', s.step n a = some s' ∧ s'.distance < s.distance by
    obtain ⟨a, s', hs, hlow⟩ := this
    exact ⟨a, s', hs, clear_step hs h, hlow⟩
  cases hi : s.queue.monitor.inside with
  | none =>
    have hfree : s.queue.monitor.inside.isNone ∧ none ∉ s.queue.monitor.waiting ∧
        none ∉ s.queue.monitor.woken := by
      rw [hi]
      exact ⟨rfl, h.awake⟩
    obtain ⟨m, hm⟩ : ∃ m, s.queue.monitor.enter none (Point.push 0) = some m :=
      ⟨_, dif_pos hfree⟩
    refine ⟨.put, { s with queue := { s.queue with monitor := m } }, ?_, ?_⟩
    · simp only [step, hh, State.step, hm, Option.map_some]
    · simp only [distance, hi, Monitor.enter_inside hm, Point.left]
      omega
  | some i =>
    obtain ⟨u, p⟩ := i
    obtain ⟨w, queue, hgo⟩ := exists_goStep h.toPuts hi
    cases u with
    | some u =>
      have hne : t ≠ u := by
        rintro rfl
        exact hclear (Nat.succ_pos k) p hi
      have hu : s.suspended u = false := by
        simp [suspended, hh, hne]
      refine ⟨.thread (.go w), { s with queue }, ?_, ?_⟩
      · have hq : s.queue.step (.go (w.map some)) = some queue := by
          unfold State.step
          rw [hi]
          exact hgo
        simp only [step, goesOn, hi, hu, named, hq]
        rfl
      · have hpos := p.left_pos
        rcases goStep_inside hi hgo with hnone | ⟨q, hq, hlow⟩
        · simp only [distance, hi, hnone]
          omega
        · simp only [distance, hi, hq]
          omega
    | none =>
      refine ⟨.go (w.map some), { queue, handler := some (t, if p = .unlock then k else k + 1) },
        ?_, ?_⟩
      · simp only [step, hh, hi, hgo]
        rfl
      · rcases goStep_putting hi (h.putting p hi) hgo with ⟨hp, hnone⟩ | ⟨hp, q, hq, -, hlow⟩
        · simp only [distance, hh, hi, hnone, if_pos hp, Option.elim_some]
          omega
        · simp only [distance, hh, hi, hq, if_neg hp, Option.elim_some]
          omega

/-- The signal has interrupted the thread that has the mutex. -/
structure Held (t : T) (k : ℕ) (items : Channel Int32) (s : Signalled T) : Prop where
  inside : ∃ p, s.queue.monitor.inside = some (some t, p)
  handler : s.handler = some (t, k)
  items : s.queue.items = items

theorem held_step {k : ℕ} {items : Channel Int32} (hk : 0 < k) (hs : s.step n a = some s')
    (h : Held t k items s) : Held t k items s' := by
  obtain ⟨p, hp⟩ := h.inside
  have hh := h.handler
  cases step_moved hs with
  | come b u q queue hu hfree =>
    rw [hp] at hfree
    cases hfree
  | go w u q queue hu hi =>
    rw [hp] at hi
    cases hi
    exact absurd rfl (not_suspended hh hu hk)
  | woken u queue hin hitems => exact ⟨⟨p, hin.trans hp⟩, hh, hitems.trans h.items⟩
  | signal u hn =>
    rw [hh] at hn
    cases hn
  | put u j queue hu hfree =>
    rw [hp] at hfree
    cases hfree
  | handlerGo w u j q queue hu hi =>
    rw [hp] at hi
    cases hi

end Signalled
end Gpshub.BlockingQueue
