import Gpshub.Lib.Channel
import Gpshub.Lib.Machine
import Gpshub.Lib.Monitor

/-! The queue of the broadcast threads, lock by lock: `put` and `pull` between two accesses to
the mutex, the condition variable and the `std::queue`. -/
namespace Gpshub.BlockingQueue
open Lib Lib.Machine

/-- Where the thread is that holds the mutex. -/
inductive Point (α : Type)
  /-- `put` before `queue.push` -/
  | push (x : α)
  | signal
  /-- The destructor of `ScopeLock` is next. -/
  | unlock
  /-- `pull` at the test of its loop; `resumed` is whether it has been in `wait`. -/
  | test (resumed : Bool)
  | wait
  | front (resumed : Bool)
  | pop (x : α) (resumed : Bool)
  deriving DecidableEq

/-- The items put, the items in the queue and the items pulled are a channel. -/
structure State (T α : Type) where
  monitor : Monitor T (Point α)
  items : Channel α

inductive Action (T α : Type)
  /-- A thread that calls `put` gets the mutex. -/
  | put (t : T) (x : α)
  | pull (t : T)
  /-- The thread that holds the mutex goes on; a signal wakes `w`. -/
  | go (w : Option T)
  | spurious (t : T)
  /-- A woken thread gets the mutex back and returns from `wait`. -/
  | resume (t : T)

variable {T α : Type}

def State.new : State T α := ⟨.free, ⟨[], [], []⟩⟩

variable [DecidableEq T]

/-- The step of the thread inside, from one point to the next. -/
def goStep (w : Option T) (s : State T α) : Point α → Option (State T α)
  | .push x => some ⟨s.monitor.goOn .signal, s.items.enqueue x⟩
  | .signal => (s.monitor.signal w).map fun m => { s with monitor := m.goOn .unlock }
  | .unlock => some { s with monitor := s.monitor.leave }
  | .test resumed =>
    match s.items.queue with
    | [] => some { s with monitor := s.monitor.goOn .wait }
    | _ :: _ => some { s with monitor := s.monitor.goOn (.front resumed) }
  | .wait => some { s with monitor := s.monitor.wait }
  | .front resumed =>
    match s.items.queue with
    | [] => none
    | x :: _ => some { s with monitor := s.monitor.goOn (.pop x resumed) }
  | .pop x _ => some ⟨s.monitor.goOn .unlock, s.items.dequeue [] x s.items.queue.tail⟩

def State.step (s : State T α) : Action T α → Option (State T α)
  | .put t x => (s.monitor.enter t (.push x)).map fun monitor => { s with monitor }
  | .pull t => (s.monitor.enter t (.test false)).map fun monitor => { s with monitor }
  | .go w =>
    match s.monitor.inside with
    | none => none
    | some (_, p) => goStep w s p
  | .spurious t => (s.monitor.wake t).map fun monitor => { s with monitor }
  | .resume t => (s.monitor.resume t (.test true)).map fun monitor => { s with monitor }

/-- What the thread inside knows of the queue. -/
def Point.Ok (queue : List α) : Point α → Prop
  | .wait => queue = []
  | .front _ => queue ≠ []
  | .pop x _ => queue.head? = some x
  | _ => True

/-- A signal is owed from `push` on; an item is owed by a thread that has been woken and has not
yet taken it or found that there is none. -/
def Point.owed : Point α → ℕ
  | .signal | .test true | .front true | .pop _ true => 1
  | _ => 0

theorem Point.owed_le_one (p : Point α) : p.owed ≤ 1 := by
  unfold Point.owed
  split <;> omega

structure Inv (s : State T α) : Prop where
  items : s.items.Fifo
  point : ∀ t p, s.monitor.inside = some (t, p) → p.Ok s.items.queue
  covered : s.monitor.Covered Point.owed s.items.queue.length

section Invariant

variable {s s' : State T α} {t : T} {w : Option T} {p q : Point α}

omit [DecidableEq T] in
/-- The thread inside goes on; the work it leaves is covered by what it then owes. -/
private theorem Inv.goOn (h : Inv s) (hi : s.monitor.inside = some (t, p)) {items : Channel α}
    (hf : items.Fifo) (hok : q.Ok items.queue) (howed : items.queue = [] ∨
      items.queue.length + p.owed ≤ s.items.queue.length + q.owed) :
    Inv ⟨s.monitor.goOn q, items⟩ where
  items := hf
  point u r hr := by
    cases (Monitor.inside_goOn hi).symm.trans hr
    exact hok
  covered := by
    rcases howed with hempty | hle
    · show (s.monitor.goOn q).Covered Point.owed items.queue.length
      rw [hempty]
      exact fun _ => Nat.zero_le _
    · exact h.covered.goOn hi hle

omit [DecidableEq T] in
private theorem Inv.entered (h : Inv s) {m : Monitor T (Point α)}
    (hin : m.inside = some (t, p)) (hok : ∀ queue, p.Ok queue)
    (hc : m.Covered Point.owed s.items.queue.length) : Inv { s with monitor := m } where
  items := h.items
  point u r hr := by
    cases hin.symm.trans hr
    exact hok _
  covered := hc

theorem goStep_inv (h : Inv s) (hi : s.monitor.inside = some (t, p))
    (hs : goStep w s p = some s') : Inv s' := by
  have hknows := h.point t p hi
  cases p with
  | push x =>
    cases hs
    have hlen : (s.items.enqueue x).queue.length = s.items.queue.length + 1 :=
      List.length_append
    exact h.goOn hi h.items.enqueue trivial (Or.inr (le_of_eq hlen))
  | signal =>
    obtain ⟨m, hm, rfl⟩ := Option.map_eq_some_iff.mp hs
    refine ⟨h.items, fun u r hr => ?_, h.covered.signal hi hm (le_refl _)⟩
    obtain ⟨i, -, heq⟩ := Option.map_eq_some_iff.mp hr
    cases heq
    trivial
  | unlock =>
    cases hs
    exact ⟨h.items, (fun _ _ hr => nomatch hr), h.covered.leave hi rfl⟩
  | test resumed =>
    unfold goStep at hs
    cases hq : s.items.queue with
    | nil =>
      rw [hq] at hs
      cases hs
      exact h.goOn hi h.items hq (Or.inl hq)
    | cons x rest =>
      rw [hq] at hs
      cases hs
      have hne : s.items.queue ≠ [] := by
        rw [hq]
        exact List.cons_ne_nil x rest
      refine h.goOn hi h.items hne (Or.inr ?_)
      cases resumed <;> exact le_refl _
  | wait =>
    cases hs
    refine ⟨h.items, fun u r hr => ?_, ?_⟩
    · cases (Monitor.inside_wait s.monitor).symm.trans hr
    · show s.monitor.wait.Covered Point.owed s.items.queue.length
      rw [show s.items.queue = [] from hknows]
      exact .wait s.monitor
  | front resumed =>
    unfold goStep at hs
    cases hq : s.items.queue with
    | nil => exact absurd hq hknows
    | cons x rest =>
      rw [hq] at hs
      cases hs
      have hhead : s.items.queue.head? = some x := by
        rw [hq]
        rfl
      refine h.goOn hi h.items hhead (Or.inr ?_)
      cases resumed <;> exact le_refl _
  | pop x resumed =>
    cases hs
    obtain ⟨rest, hq⟩ := List.head?_eq_some_iff.mp hknows
    have hlen : s.items.queue.length = rest.length + 1 := by
      rw [hq]
      rfl
    have howed := Point.owed_le_one (Point.pop x resumed)
    rw [hq, List.tail_cons]
    refine h.goOn hi (h.items.dequeue_head hq) trivial (Or.inr ?_)
    show rest.length + (Point.pop x resumed).owed ≤ s.items.queue.length + 0
    omega

theorem step_inv {a : Action T α} (hs : s.step a = some s') (h : Inv s) : Inv s' := by
  cases a with
  | put t x =>
    obtain ⟨m, hm, rfl⟩ := Option.map_eq_some_iff.mp hs
    exact h.entered (Monitor.enter_inside hm) (fun _ => trivial) (h.covered.enter hm)
  | pull t =>
    obtain ⟨m, hm, rfl⟩ := Option.map_eq_some_iff.mp hs
    exact h.entered (Monitor.enter_inside hm) (fun _ => trivial) (h.covered.enter hm)
  | go w =>
    unfold State.step at hs
    cases hi : s.monitor.inside with
    | none => simp only [hi, reduceCtorEq] at hs
    | some i =>
      rw [hi] at hs
      exact goStep_inv h hi hs
  | spurious t =>
    obtain ⟨m, hm, rfl⟩ := Option.map_eq_some_iff.mp hs
    refine ⟨h.items, fun u r hr => ?_, h.covered.wake hm⟩
    exact h.point u r ((Monitor.wake_card hm).1.symm.trans hr)
  | resume t =>
    obtain ⟨m, hm, rfl⟩ := Option.map_eq_some_iff.mp hs
    exact h.entered (Monitor.resume_inside hm) (fun _ => trivial)
      (h.covered.resume hm (le_refl _))

omit [DecidableEq T] in
theorem inv_new : Inv (.new : State T α) where
  items := rfl
  point _ _ hi := nomatch hi
  covered := .free

theorem inv_of_run {as : List (Action T α)} (hr : run State.step .new as = some s) : Inv s :=
  run_of_inv (fun _ _ _ hs h => step_inv hs h) hr inv_new

end Invariant

variable {s : State T α} {as : List (Action T α)}

/-- No item is lost or doubled and none overtakes another one; and while a thread waits, every
item in the queue is for a thread that is on its way to it, or its signal is still to come. -/
theorem nothing_lost (hr : run State.step .new as = some s) :
    s.items.taken ++ s.items.queue = s.items.submitted ∧
      (s.monitor.waiting.Nonempty →
        s.items.queue.length ≤ s.monitor.woken.card + s.monitor.owes Point.owed) ∧
      (s.monitor.inside = none → s.monitor.waiting.Nonempty →
        s.items.queue.length ≤ s.monitor.woken.card) := by
  have h := inv_of_run hr
  have hitems : s.items.submitted = s.items.taken ++ s.items.queue := h.items
  refine ⟨hitems.symm, h.covered, fun hfree hne => ?_⟩
  have hle := h.covered hne
  rwa [Monitor.owes_of_free hfree, Nat.add_zero] at hle

/-- A consumer waits before anything is put; then a producer pushes. -/
def pushing : List (Action ℕ ℕ) := [.pull 0, .go none, .go none, .put 1 7, .go none]

theorem nothing_lost_pushing : ∃ s, run State.step .new pushing = some s ∧
    s.monitor.waiting = {0} ∧ s.items.queue = [7] ∧
    s.items.taken ++ s.items.queue = s.items.submitted ∧
    s.items.queue.length ≤ s.monitor.woken.card + s.monitor.owes Point.owed := by
  have hrun : ∃ s, run State.step .new pushing = some s ∧ s.monitor.waiting = {0} ∧
      s.items.queue = [7] := ⟨_, rfl, by decide, by decide⟩
  obtain ⟨s, hr, hw, hq⟩ := hrun
  obtain ⟨hitems, hcovered, -⟩ := @nothing_lost ℕ ℕ _ s pushing hr
  refine ⟨s, hr, hw, hq, hitems, hcovered ?_⟩
  rw [hw]
  exact Finset.singleton_nonempty 0

/-- Between `push` and `signal` a consumer waits, an item is in the queue and nobody has been
woken. -/
theorem nothing_lost_counterexample :
    ¬∀ (as : List (Action ℕ ℕ)) (s : State ℕ ℕ), run State.step .new as = some s →
      s.items.taken ++ s.items.queue = s.items.submitted ∧
        (s.monitor.waiting.Nonempty → s.items.queue.length ≤ s.monitor.woken.card) := by
  intro hall
  have hrun : ∃ s, run State.step .new pushing = some s ∧ s.monitor.waiting.Nonempty ∧
      s.items.queue.length = 1 ∧ s.monitor.woken.card = 0 :=
    ⟨_, rfl, by decide, by decide, by decide⟩
  obtain ⟨s, hr, hne, hlen, hcard⟩ := hrun
  have hle := (hall pushing s hr).2 hne
  omega

/-- The thread that holds the mutex can go on: it never reads the front of an empty queue. -/
theorem inside_goes_on (hr : run State.step .new as = some s) {t : T} {p : Point α}
    (hi : s.monitor.inside = some (t, p)) : ∃ w s', s.step (.go w) = some s' := by
  have hknows := (inv_of_run hr).point t p hi
  suffices ∃ w s', goStep w s p = some s' by
    obtain ⟨w, s', hs⟩ := this
    refine ⟨w, s', ?_⟩
    unfold State.step
    rw [hi]
    exact hs
  cases p with
  | push | unlock | wait | pop => exact ⟨none, _, rfl⟩
  | signal =>
    obtain ⟨w, m, hm⟩ := s.monitor.exists_signal
    refine ⟨w, { s with monitor := m.goOn .unlock }, ?_⟩
    unfold goStep
    rw [hm]
    rfl
  | test resumed =>
    unfold goStep
    cases hq : s.items.queue with
    | nil => exact ⟨none, _, rfl⟩
    | cons x rest => exact ⟨none, _, rfl⟩
  | front resumed =>
    unfold goStep
    cases hq : s.items.queue with
    | nil => exact absurd hq hknows
    | cons x rest => exact ⟨none, _, rfl⟩

end Gpshub.BlockingQueue
