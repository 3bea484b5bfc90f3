import Gpshub.Lib.Rank

/-! `Epoll::stop` against `Epoll::loop`: the flag, the byte in the stop pipe, and what `epoll_wait`
makes of it. Every access to `_loop` and every system call is a step of its own. -/
namespace Gpshub.Epoll
open Lib Lib.Machine

/-- An event that `epoll_wait` has returned; `ended` says that it is an `EPOLLERR`, `EPOLLHUP` or
`EPOLLRDHUP`. -/
inductive Returned
  | stop (ended : Bool)
  | other
  deriving DecidableEq

def Returned.isStop : Returned → Bool
  | .stop _ => true
  | .other => false

inductive PipeState
  | opened (bytes : ℕ)
  /-- `stop_pipe[0]` is closed, and `stop_pipe[1]` is not. -/
  | noReader
  | closed
  deriving DecidableEq

/-- Points of the branch of `loop` that opens a new stop pipe. -/
inductive ReopenPc
  | removeEvent
  | close0
  | close1
  | pipe
  | addEvent
  deriving DecidableEq

inductive LoopPc
  | test
  /-- In `epoll_wait`. -/
  | wait
  /-- In the loop over the events that it has returned. -/
  | batch (evs : List Returned)
  | reopen (pc : ReopenPc) (rest : List Returned)
  /-- `loop` has returned, or an exception has left it. -/
  | left (threw : Bool)
  deriving DecidableEq

/-- The points between two passes of `epoll_wait` where the stop pipe is registered. -/
def LoopPc.polls : LoopPc → Bool
  | .test => true
  | .wait => true
  | .batch _ => true
  | _ => false

/-- The points where the stop pipe is open. -/
def LoopPc.piped : LoopPc → Bool
  | .reopen .addEvent _ => true
  | pc => pc.polls

inductive StopFault
  /-- A call of `stop` uses an `Epoll` that the server has deleted. -/
  | dangling
  /-- It writes to a pipe that nobody reads. -/
  | sigpipe
  deriving DecidableEq

structure Stopping where
  loop : Bool
  pipe : PipeState
  /-- The stop event is registered with the `epoll`. -/
  watched : Bool
  /-- It is on the list from which `epoll_wait` takes what it returns. -/
  ready : Bool
  pc : LoopPc
  /-- How many calls of `stop` have set `_loop` and not yet written. -/
  writing : ℕ
  deleted : Bool
  fault : Option StopFault
  deriving DecidableEq

inductive StopAction
  | test
  /-- `epoll_wait` returns these events. -/
  | wake (evs : List Returned)
  /-- It times out, and `timeout_clbk` is called. -/
  | timeout (threw : Bool)
  /-- It fails with `EINTR`. -/
  | interrupted
  | waitFails
  /-- The next event of the batch is handled. -/
  | handle (threw : Bool)
  /-- The next call of the branch that opens a new stop pipe, and whether it succeeds. -/
  | reopen (done : Bool)
  /-- The server deletes the `Epoll` after its loop. -/
  | delete
  /-- The two steps of `stop`. -/
  | stopFlag
  | stopWrite
  deriving DecidableEq

/-- The steps of the thread that runs `loop`, but for what it does afterwards. -/
def StopAction.isLoop : StopAction → Bool
  | .delete => false
  | .stopFlag => false
  | .stopWrite => false
  | _ => true

/-- Those that wait for nothing from outside: `epoll_wait` returns the stop event alone. -/
def StopAction.isOwn : StopAction → Bool
  | .test => true
  | .wake evs => evs == [.stop false]
  | .handle _ => true
  | .reopen _ => true
  | _ => false

namespace Stopping

def new : Stopping where
  loop := true
  pipe := .opened 0
  watched := true
  ready := false
  pc := .test
  writing := 0
  deleted := false
  fault := none

/-- What the kernel does with the byte that `stop` writes; the result of `write` is not checked. -/
def write (s : Stopping) : Stopping :=
  match s.pipe with
  | .opened bytes =>
    { s with pipe := .opened (bytes + 1), ready := s.ready || s.watched, writing := s.writing - 1 }
  | .noReader => { s with fault := some .sigpipe }
  | .closed => { s with writing := s.writing - 1 }

/-- One call of the branch that opens a new stop pipe. An event is ready when a pipe is registered
that has a byte. -/
def reopenStep (s : Stopping) (done : Bool) (rest : List Returned) : ReopenPc → Stopping
  | .removeEvent =>
    if done then { s with watched := false, ready := false, pc := .reopen .close0 rest }
    else { s with pc := .left true }
  | .close0 => { s with pipe := .noReader, pc := .reopen .close1 rest }
  | .close1 => { s with pipe := .closed, pc := .reopen .pipe rest }
  | .pipe =>
    if done then { s with pipe := .opened 0, pc := .reopen .addEvent rest }
    else { s with pc := .left true }
  | .addEvent =>
    if done then
      { s with
        watched := true
        ready := match s.pipe with
          | .opened bytes => 0 < bytes
          | _ => false
        pc := .batch rest }
    else { s with pc := .left true }

/-- One round of the loop over the batch, or its end. -/
def handleStep (s : Stopping) (threw : Bool) : List Returned → Stopping
  | [] => { s with pc := .test }
  | .stop true :: rest => { s with pc := .reopen .removeEvent rest }
  | .stop false :: rest => { s with pc := .batch rest }
  | .other :: rest => if threw then { s with pc := .left true } else { s with pc := .batch rest }

/-- What `epoll_wait` can return: up to `size` events, at least one, and the stop event at most
once and only if it is ready. -/
def Returns (size : ℕ) (s : Stopping) (evs : List Returned) : Prop :=
  evs ≠ [] ∧ evs.length ≤ size ∧ evs.countP Returned.isStop ≤ 1 ∧
    (evs.any Returned.isStop = true → s.ready = true)

instance (size : ℕ) (s : Stopping) (evs : List Returned) : Decidable (Returns size s evs) :=
  inferInstanceAs (Decidable (_ ∧ _ ∧ _ ∧ _))

/-- One step; `timed` is whether `setTimeout` was called, and `size` the length of the array. -/
def step (timed : Bool) (size : ℕ) (s : Stopping) (a : StopAction) : Option Stopping :=
  if s.fault ≠ none then none
  else
    match a, s.pc with
    | .test, .test => some { s with pc := if s.loop then .wait else .left false }
    | .wake evs, .wait =>
      if Returns size s evs then
        some { s with ready := s.ready && !evs.any Returned.isStop, pc := .batch evs }
      else none
    | .timeout threw, .wait =>
      if timed ∧ s.ready = false then some { s with pc := if threw then .left true else .test }
      else none
    | .interrupted, .wait => some { s with pc := .test }
    | .waitFails, .wait => some { s with pc := .left true }
    | .handle threw, .batch evs => some (s.handleStep threw evs)
    | .reopen done, .reopen pc rest => some (s.reopenStep done rest pc)
    | .delete, .left _ => some { s with deleted := true }
    | .stopFlag, _ =>
      if s.deleted then some { s with fault := some .dangling }
      else some { s with loop := false, writing := s.writing + 1 }
    | .stopWrite, _ =>
      if s.writing = 0 then none
      else if s.deleted then some { s with fault := some .dangling }
      else some s.write
    | _, _ => none

/-- The ways in which a step changes the state. -/
inductive Moved (size : ℕ) (s : Stopping) : StopAction → Stopping → Prop
  | test (hpc : s.pc = .test) :
    Moved size s .test { s with pc := if s.loop then .wait else .left false }
  | wake (evs : List Returned) (hpc : s.pc = .wait) (hevs : Returns size s evs) :
    Moved size s (.wake evs)
      { s with ready := s.ready && !evs.any Returned.isStop, pc := .batch evs }
  | unwoken (a : StopAction) (threw : Bool) (ha : a.isLoop = true) (hpc : s.pc = .wait) :
    Moved size s a { s with pc := if threw then .left true else .test }
  | handle (threw : Bool) (evs : List Returned) (hpc : s.pc = .batch evs) :
    Moved size s (.handle threw) (s.handleStep threw evs)
  | reopen (done : Bool) (pc : ReopenPc) (rest : List Returned) (hpc : s.pc = .reopen pc rest) :
    Moved size s (.reopen done) (s.reopenStep done rest pc)
  | delete (threw : Bool) (hpc : s.pc = .left threw) : Moved size s .delete { s with deleted := true }
  | flag : Moved size s .stopFlag { s with loop := false, writing := s.writing + 1 }
  | write (hw : 0 < s.writing) : Moved size s .stopWrite s.write
  | dangling (a : StopAction) (ha : a.isLoop = false) :
    Moved size s a { s with fault := some .dangling }

section Steps

variable {timed : Bool} {size : ℕ} {s s' : Stopping} {a : StopAction}

theorem step_moved (hs : s.step timed size a = some s') : Moved size s a s' := by
  unfold step at hs
  by_cases hf : s.fault ≠ none
  · rw [if_pos hf] at hs
    cases hs
  rw [if_neg hf] at hs
  cases a with
  | test =>
    cases hpc : s.pc with
    | test =>
      simp only [hpc, Option.some.injEq] at hs
      subst hs
      exact .test hpc
    | _ => simp [hpc] at hs
  | wake evs =>
    cases hpc : s.pc with
    | wait =>
      simp only [hpc, Option.ite_none_right_eq_some, Option.some.injEq] at hs
      obtain ⟨hevs, rfl⟩ := hs
      exact .wake evs hpc hevs
    | _ => simp [hpc] at hs
  | timeout threw =>
    cases hpc : s.pc with
    | wait =>
      simp only [hpc, Option.ite_none_right_eq_some, Option.some.injEq] at hs
      obtain ⟨-, rfl⟩ := hs
      exact .unwoken _ threw rfl hpc
    | _ => simp [hpc] at hs
  | interrupted =>
    cases hpc : s.pc with
    | wait =>
      simp only [hpc, Option.some.injEq] at hs
      subst hs
      exact .unwoken _ false rfl hpc
    | _ => simp [hpc] at hs
  | waitFails =>
    cases hpc : s.pc with
    | wait =>
      simp only [hpc, Option.some.injEq] at hs
      subst hs
      exact .unwoken _ true rfl hpc
    | _ => simp [hpc] at hs
  | handle threw =>
    cases hpc : s.pc with
    | batch evs =>
      simp only [hpc, Option.some.injEq] at hs
      subst hs
      exact .handle threw evs hpc
    | _ => simp [hpc] at hs
  | reopen done =>
    cases hpc : s.pc with
    | reopen pc rest =>
      simp only [hpc, Option.some.injEq] at hs
      subst hs
      exact .reopen done pc rest hpc
    | _ => simp [hpc] at hs
  | delete =>
    cases hpc : s.pc with
    | left threw =>
      simp only [hpc, Option.some.injEq] at hs
      subst hs
      rw [← hpc]
      exact .delete threw hpc
    | _ => simp [hpc] at hs
  | stopFlag =>
    dsimp only at hs
    by_cases hd : s.deleted = true
    · rw [if_pos hd] at hs
      cases hs
      exact .dangling _ rfl
    · rw [if_neg hd] at hs
      cases hs
      exact .flag
  | stopWrite =>
    dsimp only at hs
    by_cases hw : s.writing = 0
    · rw [if_pos hw] at hs
      cases hs
    · rw [if_neg hw] at hs
      by_cases hd : s.deleted = true
      · rw [if_pos hd] at hs
        cases hs
        exact .dangling _ rfl
      · rw [if_neg hd] at hs
        cases hs
        exact .write (Nat.pos_of_ne_zero hw)

/-- While `loop` waits, a call of `stop` that has set the flag is about to write, or its byte has
made the stop event ready. -/
structure Inv (s : Stopping) : Prop where
  opened : s.pc.piped = true → ∃ bytes, s.pipe = .opened bytes
  watched : s.pc.polls = true → s.watched = true
  writing : 0 < s.writing → s.loop = false
  waits : s.pc = .wait → s.loop = false → 0 < s.writing ∨ s.ready = true
  left : s.pc = .left false → s.loop = false

theorem Inv.new : Inv new where
  opened _ := ⟨0, rfl⟩
  watched _ := rfl
  writing := nofun
  waits := nofun
  left := nofun

theorem Inv.flag (hi : Inv s) : Inv { s with loop := false, writing := s.writing + 1 } where
  opened := hi.opened
  watched := hi.watched
  writing _ := rfl
  waits _ _ := Or.inl (Nat.succ_pos _)
  left _ := rfl

theorem Inv.write (hi : Inv s) (hw : 0 < s.writing) : Inv s.write := by
  have hflag : s.loop = false := hi.writing hw
  have hopened := hi.opened
  unfold Stopping.write
  cases hpipe : s.pipe with
  | opened bytes =>
    constructor
    · exact fun _ => ⟨bytes + 1, rfl⟩
    · exact hi.watched
    · exact fun _ => hflag
    · intro hpc _
      have hwatched : s.watched = true := hi.watched (by rw [show s.pc = .wait from hpc]; rfl)
      right
      simp [hwatched]
    · exact fun _ => hflag
  | noReader =>
    rw [hpipe] at hopened
    exact ⟨hopened, hi.watched, hi.writing, hi.waits, hi.left⟩
  | closed =>
    rw [hpipe] at hopened
    constructor
    · exact hopened
    · exact hi.watched
    · exact fun _ => hflag
    · intro hpc _
      obtain ⟨bytes, hb⟩ := hopened (by rw [show s.pc = .wait from hpc]; rfl)
      cases hb
    · exact fun _ => hflag

/-- The thread of `loop` goes to a point where it neither waits nor has returned. -/
theorem Inv.move (hi : Inv s) {pc : LoopPc} {pipe : PipeState} {watched ready : Bool}
    (hopened : pc.piped = true → ∃ bytes, pipe = .opened bytes)
    (hwatched : pc.polls = true → watched = true) (hwait : pc ≠ .wait)
    (hleft : pc ≠ .left false) : Inv { s with pipe, watched, ready, pc } where
  opened := hopened
  watched := hwatched
  writing := hi.writing
  waits hpc := absurd hpc hwait
  left hpc := absurd hpc hleft

theorem Inv.handle (hi : Inv s) (threw : Bool) {evs : List Returned} (hpc : s.pc = .batch evs) :
    Inv (s.handleStep threw evs) := by
  have hopened : ∃ bytes, s.pipe = .opened bytes := hi.opened (by rw [hpc]; rfl)
  have hwatched : s.watched = true := hi.watched (by rw [hpc]; rfl)
  cases evs with
  | nil => exact hi.move (fun _ => hopened) (fun _ => hwatched) nofun nofun
  | cons ev rest =>
    cases ev with
    | stop ended =>
      cases ended with
      | true => exact hi.move nofun nofun nofun nofun
      | false => exact hi.move (fun _ => hopened) (fun _ => hwatched) nofun nofun
    | other =>
      unfold handleStep
      cases threw with
      | true => exact hi.move nofun nofun nofun nofun
      | false => exact hi.move (fun _ => hopened) (fun _ => hwatched) nofun nofun

theorem Inv.reopen (hi : Inv s) (done : Bool) {pc : ReopenPc} {rest : List Returned}
    (hpc : s.pc = .reopen pc rest) : Inv (s.reopenStep done rest pc) := by
  cases pc with
  | removeEvent =>
    cases done with
    | true => exact hi.move nofun nofun nofun nofun
    | false => exact hi.move nofun nofun nofun nofun
  | close0 => exact hi.move nofun nofun nofun nofun
  | close1 => exact hi.move nofun nofun nofun nofun
  | pipe =>
    cases done with
    | true => exact hi.move (fun _ => ⟨0, rfl⟩) nofun nofun nofun
    | false => exact hi.move nofun nofun nofun nofun
  | addEvent =>
    have hopened : ∃ bytes, s.pipe = .opened bytes := hi.opened (by rw [hpc]; rfl)
    cases done with
    | true => exact hi.move (fun _ => hopened) (fun _ => rfl) nofun nofun
    | false => exact hi.move nofun nofun nofun nofun

theorem Inv.moved (hm : Moved size s a s') (hi : Inv s) : Inv s' := by
  cases hm with
  | test hpc =>
    have hopened : ∃ bytes, s.pipe = .opened bytes := hi.opened (by rw [hpc]; rfl)
    have hwatched : s.watched = true := hi.watched (by rw [hpc]; rfl)
    cases hloop : s.loop with
    | true =>
      refine ⟨fun _ => hopened, fun _ => hwatched, ?_, ?_, nofun⟩
      · intro hw
        cases hloop.symm.trans (hi.writing hw)
      · intro _ hcontra
        cases hcontra
    | false => exact ⟨nofun, nofun, fun _ => rfl, nofun, fun _ => rfl⟩
  | wake evs hpc =>
    have hopened : ∃ bytes, s.pipe = .opened bytes := hi.opened (by rw [hpc]; rfl)
    have hwatched : s.watched = true := hi.watched (by rw [hpc]; rfl)
    exact hi.move (fun _ => hopened) (fun _ => hwatched) nofun nofun
  | unwoken a threw ha hpc =>
    have hopened : ∃ bytes, s.pipe = .opened bytes := hi.opened (by rw [hpc]; rfl)
    have hwatched : s.watched = true := hi.watched (by rw [hpc]; rfl)
    cases threw with
    | true => exact hi.move nofun nofun nofun nofun
    | false => exact hi.move (fun _ => hopened) (fun _ => hwatched) nofun nofun
  | handle threw evs hpc => exact hi.handle threw hpc
  | reopen done pc rest hpc => exact hi.reopen done hpc
  | delete | dangling => exact ⟨hi.opened, hi.watched, hi.writing, hi.waits, hi.left⟩
  | flag => exact hi.flag
  | write hw => exact hi.write hw

/-- How many steps `loop` still makes when the flag is false. -/
def ReopenPc.rank : ReopenPc → ℕ
  | .removeEvent => 5
  | .close0 => 4
  | .close1 => 3
  | .pipe => 2
  | .addEvent => 1

def rank (size : ℕ) (s : Stopping) : ℕ :=
  match s.pc with
  | .test => 1
  | .wait => 6 * size + 3
  | .batch evs => 6 * evs.length + 2
  | .reopen pc rest => ReopenPc.rank pc + 6 * rest.length + 2
  | .left _ => 0

theorem rank_write : rank size s.write = rank size s := by
  unfold write
  cases s.pipe <;> rfl

theorem rank_handle (threw : Bool) {evs : List Returned} (hpc : s.pc = .batch evs) :
    rank size (s.handleStep threw evs) < rank size s := by
  have hrank : rank size s = 6 * evs.length + 2 := by
    unfold rank
    rw [hpc]
  rw [hrank]
  cases evs with
  | nil => exact Nat.lt_succ_self 1
  | cons ev rest =>
    rw [List.length_cons]
    cases ev with
    | stop ended =>
      cases ended with
      | true =>
        change 5 + 6 * rest.length + 2 < _
        omega
      | false =>
        change 6 * rest.length + 2 < _
        omega
    | other =>
      cases threw with
      | true => exact Nat.succ_pos _
      | false =>
        change 6 * rest.length + 2 < _
        omega

theorem rank_reopen (done : Bool) {pc : ReopenPc} {rest : List Returned}
    (hpc : s.pc = .reopen pc rest) : rank size (s.reopenStep done rest pc) < rank size s := by
  have hrank : rank size s = ReopenPc.rank pc + 6 * rest.length + 2 := by
    unfold rank
    rw [hpc]
  rw [hrank]
  cases pc with
  | close0 | close1 =>
    simp only [reopenStep, rank, ReopenPc.rank]
    omega
  | removeEvent | pipe | addEvent =>
    cases done with
    | true =>
      simp only [reopenStep, rank, ReopenPc.rank, if_true]
      omega
    | false => exact Nat.succ_pos _

theorem moved_rank (hm : Moved size s a s') (hf : s.loop = false) :
    s'.loop = false ∧ rank size s' ≤ rank size s ∧
      (a.isLoop = true → rank size s' < rank size s) := by
  -- a step of `loop` that leaves the flag alone
  have hlower (hloop : s'.loop = false) (hrank : rank size s' < rank size s) :
      s'.loop = false ∧ rank size s' ≤ rank size s ∧
        (a.isLoop = true → rank size s' < rank size s) := ⟨hloop, Nat.le_of_lt hrank, fun _ => hrank⟩
  have hwait (hpc : s.pc = .wait) : rank size s = 6 * size + 3 := by
    unfold rank
    rw [hpc]
  cases hm with
  | test hpc =>
    apply hlower hf
    have hrank : rank size s = 1 := by
      unfold rank
      rw [hpc]
    rw [hrank, hf]
    exact Nat.zero_lt_one
  | wake evs hpc hevs =>
    apply hlower hf
    have hlen : evs.length ≤ size := hevs.2.1
    rw [hwait hpc]
    change 6 * evs.length + 2 < _
    omega
  | unwoken a threw ha hpc =>
    apply hlower hf
    rw [hwait hpc]
    cases threw with
    | true => exact Nat.succ_pos _
    | false =>
      change 1 < _
      omega
  | handle threw evs hpc =>
    have hloop : (s.handleStep threw evs).loop = s.loop := by
      unfold handleStep
      split
      · rfl
      · rfl
      · rfl
      · split <;> rfl
    exact hlower (hloop.trans hf) (rank_handle threw hpc)
  | reopen done pc rest hpc =>
    have hloop : (s.reopenStep done rest pc).loop = s.loop := by
      cases pc <;> cases done <;> rfl
    exact hlower (hloop.trans hf) (rank_reopen done hpc)
  | delete => exact ⟨hf, Nat.le_refl _, nofun⟩
  | dangling a ha =>
    refine ⟨hf, Nat.le_refl _, fun hloop => ?_⟩
    cases ha.symm.trans hloop
  | flag => exact ⟨rfl, Nat.le_refl _, nofun⟩
  | write hw =>
    have hloop : s.write.loop = s.loop := by
      unfold write
      cases s.pipe <;> rfl
    exact ⟨hloop.trans hf, Nat.le_of_eq rank_write, nofun⟩

variable (timed size) in
theorem ranked : Ranked (step timed size) (fun s => s.loop = false) StopAction.isLoop
    (rank size) := by
  constructor
  · intro s a s' hs hf
    exact (moved_rank (step_moved hs) hf).1
  · intro s a s' hs hf ha
    exact (moved_rank (step_moved hs) hf).2.2 ha
  · intro s a s' hs hf
    exact (moved_rank (step_moved hs) hf).2.1

end Steps

/-- `loop` has returned, or it can make a step of its own; when it is in `epoll_wait`, the stop
event is ready. -/
def CanGoOn (timed : Bool) (size : ℕ) (s : Stopping) : Prop :=
  (s.pc = .wait → s.ready = true) ∧
    (rank size s = 0 ∨ ∃ a, a.isOwn = true ∧ (s.step timed size a).isSome = true)

theorem Inv.canGoOn {timed : Bool} {size : ℕ} {s : Stopping} (hi : Inv s) (hsize : 0 < size)
    (hf : s.loop = false) (hw : s.writing = 0) (hfault : s.fault = none) :
    CanGoOn timed size s := by
  have hready : s.pc = .wait → s.ready = true :=
    fun hpc => (hi.waits hpc hf).resolve_left (by omega)
  refine ⟨hready, ?_⟩
  cases hpc : s.pc with
  | left threw =>
    left
    unfold rank
    rw [hpc]
  | test =>
    right
    refine ⟨.test, rfl, ?_⟩
    simp [step, hfault, hpc]
  | wait =>
    have hreturns : Returns size s [.stop false] := by
      refine ⟨nofun, hsize, Nat.le_refl 1, fun _ => hready hpc⟩
    right
    refine ⟨.wake [.stop false], rfl, ?_⟩
    simp [step, hfault, hpc, hreturns]
  | batch evs =>
    right
    refine ⟨.handle false, rfl, ?_⟩
    simp [step, hfault, hpc]
  | reopen pc rest =>
    right
    refine ⟨.reopen true, rfl, ?_⟩
    simp [step, hfault, hpc]

/-- In every run, with any number of calls of `stop` at any time, also while `loop` replaces its
stop pipe: `loop` returns only when `stop` was called; and once a call has set the flag, `loop`
makes at most `rank` more steps, and when no call is still to write it can always make the next
one by itself: in `epoll_wait` the stop event is ready. -/
theorem stop_ends_loop {timed : Bool} {size : ℕ} (hsize : 0 < size) {as : List StopAction}
    {s : Stopping} (hr : run (step timed size) new as = some s) :
    (s.pc = .left false → s.loop = false) ∧
      (s.loop = false → ∀ bs s', run (step timed size) s bs = some s' →
        bs.countP StopAction.isLoop + rank size s' ≤ rank size s ∧
          (s'.writing = 0 → s'.fault = none → CanGoOn timed size s')) := by
  have hstep : ∀ s a s', step timed size s a = some s' → Inv s → Inv s' :=
    fun s a s' hs hi => hi.moved (step_moved hs)
  have hi : Inv s := run_of_inv hstep hr .new
  refine ⟨hi.left, fun hf bs s' hbs => ⟨(ranked timed size).countP_add_le hbs hf, fun hw hfault => ?_⟩⟩
  have hi' : Inv s' := run_of_inv hstep hbs hi
  have hf' : s'.loop = false := run_of_inv (ranked timed size).keeps hbs hf
  exact hi'.canGoOn hsize hf' hw hfault

/-- The stop pipe is reported as ended, and while it is replaced a second call of `stop` sets the
flag; it writes to the new pipe. -/
def replaced : List StopAction :=
  [.test, .stopFlag, .stopWrite, .wake [.stop true], .handle false, .reopen true, .reopen true,
    .stopFlag, .reopen true, .reopen true, .stopWrite, .reopen true]

theorem stop_ends_loop_replaced : ∃ s, run (step false 1) new replaced = some s ∧
    (s.pc = .batch [] ∧ s.loop = false ∧ s.ready = true) ∧
      (s.pc = .left false → s.loop = false) ∧
        (s.loop = false → ∀ bs s', run (step false 1) s bs = some s' →
          bs.countP StopAction.isLoop + rank 1 s' ≤ rank 1 s ∧
            (s'.writing = 0 → s'.fault = none → CanGoOn false 1 s')) := by
  have hr : run (step false 1) new replaced =
      some ⟨false, .opened 1, true, true, .batch [], 0, false, none⟩ := by
    decide
  exact ⟨_, hr, ⟨rfl, rfl, rfl⟩, stop_ends_loop Nat.zero_lt_one hr⟩

end Stopping
end Gpshub.Epoll
