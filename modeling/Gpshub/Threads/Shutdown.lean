import Gpshub.Threads.Handover

/-! The end of the broadcast threads: `handle_stop` calls `stop` of one after the other. -/
namespace Gpshub.Threads
open Lib.Machine

variable {n : ℕ}

namespace System

variable {s s' : System n} {a : Action n}

/-- How many broadcast threads are in `pull`. -/
def waiting (s : System n) : ℕ := (Finset.univ.filter fun j => (s.threads j).pc = .pull).card

theorem waiting_le (s : System n) : s.waiting ≤ n := by
  have hle := Finset.card_filter_le Finset.univ fun j => (s.threads j).pc = .pull
  rwa [Finset.card_univ, Fintype.card_fin] at hle

theorem waiting_eq_zero : s.waiting = 0 ↔ ∀ j, (s.threads j).pc ≠ .pull := by
  rw [waiting, Finset.card_eq_zero, Finset.filter_eq_empty_iff]
  exact forall_congr' fun j => ⟨fun h => h (Finset.mem_univ j), fun h _ => h⟩

theorem waiting_congr (h : ∀ j, (s'.threads j).pc = (s.threads j).pc) : s'.waiting = s.waiting := by
  unfold waiting
  simp only [h]

/-- A thread that moves is counted at its new point and no longer at its old one. -/
theorem waiting_update (s s' : System n) (j : Fin n) (pc : ThreadPc)
    (h : s'.threads = Function.update s.threads j { s.threads j with pc }) :
    s'.waiting + (if (s.threads j).pc = .pull then 1 else 0) =
      s.waiting + if pc = .pull then 1 else 0 := by
  simp only [waiting, Finset.card_filter, h]
  exact Lib.Handover.sum_update (fun t : Thread => if t.pc = .pull then 1 else 0) s.threads j _

/-- The thread finds `loop` to be true, and calls `pull`. -/
def Enters (s : System n) : Action n → Prop
  | .thread j _ => (s.threads j).pc = .test ∧ (s.threads j).loop = true
  | _ => False

instance : Decidable (Enters s a) :=
  match a with
  | .thread j _ =>
    inferInstanceAs (Decidable ((s.threads j).pc = .test ∧ (s.threads j).loop = true))
  | .datagram .. | .timeout | .gps _ | .stop _ | .wake | .accept _ | .command .. | .writable ..
  | .close _ | .cmd _ => .isFalse id

/-- The action puts an id on the queue. -/
def puts (s : System n) : Action n → Bool
  | .gps _ =>
    match s.gps with
    | .put _ => true
    | _ => false
  | .wake => true
  | _ => false

/-- How a step changes the number of the threads in `pull` and the length of the queue. -/
inductive Balance (s : System n) (a : Action n) (s' : System n) : Prop
  | enter (he : s.Enters a) (hw : s'.waiting = s.waiting + 1)
      (hq : s'.hub.uqueue.length = s.hub.uqueue.length)
  | take (he : ¬s.Enters a) (hw : s'.waiting + 1 = s.waiting)
      (hq : s'.hub.uqueue.length + 1 = s.hub.uqueue.length)
  | put (he : ¬s.Enters a) (hp : s.puts a = true) (hw : s'.waiting = s.waiting)
      (hq : s'.hub.uqueue.length = s.hub.uqueue.length + 1)
  | keep (he : ¬s.Enters a) (hw : s'.waiting = s.waiting)
      (hq : s'.hub.uqueue.length = s.hub.uqueue.length)

section Balance

variable {env : Env} {h h' : Hub} {notes : List Note}

theorem GpsMoved.uqueue {pc pc' : GpsPc} (hm : GpsMoved env h pc pc' h' notes) :
    (∃ i, pc = .put i ∧ h'.uqueue = h.uqueue ++ [i]) ∨
      (∀ i, pc ≠ .put i) ∧ h'.uqueue = h.uqueue := by
  cases hm with
  | put => exact Or.inl ⟨_, rfl, rfl⟩
  | _ => exact Or.inr ⟨nofun, rfl⟩

theorem ThreadMoved.uqueue {pc pc' : ThreadPc} (hm : ThreadMoved env h pc pc' h' notes)
    (ht : pc ≠ .test) : pc' ≠ .pull ∧
      (pc = .pull ∧ h'.uqueue.length + 1 = h.uqueue.length ∨
        pc ≠ .pull ∧ h'.uqueue = h.uqueue) := by
  cases hm with
  | again | leave => exact absurd rfl ht
  | pull hq =>
    refine ⟨nofun, Or.inl ⟨rfl, ?_⟩⟩
    rw [hq]
    rfl
  | _ => exact ⟨nofun, Or.inr ⟨nofun, rfl⟩⟩

private theorem thread_balance {j : Fin n} {pc : ThreadPc} {hub : Hub}
    (hb : (s.threads j).blocked s.hub = false)
    (he : threadStep env (s.threads j).loop s.hub (s.threads j).pc = .ok (pc, hub, notes)) :
    Balance s (.thread j env) { s with
      threads := Function.update s.threads j { s.threads j with pc }
      hub
      hist := s.hist ++ notes } := by
  have hw := waiting_update s { s with
    threads := Function.update s.threads j { s.threads j with pc }
    hub
    hist := s.hist ++ notes } j pc rfl
  by_cases ht : (s.threads j).pc = .test
  · rw [ht] at he hw
    unfold threadStep at he
    split_ifs at he with hl
    · cases he
      exact .enter ⟨ht, hl⟩ hw rfl
    · cases he
      exact .keep (fun hent => hl hent.2) hw rfl
  · have hm := threadStep_moved hb he
    obtain ⟨hpc, ⟨hpull, hq⟩ | ⟨hpull, hq⟩⟩ := ThreadMoved.uqueue hm ht
    · rw [if_pos hpull, if_neg hpc] at hw
      exact .take (fun hent => ht hent.1) hw hq
    · rw [if_neg hpull, if_neg hpc] at hw
      exact .keep (fun hent => ht hent.1) hw (congrArg List.length hq)

end Balance

theorem step_balance (hs : s.step a = some s') : Balance s a s' := by
  cases (step_moved hs).2 with
  | receive | timeout | accept | command | writable | close => exact .keep id rfl rfl
  | gps env pc hub notes hi he =>
    rcases GpsMoved.uqueue (gpsStep_moved hi he) with ⟨i, hpc, hq⟩ | ⟨-, hq⟩
    · refine .put id (by rw [puts, hpc]) rfl ?_
      show hub.uqueue.length = s.hub.uqueue.length + 1
      rw [hq, List.length_append, List.length_singleton]
    · exact .keep id rfl (congrArg List.length hq)
  | thread j env pc hub notes hb he => exact thread_balance hb he
  | stop j => exact .keep id (waiting_congr (stop_pc s j)) rfl
  | wake =>
    refine .put id rfl rfl ?_
    exact List.length_append
  | cmd env pc hub notes he =>
    exact .keep id rfl (congrArg List.length (cmdStep_moved he).uqueue)
  | fault a e he =>
    refine .keep (fun hent => ?_) rfl rfl
    cases a with
    | thread j env =>
      have herr : threadStep env (s.threads j).loop s.hub (s.threads j).pc = .error e := he
      rw [hent.1, hent.2] at herr
      cases herr
    | _ => exact hent

theorem stop_balance {j : Fin n} (hs : s.step (.stop j) = some s') :
    s'.waiting = s.waiting ∧ s'.hub.uqueue.length = s.hub.uqueue.length := by
  cases (step_moved hs).2 with
  | stop j => exact ⟨waiting_congr (stop_pc s j), rfl⟩
  | fault a e he => exact absurd he id

theorem wake_balance (hs : s.step .wake = some s') :
    s'.waiting = s.waiting ∧ s'.hub.uqueue.length = s.hub.uqueue.length + 1 := by
  cases (step_moved hs).2 with
  | wake => exact ⟨rfl, List.length_append⟩
  | fault a e he => exact absurd he id

end System

/-- The system, and how far `handle_stop` has come. -/
structure Stopping (n : ℕ) where
  sys : System n
  /-- The calls of `stop` that have returned. -/
  stopped : ℕ
  /-- A call of `stop` has set `loop` to false, and has not yet put the id. -/
  mid : Bool
  le : stopped + mid.toNat ≤ n

inductive StopAction (n : ℕ)
  /-- The next step of `handle_stop`. -/
  | stop
  | other (a : Action n)

namespace Stopping

def boot (n : ℕ) : Stopping n := ⟨.boot n, 0, false, Nat.zero_le n⟩

/-- The first call of `stop` has begun. -/
def begun (s : Stopping n) : Bool := s.mid || 0 < s.stopped

/-- From the first `stop` on nobody else puts an id. -/
def step (s : Stopping n) : StopAction n → Option (Stopping n)
  | .stop =>
    if hm : s.mid = true then
      (s.sys.step .wake).map fun sys =>
        { sys
          stopped := s.stopped + 1
          mid := false
          le := by
            have hle := s.le
            rw [hm] at hle
            exact hle }
    else if hlt : s.stopped < n then
      (s.sys.step (.stop ⟨s.stopped, hlt⟩)).map fun sys =>
        { sys
          stopped := s.stopped
          mid := true
          le := hlt }
    else none
  | .other (.stop _) | .other .wake => none
  | .other a =>
    if s.begun ∧ s.sys.puts a then none else (s.sys.step a).map fun sys => { s with sys }

/-- The ids on the queue, and those that `stop` has still to put. -/
def coming (s : Stopping n) : ℕ := s.sys.hub.uqueue.length + (n - s.stopped)

/-- A thread that goes back to `pull` will find an id there. -/
def EntersServed (s : Stopping n) : StopAction n → Prop
  | .stop => True
  | .other a => s.sys.Enters a → s.sys.waiting < s.coming

instance (s : Stopping n) (a : StopAction n) : Decidable (s.EntersServed a) :=
  match a with
  | .stop => .isTrue trivial
  | .other a => inferInstanceAs (Decidable (s.sys.Enters a → s.sys.waiting < s.coming))

/-- All calls of `stop` have returned, and no thread can go on by itself. -/
def Settled (s : Stopping n) : Prop :=
  s.stopped = n ∧ s.sys.hub.uqueue = [] ∧ ∀ j, (s.sys.threads j).blocked s.sys.hub = true

instance (s : Stopping n) : Decidable s.Settled := inferInstanceAs (Decidable (_ ∧ _ ∧ _))

/-- A thread is blocked in `pull`, and nobody will ever put an id: `join` hangs. -/
def Hung (s : Stopping n) : Prop := s.Settled ∧ ∃ j, (s.sys.threads j).pc = .pull

instance (s : Stopping n) : Decidable s.Hung := inferInstanceAs (Decidable (_ ∧ _))

/-- There are ids for all threads in `pull`, on the queue or to come. -/
def Served (s : Stopping n) : Prop := s.sys.waiting ≤ s.coming

variable {s s' : Stopping n} {a : StopAction n}

theorem served_boot : Served (boot n) := by
  have hle := System.waiting_le (System.boot n)
  exact hle.trans (Nat.le_add_left n _)

private theorem stop_served (hs : s.step .stop = some s') : Served s' ↔ Served s := by
  have hle := s.le
  unfold step at hs
  split_ifs at hs with hm hlt
  · obtain ⟨sys, hsys, rfl⟩ := Option.map_eq_some_iff.mp hs
    obtain ⟨hw, hq⟩ := System.wake_balance hsys
    rw [hm] at hle
    have hlt : s.stopped + 1 ≤ n := hle
    show sys.waiting ≤ sys.hub.uqueue.length + (n - (s.stopped + 1)) ↔
      s.sys.waiting ≤ s.sys.hub.uqueue.length + (n - s.stopped)
    omega
  · obtain ⟨sys, hsys, rfl⟩ := Option.map_eq_some_iff.mp hs
    obtain ⟨hw, hq⟩ := System.stop_balance hsys
    show sys.waiting ≤ sys.hub.uqueue.length + (n - s.stopped) ↔
      s.sys.waiting ≤ s.sys.hub.uqueue.length + (n - s.stopped)
    rw [hw, hq]

theorem other_eq_some {b : Action n} (hs : s.step (.other b) = some s') :
    (s.begun = true → s.sys.puts b = false) ∧
      ∃ sys, s.sys.step b = some sys ∧ s' = { s with sys } := by
  unfold step at hs
  split at hs
  · contradiction
  · cases hs
  · cases hs
  · rename_i heq
    cases heq
    split_ifs at hs with hp
    obtain ⟨sys, hsys, rfl⟩ := Option.map_eq_some_iff.mp hs
    refine ⟨fun hb => ?_, sys, hsys, rfl⟩
    exact Bool.eq_false_iff.mpr fun h => hp ⟨hb, h⟩

/-- Only a thread that goes back to `pull` takes an id away from those that are in it. -/
theorem step_served (hs : s.step a = some s') :
    Served s' ↔ Served s ∧ s.EntersServed a := by
  cases a with
  | stop =>
    rw [stop_served hs]
    exact (and_iff_left trivial).symm
  | other b =>
    obtain ⟨hput, sys, hsys, rfl⟩ := other_eq_some hs
    show sys.waiting ≤ sys.hub.uqueue.length + (n - s.stopped) ↔
      s.sys.waiting ≤ s.sys.hub.uqueue.length + (n - s.stopped) ∧
        (s.sys.Enters b → s.sys.waiting < s.sys.hub.uqueue.length + (n - s.stopped))
    cases System.step_balance hsys with
    | enter he hw hq =>
      rw [hw, hq]
      constructor
      · intro hlt
        exact ⟨Nat.le_of_succ_le hlt, fun _ => hlt⟩
      · intro h
        exact h.2 he
    | take he hw hq =>
      have hiff : sys.waiting ≤ sys.hub.uqueue.length + (n - s.stopped) ↔
          s.sys.waiting ≤ s.sys.hub.uqueue.length + (n - s.stopped) := by omega
      rw [hiff]
      exact (and_iff_left fun hent => absurd hent he).symm
    | put he hp hw hq =>
      -- an id that is put before the first `stop`: there are as many to come as threads
      have hnot : ¬s.begun = true := fun hb => by
        rw [hput hb] at hp
        cases hp
      have hzero : s.stopped = 0 := by
        simp only [begun, Bool.or_eq_true, decide_eq_true_eq, not_or] at hnot
        exact Nat.eq_zero_of_not_pos hnot.2
      have hle := System.waiting_le s.sys
      rw [hw, hq, hzero]
      constructor
      · intro _
        exact ⟨by omega, fun hent => absurd hent he⟩
      · intro h
        omega
    | keep he hw hq =>
      rw [hw, hq]
      exact (and_iff_left fun hent => absurd hent he).symm

theorem hung_iff (hset : s.Settled) : ¬s.Hung ↔ Served s := by
  have hcoming : s.coming = 0 := by
    rw [coming, hset.1, hset.2.1, Nat.sub_self]
    rfl
  rw [Served, hcoming, Nat.le_zero, System.waiting_eq_zero]
  constructor
  · intro h j hj
    exact h ⟨hset, j, hj⟩
  · intro h hhung
    obtain ⟨j, hj⟩ := hhung.2
    exact h j hj

/-- The run has met the condition at every step exactly when there are ids for all. -/
theorem served_iff_guarded {as : List (StopAction n)} (hr : run step (boot n) as = some s) :
    Served s ↔ Guarded step EntersServed (boot n) as := by
  have halways : Always step Served (boot n) as ↔ Guarded step EntersServed (boot n) as :=
    always_iff_guarded (I := Served) (H := fun _ => True) (W := fun _ => True)
      (fun _ _ _ _ _ => trivial) (fun _ _ h => h)
      (fun s a s' hs _ _ h => ⟨fun hg => (step_served hs).mpr ⟨h, hg⟩,
        fun h' => ((step_served hs).mp h').2⟩) (fun _ _ => trivial) trivial served_boot
  rw [← halways]
  constructor
  · intro h
    exact always_of_last (H := fun _ => True) (fun _ _ _ _ _ => trivial)
      (fun s a s' hs _ h' => ((step_served hs).mp h').1) hr trivial h
  · intro h
    exact h.last hr

/-- No thread hangs in a run in which a thread only goes back to `pull` when it will find an id
there; in any other run one does, once all calls of `stop` have returned and no thread can go
on. -/
theorem threads_released_iff (n : ℕ) (as : List (StopAction n)) :
    (Guarded step EntersServed (boot n) as → Always step (fun s => ¬Hung s) (boot n) as) ∧
      ∀ s, run step (boot n) as = some s → s.Settled →
        (¬s.Hung ↔ Guarded step EntersServed (boot n) as) := by
  constructor
  · intro hg
    have hserved : Always step Served (boot n) as :=
      always_of_step (H := fun _ => True) (fun s a s' _ _ hg hs h => (step_served hs).mpr ⟨h, hg⟩)
        (always_true _ _) hg served_boot
    refine hserved.mono fun s h hhung => ?_
    exact (hung_iff hhung.1).mpr h hhung
  · intro s hr hset
    rw [hung_iff hset, served_iff_guarded hr]

private def thread (j : Fin n) : StopAction n := .other (.thread j default)

private def first : StopAction 2 := thread ⟨0, Nat.two_pos⟩

private def second : StopAction 2 := thread ⟨1, Nat.one_lt_two⟩

/-- Both threads wait in `pull`; both are stopped, and each of them takes an id and leaves. -/
def released : List (StopAction 2) :=
  [first, second, .stop, .stop, .stop, .stop] ++ List.replicate 3 first ++
    List.replicate 3 second

theorem threads_released_iff_released :
    Always step (fun s => ¬Hung s) (boot 2) released ∧
      ∃ s, run step (boot 2) released = some s ∧ s.Settled ∧ ¬s.Hung :=
  ⟨(threads_released_iff 2 released).1 (by decide), _, rfl, by decide,
    ((threads_released_iff 2 released).2 _ rfl (by decide)).mpr (by decide)⟩

/-- Between the two calls of `stop`, the second thread takes the id that is meant for the first
one and goes back to `pull`; the first one then takes the id of the second. -/
def stolen : List (StopAction 2) :=
  [first, second, .stop, .stop] ++ List.replicate 3 second ++ [.stop, .stop] ++
    List.replicate 3 first

theorem threads_released_counterexample :
    ¬∀ (n : ℕ) (as : List (StopAction n)) (s : Stopping n), 1 ≤ n →
      run step (boot n) as = some s → ¬s.Hung := by
  intro hall
  have hrun : ∃ s, run step (boot 2) stolen = some s ∧ s.Hung := ⟨_, rfl, by decide⟩
  obtain ⟨s, hr, hhung⟩ := hrun
  exact hall 2 stolen s (by decide) hr hhung

end Stopping
end Gpshub.Threads
