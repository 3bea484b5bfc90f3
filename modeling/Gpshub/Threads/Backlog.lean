import Gpshub.Lib.Rank
import Gpshub.Threads.Positions

/-! How much the GPS thread and the broadcast threads still have to do when no more input
comes: it is bounded, whatever the order in which they go on. -/
namespace Gpshub.Threads
open Lib.Machine CoordsBroadcastThread

variable {n : ℕ}

/-- The steps a thread takes until it tests `loop`, and that test; no user has more than `b`
buddies, and a buddy takes five steps at most. -/
def TurnPc.left (b : ℕ) : TurnPc → ℕ
  | .load => 5 * b + 8
  | .copyLon _ => 5 * b + 7
  | .copyLat _ _ => 5 * b + 6
  | .copyAlt _ _ _ => 5 * b + 5
  | .call _ _ => 5 * b + 4
  | .each _ nicks => 5 * nicks.length + 3
  | .get _ _ rest => 5 * rest.length + 7
  | .udpReady _ _ rest => 5 * rest.length + 6
  | .pack _ _ rest => 5 * rest.length + 5
  | .sendto _ _ _ rest => 5 * rest.length + 4
  | .reset => 2

def ThreadPc.left (b : ℕ) : ThreadPc → ℕ
  | .test => 1
  | .pull => 0
  | .lookup _ => 5 * b + 9
  | .turn _ _ pc => pc.left b
  | .exited => 0

/-- An id on the queue: it is pulled, and its turn follows. -/
def turnCost (b : ℕ) : ℕ := 5 * b + 10

def CoordPc.left : CoordPc → ℕ
  | .check => 9
  | .warn => 2
  | .lon => 8
  | .lat => 7
  | .alt => 6
  | .ready => 5
  | .set => 4
  | .swap => 3

def InitPc.left : InitPc → ℕ
  | .token => 5
  | .ip => 4
  | .set => 3
  | .ack _ => 2

/-- The steps of the GPS thread, with the turn that `put` makes necessary. -/
def GpsPc.left (b : ℕ) : GpsPc → ℕ
  | .idle => 0
  | .getCoord _ _ _ => 10 + turnCost b
  | .coord _ _ _ _ pc => pc.left + turnCost b
  | .put _ => 2 + turnCost b
  | .getInit _ _ _ => 6
  | .init _ _ _ pc => pc.left
  | .flush => 1

def buddyCount (h : Hub) (u : UserRef) : ℕ := (h.users u).elim 0 fun usr => usr.buddies.set.length

/-- The most buddies that a user has. -/
def mostBuddies (h : Hub) : ℕ := (List.range h.nextUser).foldr (fun u b => (buddyCount h u).max b) 0

theorem le_foldr_max {α : Type} (f : α → ℕ) {x : α} {l : List α} (hx : x ∈ l) :
    f x ≤ l.foldr (fun y b => (f y).max b) 0 := by
  induction l with
  | nil => cases hx
  | cons y l ih =>
    rw [List.foldr_cons]
    rcases List.mem_cons.mp hx with rfl | hx
    · exact Nat.le_max_left ..
    · exact (ih hx).trans (Nat.le_max_right ..)

theorem length_le_mostBuddies {h : Hub} {pc : CmdPc} {u : UserRef} {usr : User}
    (hw : Consistent h pc) (hu : h.users u = some usr) :
    usr.buddies.set.length ≤ mostBuddies h := by
  have hmem : u ∈ List.range h.nextUser := List.mem_range.mpr (hw.user hu).1
  have hle := le_foldr_max (buddyCount h) hmem
  unfold buddyCount at hle
  rw [hu] at hle
  exact hle

/-- What the threads do leaves every user its buddies. -/
structure KeepsBuddies (h h' : Hub) : Prop where
  users : ∀ r, (h'.users r).map User.buddies = (h.users r).map User.buddies
  nextUser : h'.nextUser = h.nextUser

namespace KeepsBuddies

variable {h h' : Hub} {u : UserRef} {usr usr' : User}

theorem refl (h : Hub) : KeepsBuddies h h := ⟨fun _ => rfl, rfl⟩

theorem setUser (hu : h.users u = some usr) (hb : usr'.buddies = usr.buddies) :
    KeepsBuddies h (h.setUser u usr') where
  users r := by
    by_cases hr : r = u
    · subst hr
      simp [Hub.setUser, hu, hb]
    · simp [Hub.setUser, hr]
  nextUser := rfl

theorem mostBuddies (hk : KeepsBuddies h h') : mostBuddies h' = mostBuddies h := by
  have hcount : buddyCount h' = buddyCount h := by
    funext r
    have hr := congrArg (fun o => o.elim 0 fun b => b.set.length) (hk.users r)
    rwa [Option.elim_map, Option.elim_map] at hr
  rw [Threads.mostBuddies, Threads.mostBuddies, hk.nextUser, hcount]

end KeepsBuddies

section Moves

variable {env : Env} {h h' : Hub} {notes : List Note} {b : ℕ}

theorem GpsMoved.keepsBuddies {pc pc' : GpsPc} (hm : GpsMoved env h pc pc' h' notes) :
    KeepsBuddies h h' := by
  cases hm with
  | lon hu | lat hu | alt hu => exact .setUser hu (User.buddies_setSlot ..)
  | publish hu | swap hu | set hu => exact .setUser hu rfl
  | _ => exact ⟨fun _ => rfl, rfl⟩

theorem ThreadMoved.keepsBuddies {pc pc' : ThreadPc} (hm : ThreadMoved env h pc pc' h' notes) :
    KeepsBuddies h h' := by
  cases hm with
  | reset hu => exact .setUser hu rfl
  | _ => exact ⟨fun _ => rfl, rfl⟩

theorem GpsMoved.lowers {pc pc' : GpsPc} (hm : GpsMoved env h pc pc' h' notes) :
    pc'.left b + turnCost b * h'.uqueue.length < pc.left b + turnCost b * h.uqueue.length := by
  cases hm with
  | put =>
    simp only [GpsPc.left, List.length_append, List.length_singleton, Nat.mul_add]
    omega
  | coordNone | coordFound | initNone | initFound | reject | allow | warn | skip | decide | lon
  | lat | alt | publish | swap | badToken | goodToken | badIp | goodIp | set | ack | flush =>
    simp [GpsPc.left, CoordPc.left, InitPc.left, lookUp, Hub.setUser]
    try omega

theorem iterate_length (env : Env) (buddies : SyncHashSet Nick) :
    (iterate env buddies).length = buddies.set.length := by
  unfold iterate
  split_ifs with hp
  · exact (List.isPerm_iff.mp hp).length_eq
  · rfl

theorem ThreadMoved.lowers {pc pc' : ThreadPc} (hm : ThreadMoved env h pc pc' h' notes)
    (hb : ∀ u usr, h.users u = some usr → usr.buddies.set.length ≤ b) :
    pc'.left b + turnCost b * h'.uqueue.length < pc.left b + turnCost b * h.uqueue.length := by
  cases hm with
  | pull hq =>
    rw [hq]
    simp only [ThreadPc.left, turnCost, List.length_cons, Nat.mul_add]
    omega
  | call hu =>
    have hle := hb _ _ hu
    simp only [ThreadPc.left, TurnPc.left, iterate_length]
    omega
  | taken | free =>
    simp only [ThreadPc.left, TurnPc.left, List.length_cons]
    omega
  | again | leave | unknown | found | miss | load | copyLon | copyLat | copyAlt | last | get
  | notReady | isReady | pack | sendto | reset =>
    simp [ThreadPc.left, TurnPc.left, lookUp, Hub.setUser, Hub.emit]
    try omega

end Moves

/-- Who goes on. -/
inductive Worker (n : ℕ)
  | gps
  | thread (j : Fin n)

def Worker.action (env : Env) : Worker n → Action n
  | .gps => .gps env
  | .thread j => .thread j env

/-- A step of the GPS thread or of a broadcast thread, which is all that happens while no input
comes. -/
def work (s : System n) (w : Worker n × Env) : Option (System n) := s.step (w.1.action w.2)

theorem run_work {s s' : System n} {ws : List (Worker n × Env)} (hr : run work s ws = some s') :
    run System.step s (ws.map fun w => w.1.action w.2) = some s' := by
  induction ws generalizing s with
  | nil => exact hr
  | cons w ws ih =>
    obtain ⟨s1, hs, hr⟩ := run_cons.mp hr
    exact run_cons.mpr ⟨s1, hs, ih hr⟩

/-- The steps that are left to do at most; one more counts for the fault that may end it. -/
def backlog (s : System n) : ℕ :=
  s.gps.left (mostBuddies s.hub) + ∑ j, (s.threads j).pc.left (mostBuddies s.hub) +
    turnCost (mostBuddies s.hub) * s.hub.uqueue.length + if s.fault = none then 1 else 0

section Work

variable {s s' : System n}

private theorem gps_lowers {env : Env} {pc : GpsPc} {hub : Hub} {notes : List Note}
    (hf : s.fault = none) (hm : GpsMoved env s.hub s.gps pc hub notes) :
    backlog { s with gps := pc, hub, hist := s.hist ++ notes } < backlog s := by
  have hlow := hm.lowers (b := mostBuddies s.hub)
  have hmost : mostBuddies hub = mostBuddies s.hub := hm.keepsBuddies.mostBuddies
  simp only [backlog, hmost, hf]
  omega

private theorem thread_lowers {env : Env} {j : Fin n} {pc : ThreadPc} {hub : Hub}
    {notes : List Note} (hf : s.fault = none) (hw : Consistent s.hub s.cmd)
    (hm : ThreadMoved env s.hub (s.threads j).pc pc hub notes) :
    backlog { s with
      threads := Function.update s.threads j { s.threads j with pc }
      hub
      hist := s.hist ++ notes } < backlog s := by
  have hlow := hm.lowers (b := mostBuddies s.hub) fun u usr hu => length_le_mostBuddies hw hu
  have hmost : mostBuddies hub = mostBuddies s.hub := hm.keepsBuddies.mostBuddies
  have hsum := Lib.Handover.sum_update (fun t : Thread => t.pc.left (mostBuddies s.hub)) s.threads j
    { s.threads j with pc }
  simp only [backlog, hmost, hf]
  dsimp only at hsum
  omega

theorem work_lowers {w : Worker n × Env} (hs : work s w = some s') (hw : Consistent s.hub s.cmd) :
    backlog s' < backlog s := by
  obtain ⟨who, env⟩ := w
  obtain ⟨hf, hm⟩ := System.step_moved hs
  cases who with
  | gps =>
    cases hm with
    | gps env pc hub notes hi he => exact gps_lowers hf (gpsStep_moved hi he)
    | fault a e he => simp [backlog, hf]
  | thread j =>
    cases hm with
    | thread j env pc hub notes hb he => exact thread_lowers hf hw (threadStep_moved hb he)
    | fault a e he => simp [backlog, hf]

theorem work_ranked : Ranked (work (n := n)) System.Sound (fun _ => true) backlog where
  keeps _ _ _ hs h := System.sound_step hs h
  lowers _ _ _ hs h _ := work_lowers hs h.1
  raises _ _ _ hs h := (work_lowers hs h.1).le

/-- No thread can go on. -/
def WorkedOff (s : System n) : Prop := ∀ w, work s w = none

/-- Unless a fault has stopped the server, the threads that cannot go on wait for input. -/
theorem workedOff_iff (hf : s.fault = none) :
    WorkedOff s ↔ s.gps = .idle ∧ ∀ j, (s.threads j).blocked s.hub = true := by
  have hgps (env : Env) : work s (.gps, env) = none ↔ s.gps = .idle := by
    simp [work, Worker.action, System.step, hf]
  have hthread (j : Fin n) (env : Env) :
      work s (.thread j, env) = none ↔ (s.threads j).blocked s.hub = true := by
    simp [work, Worker.action, System.step, hf]
  constructor
  · intro h
    exact ⟨(hgps default).mp (h _), fun j => (hthread j default).mp (h _)⟩
  · intro h w
    obtain ⟨who, env⟩ := w
    cases who with
    | gps => exact (hgps env).mpr h.1
    | thread j => exact (hthread j env).mpr (h.2 j)

/-- What stays while no input comes, and what is only added to. -/
structure Later (s s' : System n) : Prop where
  id : s'.hub.idUmap.pointsTo = s.hub.idUmap.pointsTo
  loop : ∀ j, (s'.threads j).loop = (s.threads j).loop
  hist : s.hist <+: s'.hist

theorem Later.step {s0 : System n} {w : Worker n × Env} (hs : work s w = some s')
    (h : Later s0 s) : Later s0 s' := by
  obtain ⟨who, env⟩ := w
  have hm := (System.step_moved hs).2
  cases who with
  | gps =>
    cases hm with
    | gps env pc hub notes hi he =>
      have hcalm := (gpsStep_moved hi he).calm
      exact ⟨hcalm.id.trans h.id, h.loop, h.hist.trans (List.prefix_append ..)⟩
    | fault a e he => exact ⟨h.id, h.loop, h.hist⟩
  | thread j =>
    cases hm with
    | thread j env pc hub notes hb he =>
      have hcalm := (threadStep_moved hb he).calm
      refine ⟨hcalm.id.trans h.id, fun k => ?_, h.hist.trans (List.prefix_append ..)⟩
      by_cases hkj : k = j
      · subst hkj
        dsimp only
        rw [Function.update_self]
        exact h.loop k
      · dsimp only
        rw [Function.update_of_ne hkj]
        exact h.loop k
    | fault a e he => exact ⟨h.id, h.loop, h.hist⟩

theorem Later.of_run {ws : List (Worker n × Env)} (hr : run work s ws = some s') : Later s s' :=
  run_of_inv (I := Later s) (fun _ _ _ hs h => h.step hs) hr ⟨rfl, fun _ => rfl, List.prefix_rfl⟩

theorem handsOutClean_work (i : Int32) (s : System n) (ws : List (Worker n × Env)) :
    Guarded System.step (HandsOutClean i) s (ws.map fun w => w.1.action w.2) := by
  induction ws generalizing s with
  | nil => trivial
  | cons w ws ih =>
    intro s' _
    refine ⟨fun hcmd => ?_, ih s'⟩
    obtain ⟨who, env⟩ := w
    cases who <;> cases hcmd

/-- Only a thread that has been stopped leaves its loop. -/
def LeavesStopped (s : System n) : Prop :=
  ∀ j, (s.threads j).pc = .exited → (s.threads j).loop = false

private theorem leaves_thread {env : Env} {j : Fin n} {pc : ThreadPc} {hub : Hub}
    {notes : List Note} (hb : (s.threads j).blocked s.hub = false)
    (he : threadStep env (s.threads j).loop s.hub (s.threads j).pc = .ok (pc, hub, notes))
    (hexit : pc = .exited) : (s.threads j).loop = false := by
  have hm := threadStep_moved hb he
  have htest : (s.threads j).pc = .test := by
    subst hexit
    generalize (s.threads j).pc = old at hm
    cases hm
    rfl
  rw [htest, hexit] at he
  cases hl : (s.threads j).loop with
  | false => rfl
  | true =>
    rw [hl] at he
    cases he

theorem leavesStopped_step {a : Action n} (hs : s.step a = some s') (h : LeavesStopped s) :
    LeavesStopped s' := by
  cases (System.step_moved hs).2 with
  | receive | timeout | gps | wake | accept | command | writable | close | cmd | fault => exact h
  | stop j =>
    intro k hk
    dsimp only at hk ⊢
    rw [System.stop_pc] at hk
    by_cases hkj : k = j
    · subst hkj
      rw [Function.update_self]
    · rw [Function.update_of_ne hkj]
      exact h k hk
  | thread j env pc hub notes hb he =>
    intro k hk
    dsimp only at hk ⊢
    by_cases hkj : k = j
    · subst hkj
      rw [Function.update_self] at hk ⊢
      exact leaves_thread hb he hk
    · rw [Function.update_of_ne hkj] at hk ⊢
      exact h k hk

/-- Threads that have not been stopped wait in `pull` for the next id. -/
theorem WorkedOff.quiescent (hrest : WorkedOff s) (hf : s.fault = none) (hn : 0 < n)
    (hloop : ∀ j, (s.threads j).loop = true) (hexit : LeavesStopped s) : Quiescent s := by
  obtain ⟨hgps, hblocked⟩ := (workedOff_iff hf).mp hrest
  have hpull (j : Fin n) : (s.threads j).pc = .pull ∧ s.hub.uqueue = [] := by
    have hj := hblocked j
    simp only [Thread.blocked, Bool.or_eq_true, decide_eq_true_eq, Bool.and_eq_true] at hj
    rcases hj with hexited | hpull
    · have hfalse := hexit j hexited
      rw [hloop j] at hfalse
      cases hfalse
    · exact hpull
  exact ⟨hgps, (hpull ⟨0, hn⟩).2, fun j => (hpull j).1⟩

end Work

end Gpshub.Threads
