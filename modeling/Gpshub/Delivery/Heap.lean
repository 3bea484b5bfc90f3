import Gpshub.Delivery.Conservation
import Gpshub.Lib.Ledger

/-! The packages on the heap: who holds the pointer to a package, which packages are deleted, and
which are lost without being deleted. -/
namespace Gpshub.Delivery
open Lib Lib.Machine

/-- Where the pointer to a package is. -/
inductive Place
  | sendQueue (client : SocketRef)
  /-- In the `cmd` of a `PendingCmd`. -/
  | pending
  /-- `delete` was called on it. -/
  | deleted
  /-- No pointer to the package is left. -/
  | lost
  deriving DecidableEq

structure Heap where
  out : Outgoing
  deleted : List ℕ
  lost : List ℕ

inductive HeapAction
  | out (a : Action)
  /-- `closeConnection` deletes the session, and with it the `send_queue`. -/
  | close (client : SocketRef)

/-- The `Send` has returned. -/
def Sends : SendResult → Bool
  | .all => true
  | .part _ => true
  | .wouldBlock => false
  | .error => false

namespace Outgoing

/-- The packages that the action deletes. -/
def deletes (o : Outgoing) : Action → List ℕ
  | .send _ _ answer => if Sends answer then [o.submitted.length] else []
  | .ack _ _ answer => if Sends answer then [o.submitted.length] else []
  | .drain answer =>
    match o.cmd with
    | .drain client => if Sends answer then (o.sendQueue client).head?.toList.map Packet.num else []
    | .idle => []
  | _ => []

/-- The packages to which the action leaves no pointer: those whose first `Send` fails, and those
that `sendPendingCmd` has sent, of which only the `PendingCmd` is deleted. -/
def loses (o : Outgoing) : Action → List ℕ
  | .send _ _ answer => if answer = .error then [o.submitted.length] else []
  | .ack _ _ answer => if answer = .error then [o.submitted.length] else []
  | .flush answer =>
    match o.gps with
    | .flush i => if Sends answer then o.pendingCmdQueue[i]?.toList.map Packet.num else []
    | .idle => []
  | _ => []

end Outgoing

namespace Heap

def boot : Heap := ⟨.boot, [], []⟩

def step (s : Heap) : HeapAction → Option Heap
  | .out a => (s.out.step a).map fun out =>
      ⟨out, s.deleted ++ s.out.deletes a, s.lost ++ s.out.loses a⟩
  | .close client =>
    if s.out.failed ∨ s.out.cmd ≠ .idle then none
    else some { s with
      out := { s.out with sendQueue := Function.update s.out.sendQueue client [] }
      lost := s.lost ++ (s.out.sendQueue client).map Packet.num }

/-- The packages at a place, by their numbers. -/
def places (s : Heap) : Place → List ℕ
  | .sendQueue client => (s.out.sendQueue client).map Packet.num
  | .pending => s.out.pendingCmdQueue.map Packet.num
  | .deleted => s.deleted
  | .lost => s.lost

def made (s : Heap) : List ℕ := s.out.submitted.map Packet.num

/-- Every package that was made is at one place. -/
structure Inv (s : Heap) : Prop where
  sound : s.out.Sound
  placed : Placed s.made s.places

section Steps

variable {s s' : Heap} {o' : Outgoing} {a : Action} {del los : List ℕ} {client : SocketRef}

theorem Inv.transfer (hi : Inv s) (hsound : o'.Sound) (hmade : o'.submitted = s.out.submitted)
    {p q : Place} (xs : List ℕ) (ht : Transfer p q xs s.places (places ⟨o', del, los⟩)) :
    Inv ⟨o', del, los⟩ := by
  refine ⟨hsound, ?_⟩
  have hplaced := hi.placed.transfer ht
  have hsame : made ⟨o', del, los⟩ = s.made := by
    unfold made
    rw [hmade]
  rw [hsame]
  exact hplaced

theorem Inv.stay (hi : Inv s) (hsound : o'.Sound) (hmade : o'.submitted = s.out.submitted)
    (hqueue : o'.sendQueue = s.out.sendQueue)
    (hpending : o'.pendingCmdQueue = s.out.pendingCmdQueue) : Inv ⟨o', s.deleted, s.lost⟩ := by
  have hplaces : places ⟨o', s.deleted, s.lost⟩ = s.places := by
    funext q
    cases q <;> simp [places, hqueue, hpending]
  refine ⟨hsound, ?_⟩
  have hplaced := hi.placed
  unfold made at hplaced ⊢
  rw [hplaces, hmade]
  exact hplaced

theorem Inv.make (hi : Inv s) {p : Packet} (answer : SendResult)
    (hnum : p.num = s.out.submitted.length) {q : Place}
    (hq : (places ⟨s.out.submit p answer, del, los⟩ q).Perm (s.places q ++ [p.num]))
    (hrest : ∀ r, r ≠ q → places ⟨s.out.submit p answer, del, los⟩ r = s.places r) :
    Inv ⟨s.out.submit p answer, del, los⟩ := by
  have hsound := hi.sound.submit answer hnum
  refine ⟨hsound, ?_⟩
  have hfresh : p.num ∉ s.made := by
    unfold made
    rw [hi.sound.nums, List.mem_range, hnum]
    exact lt_irrefl _
  have hmade : made ⟨s.out.submit p answer, del, los⟩ = s.made ++ [p.num] := by
    have hsub : (s.out.submit p answer).submitted = s.out.submitted ++ [p] := by
      unfold Outgoing.submit Outgoing.enqueue
      cases answer <;> cases p.via <;> rfl
    unfold made
    rw [hsub, List.map_append, List.map_singleton]
  rw [hmade]
  exact hi.placed.add hfresh hq hrest

theorem Inv.submit (hi : Inv s) {p : Packet} {answer : SendResult}
    (hnum : p.num = s.out.submitted.length)
    (ha : a = .send p.client p.pkg answer ∧ p.via = .send ∧ s.out.cmd = .idle ∨
      a = .ack p.client p.pkg answer ∧ p.via = .ack ∧ s.out.gps = .idle) :
    Inv ⟨s.out.submit p answer, s.deleted ++ s.out.deletes a, s.lost ++ s.out.loses a⟩ := by
  have hdel : s.out.deletes a = if Sends answer then [p.num] else [] := by
    rw [hnum]
    rcases ha with ⟨rfl, -, -⟩ | ⟨rfl, -, -⟩ <;> rfl
  have hlos : s.out.loses a = if answer = .error then [p.num] else [] := by
    rw [hnum]
    rcases ha with ⟨rfl, -, -⟩ | ⟨rfl, -, -⟩ <;> rfl
  rw [hdel, hlos]
  cases answer with
  | all | part n =>
    refine hi.make _ hnum (q := .deleted) (List.Perm.refl _) fun r hr => ?_
    cases r with
    | sendQueue | pending => rfl
    | deleted => exact absurd rfl hr
    | lost => exact List.append_nil _
  | error =>
    refine hi.make _ hnum (q := .lost) (List.Perm.refl _) fun r hr => ?_
    cases r with
    | sendQueue | pending => rfl
    | deleted => exact List.append_nil _
    | lost => exact absurd rfl hr
  | wouldBlock =>
    have hnil : (if Sends .wouldBlock then [p.num] else []) = [] := rfl
    rw [hnil, if_neg (by decide), List.append_nil, List.append_nil]
    cases hvia : p.via with
    | send =>
      have hout : s.out.submit p .wouldBlock = { s.out with
          submitted := s.out.submitted ++ [p]
          sendQueue := Function.update s.out.sendQueue p.client
            (s.out.sendQueue p.client ++ [p]) } := by
        unfold Outgoing.submit Outgoing.enqueue
        rw [hvia]
      refine hi.make _ hnum (q := .sendQueue p.client) ?_ fun r hr => ?_
      · rw [hout]
        show ((Function.update s.out.sendQueue p.client _ p.client).map Packet.num).Perm _
        rw [Function.update_self, List.map_append]
        rfl
      · rw [hout]
        cases r with
        | sendQueue k =>
          have hk : k ≠ p.client := fun hk => hr (hk ▸ rfl)
          show (Function.update s.out.sendQueue p.client _ k).map Packet.num = _
          rw [Function.update_of_ne hk]
          rfl
        | pending | deleted | lost => rfl
    | ack =>
      have hout : s.out.submit p .wouldBlock = { s.out with
          submitted := s.out.submitted ++ [p]
          pendingCmdQueue := s.out.pendingCmdQueue ++ [p] } := by
        unfold Outgoing.submit Outgoing.enqueue
        rw [hvia]
      refine hi.make _ hnum (q := .pending) ?_ fun r hr => ?_
      · rw [hout]
        show ((s.out.pendingCmdQueue ++ [p]).map Packet.num).Perm _
        rw [List.map_append]
        rfl
      · rw [hout]
        cases r with
        | sendQueue | deleted | lost => rfl
        | pending => exact absurd rfl hr

theorem Inv.pop (hi : Inv s) {p : Packet} {rest : List Packet} (n : ℕ)
    (hsound : ((s.out.take p n).pop client rest).Sound)
    (hq : s.out.sendQueue client = p :: rest) :
    Inv ⟨(s.out.take p n).pop client rest, s.deleted ++ [p.num], s.lost⟩ := by
  refine hi.transfer (p := .sendQueue client) (q := .deleted) hsound rfl [p.num] ?_
  refine ⟨nofun, ?_, List.Perm.refl _, fun r hp hd => ?_⟩
  · show ((s.out.sendQueue client).map Packet.num).Perm
      ([p.num] ++ (Function.update s.out.sendQueue client rest client).map Packet.num)
    rw [Function.update_self, hq]
    rfl
  · cases r with
    | sendQueue k =>
      have hk : k ≠ client := fun hk => hp (hk ▸ rfl)
      show (Function.update s.out.sendQueue client rest k).map Packet.num = _
      rw [Function.update_of_ne hk]
      rfl
    | pending | lost => rfl
    | deleted => exact absurd rfl hd

/-- A pending command has been sent: its `PendingCmd` is deleted, and its package lost. -/
theorem Inv.erase (hi : Inv s) {i : ℕ} {p : Packet} (n : ℕ)
    (hsound : ((s.out.take p n).erase i).Sound)
    (hp : s.out.pendingCmdQueue[i]? = some p) :
    Inv ⟨(s.out.take p n).erase i, s.deleted, s.lost ++ [p.num]⟩ := by
  refine hi.transfer (p := .pending) (q := .lost) hsound rfl [p.num] ?_
  refine ⟨nofun, ?_, List.Perm.refl _, fun r hr hl => ?_⟩
  · show (s.out.pendingCmdQueue.map Packet.num).Perm
      ([p.num] ++ (s.out.pendingCmdQueue.eraseIdx i).map Packet.num)
    have hsplit := s.out.pending_split hp
    rw [List.eraseIdx_eq_take_drop_succ]
    conv_lhs => rw [hsplit]
    rw [List.map_append, List.map_append, List.map_cons]
    exact List.perm_middle
  · cases r with
    | sendQueue | deleted => rfl
    | pending => exact absurd rfl hr
    | lost => exact absurd rfl hl

theorem Inv.close (hi : Inv s) (client : SocketRef) :
    Inv { s with
      out := { s.out with sendQueue := Function.update s.out.sendQueue client [] }
      lost := s.lost ++ (s.out.sendQueue client).map Packet.num } := by
  have hsound : Outgoing.Sound
      { s.out with sendQueue := Function.update s.out.sendQueue client [] } := by
    refine ⟨hi.sound.nums, fun k p hp => ?_, hi.sound.pending⟩
    change p ∈ Function.update s.out.sendQueue client [] k at hp
    by_cases hk : k = client
    · subst hk
      rw [Function.update_self] at hp
      exact absurd hp List.not_mem_nil
    · rw [Function.update_of_ne hk] at hp
      exact hi.sound.sendQueue k p hp
  refine hi.transfer (p := .sendQueue client) (q := .lost) hsound rfl
    ((s.out.sendQueue client).map Packet.num) ?_
  refine ⟨nofun, ?_, List.Perm.refl _, fun r hp hl => ?_⟩
  · show ((s.out.sendQueue client).map Packet.num).Perm ((s.out.sendQueue client).map Packet.num ++
      (Function.update s.out.sendQueue client [] client).map Packet.num)
    rw [Function.update_self, List.map_nil, List.append_nil]
  · cases r with
    | sendQueue k =>
      have hk : k ≠ client := fun hk => hp (hk ▸ rfl)
      show (Function.update s.out.sendQueue client [] k).map Packet.num = _
      rw [Function.update_of_ne hk]
      rfl
    | pending | deleted => rfl
    | lost => exact absurd rfl hl

theorem Inv.out (hi : Inv s) (hs : s.out.step a = some o') :
    Inv ⟨o', s.deleted ++ s.out.deletes a, s.lost ++ s.out.loses a⟩ := by
  have hsound := hi.sound.step hs
  -- the action neither deletes a package nor loses one
  have hnone (hdel : s.out.deletes a = []) (hlos : s.out.loses a = [])
      (hmade : o'.submitted = s.out.submitted) (hqueue : o'.sendQueue = s.out.sendQueue)
      (hpending : o'.pendingCmdQueue = s.out.pendingCmdQueue) :
      Inv ⟨o', s.deleted ++ s.out.deletes a, s.lost ++ s.out.loses a⟩ := by
    rw [hdel, hlos, List.append_nil, List.append_nil]
    exact hi.stay hsound hmade hqueue hpending
  cases (Outgoing.step_moved hs).2 with
  | submit p a answer hnum ha => exact hi.submit hnum ha
  | pop client p rest n answer hpc hq hn =>
    have hsends : Sends answer = true := by
      rcases hn with ⟨rfl, -⟩ | rfl <;> rfl
    have hdel : s.out.deletes (.drain answer) = [p.num] := by
      simp [Outgoing.deletes, hpc, hq, hsends]
    have hlos : s.out.loses (.drain answer) = [] := rfl
    rw [hdel, hlos, List.append_nil]
    exact hi.pop n hsound hq
  | erase i p n answer hpc hp hn =>
    have hsends : Sends answer = true := by
      rcases hn with ⟨rfl, -⟩ | rfl <;> rfl
    have hdel : s.out.deletes (.flush answer) = [] := rfl
    have hlos : s.out.loses (.flush answer) = [p.num] := by
      simp [Outgoing.loses, hpc, hp, hsends]
    rw [hdel, hlos, List.append_nil]
    exact hi.erase n hsound hp
  | cmd a pc ha =>
    rcases ha with ⟨client, rfl, -, -⟩ | ⟨answer, client, rfl, hpc, -, hq⟩
    · exact hnone rfl rfl rfl rfl rfl
    · refine hnone ?_ rfl rfl rfl rfl
      rcases hq with hq | rfl
      · simp [Outgoing.deletes, hpc, hq]
      · simp [Outgoing.deletes, hpc, Sends]
  | gps a pc ha =>
    rcases ha with rfl | ⟨answer, rfl, hblock⟩
    · exact hnone rfl rfl rfl rfl rfl
    · refine hnone rfl ?_ rfl rfl rfl
      cases hpc : s.out.gps with
      | idle => simp [Outgoing.loses, hpc]
      | flush i =>
        cases hp : s.out.pendingCmdQueue[i]? with
        | none => simp [Outgoing.loses, hpc, hp]
        | some p =>
          rw [hblock i p hpc hp]
          simp [Outgoing.loses, hpc, Sends]
  | fail a ha =>
    rcases ha with rfl | rfl
    · refine hnone ?_ rfl rfl rfl rfl
      cases hpc : s.out.cmd <;> simp [Outgoing.deletes, hpc, Sends]
    · refine hnone rfl ?_ rfl rfl rfl
      cases hpc : s.out.gps <;> simp [Outgoing.loses, hpc, Sends]

theorem Inv.step {b : HeapAction} (hs : s.step b = some s') (hi : Inv s) : Inv s' := by
  cases b with
  | out a =>
    obtain ⟨o', ho, rfl⟩ := Option.map_eq_some_iff.mp hs
    exact hi.out ho
  | close client =>
    simp only [Heap.step, Option.ite_none_left_eq_some, Option.some.injEq] at hs
    obtain ⟨-, rfl⟩ := hs
    exact hi.close client

theorem Inv.boot : Inv boot := by
  refine ⟨.boot, ?_⟩
  have hempty : Heap.boot.places = fun _ => [] := by
    funext q
    cases q <;> rfl
  rw [hempty]
  exact .empty

/-- No first `Send` of a package fails, no pending command is sent, and no session is closed that
has packages to send. -/
def Tracked (s : Heap) : HeapAction → Prop
  | .out (.send _ _ answer) => answer ≠ .error
  | .out (.ack _ _ answer) => answer ≠ .error
  | .out (.flush answer) => ∀ i p, s.out.gps = .flush i → s.out.pendingCmdQueue[i]? = some p →
      Sends answer = false
  | .out (.drain _) => True
  | .out (.writable _) => True
  | .out .sendPending => True
  | .close client => s.out.sendQueue client = []

theorem loses_eq_nil {o : Outgoing} {d l : List ℕ} :
    o.loses a = [] ↔ Tracked ⟨o, d, l⟩ (.out a) := by
  cases a with
  | send | ack =>
    simp only [Outgoing.loses, Tracked, ite_eq_right_iff, List.cons_ne_nil, ne_eq, imp_false]
  | drain | writable | sendPending => exact iff_of_true rfl trivial
  | flush answer =>
    cases hpc : o.gps with
    | idle =>
      refine iff_of_true (by simp [Outgoing.loses, hpc]) fun i p hi => ?_
      cases hpc.symm.trans hi
    | flush i =>
      cases hp : o.pendingCmdQueue[i]? with
      | none =>
        refine iff_of_true (by simp [Outgoing.loses, hpc, hp]) fun j p hj hjp => ?_
        cases hpc.symm.trans hj
        cases hp.symm.trans hjp
      | some p =>
        have hlos : o.loses (.flush answer) = [] ↔ Sends answer = false := by
          cases answer <;> simp [Outgoing.loses, hpc, hp, Sends]
        rw [hlos]
        constructor
        · exact fun hsends _ _ _ _ => hsends
        · exact fun h => h i p hpc hp

theorem lost_step {b : HeapAction} (hs : s.step b = some s') :
    s'.lost = [] ↔ s.lost = [] ∧ Tracked s b := by
  cases b with
  | out a =>
    obtain ⟨o', -, rfl⟩ := Option.map_eq_some_iff.mp hs
    rw [List.append_eq_nil_iff, loses_eq_nil]
  | close client =>
    simp only [Heap.step, Option.ite_none_left_eq_some, Option.some.injEq] at hs
    obtain ⟨-, rfl⟩ := hs
    rw [List.append_eq_nil_iff, List.map_eq_nil_iff]
    rfl

theorem lost_run (bs : List HeapAction) : ∀ {s s' : Heap}, run step s bs = some s' →
    (s'.lost = [] ↔ s.lost = [] ∧ Guarded step Tracked s bs) := by
  induction bs with
  | nil =>
    intro s s' hr
    cases hr
    exact (and_iff_left trivial).symm
  | cons b bs ih =>
    intro s s' hr
    obtain ⟨s1, hs, hr⟩ := run_cons.mp hr
    rw [ih hr, lost_step hs, and_assoc]
    refine and_congr_right fun _ => ?_
    constructor
    · rintro ⟨ht, hg⟩ x hx
      cases hs.symm.trans hx
      exact ⟨ht, hg⟩
    · exact fun hg => hg s1 hs

end Steps

/-- In every run each package that was made is in one `send_queue`, in the pending queue, deleted
or lost, at one of these places and once: none is deleted twice, and none that is still to be
sent has been deleted. No package is lost exactly if no first `Send` fails, no acknowledgement is
sent that was put off, and no session is closed with packages to send. -/
theorem packages_deleted_once {bs : List HeapAction} {s : Heap}
    (hr : run step boot bs = some s) :
    Placed s.made s.places ∧ (s.lost = [] ↔ Guarded step Tracked boot bs) := by
  have hi : Inv s := run_of_inv (fun _ _ _ hs hi => hi.step hs) hr .boot
  have hlost := lost_run bs hr
  rw [and_iff_right (show boot.lost = [] from rfl)] at hlost
  exact ⟨hi.placed, hlost⟩

/-- A queued package is sent when the socket is writable; an acknowledgement that was put off is
sent after a timeout. -/
def leaking : List HeapAction :=
  [.out (.send 0 default .wouldBlock), .out (.writable 0), .out (.drain .all),
    .out (.drain .all), .out (.ack 0 default .wouldBlock), .out .sendPending, .out (.flush .all)]

theorem packages_deleted_once_leaking : ∃ s, run step boot leaking = some s ∧ s.deleted = [0] ∧
    s.lost = [1] ∧ Placed s.made s.places ∧ (s.lost = [] ↔ Guarded step Tracked boot leaking) :=
  ⟨_, rfl, rfl, rfl, packages_deleted_once rfl⟩

end Heap
end Gpshub.Delivery
