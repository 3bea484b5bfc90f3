import Gpshub.Threads.Handover

/-! What the mailboxes say about the positions that are broadcast: the order, the queue, and
what is left when all threads wait. -/
namespace Gpshub.Threads
open Lib.Machine Lib.Handover

variable {n : ℕ} {s : System n} {as : List (Action n)} {i : Int32} {r : UserRef}

private theorem map_ofFields (l : List Coordinates) : (l.map fields).map ofFields = l := by
  rw [List.map_map]
  exact List.map_id l

private theorem published_view (usr : User) : (published (view i r usr s)).map ofFields =
    ((accepts r s.hist).filter (·.2)).map (·.1) := by
  simp only [published, view, List.filter_map, List.map_map]
  rfl

/-- What `run` passes to `broadcast` for a registered user are positions that were accepted
for it, each whole, in the same order and none of them twice. -/
theorem broadcasts_sublist (hr : run System.step (System.boot n) as = some s)
    (hg : Guarded System.step (HandsOutClean i) (System.boot n) as)
    (hreg : s.hub.idUmap.map i = some (some r)) :
    (broadcasts r s.hist).Sublist ((accepts r s.hist).map (·.1)) := by
  obtain ⟨usr, -, hinv⟩ := System.mailbox_of_run hr hg hreg
  have hsub := (hinv.sent_prefix.sublist.trans (published_sublist _)).map ofFields
  change (((broadcasts r s.hist).map fields).map ofFields).Sublist
    ((((accepts r s.hist).map _).map _).map ofFields) at hsub
  rw [map_ofFields, List.map_map, List.map_map] at hsub
  exact hsub

/-- One of two threads broadcasts a position; the other waits. -/
def served : List (Action 2) :=
  login ++ position default 5 6 :: List.replicate 10 (.gps default) ++
    List.replicate 11 (.thread 0 default) ++ [.thread 1 default]

theorem broadcasts_sublist_served : ∃ s, run System.step (System.boot 2) served = some s ∧
    broadcasts 0 s.hist = [⟨5, 6, 0⟩] ∧
    (broadcasts 0 s.hist).Sublist ((accepts 0 s.hist).map (·.1)) :=
  ⟨_, rfl, by decide, @broadcasts_sublist 2 _ served 1 0 rfl (by decide) (by decide)⟩

/-- The thread has pulled the id and has not yet set `ready` to `NULL`. -/
def ThreadPc.pulled (i : Int32) (r : UserRef) : ThreadPc → Bool
  | .lookup id => id = i
  | .turn _ u _ => u = r
  | _ => false

/-- The GPS thread is between `setReady` and `put`. -/
def GpsPc.queueing (i : Int32) (r : UserRef) : GpsPc → Bool
  | .coord _ _ _ u .swap => u = r
  | .put id => id = i
  | _ => false

private theorem held_consumer (pc : ThreadPc) :
    (pc.consumer i r).held = if pc.pulled i r then 1 else 0 := by
  cases pc with
  | lookup id => by_cases hid : id = i <;> simp [ThreadPc.consumer, ThreadPc.pulled, hid, Consumer.held]
  | turn id u tpc =>
    by_cases hu : u = r
    · cases tpc <;> simp [ThreadPc.consumer, ThreadPc.pulled, hu, TurnPc.consumer, Consumer.held]
    · simp [ThreadPc.consumer, ThreadPc.pulled, hu, Consumer.held]
  | test | pull | exited => rfl

private theorem held_producer (pc : GpsPc) :
    (pc.producer i r).held = (pc.queueing i r).toNat := by
  cases pc with
  | coord a id c u cpc =>
    by_cases hu : u = r
    · cases cpc <;>
        simp [GpsPc.producer, GpsPc.queueing, hu, CoordPc.producer, Producer.held]
    · cases cpc <;> simp [GpsPc.producer, GpsPc.queueing, hu, Producer.held]
  | put id => by_cases hid : id = i <;> simp [GpsPc.producer, GpsPc.queueing, hid, Producer.held]
  | idle | getCoord | getInit | init | flush => rfl

/-- The id of a registered user is on its way once while `ready` is set, and not at all
otherwise; so no thread finds `ready` to be `NULL`. -/
theorem queued_once (hr : run System.step (System.boot n) as = some s)
    (hg : Guarded System.step (HandsOutClean i) (System.boot n) as)
    (hreg : s.hub.idUmap.map i = some (some r)) :
    ∃ usr, s.hub.users r = some usr ∧
      s.hub.uqueue.count i + (Finset.univ.filter fun j => (s.threads j).pc.pulled i r).card +
        (s.gps.queueing i r).toNat = (if usr.ready = none then 0 else 1) ∧
      ∀ j id, (s.threads j).pc = .turn id r .load → usr.ready ≠ none := by
  obtain ⟨usr, hu, hinv⟩ := System.mailbox_of_run hr hg hreg
  refine ⟨usr, hu, ?_, fun j id hj => ?_⟩
  · have hc := hinv.count
    have hholders : holders (view i r usr s) =
        (Finset.univ.filter fun j => (s.threads j).pc.pulled i r).card := by
      rw [Finset.card_filter]
      exact Finset.sum_congr rfl fun j _ => held_consumer _
    rw [hholders, show (view i r usr s).producer.held = _ from held_producer s.gps] at hc
    simpa [view] using hc
  · have haway : (view i r usr s).consumer j ≠ .away := by
      change (s.threads j).pc.consumer i r ≠ .away
      rw [hj, ThreadPc.consumer, if_pos rfl]
      intro he
      cases he
    simpa [view] using hinv.ready_of_held haway

/-- The same run up to the point where the id is on the queue. -/
def queued : List (Action 2) := login ++ position default 5 6 :: List.replicate 9 (.gps default)

theorem queued_once_queued : ∃ s, run System.step (System.boot 2) queued = some s ∧
    s.hub.uqueue = [1] ∧
    ∃ usr, s.hub.users 0 = some usr ∧
      s.hub.uqueue.count 1 + (Finset.univ.filter fun j => (s.threads j).pc.pulled 1 0).card +
        (s.gps.queueing 1 0).toNat = (if usr.ready = none then 0 else 1) ∧
      ∀ j id, (s.threads j).pc = .turn id 0 .load → usr.ready ≠ none :=
  ⟨_, rfl, by decide, @queued_once 2 _ queued 1 0 rfl (by decide) (by decide)⟩

/-- The GPS thread waits for input, the queue is empty and every broadcast thread waits in
`pull`. -/
def Quiescent (s : System n) : Prop :=
  s.gps = .idle ∧ s.hub.uqueue = [] ∧ ∀ j, (s.threads j).pc = .pull

instance (s : System n) : Decidable (Quiescent s) := inferInstanceAs (Decidable (_ ∧ _ ∧ _))

theorem System.broadcasts_of_still {usr : User} (hinv : Inv (view i r usr s)) (hq : Quiescent s) :
    broadcasts r s.hist = ((accepts r s.hist).filter (·.2)).map (·.1) := by
  obtain ⟨hgps, hqueue, hpull⟩ := hq
  have hproducer : (view i r usr s).producer.held = 0 := by
    simp [view, hgps, GpsPc.producer, Producer.held]
  have hsent := hinv.sent_all (by simp [view, hqueue]) hproducer
    (fun j => by simp [view, hpull j, ThreadPc.consumer])
  have hfields := congrArg (List.map ofFields) hsent
  rw [published_view] at hfields
  exact (map_ofFields _).symm.trans hfields

/-- When all threads wait, exactly the positions that found `ready` to be `NULL` have been
broadcast; a position that came while an earlier one was on its way was only stored. -/
theorem broadcasts_quiescent (hr : run System.step (System.boot n) as = some s)
    (hg : Guarded System.step (HandsOutClean i) (System.boot n) as)
    (hreg : s.hub.idUmap.map i = some (some r)) (hq : Quiescent s) :
    broadcasts r s.hist = ((accepts r s.hist).filter (·.2)).map (·.1) ∧
      ∀ c, (accepts r s.hist).getLast? = some (c, true) →
        (broadcasts r s.hist).getLast? = some c := by
  obtain ⟨usr, -, hinv⟩ := System.mailbox_of_run hr hg hreg
  have hall := System.broadcasts_of_still hinv hq
  refine ⟨hall, fun c hc => ?_⟩
  obtain ⟨before, hbefore⟩ := List.getLast?_eq_some_iff.mp hc
  rw [hall, hbefore]
  simp

theorem broadcasts_quiescent_served : ∃ s, run System.step (System.boot 2) served = some s ∧
    Quiescent s ∧ (broadcasts 0 s.hist).getLast? = some ⟨5, 6, 0⟩ :=
  ⟨_, rfl, by decide,
    (@broadcasts_quiescent 2 _ served 1 0 rfl (by decide) (by decide) (by decide)).2
      ⟨5, 6, 0⟩ (by decide)⟩

/-- The second position comes while the id of the first is on the queue. -/
def overtaken : List (Action 2) :=
  queued ++ .gps default :: position default 7 8 :: List.replicate 7 (.gps default) ++
    List.replicate 11 (.thread 0 default) ++ [.thread 1 default]

/-- All threads wait, and the last accepted position has not been broadcast. -/
theorem broadcasts_quiescent_counterexample :
    ¬∀ (n : ℕ) (as : List (Action n)) (s : System n) (i : Int32) (r : UserRef),
      run System.step (System.boot n) as = some s →
      Guarded System.step (HandsOutClean i) (System.boot n) as →
      s.hub.idUmap.map i = some (some r) → Quiescent s →
      (broadcasts r s.hist).getLast? = ((accepts r s.hist).map (·.1)).getLast? := by
  intro hall
  obtain ⟨s, hr, hreg, hq, hlast⟩ : ∃ s, run System.step (System.boot 2) overtaken = some s ∧
      s.hub.idUmap.map 1 = some (some 0) ∧ Quiescent s ∧
      (broadcasts 0 s.hist).getLast? ≠ ((accepts 0 s.hist).map (·.1)).getLast? :=
    ⟨_, rfl, by decide, by decide, by decide⟩
  exact hlast (hall 2 overtaken s 1 0 hr (by decide) hreg hq)

end Gpshub.Threads
