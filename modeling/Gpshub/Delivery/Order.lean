import Gpshub.Delivery.Conservation

/-! When the packages for a client keep their order: a package must not be taken while an
earlier one waits. -/
namespace Gpshub.Delivery
open Lib Lib.Machine

namespace Outgoing

/-- Of two packages for a client that went through the same function, the socket takes the
one first that was submitted first. -/
def InOrder (o : Outgoing) : Prop :=
  ∀ p q, [p, q].Sublist o.submitted → p.client = q.client → p.via = q.via →
    q ∈ o.taken.map Prod.fst → [p, q].Sublist (o.taken.map Prod.fst)

/-- What the socket takes in this step had no earlier package of its function waiting. -/
def InTurn (o : Outgoing) : Action → Prop
  | .send client _ .all => o.sendQueue client = []
  | .ack client _ .all => ∀ p ∈ o.pendingCmdQueue, p.client ≠ client
  | .flush .all =>
    match o.gps with
    | .flush i => ∀ p ∈ o.pendingCmdQueue[i]?, ∀ q ∈ o.pendingCmdQueue.take i, q.client ≠ p.client
    | .idle => True
  | _ => True

instance (o : Outgoing) (a : Action) : Decidable (o.InTurn a) := by
  unfold InTurn
  split
  · infer_instance
  · infer_instance
  · split <;> infer_instance
  · infer_instance

section Ordered

variable {o o' : Outgoing} {a : Action}

theorem inOrder_iff : o.InOrder ↔ ∀ client via, (o.channel client via).Ordered := by
  constructor
  · intro ho client via p q hpq hq
    have hfor (x : Packet) (hx : x ∈ [p, q]) : isFor client via x = true :=
      List.of_mem_filter (hpq.subset hx)
    obtain ⟨hpc, hpv⟩ := isFor_iff.mp (hfor p List.mem_cons_self)
    obtain ⟨hqc, hqv⟩ := isFor_iff.mp (hfor q (List.mem_cons_of_mem p List.mem_cons_self))
    have htaken := ho p q (hpq.trans List.filter_sublist) (hpc.trans hqc.symm)
      (hpv.trans hqv.symm) (List.mem_of_mem_filter hq)
    have hsame : [p, q].filter (isFor client via) = [p, q] := List.filter_eq_self.mpr hfor
    rw [← hsame]
    exact htaken.filter _
  · intro hc p q hpq hclient hvia hq
    have hp : isFor q.client q.via p = true := isFor_iff.mpr ⟨hclient, hvia⟩
    have hsame : [p, q].filter (isFor q.client q.via) = [p, q] := by
      rw [List.filter_cons_of_pos hp, List.filter_cons_of_pos (isFor_self q), List.filter_nil]
    have hsub := hpq.filter (isFor q.client q.via)
    rw [hsame] at hsub
    have htaken := hc q.client q.via p q hsub (List.mem_filter.mpr ⟨hq, isFor_self q⟩)
    exact htaken.trans List.filter_sublist

/-- All that was taken was taken in the order of submission. -/
def Fifo (o : Outgoing) : Prop := ∀ client via, (o.channel client via).Fifo

theorem nodup_channel (hs : Sound o) (client : SocketRef) (via : Via) :
    (o.channel client via).submitted.Nodup :=
  hs.nodup.filter _

theorem Fifo.inOrder (hs : Sound o) (hf : Fifo o) : o.InOrder :=
  inOrder_iff.mpr fun client via => (hf client via).ordered (nodup_channel hs client via)

/-- A step that leaves all channels but one alone keeps the order if it does so there. -/
theorem Fifo.of_one (hf : Fifo o) {client : SocketRef} {via : Via}
    (hother : ∀ k v, ¬(k = client ∧ v = via) → o'.channel k v = o.channel k v)
    (hself : (o'.channel client via).Fifo) : Fifo o' := by
  intro k v
  by_cases hk : k = client ∧ v = via
  · rw [hk.1, hk.2]
    exact hself
  · rw [hother k v hk]
    exact hf k v

theorem pending_eq_nil (hs : Sound o) (client : SocketRef) :
    (o.channel client .ack).queue = [] ↔ ∀ p ∈ o.pendingCmdQueue, p.client ≠ client := by
  change o.pendingCmdQueue.filter (isFor client .ack) = [] ↔ _
  rw [List.filter_eq_nil_iff]
  refine forall₂_congr fun p hp => ?_
  simp [isFor, hs.pending p hp]

theorem before_eq_nil (hs : Sound o) (i : ℕ) (client : SocketRef) :
    o.before i client = [] ↔ ∀ q ∈ o.pendingCmdQueue.take i, q.client ≠ client := by
  unfold before
  rw [List.filter_eq_nil_iff]
  refine forall₂_congr fun p hp => ?_
  simp [isFor, hs.pending p (List.mem_of_mem_take hp)]

theorem channel_submit_others {p : Packet} {answer : SendResult}
    (hw : answer = .all ∨ answer = .wouldBlock) (k : SocketRef) (v : Via)
    (hk : ¬(k = p.client ∧ v = p.via)) : (o.submit p answer).channel k v = o.channel k v := by
  apply o.channel_submit_other hw
  apply Bool.eq_false_of_not_eq_true
  intro hp
  obtain ⟨hclient, hvia⟩ := isFor_iff.mp hp
  exact hk ⟨hclient.symm, hvia.symm⟩

/-- A package that is taken at once is taken in turn if and only if nothing waits. -/
theorem submit_turn {p : Packet} (hs' : Sound (o.submit p .all)) (hf : Fifo o) :
    ((o.channel p.client p.via).queue = [] → Fifo (o.submit p .all)) ∧
      ((o.submit p .all).InOrder → (o.channel p.client p.via).queue = []) := by
  constructor
  · intro hq
    apply hf.of_one (channel_submit_others (Or.inl rfl))
    rw [channel_submit_all]
    exact (hf p.client p.via).direct hq
  · intro ho
    have hordered := inOrder_iff.mp ho p.client p.via
    have hn := nodup_channel hs' p.client p.via
    rw [channel_submit_all] at hordered hn
    by_contra hq
    obtain ⟨x, hx⟩ := List.exists_mem_of_ne_nil _ hq
    exact (hf p.client p.via).not_ordered_direct hn hx hordered

theorem erase_turn {i : ℕ} {p : Packet} (n : ℕ) (hs : Sound o) (hf : Fifo o)
    (hp : o.pendingCmdQueue[i]? = some p) :
    (o.before i p.client = [] → Fifo ((o.take p n).erase i)) ∧
      (((o.take p n).erase i).InOrder → o.before i p.client = []) := by
  have hvia : p.via = .ack := hs.pending p (List.mem_of_getElem? hp)
  have hq := o.queued_split hp hvia
  constructor
  · intro hb
    apply hf.of_one fun k v => o.channel_erase_other n hp hvia
    rw [hb] at hq
    rw [o.channel_erase i n hvia, hb]
    exact (hf p.client .ack).dequeue_head hq
  · intro ho
    have hordered := inOrder_iff.mp ho p.client .ack
    rw [o.channel_erase i n hvia] at hordered
    by_contra hb
    obtain ⟨x, hx⟩ := List.exists_mem_of_ne_nil _ hb
    exact (hf p.client .ack).not_ordered_dequeue (nodup_channel hs p.client .ack) hq hx hordered

theorem turn_step (hs : step o a = some o') (hw : a.Whole) (hsound : Sound o) (hf : Fifo o) :
    (InTurn o a → Fifo o') ∧ (o'.InOrder → InTurn o a) := by
  have hsound' := hsound.step hs
  cases (step_moved hs).2 with
  | submit p a answer hnum ha =>
    have hanswer : answer = .all ∨ answer = .wouldBlock := hw.answer ha
    rcases hanswer with rfl | rfl
    · have hturn := submit_turn hsound' hf
      rcases ha with ⟨rfl, hvia, -⟩ | ⟨rfl, hvia, -⟩
      · rw [hvia] at hturn
        exact hturn
      · rw [hvia, pending_eq_nil hsound] at hturn
        exact hturn
    · refine ⟨fun _ => hf.of_one (channel_submit_others (Or.inr rfl)) ?_, fun _ => ?_⟩
      · rw [channel_submit_wouldBlock]
        exact (hf p.client p.via).enqueue
      · rcases ha with ⟨rfl, -, -⟩ | ⟨rfl, -, -⟩ <;> trivial
  | pop client p rest n answer hpc hq hn =>
    have hp : isFor client .send p = true := hsound.sendQueue client p (hq ▸ List.mem_cons_self)
    refine ⟨fun _ => hf.of_one (fun k v => o.channel_pop_other n hp) ?_, fun _ => trivial⟩
    rw [o.channel_pop n hp]
    exact (hf client .send).dequeue_head hq
  | erase i p n answer hpc hp hn =>
    have hturn := erase_turn n hsound hf hp
    rw [before_eq_nil hsound] at hturn
    have hall : answer = .all := by
      rcases hn with ⟨hall, -⟩ | rfl
      · exact hall
      · rcases hw with hw | hw <;> cases hw
    subst hall
    simpa [InTurn, hpc, hp] using hturn
  | cmd a pc ha =>
    refine ⟨fun _ => hf, fun _ => ?_⟩
    rcases ha with ⟨client, rfl, -, -⟩ | ⟨answer, client, rfl, -, -, -⟩ <;> trivial
  | gps a pc ha =>
    refine ⟨fun _ => hf, fun _ => ?_⟩
    rcases ha with rfl | ⟨answer, rfl, hblocked⟩
    · trivial
    · rcases hw with rfl | rfl
      · cases hpc : o.gps with
        | idle => simp [InTurn, hpc]
        | flush i =>
          simp only [InTurn, hpc]
          intro p hp
          cases hblocked i p hpc hp
      · trivial
  | fail a ha => rcases ha with rfl | rfl <;> rcases hw with h | h <;> cases h

end Ordered

/-- The packages for a client keep their order in a run if and only if none is taken while an
earlier one waits. -/
theorem packets_in_order_iff {as : List Action} (hw : ∀ a ∈ as, a.Whole) :
    Always step InOrder boot as ↔ Guarded step InTurn boot as := by
  have hboot : Fifo boot := fun client via => by cases via <;> rfl
  exact @always_iff_guarded _ _ step Sound Fifo InOrder InTurn Action.Whole
    (fun _ _ _ hs hsound => hsound.step hs) (fun _ hsound hf => hf.inOrder hsound)
    (fun _ _ _ hs hw hsound hf => turn_step hs hw hsound hf) boot as hw .boot hboot

theorem packets_in_order_two : Always step InOrder boot (twoClients ++ drains) :=
  (@packets_in_order_iff (twoClients ++ drains) (by decide)).mpr (by decide)

/-- The socket of a client is full when the first package is sent, and has room again when the
second one is sent, before `EPOLLOUT` has been handled. -/
def overtakes : List Action := [.send 0 (pkgOf 1) .wouldBlock, .send 0 (pkgOf 2) .all]

theorem packets_in_order_counterexample : (∀ a ∈ overtakes, a.Whole) ∧
    ¬Always step InOrder boot overtakes := by
  refine ⟨by decide, fun h => ?_⟩
  have hlast : ∃ o, run step boot overtakes = some o ∧
      [⟨0, 0, .send, pkgOf 1⟩, ⟨1, 0, .send, pkgOf 2⟩] = o.submitted ∧
      o.taken.map Prod.fst = [⟨1, 0, .send, pkgOf 2⟩] := ⟨_, rfl, rfl, rfl⟩
  obtain ⟨o, hr, hsub, htaken⟩ := hlast
  have ho := h.last hr ⟨0, 0, .send, pkgOf 1⟩ ⟨1, 0, .send, pkgOf 2⟩ (hsub ▸ .refl _) rfl rfl
    (htaken ▸ List.mem_singleton.mpr rfl)
  rw [htaken] at ho
  exact absurd ho.length_le (by decide)

end Outgoing
end Gpshub.Delivery
