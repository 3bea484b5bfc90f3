import Gpshub.Delivery.Machine
import Mathlib.Algebra.Order.Group.Multiset

/-! Every submitted package has been taken by its socket or waits in one of the two queues. -/
namespace Gpshub.Delivery
open Lib Lib.Machine

/-- The sends of the action take the whole package or would block. -/
def Action.Whole : Action → Prop
  | .send _ _ answer => answer = .all ∨ answer = .wouldBlock
  | .ack _ _ answer => answer = .all ∨ answer = .wouldBlock
  | .drain answer => answer = .all ∨ answer = .wouldBlock
  | .flush answer => answer = .all ∨ answer = .wouldBlock
  | .writable _ => True
  | .sendPending => True

theorem Action.Whole.answer {a : Action} {p : Packet} {o : Outgoing} {answer : SendResult}
    (hw : a.Whole) (ha : a = .send p.client p.pkg answer ∧ p.via = .send ∧ o.cmd = .idle ∨
      a = .ack p.client p.pkg answer ∧ p.via = .ack ∧ o.gps = .idle) :
    answer = .all ∨ answer = .wouldBlock := by
  rcases ha with ⟨rfl, -, -⟩ | ⟨rfl, -, -⟩ <;> exact hw

/-- The thread of the command server starts something new. -/
def Action.Begins : Action → Prop
  | .send _ _ _ => True
  | .writable _ => True
  | _ => False

instance (a : Action) : Decidable a.Whole := by
  unfold Action.Whole
  split <;> infer_instance

namespace Outgoing

/-- The packages for the client that went through the one or the other function. -/
def isFor (client : SocketRef) (via : Via) (p : Packet) : Bool := p.client = client ∧ p.via = via

def queued (o : Outgoing) (client : SocketRef) : Via → List Packet
  | .send => o.sendQueue client
  | .ack => o.pendingCmdQueue.filter (isFor client .ack)

def channel (o : Outgoing) (client : SocketRef) (via : Via) : Channel Packet where
  submitted := o.submitted.filter (isFor client via)
  queue := o.queued client via
  taken := (o.taken.map Prod.fst).filter (isFor client via)

section Channels

variable (o : Outgoing) {client : SocketRef} {via : Via} {p : Packet}

theorem isFor_iff : isFor client via p = true ↔ p.client = client ∧ p.via = via := by
  simp [isFor]

theorem isFor_self (p : Packet) : isFor p.client p.via p = true := isFor_iff.mpr ⟨rfl, rfl⟩

theorem channel_submit_all :
    (o.submit p .all).channel p.client p.via = (o.channel p.client p.via).direct p := by
  unfold channel Channel.direct submit take
  simp only [List.filter_append, List.map_append, List.map_cons, List.map_nil,
    List.filter_cons_of_pos (isFor_self p), List.filter_nil]
  cases p.via <;> rfl

theorem channel_submit_wouldBlock :
    (o.submit p .wouldBlock).channel p.client p.via = (o.channel p.client p.via).enqueue p := by
  have hself := isFor_self p
  unfold channel Channel.enqueue submit enqueue
  cases hvia : p.via with
  | send =>
    rw [hvia] at hself
    simp [queued, List.filter_append, hself]
  | ack =>
    rw [hvia] at hself
    simp [queued, List.filter_append, hself]

theorem channel_submit_other {answer : SendResult} (hw : answer = .all ∨ answer = .wouldBlock)
    (hp : isFor client via p = false) : (o.submit p answer).channel client via =
      o.channel client via := by
  have hne : p.via = via → client ≠ p.client := by
    rintro rfl rfl
    rw [isFor_self p] at hp
    cases hp
  rcases hw with rfl | rfl
  · cases via <;> simp [channel, submit, take, queued, List.filter_append, hp]
  · unfold submit enqueue
    cases hvia : p.via <;> cases via
    · have hclient := hne hvia
      simp [channel, queued, List.filter_append, hp, Function.update_of_ne hclient]
    · simp [channel, queued, List.filter_append, hp]
    · simp [channel, queued, List.filter_append, hp]
    · simp [channel, queued, List.filter_append, hp]

theorem channel_pop {rest : List Packet} (n : ℕ)
    (hp : isFor client .send p = true) : ((o.take p n).pop client rest).channel client .send =
      (o.channel client .send).dequeue [] p rest := by
  simp [channel, Channel.dequeue, take, pop, queued, List.filter_append, hp]

theorem channel_pop_other {rest : List Packet} (n : ℕ) {k : SocketRef} {v : Via}
    (hp : isFor client .send p = true) (hk : ¬(k = client ∧ v = .send)) :
    ((o.take p n).pop client rest).channel k v = o.channel k v := by
  obtain ⟨hclient, hvia⟩ := isFor_iff.mp hp
  have hother : isFor k v p = false := by
    apply Bool.eq_false_of_not_eq_true
    intro hp'
    obtain ⟨rfl, rfl⟩ := isFor_iff.mp hp'
    exact hk ⟨hclient, hvia⟩
  cases v with
  | send =>
    have hne : k ≠ client := fun h => hk ⟨h, rfl⟩
    simp [channel, take, pop, queued, List.filter_append, hother, Function.update_of_ne hne]
  | ack => simp [channel, take, pop, queued, List.filter_append, hother]

theorem pending_split {i : ℕ} (hp : o.pendingCmdQueue[i]? = some p) :
    o.pendingCmdQueue = o.pendingCmdQueue.take i ++ p :: o.pendingCmdQueue.drop (i + 1) := by
  obtain ⟨hi, rfl⟩ := List.getElem?_eq_some_iff.mp hp
  rw [← List.drop_eq_getElem_cons hi, List.take_append_drop]

/-- What waits in front of the `i`-th pending command, for the same client. -/
def before (o : Outgoing) (i : ℕ) (client : SocketRef) : List Packet :=
  (o.pendingCmdQueue.take i).filter (isFor client .ack)

def behind (o : Outgoing) (i : ℕ) (client : SocketRef) : List Packet :=
  (o.pendingCmdQueue.drop (i + 1)).filter (isFor client .ack)

theorem queued_split {i : ℕ} (hp : o.pendingCmdQueue[i]? = some p) (hvia : p.via = .ack) :
    (o.channel p.client .ack).queue = o.before i p.client ++ p :: o.behind i p.client := by
  have hself := isFor_self p
  rw [hvia] at hself
  change o.pendingCmdQueue.filter (isFor p.client .ack) = _
  conv_lhs => rw [o.pending_split hp]
  rw [List.filter_append, List.filter_cons_of_pos hself]
  rfl

theorem channel_erase (i n : ℕ) (hvia : p.via = .ack) : ((o.take p n).erase i).channel p.client .ack =
      (o.channel p.client .ack).dequeue (o.before i p.client) p (o.behind i p.client) := by
  have hself := isFor_self p
  rw [hvia] at hself
  simp [channel, Channel.dequeue, take, erase, queued, before, behind, List.filter_append, hself,
    List.eraseIdx_eq_take_drop_succ]

theorem channel_erase_other {i : ℕ} (n : ℕ) {k : SocketRef} {v : Via}
    (hp : o.pendingCmdQueue[i]? = some p) (hvia : p.via = .ack) (hk : ¬(k = p.client ∧ v = .ack)) :
    ((o.take p n).erase i).channel k v = o.channel k v := by
  have hother : isFor k v p = false := by
    apply Bool.eq_false_of_not_eq_true
    intro hp'
    obtain ⟨rfl, rfl⟩ := isFor_iff.mp hp'
    exact hk ⟨rfl, hvia⟩
  cases v with
  | send => simp [channel, take, erase, queued, List.filter_append, hother]
  | ack =>
    have hsplit := o.pending_split hp
    have hfilter : o.pendingCmdQueue.filter (isFor k .ack) =
        (o.pendingCmdQueue.eraseIdx i).filter (isFor k .ack) := by
      rw [List.eraseIdx_eq_take_drop_succ, List.filter_append]
      conv_lhs => rw [hsplit]
      rw [List.filter_append, List.filter_cons_of_neg (by rw [hother]; exact Bool.false_ne_true)]
    simp [channel, take, erase, queued, List.filter_append, hother, hfilter]

end Channels

/-- Packages are numbered as they are submitted, and each waits where it belongs. -/
structure Sound (o : Outgoing) : Prop where
  nums : o.submitted.map Packet.num = List.range o.submitted.length
  sendQueue : ∀ client, ∀ p ∈ o.sendQueue client, isFor client .send p = true
  pending : ∀ p ∈ o.pendingCmdQueue, p.via = .ack

namespace Sound

variable {o o' : Outgoing} {a : Action}

theorem boot : Sound boot := ⟨rfl, nofun, nofun⟩

theorem nodup (hs : Sound o) : o.submitted.Nodup := by
  have hn := List.nodup_range (n := o.submitted.length)
  rw [← hs.nums] at hn
  exact hn.of_map

theorem submit (hs : Sound o) {p : Packet} (answer : SendResult)
    (hnum : p.num = o.submitted.length) : Sound (o.submit p answer) := by
  have hnums : (o.submitted ++ [p]).map Packet.num = List.range (o.submitted ++ [p]).length := by
    rw [List.map_append, hs.nums, List.length_append, List.length_singleton, List.range_succ,
      List.map_singleton, hnum]
  cases answer with
  | all | part | error => exact ⟨hnums, hs.sendQueue, hs.pending⟩
  | wouldBlock =>
    unfold Outgoing.submit enqueue
    cases hvia : p.via with
    | send =>
      refine ⟨hnums, fun client q hq => ?_, hs.pending⟩
      change q ∈ Function.update o.sendQueue p.client _ client at hq
      by_cases hc : client = p.client
      · subst hc
        rw [Function.update_self] at hq
        rcases List.mem_append.mp hq with hq | hq
        · exact hs.sendQueue _ q hq
        · rw [List.mem_singleton.mp hq]
          have hself := isFor_self p
          rwa [hvia] at hself
      · rw [Function.update_of_ne hc] at hq
        exact hs.sendQueue client q hq
    | ack =>
      refine ⟨hnums, hs.sendQueue, fun q hq => ?_⟩
      rcases List.mem_append.mp hq with hq | hq
      · exact hs.pending q hq
      · rw [List.mem_singleton.mp hq]
        exact hvia

theorem moved (hs : Sound o) (hm : Moved o a o') : Sound o' := by
  cases hm with
  | submit p a answer hnum ha => exact hs.submit answer hnum
  | pop client p rest n answer hpc hq hn =>
    refine ⟨hs.nums, fun k q hqk => ?_, hs.pending⟩
    change q ∈ Function.update o.sendQueue client rest k at hqk
    by_cases hk : k = client
    · subst hk
      rw [Function.update_self] at hqk
      apply hs.sendQueue k q
      rw [hq]
      exact List.mem_cons_of_mem p hqk
    · rw [Function.update_of_ne hk] at hqk
      exact hs.sendQueue k q hqk
  | erase i p n answer hpc hp hn =>
    exact ⟨hs.nums, hs.sendQueue, fun q hq => hs.pending q (List.mem_of_mem_eraseIdx hq)⟩
  | cmd | gps | fail => exact ⟨hs.nums, hs.sendQueue, hs.pending⟩

theorem step (hs : Sound o) (hstep : Outgoing.step o a = some o') : Sound o' :=
  hs.moved (step_moved hstep).2

end Sound

theorem channel_moved {o o' : Outgoing} {a : Action} (hs : Sound o) (hm : Moved o a o')
    (hw : a.Whole) (client : SocketRef) (via : Via) :
    Channel.Move (o.channel client via) (o'.channel client via) := by
  cases hm with
  | submit p a answer hnum ha =>
    have hanswer : answer = .all ∨ answer = .wouldBlock := hw.answer ha
    cases hp : isFor client via p with
    | false =>
      rw [o.channel_submit_other hanswer hp]
      exact .stay
    | true =>
      obtain ⟨rfl, rfl⟩ := isFor_iff.mp hp
      rcases hanswer with rfl | rfl
      · rw [channel_submit_all]
        exact .direct p
      · rw [channel_submit_wouldBlock]
        exact .enqueue p
  | pop k p rest n answer hpc hq hn =>
    have hp : isFor k .send p = true := hs.sendQueue k p (hq ▸ List.mem_cons_self)
    by_cases hk : client = k ∧ via = .send
    · obtain ⟨rfl, rfl⟩ := hk
      rw [o.channel_pop n hp]
      exact .dequeue [] p rest hq
    · rw [o.channel_pop_other n hp hk]
      exact .stay
  | erase i p n answer hpc hp hn =>
    have hvia : p.via = .ack := hs.pending p (List.mem_of_getElem? hp)
    by_cases hk : client = p.client ∧ via = .ack
    · obtain ⟨rfl, rfl⟩ := hk
      rw [o.channel_erase i n hvia]
      exact .dequeue _ p _ (o.queued_split hp hvia)
    · rw [o.channel_erase_other n hp hvia hk]
      exact .stay
  | cmd | gps => exact .stay
  | fail a ha => rcases ha with rfl | rfl <;> rcases hw with h | h <;> cases h

theorem conserved_step {o o' : Outgoing} {a : Action} (hw : a.Whole) (hs : step o a = some o')
    (hi : Sound o ∧ ∀ client via, (o.channel client via).Conserved) :
    Sound o' ∧ ∀ client via, (o'.channel client via).Conserved :=
  ⟨hi.1.step hs, fun client via =>
    (hi.2 client via).move (channel_moved hi.1 (step_moved hs).2 hw client via)⟩

/-- A list of packages for a client, by the function they went through. -/
theorem filter_client (l : List Packet) (client : SocketRef) :
    ((l.filter fun p => p.client = client : List Packet) : Multiset Packet) =
      (l.filter (isFor client .send) : List Packet) +
        (l.filter (isFor client .ack) : List Packet) := by
  have hperm := List.filter_append_perm (fun p : Packet => decide (p.via = .send))
    (l.filter fun p => p.client = client)
  have hsend : (fun p : Packet => decide (p.via = .send) && decide (p.client = client)) =
      isFor client .send := by
    funext p
    simp [isFor, Bool.and_comm]
  have hack : (fun p : Packet => !decide (p.via = .send) && decide (p.client = client)) =
      isFor client .ack := by
    funext p
    cases hvia : p.via <;> simp [isFor, hvia]
  rw [List.filter_filter, List.filter_filter, hsend, hack] at hperm
  rw [Multiset.coe_add]
  exact Multiset.coe_eq_coe.mpr hperm.symm

theorem conserved_client {o : Outgoing} (hs : Sound o)
    (hc : ∀ client via, (o.channel client via).Conserved) (client : SocketRef) :
    ((o.submitted.filter fun p => p.client = client : List Packet) : Multiset Packet) =
      ((o.taken.map Prod.fst).filter fun p => p.client = client : List Packet) +
        (o.sendQueue client : List Packet) +
        (o.pendingCmdQueue.filter fun p => p.client = client : List Packet) := by
  have hsend := Multiset.coe_eq_coe.mpr (hc client .send)
  have hack := Multiset.coe_eq_coe.mpr (hc client .ack)
  have hpending : (o.pendingCmdQueue.filter fun p => p.client = client) =
      o.pendingCmdQueue.filter (isFor client .ack) := by
    apply List.filter_congr
    intro p hp
    have hvia := hs.pending p hp
    simp [isFor, hvia]
  rw [filter_client, filter_client, hpending]
  simp only [channel, queued, ← Multiset.coe_add] at hsend hack
  rw [hsend, hack, add_add_add_comm, ← add_assoc]

theorem amount_whole {p : Packet} {n : ℕ} {answer : SendResult}
    (hw : answer = .all ∨ answer = .wouldBlock)
    (hn : answer = .all ∧ n = p.len ∨ answer = .part n) : n = p.len := by
  rcases hn with ⟨-, hn⟩ | rfl
  · exact hn
  · rcases hw with hw | hw <;> cases hw

theorem taken_whole {o o' : Outgoing} {a : Action} (hw : a.Whole) (hs : step o a = some o')
    (ht : ∀ x ∈ o.taken, x.2 = x.1.len) : ∀ x ∈ o'.taken, x.2 = x.1.len := by
  cases (step_moved hs).2 with
  | submit p a answer hnum ha =>
    have hanswer : answer = .all ∨ answer = .wouldBlock := hw.answer ha
    rcases hanswer with rfl | rfl
    · intro x hx
      rcases List.mem_append.mp hx with hx | hx
      · exact ht x hx
      · rw [List.mem_singleton.mp hx]
    · intro x hx
      unfold submit enqueue at hx
      cases hvia : p.via <;> rw [hvia] at hx <;> exact ht x hx
  | pop client p rest n answer hpc hq hn =>
    intro x hx
    rcases List.mem_append.mp hx with hx | hx
    · exact ht x hx
    · rw [List.mem_singleton.mp hx]
      exact amount_whole hw hn
  | erase i p n answer hpc hp hn =>
    intro x hx
    rcases List.mem_append.mp hx with hx | hx
    · exact ht x hx
    · rw [List.mem_singleton.mp hx]
      exact amount_whole hw hn
  | cmd | gps | fail => exact ht

/-- From `o` to `o'` the front of the `send_queue` was sent, in order; what is left is the
rest, and the other queues are as they were. -/
def Drained (client : SocketRef) (o o' : Outgoing) : Prop :=
  ∃ sent more, o.sendQueue client = sent ++ o'.sendQueue client ∧
    (∀ k, k ≠ client → o'.sendQueue k = o.sendQueue k) ∧ o'.taken = o.taken ++ more ∧
    (more.map Prod.fst).filter (fun p => p.via = .send) = sent

theorem Drained.refl (client : SocketRef) (o : Outgoing) : Drained client o o :=
  ⟨[], [], rfl, fun _ _ => rfl, (List.append_nil _).symm, rfl⟩

theorem Drained.trans {client : SocketRef} {a b c : Outgoing} (hab : Drained client a b)
    (hbc : Drained client b c) : Drained client a c := by
  obtain ⟨sent, more, hq, hother, htaken, hsent⟩ := hab
  obtain ⟨sent', more', hq', hother', htaken', hsent'⟩ := hbc
  refine ⟨sent ++ sent', more ++ more', ?_, fun k hk => ?_, ?_, ?_⟩
  · rw [hq, hq', List.append_assoc]
  · rw [hother' k hk, hother k hk]
  · rw [htaken', htaken, List.append_assoc]
  · rw [List.map_append, List.filter_append, hsent, hsent']

/-- The command server is in the loop for the client, or has left it. -/
def Draining (client : SocketRef) (o : Outgoing) : Prop :=
  o.cmd = .drain client ∨ o.cmd = .idle

theorem drained_step {o o' : Outgoing} {a : Action} {client : SocketRef} (hw : a.Whole)
    (hb : ¬a.Begins) (hs : step o a = some o') (hsound : Sound o) (hd : Draining client o) :
    Draining client o' ∧ Drained client o o' := by
  cases (step_moved hs).2 with
  | submit p a answer hnum ha =>
    have hack : p.via = .ack := by
      rcases ha with ⟨rfl, -, -⟩ | ⟨-, hvia, -⟩
      · exact absurd trivial hb
      · exact hvia
    have hanswer : answer = .all ∨ answer = .wouldBlock := hw.answer ha
    rcases hanswer with rfl | rfl
    · exact ⟨hd, [], [(p, p.len)], rfl, fun _ _ => rfl, rfl, by simp [hack]⟩
    · unfold submit enqueue Draining
      rw [hack]
      exact ⟨hd, [], [], rfl, fun _ _ => rfl, (List.append_nil _).symm, rfl⟩
  | pop k p rest n answer hpc hq hn =>
    have hk : k = client := by
      rcases hd with hd | hd <;> rw [hd] at hpc <;> cases hpc
      rfl
    subst hk
    have hvia : p.via = .send := (isFor_iff.mp (hsound.sendQueue k p (hq ▸ List.mem_cons_self))).2
    refine ⟨hd, [p], [(p, n)], ?_, fun j hj => Function.update_of_ne hj .., rfl, by simp [hvia]⟩
    change o.sendQueue k = [p] ++ Function.update o.sendQueue k rest k
    rw [Function.update_self, hq]
    rfl
  | erase i p n answer hpc hp hn =>
    have hvia : p.via = .ack := hsound.pending p (List.mem_of_getElem? hp)
    exact ⟨hd, [], [(p, n)], rfl, fun _ _ => rfl, rfl, by simp [hvia]⟩
  | cmd a pc ha =>
    rcases ha with ⟨k, rfl, -, -⟩ | ⟨answer, k, rfl, -, rfl, -⟩
    · exact absurd trivial hb
    · exact ⟨Or.inr rfl, [], [], rfl, fun _ _ => rfl, (List.append_nil _).symm, rfl⟩
  | gps a pc ha => exact ⟨hd, [], [], rfl, fun _ _ => rfl, (List.append_nil _).symm, rfl⟩
  | fail a ha => rcases ha with rfl | rfl <;> rcases hw with h | h <;> cases h

theorem drained_run {client : SocketRef} {o o' : Outgoing} {as : List Action}
    (hr : run step o as = some o') (has : ∀ a ∈ as, a.Whole ∧ ¬a.Begins) (hsound : Sound o)
    (hd : o.cmd = .drain client) : Drained client o o' := by
  have hrun := run_of_labels (I := fun x => Sound x ∧ Draining client x ∧ Drained client o x)
    (W := fun a => a.Whole ∧ ¬a.Begins) (fun x a x' ha hs hi => ?_) hr has
    ⟨hsound, Or.inl hd, .refl client o⟩
  · exact hrun.2.2
  · obtain ⟨hd', hdrained⟩ := drained_step ha.1 ha.2 hs hi.1 hi.2.1
    exact ⟨hi.1.step hs, hd', hi.2.2.trans hdrained⟩

/-- Every package for a client has been taken by its socket, whole, or waits in one of the two
queues, and is there once; and the loop over a `send_queue` sends the front of it in order and
leaves the rest, whatever the other thread does. -/
theorem packets_conserved {as : List Action} {o : Outgoing} (hr : run step boot as = some o)
    (hw : ∀ a ∈ as, a.Whole) :
    (∀ client, ((o.submitted.filter fun p => p.client = client : List Packet) : Multiset Packet) =
      ((o.taken.map Prod.fst).filter fun p => p.client = client : List Packet) +
        (o.sendQueue client : List Packet) +
        (o.pendingCmdQueue.filter fun p => p.client = client : List Packet)) ∧
    o.submitted.Nodup ∧ (∀ x ∈ o.taken, x.2 = x.1.len) ∧
    ∀ client bs o', o.cmd = .drain client → run step o bs = some o' →
      (∀ b ∈ bs, b.Whole ∧ ¬b.Begins) → Drained client o o' := by
  have hboot (client : SocketRef) (via : Via) : (boot.channel client via).Conserved := by
    cases via <;> exact .refl _
  have hsound := run_of_labels (fun _ _ _ ha hs hi => conserved_step ha hs hi) hr hw
    ⟨Sound.boot, hboot⟩
  have htaken := run_of_labels (fun _ _ _ ha hs hi => taken_whole ha hs hi) hr hw nofun
  exact ⟨conserved_client hsound.1 hsound.2, hsound.1.nodup, htaken,
    fun client bs o' hd hbs hbw => drained_run hbs hbw hsound.1 hd⟩

/-- Any package of four bytes. -/
def pkgOf (b : UInt8) : CmdPkg := ⟨[CmdPkg.BUDDIES_IDS, 0, 4, b, 0]⟩

/-- Two clients with full sockets; the first one's `send_queue` is drained while a pending
acknowledgement of the second one is sent. -/
def twoClients : List Action :=
  [.send 0 (pkgOf 1) .wouldBlock, .send 0 (pkgOf 2) .wouldBlock, .ack 1 (pkgOf 3) .wouldBlock,
    .send 1 (pkgOf 4) .all, .writable 0]

def drains : List Action := [.drain .all, .sendPending, .flush .all, .drain .wouldBlock]

theorem packets_conserved_two : ∃ o o', run step boot twoClients = some o ∧
    run step o drains = some o' ∧ (o'.sendQueue 0).length = 1 ∧ Drained 0 o o' ∧
    ((o.submitted.filter fun p => p.client = 0 : List Packet) : Multiset Packet) =
      ((o.taken.map Prod.fst).filter fun p => p.client = 0 : List Packet) +
        (o.sendQueue 0 : List Packet) +
        (o.pendingCmdQueue.filter fun p => p.client = 0 : List Packet) := by
  have hrun : ∃ o o', run step boot twoClients = some o ∧ run step o drains = some o' ∧
      o.cmd = .drain 0 ∧ (o'.sendQueue 0).length = 1 := ⟨_, _, rfl, rfl, rfl, rfl⟩
  obtain ⟨o, o', hr, hr', hpc, hlen⟩ := hrun
  obtain ⟨hall, -, -, hdrain⟩ := @packets_conserved twoClients o hr (by decide)
  refine ⟨o, o', hr, hr', hlen, hdrain 0 drains o' hpc hr' ?_, hall 0⟩
  intro b hb
  simp only [drains, List.mem_cons, List.not_mem_nil, or_false] at hb
  rcases hb with rfl | rfl | rfl | rfl
  · exact ⟨Or.inl rfl, id⟩
  · exact ⟨trivial, id⟩
  · exact ⟨Or.inl rfl, id⟩
  · exact ⟨Or.inr rfl, id⟩

end Outgoing
end Gpshub.Delivery
