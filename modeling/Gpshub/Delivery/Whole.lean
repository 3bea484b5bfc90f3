import Gpshub.Delivery.Conservation

/-! Packages of which a socket takes a part: the rest is not kept. -/
namespace Gpshub.Delivery
open Lib.Machine

namespace Outgoing

/-- All bytes of a package have been taken or are held back to be sent, and a client has never
been sent only a part of one. -/
structure Kept (o : Outgoing) : Prop where
  held : ∀ p ∈ o.submitted, (∃ n, (p, n) ∈ o.taken ∧ p.len ≤ n) ∨ p ∈ o.sendQueue p.client ∨
    p ∈ o.pendingCmdQueue
  whole : ∀ x ∈ o.taken, x.1.len ≤ x.2

/-- The answer to a `Send` of the package is not a smaller number of bytes. -/
def Covers (pkg : CmdPkg) : SendResult → Prop
  | .part n => pkg.getLen.toNat ≤ n
  | _ => True

instance (pkg : CmdPkg) (answer : SendResult) : Decidable (Covers pkg answer) := by
  unfold Covers
  split <;> infer_instance

/-- No `Send` takes only a part of its package, and the first one of a package does not fail. -/
def Unbroken (o : Outgoing) : Action → Prop
  | .send _ pkg answer => Covers pkg answer ∧ answer ≠ .error
  | .ack _ pkg answer => Covers pkg answer ∧ answer ≠ .error
  | .drain answer =>
    match o.cmd with
    | .drain client => ∀ p ∈ (o.sendQueue client).head?, Covers p.pkg answer
    | .idle => True
  | .flush answer =>
    match o.gps with
    | .flush i => ∀ p ∈ o.pendingCmdQueue[i]?, Covers p.pkg answer
    | .idle => True
  | _ => True

instance (o : Outgoing) : ∀ a : Action, Decidable (o.Unbroken a)
  | .send _ pkg answer => inferInstanceAs (Decidable (Covers pkg answer ∧ answer ≠ .error))
  | .ack _ pkg answer => inferInstanceAs (Decidable (Covers pkg answer ∧ answer ≠ .error))
  | .drain answer => by
    change Decidable (match o.cmd with
      | .drain client => ∀ p ∈ (o.sendQueue client).head?, Covers p.pkg answer
      | .idle => True)
    exact match o.cmd with
      | .drain client =>
        inferInstanceAs (Decidable (∀ p ∈ (o.sendQueue client).head?, Covers p.pkg answer))
      | .idle => .isTrue trivial
  | .flush answer => by
    change Decidable (match o.gps with
      | .flush i => ∀ p ∈ o.pendingCmdQueue[i]?, Covers p.pkg answer
      | .idle => True)
    exact match o.gps with
      | .flush i => inferInstanceAs (Decidable (∀ p ∈ o.pendingCmdQueue[i]?, Covers p.pkg answer))
      | .idle => .isTrue trivial
  | .writable _ => .isTrue trivial
  | .sendPending => .isTrue trivial

/-- What was taken or waits has been submitted. -/
structure Within (o : Outgoing) : Prop where
  sound : Sound o
  taken : ∀ x ∈ o.taken, x.1 ∈ o.submitted
  sendQueue : ∀ client, ∀ p ∈ o.sendQueue client, p ∈ o.submitted
  pending : ∀ p ∈ o.pendingCmdQueue, p ∈ o.submitted

section Steps

variable {o o' : Outgoing} {a : Action}

theorem Within.boot : Within boot := ⟨.boot, nofun, nofun, nofun⟩

theorem Within.fresh (hw : Within o) {p : Packet} (hnum : p.num = o.submitted.length) :
    p ∉ o.submitted := by
  intro hp
  have hmem : p.num ∈ o.submitted.map Packet.num := List.mem_map_of_mem hp
  rw [hw.sound.nums, List.mem_range, hnum] at hmem
  exact lt_irrefl _ hmem

theorem Within.submit (hw : Within o) {p : Packet} (answer : SendResult)
    (hnum : p.num = o.submitted.length) : Within (o.submit p answer) := by
  have hsound := hw.sound.submit answer hnum
  have hlast : p ∈ o.submitted ++ [p] := List.mem_append_right _ (List.mem_singleton.mpr rfl)
  have hold {q : Packet} (hq : q ∈ o.submitted) : q ∈ o.submitted ++ [p] :=
    List.mem_append_left _ hq
  have hqueue (client : SocketRef) (q : Packet) (hq : q ∈ o.sendQueue client) :
      q ∈ o.submitted ++ [p] := hold (hw.sendQueue client q hq)
  have hpending (q : Packet) (hq : q ∈ o.pendingCmdQueue) : q ∈ o.submitted ++ [p] :=
    hold (hw.pending q hq)
  have htaken (n : ℕ) (x : Packet × ℕ) (hx : x ∈ o.taken ++ [(p, n)]) :
      x.1 ∈ o.submitted ++ [p] := by
    rcases List.mem_append.mp hx with hx | hx
    · exact hold (hw.taken x hx)
    · rw [List.mem_singleton.mp hx]
      exact hlast
  cases answer with
  | all => exact ⟨hsound, htaken _, hqueue, hpending⟩
  | part n => exact ⟨hsound, htaken n, hqueue, hpending⟩
  | error => exact ⟨hsound, fun x hx => hold (hw.taken x hx), hqueue, hpending⟩
  | wouldBlock =>
    unfold Outgoing.submit enqueue at hsound ⊢
    cases hvia : p.via with
    | send =>
      rw [hvia] at hsound
      refine ⟨hsound, fun x hx => hold (hw.taken x hx), fun client q hq => ?_, hpending⟩
      change q ∈ Function.update o.sendQueue p.client _ client at hq
      by_cases hc : client = p.client
      · subst hc
        rw [Function.update_self] at hq
        rcases List.mem_append.mp hq with hq | hq
        · exact hqueue _ q hq
        · rw [List.mem_singleton.mp hq]
          exact hlast
      · rw [Function.update_of_ne hc] at hq
        exact hqueue client q hq
    | ack =>
      rw [hvia] at hsound
      refine ⟨hsound, fun x hx => hold (hw.taken x hx), hqueue, fun q hq => ?_⟩
      rcases List.mem_append.mp hq with hq | hq
      · exact hpending q hq
      · rw [List.mem_singleton.mp hq]
        exact hlast

theorem Within.step (hw : Within o) (hs : step o a = some o') : Within o' := by
  have hsound := hw.sound.step hs
  cases (step_moved hs).2 with
  | submit p a answer hnum ha => exact hw.submit answer hnum
  | pop client p rest n answer hpc hq hn =>
    have hp : p ∈ o.submitted := hw.sendQueue client p (hq ▸ List.mem_cons_self)
    refine ⟨hsound, fun x hx => ?_, fun k q hqk => ?_, hw.pending⟩
    · rcases List.mem_append.mp hx with hx | hx
      · exact hw.taken x hx
      · rw [List.mem_singleton.mp hx]
        exact hp
    · change q ∈ Function.update o.sendQueue client rest k at hqk
      by_cases hk : k = client
      · subst hk
        rw [Function.update_self] at hqk
        apply hw.sendQueue k q
        rw [hq]
        exact List.mem_cons_of_mem p hqk
      · rw [Function.update_of_ne hk] at hqk
        exact hw.sendQueue k q hqk
  | erase i p n answer hpc hp hn =>
    refine ⟨hsound, fun x hx => ?_, hw.sendQueue,
      fun q hq => hw.pending q (List.mem_of_mem_eraseIdx hq)⟩
    rcases List.mem_append.mp hx with hx | hx
    · exact hw.taken x hx
    · rw [List.mem_singleton.mp hx]
      exact hw.pending p (List.mem_of_getElem? hp)
  | cmd | gps | fail => exact ⟨hsound, hw.taken, hw.sendQueue, hw.pending⟩

theorem Kept.take {x : Outgoing} (hk : Kept o) {p : Packet} {n : ℕ} (hn : p.len ≤ n)
    (htaken : x.taken = o.taken ++ [(p, n)]) (hsub : ∀ q ∈ x.submitted, q = p ∨ q ∈ o.submitted)
    (hqueue : ∀ q, q ∈ o.sendQueue q.client → q = p ∨ q ∈ x.sendQueue q.client)
    (hpending : ∀ q ∈ o.pendingCmdQueue, q = p ∨ q ∈ x.pendingCmdQueue) : Kept x := by
  have hlast : (p, n) ∈ x.taken := by
    rw [htaken]
    exact List.mem_append_right _ (List.mem_singleton.mpr rfl)
  constructor
  · intro q hq
    rcases hsub q hq with rfl | hq
    · exact Or.inl ⟨n, hlast, hn⟩
    · rcases hk.held q hq with ⟨m, hm, hle⟩ | hq | hq
      · exact Or.inl ⟨m, by rw [htaken]; exact List.mem_append_left _ hm, hle⟩
      · rcases hqueue q hq with rfl | hq
        · exact Or.inl ⟨n, hlast, hn⟩
        · exact Or.inr (Or.inl hq)
      · rcases hpending q hq with rfl | hq
        · exact Or.inl ⟨n, hlast, hn⟩
        · exact Or.inr (Or.inr hq)
  · intro y hy
    rw [htaken] at hy
    rcases List.mem_append.mp hy with hy | hy
    · exact hk.whole y hy
    · rw [List.mem_singleton.mp hy]
      exact hn

theorem covers_of_whole {x : Outgoing} (hk : Kept x) {p : Packet} {n : ℕ} {answer : SendResult}
    (hn : answer = .all ∧ n = p.len ∨ answer = .part n) (hm : (p, n) ∈ x.taken) :
    Covers p.pkg answer := by
  rcases hn with ⟨rfl, -⟩ | rfl
  · trivial
  · have hle : p.len ≤ n := hk.whole (p, n) hm
    exact hle

theorem len_le_of_covers {p : Packet} {n : ℕ} {answer : SendResult}
    (hn : answer = .all ∧ n = p.len ∨ answer = .part n) (hc : Covers p.pkg answer) :
    p.len ≤ n := by
  rcases hn with ⟨-, rfl⟩ | rfl
  · exact le_refl _
  · exact hc

theorem kept_submit {p : Packet} (answer : SendResult) (hw : Within o)
    (hnum : p.num = o.submitted.length) (hk : Kept o) :
    Kept (o.submit p answer) ↔ Covers p.pkg answer ∧ answer ≠ .error := by
  have hsub (q : Packet) (hq : q ∈ o.submitted ++ [p]) : q = p ∨ q ∈ o.submitted :=
    (List.mem_append.mp hq).symm.imp_left List.mem_singleton.mp
  cases answer with
  | all =>
    refine iff_of_true ?_ ⟨trivial, nofun⟩
    exact hk.take (le_refl p.len) rfl hsub (fun _ => Or.inr) fun _ => Or.inr
  | part n =>
    constructor
    · intro hk'
      have hlast : (p, n) ∈ (o.submit p (.part n)).taken :=
        List.mem_append_right _ (List.mem_singleton.mpr rfl)
      have hle : p.len ≤ n := hk'.whole (p, n) hlast
      exact ⟨hle, nofun⟩
    · rintro ⟨hc, -⟩
      exact hk.take (p := p) (n := n) hc rfl hsub (fun _ => Or.inr) fun _ => Or.inr
  | wouldBlock =>
    refine iff_of_true ?_ ⟨trivial, nofun⟩
    unfold submit enqueue
    cases hvia : p.via with
    | send =>
      refine ⟨fun q hq => ?_, hk.whole⟩
      change _ ∨ q ∈ Function.update o.sendQueue p.client _ q.client ∨ _
      rcases hsub q hq with rfl | hq
      · rw [Function.update_self]
        exact Or.inr (Or.inl (List.mem_append_right _ (List.mem_singleton.mpr rfl)))
      · refine (hk.held q hq).imp_right (Or.imp_left fun hq => ?_)
        by_cases hc : q.client = p.client
        · rw [hc, Function.update_self]
          exact List.mem_append_left _ (hc ▸ hq)
        · rwa [Function.update_of_ne hc]
    | ack =>
      refine ⟨fun q hq => ?_, hk.whole⟩
      rcases hsub q hq with rfl | hq
      · exact Or.inr (Or.inr (List.mem_append_right _ (List.mem_singleton.mpr rfl)))
      · exact (hk.held q hq).imp_right (Or.imp_right (List.mem_append_left _))
  | error =>
    refine iff_of_false (fun hk' => ?_) fun h => h.2 rfl
    have hfresh := hw.fresh hnum
    rcases hk'.held p (List.mem_append_right _ (List.mem_singleton.mpr rfl)) with
      ⟨n, hm, -⟩ | hq | hq
    · exact hfresh (hw.taken _ hm)
    · exact hfresh (hw.sendQueue _ p hq)
    · exact hfresh (hw.pending p hq)

theorem kept_step (hs : step o a = some o') (hw : Within o) (hk : Kept o) :
    Kept o' ↔ Unbroken o a := by
  cases (step_moved hs).2 with
  | submit p a answer hnum ha =>
    have hiff := kept_submit answer hw hnum hk
    rcases ha with ⟨rfl, -, -⟩ | ⟨rfl, -, -⟩ <;> exact hiff
  | pop client p rest n answer hpc hq hn =>
    have hhead : Unbroken o (.drain answer) ↔ Covers p.pkg answer := by
      simp [Unbroken, hpc, hq]
    have hclient : p.client = client :=
      (isFor_iff.mp (hw.sound.sendQueue client p (hq ▸ List.mem_cons_self))).1
    rw [hhead]
    constructor
    · intro hk'
      exact covers_of_whole hk' hn (List.mem_append_right _ (List.mem_singleton.mpr rfl))
    · intro hc
      refine hk.take (len_le_of_covers hn hc) rfl (fun _ => Or.inr) (fun q hqq => ?_) fun _ => Or.inr
      change q = p ∨ q ∈ Function.update o.sendQueue client rest q.client
      by_cases hqc : q.client = client
      · rw [hqc, hq] at hqq
        rw [hqc, Function.update_self]
        exact List.mem_cons.mp hqq
      · rw [Function.update_of_ne hqc]
        exact Or.inr hqq
  | erase i p n answer hpc hp hn =>
    have hhead : Unbroken o (.flush answer) ↔ Covers p.pkg answer := by
      simp [Unbroken, hpc, hp]
    rw [hhead]
    constructor
    · intro hk'
      exact covers_of_whole hk' hn (List.mem_append_right _ (List.mem_singleton.mpr rfl))
    · intro hc
      refine hk.take (len_le_of_covers hn hc) rfl (fun _ => Or.inr) (fun _ => Or.inr) fun q hq => ?_
      rw [o.pending_split hp] at hq
      change q = p ∨ q ∈ o.pendingCmdQueue.eraseIdx i
      rw [List.eraseIdx_eq_take_drop_succ]
      simpa [or_left_comm] using hq
  | cmd a pc ha =>
    refine iff_of_true ⟨hk.held, hk.whole⟩ ?_
    rcases ha with ⟨client, rfl, -, -⟩ | ⟨answer, client, rfl, hpc, -, hblocked⟩
    · trivial
    · rcases hblocked with hq | rfl
      · simp [Unbroken, hpc, hq]
      · simp [Unbroken, hpc, Covers]
  | gps a pc ha =>
    refine iff_of_true ⟨hk.held, hk.whole⟩ ?_
    rcases ha with rfl | ⟨answer, rfl, hblocked⟩
    · trivial
    · cases hpc : o.gps with
      | idle => simp [Unbroken, hpc]
      | flush i =>
        simp only [Unbroken, hpc]
        intro p hp
        rw [hblocked i p hpc hp]
        trivial
  | fail a ha =>
    refine iff_of_true ⟨hk.held, hk.whole⟩ ?_
    rcases ha with rfl | rfl
    · cases hpc : o.cmd <;> simp [Unbroken, hpc, Covers]
    · cases hpc : o.gps <;> simp [Unbroken, hpc, Covers]

end Steps

/-- No byte of a package is lost in a run if and only if no `Send` takes only a part of one,
and no first `Send` fails. -/
theorem packets_whole_iff (as : List Action) :
    Always step Kept boot as ↔ Guarded step Unbroken boot as := by
  have hboot : Kept boot := ⟨nofun, nofun⟩
  exact @always_iff_guarded _ _ step Within Kept Kept Unbroken (fun _ => True)
    (fun _ _ _ hs hw => hw.step hs) (fun _ _ hk => hk)
    (fun _ _ _ hs _ hw hk => ⟨(kept_step hs hw hk).mpr, (kept_step hs hw hk).mp⟩)
    boot as (fun _ _ => trivial) .boot hboot

/-- The socket of a client has room for one byte. -/
theorem packets_whole_counterexample : ¬Always step Kept boot [.send 0 (pkgOf 1) (.part 1)] := by
  intro h
  have hlast : ∃ o, run step boot [.send 0 (pkgOf 1) (.part 1)] = some o ∧
      (⟨0, 0, .send, pkgOf 1⟩, 1) ∈ o.taken := ⟨_, rfl, List.mem_singleton.mpr rfl⟩
  obtain ⟨o, hr, hm⟩ := hlast
  exact absurd ((h.last hr).whole _ hm) (by decide)

end Outgoing
end Gpshub.Delivery
