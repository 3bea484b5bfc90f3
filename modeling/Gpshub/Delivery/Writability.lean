import Gpshub.Delivery.Conservation

/-! The send queues under edge-triggered `EPOLLOUT`: what waits will be looked at again. -/
namespace Gpshub.Delivery
open Lib.Machine Outgoing

/-- The servers with what the kernel knows of the sockets. -/
structure Wire where
  out : Outgoing
  /-- A send would have blocked, and the socket has not become writable since. -/
  unwritable : SocketRef → Bool
  /-- An `EPOLLOUT` that `epoll_wait` has not returned yet. -/
  edge : SocketRef → Bool

inductive WireAction
  | server (a : Action)
  /-- `incomingConnection` adds the socket of a new client to the epoll, with `EPOLLET`. -/
  | accept (client : SocketRef)
  /-- A socket on which a send would have blocked becomes writable. -/
  | room (client : SocketRef)
  deriving DecidableEq

def WireAction.Whole : WireAction → Prop
  | .server a => a.Whole
  | .accept _ => True
  | .room _ => True

instance (a : WireAction) : Decidable a.Whole := by
  unfold WireAction.Whole
  split <;> infer_instance

/-- The socket on which a send of this step would block. -/
def Outgoing.blocksOn (o : Outgoing) : Action → Option SocketRef
  | .send client _ .wouldBlock => some client
  | .ack client _ .wouldBlock => some client
  | .drain .wouldBlock =>
    match o.cmd with
    | .drain client => (o.sendQueue client).head?.map fun _ => client
    | .idle => none
  | .flush .wouldBlock =>
    match o.gps with
    | .flush i => (o.pendingCmdQueue[i]?).map Packet.client
    | .idle => none
  | _ => none

/-- The edge that `epoll_wait` has returned when the callback runs. -/
def Action.consumes : Action → Option SocketRef
  | .writable client => some client
  | _ => none

namespace Wire

def boot : Wire := ⟨.boot, fun _ => false, fun _ => false⟩

/-- A step of a server; `EPOLLOUT` may also be handled without an edge of its own, together
with an `EPOLLIN`. -/
def serve (w : Wire) (a : Action) (out : Outgoing) : Wire where
  out := out
  unwritable k := w.unwritable k || w.out.blocksOn a = some k
  edge k := w.edge k && !(a.consumes = some k)

def step (w : Wire) : WireAction → Option Wire
  | .server a => (w.out.step a).map (w.serve a)
  | .accept client =>
    if w.out.cmd = .idle then some { w with edge := Function.update w.edge client true } else none
  | .room client =>
    if w.unwritable client then some { w with
      unwritable := Function.update w.unwritable client false
      edge := Function.update w.edge client true }
    else none

/-- A client for which packages wait has a socket that is still full, or an `EPOLLOUT` on its
way, unless the command server is just sending them. -/
def Awaited (w : Wire) : Prop :=
  ∀ client, w.out.sendQueue client ≠ [] → w.out.cmd ≠ .drain client →
    w.unwritable client = true ∨ w.edge client = true

section Steps

variable {w w' : Wire}

theorem Awaited.serve (ha : Awaited w) {a : Action} {out : Outgoing} {client : SocketRef}
    (hc : a.consumes ≠ some client) (hq : w.out.sendQueue client ≠ [])
    (hpc : w.out.cmd ≠ .drain client) :
    (w.serve a out).unwritable client = true ∨ (w.serve a out).edge client = true := by
  rcases ha client hq hpc with h | h
  · exact Or.inl (by simp [Wire.serve, h])
  · exact Or.inr (by simp [Wire.serve, h, hc])

theorem serve_blocked {a : Action} {out : Outgoing} {client : SocketRef}
    (hb : w.out.blocksOn a = some client) : (w.serve a out).unwritable client = true := by
  simp [Wire.serve, hb]

theorem awaited_server {a : Action} {out : Outgoing} (hs : w.out.step a = some out)
    (hw : a.Whole) (ha : Awaited w) : Awaited (w.serve a out) := by
  intro client hq hpc
  cases (Outgoing.step_moved hs).2 with
  | submit p a answer hnum hsub =>
    have hanswer : answer = .all ∨ answer = .wouldBlock := hw.answer hsub
    have hnone : a.consumes = none := by
      rcases hsub with ⟨rfl, -, -⟩ | ⟨rfl, -, -⟩ <;> rfl
    have hc : a.consumes ≠ some client := by
      rw [hnone]
      nofun
    rcases hanswer with rfl | rfl
    · exact ha.serve hc hq hpc
    · by_cases hclient : client = p.client
      · have hb : w.out.blocksOn a = some client := by
          rw [hclient]
          rcases hsub with ⟨rfl, -, -⟩ | ⟨rfl, -, -⟩ <;> rfl
        exact Or.inl (serve_blocked hb)
      · have hsame : (w.out.submit p .wouldBlock).sendQueue client = w.out.sendQueue client := by
          unfold Outgoing.submit Outgoing.enqueue
          cases p.via with
          | send => exact Function.update_of_ne hclient ..
          | ack => rfl
        have hcmd : (w.out.submit p .wouldBlock).cmd = w.out.cmd := by
          unfold Outgoing.submit Outgoing.enqueue
          cases p.via <;> rfl
        change (w.out.submit p .wouldBlock).sendQueue client ≠ [] at hq
        change (w.out.submit p .wouldBlock).cmd ≠ .drain client at hpc
        rw [hsame] at hq
        rw [hcmd] at hpc
        exact ha.serve hc hq hpc
  | pop k p rest n answer hk hqk hn =>
    have hne : client ≠ k := fun h => hpc (h ▸ hk)
    change Function.update w.out.sendQueue k rest client ≠ [] at hq
    rw [Function.update_of_ne hne] at hq
    exact ha.serve nofun hq hpc
  | erase i p n answer hk hp hn => exact ha.serve nofun hq hpc
  | cmd a pc hcmd =>
    rcases hcmd with ⟨k, rfl, hidle, rfl⟩ | ⟨answer, k, rfl, hk, rfl, hblocked⟩
    · have hne : k ≠ client := fun h => hpc (h ▸ rfl)
      refine ha.serve ?_ hq (by rw [hidle]; nofun)
      simpa [Action.consumes] using hne
    · by_cases hclient : client = k
      · subst hclient
        -- the loop was left with packages in the queue, so the last send would have blocked
        rcases hblocked with hnil | rfl
        · exact absurd hnil hq
        · refine Or.inl (serve_blocked ?_)
          obtain ⟨p, rest, hqk⟩ := List.exists_cons_of_ne_nil hq
          have hqk : w.out.sendQueue client = p :: rest := hqk
          simp [Outgoing.blocksOn, hk, hqk]
      · refine ha.serve nofun hq ?_
        rw [hk]
        intro h
        cases h
        exact hclient rfl
  | gps a pc hgps =>
    refine ha.serve ?_ hq hpc
    rcases hgps with rfl | ⟨answer, rfl, -⟩ <;> nofun
  | fail a hf => rcases hf with rfl | rfl <;> rcases hw with h | h <;> cases h

theorem awaited_step {a : WireAction} (hw : a.Whole) (hs : w.step a = some w')
    (ha : Awaited w) : Awaited w' := by
  cases a with
  | server a =>
    obtain ⟨out, hout, rfl⟩ := Option.map_eq_some_iff.mp hs
    exact awaited_server hout hw ha
  | accept k =>
    simp only [step, Option.ite_none_right_eq_some, Option.some.injEq] at hs
    obtain ⟨-, rfl⟩ := hs
    intro client hq hpc
    refine (ha client hq hpc).imp_right fun he => ?_
    by_cases hk : client = k
    · subst hk
      exact Function.update_self ..
    · exact (Function.update_of_ne hk ..).trans he
  | room k =>
    simp only [step, Option.ite_none_right_eq_some, Option.some.injEq] at hs
    obtain ⟨-, rfl⟩ := hs
    intro client hq hpc
    by_cases hk : client = k
    · subst hk
      exact Or.inr (Function.update_self ..)
    · refine (ha client hq hpc).imp (fun hu => ?_) fun he => ?_
      · exact (Function.update_of_ne hk ..).trans hu
      · exact (Function.update_of_ne hk ..).trans he

end Steps

/-- Packages that wait in a `send_queue` are never stranded. -/
theorem queued_awaited {as : List WireAction} {w : Wire} (hr : run step boot as = some w)
    (hw : ∀ a ∈ as, a.Whole) : ∀ client, w.out.sendQueue client ≠ [] →
      w.out.cmd ≠ .drain client → w.unwritable client = true ∨ w.edge client = true :=
  run_of_labels (fun _ _ _ ha hs hi => awaited_step ha hs hi) hr hw fun _ hq => absurd rfl hq

/-- A package waits for the first client, whose socket has become writable again, and another
one for the second, whose socket is still full. -/
def waiting : List WireAction :=
  [.accept 0, .accept 1, .server (.send 0 (pkgOf 1) .wouldBlock),
    .server (.send 1 (pkgOf 2) .wouldBlock), .server (.writable 1), .server (.drain .wouldBlock),
    .room 0, .server (.send 0 (pkgOf 3) .all)]

theorem queued_awaited_two : ∃ w, run step boot waiting = some w ∧
    w.unwritable 0 = false ∧ w.edge 1 = false ∧
    (w.unwritable 0 = true ∨ w.edge 0 = true) ∧ (w.unwritable 1 = true ∨ w.edge 1 = true) := by
  have hrun : ∃ w, run step boot waiting = some w ∧ w.unwritable 0 = false ∧ w.edge 1 = false ∧
      w.out.cmd = .idle ∧ (w.out.sendQueue 0).length = 1 ∧ (w.out.sendQueue 1).length = 1 :=
    ⟨_, rfl, rfl, rfl, rfl, rfl, rfl⟩
  obtain ⟨w, hr, hu, he, hpc, h0, h1⟩ := hrun
  have hall := @queued_awaited waiting w hr (by decide)
  refine ⟨w, hr, hu, he, hall 0 ?_ (by rw [hpc]; nofun), hall 1 ?_ (by rw [hpc]; nofun)⟩
  · exact List.ne_nil_of_length_pos (by omega)
  · exact List.ne_nil_of_length_pos (by omega)

end Wire
end Gpshub.Delivery
