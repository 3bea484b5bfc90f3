import Gpshub.Hub.Machine

/-! `GpsDataServer::loop`: the UDP socket under an edge-triggered `EPOLLIN`. -/
namespace Gpshub.GpsDataServer
open Lib.Machine

/-- A datagram with the address `Recvfrom` returns for it. -/
structure Datagram where
  theirAddr : SockAddr
  bytes : List UInt8
  deriving DecidableEq

inductive Phase
  /-- The loop is in `epoll_wait`, or about to call it. -/
  | waiting
  /-- `epoll_wait` has returned the event of the socket. -/
  | ready
  deriving DecidableEq

structure Loop where
  hub : Hub
  phase : Phase
  /-- The receive queue of the socket. -/
  queue : List Datagram
  /-- An `EPOLLIN` that `epoll_wait` has not returned yet. -/
  edge : Bool
  arrived : List Datagram
  processed : List Datagram

inductive LoopAction
  | arrive (d : Datagram)
  /-- `epoll_wait` returns the `EPOLLIN`. -/
  | wait
  /-- `epoll_wait` fails with `EINTR`. -/
  | interrupted
  | timeout (env : Env)
  /-- The callback of the socket. -/
  | incomingData (env : Env)
  /-- A step of the command server or of a broadcast thread. -/
  | other (call : Event × Env)

/-- The events that this loop handles itself. -/
def ofLoop : Event → Bool
  | .datagram _ _ => true
  | .timeout => true
  | _ => false

namespace Loop

def boot : Loop := ⟨.boot, .waiting, [], false, [], []⟩

/-- The kernel sets off one `EPOLLIN` for all datagrams that arrive before `epoll_wait`
returns it, and `incomingData` reads one datagram. -/
def step (l : Loop) : LoopAction → Option Loop
  | .arrive d =>
    some { l with queue := l.queue ++ [d], edge := true, arrived := l.arrived ++ [d] }
  | .wait =>
    if l.phase = .waiting ∧ l.edge = true then some { l with phase := .ready, edge := false }
    else none
  | .interrupted => if l.phase = .waiting then some l else none
  | .timeout env =>
    if l.phase = .waiting ∧ l.edge = false then
      (l.hub.step (.timeout, env)).map fun hub => { l with hub }
    else none
  | .incomingData env =>
    match l.phase, l.queue with
    | .ready, d :: rest =>
      (l.hub.step (.datagram d.theirAddr d.bytes, env)).map fun hub =>
        { l with hub, phase := .waiting, queue := rest, processed := l.processed ++ [d] }
    | _, _ => none
  | .other call =>
    if ofLoop call.1 then none else (l.hub.step call).map fun hub => { l with hub }

/-- The loop is about to block in `epoll_wait`. -/
def Blocks (l : Loop) : Prop := l.phase = .waiting ∧ l.edge = false

/-- No datagram arrives while the `EPOLLIN` of an earlier one is still to be returned. -/
def Spaced (l : Loop) : LoopAction → Prop
  | .arrive _ => l.edge = false
  | _ => True

/-- How many datagrams will be read for the events that are on their way. -/
def owed (l : Loop) : ℕ := (if l.phase = .ready then 1 else 0) + if l.edge = true then 1 else 0

/-- Nothing is lost: every arrived datagram is processed or in the queue, which has one for
each event. -/
structure Sound (l : Loop) : Prop where
  arrived : l.arrived = l.processed ++ l.queue
  owed : l.owed ≤ l.queue.length

/-- The queue holds no more datagrams than will be read. -/
def Even (l : Loop) : Prop := l.queue.length = l.owed

section Steps

variable {l l' : Loop} {a : LoopAction}

/-- What a step can do, seen from the socket. -/
inductive Change (l : Loop) : LoopAction → Loop → Prop
  | arrive (d : Datagram) : Change l (.arrive d)
      { l with queue := l.queue ++ [d], edge := true, arrived := l.arrived ++ [d] }
  | wait (hp : l.phase = .waiting) (he : l.edge = true) :
    Change l .wait { l with phase := .ready, edge := false }
  | read (env : Env) (hub : Hub) (d : Datagram) (rest : List Datagram) (hp : l.phase = .ready)
      (hq : l.queue = d :: rest) (hh : l.hub.step (.datagram d.theirAddr d.bytes, env) = some hub) :
    Change l (.incomingData env)
      { l with hub, phase := .waiting, queue := rest, processed := l.processed ++ [d] }
  | hub (a : LoopAction) (hub : Hub) (ha : ∀ d, a ≠ .arrive d)
      (hh : hub = l.hub ∨ ∃ call, l.hub.step call = some hub) : Change l a { l with hub }

theorem step_change (hs : l.step a = some l') : Change l a l' := by
  cases a with
  | arrive d =>
    cases hs
    exact .arrive d
  | wait =>
    simp only [step, Option.ite_none_right_eq_some, Option.some.injEq] at hs
    obtain ⟨⟨hp, he⟩, rfl⟩ := hs
    exact .wait hp he
  | interrupted =>
    simp only [step, Option.ite_none_right_eq_some, Option.some.injEq] at hs
    obtain ⟨-, rfl⟩ := hs
    exact .hub _ l.hub nofun (Or.inl rfl)
  | timeout env =>
    simp only [step, Option.ite_none_right_eq_some] at hs
    obtain ⟨-, hs⟩ := hs
    obtain ⟨hub, hh, rfl⟩ := Option.map_eq_some_iff.mp hs
    exact .hub _ hub nofun (Or.inr ⟨_, hh⟩)
  | incomingData env =>
    simp only [step] at hs
    split at hs
    · rename_i d rest hp hq
      obtain ⟨hub, hh, rfl⟩ := Option.map_eq_some_iff.mp hs
      exact .read env hub d rest hp hq hh
    · cases hs
  | other call =>
    simp only [step] at hs
    split at hs
    · cases hs
    · obtain ⟨hub, hh, rfl⟩ := Option.map_eq_some_iff.mp hs
      exact .hub _ hub nofun (Or.inr ⟨_, hh⟩)

theorem Sound.step (hs : l.step a = some l') (hi : Sound l) : Sound l' := by
  obtain ⟨harr, howed⟩ := hi
  unfold Loop.owed at howed
  cases step_change hs with
  | arrive d =>
    constructor
    · rw [harr, List.append_assoc]
    · simp only [Loop.owed, List.length_append, List.length_singleton, if_true]
      split_ifs at howed ⊢ <;> omega
  | wait hp he =>
    rw [if_neg (by rw [hp]; nofun), if_pos he] at howed
    exact ⟨harr, howed⟩
  | read env hub d rest hp hq hh =>
    constructor
    · change l.arrived = (l.processed ++ [d]) ++ rest
      rw [harr, hq, List.append_assoc, List.singleton_append]
    · rw [if_pos hp, hq, List.length_cons] at howed
      change 0 + (if l.edge = true then 1 else 0) ≤ rest.length
      omega
  | hub a hub ha hh => exact ⟨harr, howed⟩

/-- The surplus over the events rises with a datagram that is not spaced, and never falls. -/
theorem even_step_iff (hs : l.step a = some l') (hi : Sound l) :
    Even l' ↔ Even l ∧ l.Spaced a := by
  have howed := hi.owed
  unfold Even owed at *
  cases step_change hs with
  | arrive d =>
    simp only [Spaced, List.length_append, List.length_singleton, if_true]
    cases he : l.edge with
    | false =>
      simp only [he, Bool.false_eq_true, if_false, and_true] at howed ⊢
      omega
    | true =>
      simp only [he, if_true, Bool.true_eq_false, and_false, iff_false] at howed ⊢
      omega
  | wait hp he => simp [Spaced, hp, he]
  | read env hub d rest hp hq hh =>
    simp only [Spaced, hp, hq, if_true, List.length_cons, and_true]
    simp
    omega
  | hub a hub ha hh =>
    have hsp : l.Spaced a := by
      cases a with
      | arrive d => exact absurd rfl (ha d)
      | _ => trivial
    exact (and_iff_left hsp).symm

theorem reachable_step (hs : l.step a = some l') (hi : Reachable Hub.step Hub.Booted l.hub) :
    Reachable Hub.step Hub.Booted l'.hub := by
  cases step_change hs with
  | arrive d => exact hi
  | wait hp he => exact hi
  | read env hub d rest hp hq hh => exact hi.next hh
  | hub a hub ha hh =>
    rcases hh with rfl | ⟨call, hh⟩
    · exact hi
    · exact hi.next hh

theorem Blocks.owed (hb : l.Blocks) : l.owed = 0 := by
  simp [Loop.owed, hb.1, hb.2]

end Steps

/-- The hub in a run of the loop is one that the machine of the handlers reaches. -/
theorem hub_reachable {as : List LoopAction} {l : Loop} (hr : run step boot as = some l) :
    Reachable Hub.step Hub.Booted l.hub :=
  run_of_inv (I := fun l => Reachable Hub.step Hub.Booted l.hub) (fun _ _ _ => reachable_step) hr
    ⟨.boot, [], rfl, rfl⟩

/-- When the loop blocks, all that has arrived has been processed if and only if no datagram
has arrived while the `EPOLLIN` of an earlier one was still to be returned. -/
theorem datagrams_processed_iff {as : List LoopAction} {l : Loop} (hr : run step boot as = some l)
    (hb : l.Blocks) :
    l.queue = [] ∧ l.processed = l.arrived ↔ Guarded step Spaced boot as := by
  have hsound : Sound boot := ⟨rfl, Nat.zero_le 0⟩
  have heven : Even boot := rfl
  have hl : Sound l := run_of_inv (fun _ _ _ => Sound.step) hr hsound
  have halways : Always step Even boot as ↔ Guarded step Spaced boot as :=
    always_iff_guarded (H := Sound) (G := Spaced) (W := fun _ => True) (fun _ _ _ => Sound.step)
      (fun _ _ he => he) (fun s a s' hs _ hi he => ⟨fun hg => (even_step_iff hs hi).mpr ⟨he, hg⟩,
        fun he' => ((even_step_iff hs hi).mp he').2⟩) (fun _ _ => trivial) hsound heven
  rw [← halways]
  constructor
  · rintro ⟨hq, -⟩
    have hlast : Even l := by
      rw [Even, hb.owed, hq, List.length_nil]
    exact always_of_last (H := Sound) (fun _ _ _ => Sound.step)
      (fun s a s' hs hi he => ((even_step_iff hs hi).mp he).1) hr hsound hlast
  · intro hA
    have hlast : l.queue.length = l.owed := hA.last hr
    have hq : l.queue = [] := List.eq_nil_of_length_eq_zero (hlast.trans hb.owed)
    refine ⟨hq, ?_⟩
    rw [hl.arrived, hq, List.append_nil]

/-- The second datagram arrives after the event of the first has been returned. -/
def spacedArrivals : List LoopAction :=
  [.arrive ⟨default, []⟩, .wait, .arrive ⟨default, [1]⟩, .incomingData default, .wait,
    .incomingData default]

theorem datagrams_processed_iff_spaced : ∃ l, run step boot spacedArrivals = some l ∧ l.Blocks ∧
    l.arrived.length = 2 ∧
    (l.queue = [] ∧ l.processed = l.arrived ↔ Guarded step Spaced boot spacedArrivals) := by
  have hrun : ∃ l, run step boot spacedArrivals = some l ∧ l.phase = .waiting ∧
      l.edge = false ∧ l.arrived.length = 2 := ⟨_, rfl, rfl, rfl, rfl⟩
  obtain ⟨l, hr, hp, he, harr⟩ := hrun
  exact ⟨l, hr, ⟨hp, he⟩, harr, datagrams_processed_iff hr ⟨hp, he⟩⟩

/-- Both datagrams arrive before `epoll_wait` returns. -/
def coalescedArrivals : List LoopAction :=
  [.arrive ⟨default, []⟩, .arrive ⟨default, [1]⟩, .wait, .incomingData default]

/-- The second datagram stays in the queue, and no event for it is on its way. -/
theorem datagrams_processed_counterexample :
    ¬∀ as l, run step boot as = some l → l.Blocks → l.queue = [] ∧ l.processed = l.arrived := by
  intro hall
  have hrun : ∃ l, run step boot coalescedArrivals = some l ∧ l.phase = .waiting ∧
      l.edge = false ∧ l.queue = [⟨default, [1]⟩] := ⟨_, rfl, rfl, rfl, rfl⟩
  obtain ⟨l, hr, hp, he, hq⟩ := hrun
  have hnil : l.queue = [] := (hall _ l hr ⟨hp, he⟩).1
  rw [hq] at hnil
  cases hnil

end Loop
end Gpshub.GpsDataServer
