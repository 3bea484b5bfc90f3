import Gpshub.Lib.Machine
import Gpshub.Socket.EpollLoop
import Mathlib.Algebra.GroupWithZero.Nat

/-! The size of the array of an `Epoll`, over all sequences of `addEvent` and `removeEvent`. -/
namespace Gpshub.Epoll
open Lib.Machine

/-- The greatest `int`. -/
def INT_MAX : ℕ := 2 ^ 31 - 1

/-- A call on an `Epoll`, with whether `epoll_ctl` succeeds. -/
inductive Operation
  | addEvent (eev : EventRef) (ctl : Bool)
  | removeEvent (eev : EventRef) (ctl : Bool)
  deriving DecidableEq, Repr

def Operation.ctl : Operation → Bool
  | .addEvent _ ctl => ctl
  | .removeEvent _ ctl => ctl

/-- An `Epoll` and the events that the kernel has registered for it. -/
structure Registry where
  epl : Epoll Entry
  registered : List EventRef

namespace Registry

/-- No sum the call forms exceeds an `int`; from such a call on C++ says nothing about the
program. -/
def Defined (s : Registry) : Operation → Prop
  | .addEvent _ _ => s.epl.nevents + 1 ≤ INT_MAX ∧
    (s.epl.eventsSize < s.epl.nevents + 1 → s.epl.eventsSize + s.epl.edelta ≤ INT_MAX)
  | .removeEvent _ ctl => ctl = true → s.epl.nevents - 1 + 2 * s.epl.edelta ≤ INT_MAX

instance (s : Registry) : ∀ op, Decidable (s.Defined op)
  | .addEvent _ _ => inferInstanceAs (Decidable (_ ∧ (_ → _)))
  | .removeEvent _ _ => inferInstanceAs (Decidable (_ → _))

/-- One call; the kernel removes only what is registered. -/
def step (s : Registry) (op : Operation) : Option Registry :=
  if s.Defined op then
    match op with
    | .addEvent eev ctl => some {
        epl := (s.epl.addEvent ctl).1
        registered := if ctl then eev :: s.registered else s.registered }
    | .removeEvent eev ctl =>
      if ctl = true ∧ eev ∉ s.registered then none
      else some {
        epl := (s.epl.removeEvent ctl).1
        registered := if ctl then s.registered.erase eev else s.registered }
  else none

/-- An `Epoll` as `init` leaves it to `initStopPipe`. -/
def Created (edelta : ℕ) (s : Registry) : Prop :=
  s = ⟨{ edelta, eventsSize := edelta, nevents := 0, events := [] }, []⟩

theorem step_created {edelta : ℕ} {s : Registry} (hs : Created edelta s) :
    s.step (.addEvent stopEvent true) = some ⟨Epoll.new edelta, [stopEvent]⟩ := by
  rw [hs, step, if_pos]
  · rfl
  · refine ⟨(by decide : 0 + 1 ≤ INT_MAX), fun hgrow => ?_⟩
    change edelta + edelta ≤ INT_MAX
    have hzero : edelta = 0 := Nat.lt_one_iff.mp hgrow
    omega

end Registry

/-- The array holds all events, and is less than two increments too long. -/
structure Sized (e : Epoll Entry) : Prop where
  fits : e.nevents ≤ e.eventsSize
  multiple : ∃ k, 0 < k ∧ e.eventsSize = k * e.edelta
  tight : e.eventsSize < e.nevents + 2 * e.edelta

section Sized

variable {e : Epoll Entry}

@[simp] theorem edelta_addEvent (ctl : Bool) : (e.addEvent ctl).1.edelta = e.edelta := by
  unfold addEvent
  cases ctl <;> dsimp only <;> split_ifs <;> rfl

@[simp] theorem edelta_removeEvent (ctl : Bool) : (e.removeEvent ctl).1.edelta = e.edelta := by
  unfold removeEvent
  cases ctl
  · rfl
  · dsimp only
    split_ifs <;> rfl

theorem nevents_addEvent (ctl : Bool) :
    (e.addEvent ctl).1.nevents = if ctl then e.nevents + 1 else e.nevents := by
  unfold addEvent
  cases ctl <;> dsimp only <;> split_ifs <;> rfl

theorem nevents_removeEvent (ctl : Bool) :
    (e.removeEvent ctl).1.nevents = if ctl then e.nevents - 1 else e.nevents := by
  unfold removeEvent
  cases ctl
  · rfl
  · dsimp only
    split_ifs <;> rfl

theorem eventsSize_addEvent (ctl : Bool) : (e.addEvent ctl).1.eventsSize =
    if e.eventsSize < e.nevents + 1 then e.eventsSize + e.edelta else e.eventsSize := by
  unfold addEvent
  cases ctl <;> dsimp only <;> split_ifs <;> rfl

theorem eventsSize_removeEvent (ctl : Bool) : (e.removeEvent ctl).1.eventsSize =
    if ctl = true ∧ e.nevents - 1 + 2 * e.edelta ≤ e.eventsSize then e.eventsSize - e.edelta
    else e.eventsSize := by
  unfold removeEvent
  cases ctl
  · rfl
  · dsimp only
    split_ifs <;> simp_all

/-- The array grows only when it is full, before the event is counted. -/
theorem Sized.addEvent (he : Sized e) (ctl : Bool) :
    Sized (e.addEvent ctl).1 := by
  obtain ⟨k, hk, hsize⟩ := he.multiple
  have hfits := he.fits
  have htight := he.tight
  constructor
  · rw [nevents_addEvent, eventsSize_addEvent]
    split_ifs <;> omega
  · rw [eventsSize_addEvent, edelta_addEvent]
    split_ifs
    · exact ⟨k + 1, k.succ_pos, by rw [hsize, Nat.succ_mul]⟩
    · exact ⟨k, hk, hsize⟩
  · rw [nevents_addEvent, eventsSize_addEvent, edelta_addEvent]
    split_ifs <;> omega

/-- It shrinks only when two increments are to spare, after the event is no longer counted. -/
theorem Sized.removeEvent (he : Sized e) (hpos : 1 ≤ e.edelta) (ctl : Bool) :
    Sized (e.removeEvent ctl).1 := by
  obtain ⟨k, hk, hsize⟩ := he.multiple
  have hfits := he.fits
  have htight := he.tight
  cases ctl with
  | false => exact he
  | true =>
    constructor
    · rw [nevents_removeEvent, eventsSize_removeEvent]
      simp only [if_true, true_and]
      split_ifs <;> omega
    · rw [eventsSize_removeEvent, edelta_removeEvent]
      simp only [true_and]
      split_ifs with hloose
      · have htwo : 2 * e.edelta ≤ k * e.edelta := by omega
        have hk2 : 2 ≤ k := Nat.le_of_mul_le_mul_right htwo hpos
        exact ⟨k - 1, by omega, by rw [hsize, Nat.sub_mul, Nat.one_mul]⟩
      · exact ⟨k, hk, hsize⟩
    · rw [nevents_removeEvent, eventsSize_removeEvent, edelta_removeEvent]
      simp only [if_true, true_and]
      split_ifs <;> omega

end Sized

namespace Registry

variable {s s' : Registry} {op : Operation} {edelta : ℕ}

theorem step_eq_some (hs : s.step op = some s') : s.Defined op ∧
    ((∃ eev, op = .addEvent eev op.ctl ∧ s'.epl = (s.epl.addEvent op.ctl).1 ∧
      s'.registered = if op.ctl then eev :: s.registered else s.registered) ∨
    ∃ eev, op = .removeEvent eev op.ctl ∧ (op.ctl = true → eev ∈ s.registered) ∧
      s'.epl = (s.epl.removeEvent op.ctl).1 ∧
      s'.registered = if op.ctl then s.registered.erase eev else s.registered) := by
  unfold step at hs
  split_ifs at hs with hd
  refine ⟨hd, ?_⟩
  cases op with
  | addEvent eev ctl =>
    cases hs
    exact Or.inl ⟨eev, rfl, rfl, rfl⟩
  | removeEvent eev ctl =>
    dsimp only at hs
    by_cases hmissing : ctl = true ∧ eev ∉ s.registered
    · rw [if_pos hmissing] at hs
      cases hs
    · rw [if_neg hmissing] at hs
      cases hs
      refine Or.inr ⟨eev, rfl, fun hctl => ?_, rfl, rfl⟩
      by_contra hmem
      exact hmissing ⟨hctl, hmem⟩

/-- What holds of an `Epoll` in use: the size, and that it counts the registered events. -/
structure InUse (edelta : ℕ) (s : Registry) : Prop where
  sized : Sized s.epl
  edelta_eq : s.epl.edelta = edelta
  counts : s.epl.nevents = s.registered.length

theorem InUse.of_created (hpos : 1 ≤ edelta) (hs : Created edelta s) : InUse edelta s := by
  rw [hs]
  refine ⟨⟨Nat.zero_le _, ⟨1, Nat.one_pos, (Nat.one_mul _).symm⟩, ?_⟩, rfl, rfl⟩
  change edelta < 0 + 2 * edelta
  omega

theorem InUse.step (hpos : 1 ≤ edelta) (hs : s.step op = some s') (hu : InUse edelta s) :
    InUse edelta s' := by
  have hdelta : 1 ≤ s.epl.edelta := by rwa [hu.edelta_eq]
  obtain ⟨-, ⟨eev, -, hepl, hreg⟩ | ⟨eev, -, hmem, hepl, hreg⟩⟩ := step_eq_some hs
  · refine ⟨?_, ?_, ?_⟩
    · rw [hepl]
      exact hu.sized.addEvent op.ctl
    · rw [hepl, edelta_addEvent, hu.edelta_eq]
    · rw [hepl, hreg, nevents_addEvent, hu.counts]
      split_ifs <;> rfl
  · refine ⟨?_, ?_, ?_⟩
    · rw [hepl]
      exact hu.sized.removeEvent hdelta op.ctl
    · rw [hepl, edelta_removeEvent, hu.edelta_eq]
    · rw [hepl, hreg, nevents_removeEvent, hu.counts]
      split_ifs with hctl
      · exact (List.length_erase_of_mem (hmem hctl)).symm
      · rfl

/-- No sum is too great while the events and two increments can be counted. -/
theorem InUse.defined (hpos : 1 ≤ edelta) (hu : InUse edelta s)
    (hroom : s.epl.nevents + 2 * edelta ≤ INT_MAX) (op : Operation) : s.Defined op := by
  have hdelta := hu.edelta_eq
  cases op with
  | addEvent eev ctl =>
    refine ⟨by omega, fun hgrow => ?_⟩
    rw [hdelta]
    omega
  | removeEvent eev ctl =>
    intro _
    rw [hdelta]
    omega

theorem nevents_of_fails (hs : s.step op = some s') (hfail : op.ctl = false) :
    s'.epl.nevents = s.epl.nevents := by
  obtain ⟨-, ⟨eev, -, hepl, -⟩ | ⟨eev, -, -, hepl, -⟩⟩ := step_eq_some hs
  · rw [hepl, nevents_addEvent, hfail]
    rfl
  · rw [hepl, nevents_removeEvent, hfail]
    rfl

end Registry

/-- In every reachable state the registered events are counted, the array holds them and is less
than two increments too long, and a call that throws leaves the count as it is. -/
theorem array_fits_events {edelta : ℕ} (hpos : 1 ≤ edelta) {s : Registry}
    (hr : Reachable Registry.step (Registry.Created edelta) s) :
    s.epl.nevents = s.registered.length ∧ s.epl.nevents ≤ s.epl.eventsSize ∧
      (∃ k, 0 < k ∧ s.epl.eventsSize = k * edelta) ∧
      s.epl.eventsSize < s.epl.nevents + 2 * edelta ∧
      ∀ op s', s.step op = some s' → op.ctl = false → s'.epl.nevents = s.epl.nevents := by
  have hu : Registry.InUse edelta s := reachable_of_inv (fun s => .of_created hpos)
    (fun s op s' => .step hpos) hr
  obtain ⟨k, hk, hsize⟩ := hu.sized.multiple
  have htight := hu.sized.tight
  rw [hu.edelta_eq] at hsize htight
  exact ⟨hu.counts, hu.sized.fits, ⟨k, hk, hsize⟩, htight,
    fun op s' => Registry.nevents_of_fails⟩

/-- Two events are added to an `Epoll` of one, the second only on the second attempt, and one is
removed. -/
def fewCalls : List Operation :=
  [.addEvent stopEvent true, .addEvent 1 false, .addEvent 1 true, .removeEvent 1 true]

theorem array_fits_events_few : ∃ s s',
    run Registry.step ⟨⟨1, 1, 0, []⟩, []⟩ fewCalls = some s ∧ s.registered = [stopEvent] ∧
      s.epl.nevents = s.registered.length ∧ s.epl.nevents ≤ s.epl.eventsSize ∧
      s.epl.eventsSize < s.epl.nevents + 2 * 1 ∧
      s.step (.removeEvent stopEvent false) = some s' ∧ s'.epl.nevents = s.epl.nevents := by
  obtain ⟨s, hrun, hreg⟩ : ∃ s, run Registry.step ⟨⟨1, 1, 0, []⟩, []⟩ fewCalls = some s ∧
    s.registered = [stopEvent] := ⟨_, rfl, rfl⟩
  obtain ⟨hcount, hfits, -, htight, hfail⟩ :=
    array_fits_events (Nat.le_refl 1) ⟨_, fewCalls, rfl, hrun⟩
  obtain ⟨s', hs⟩ : ∃ s', s.step (.removeEvent stopEvent false) = some s' := by
    cases hrun
    exact ⟨_, rfl⟩
  exact ⟨s, s', hrun, hreg, hcount, hfits, htight, hs, hfail _ s' hs rfl⟩

end Gpshub.Epoll
