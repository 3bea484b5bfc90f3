import Gpshub.Socket.Epoll
import Mathlib.Logic.Function.Iterate

/-! `Epoll::loop`: the events of one batch, while the callbacks add and remove events. -/
namespace Gpshub.Epoll

def EPOLLERR : UInt32 := 0x8
def EPOLLHUP : UInt32 := 0x10
def EPOLLRDHUP : UInt32 := 0x2000

/-- An `EpollEvent*` -/
abbrev EventRef := ℕ

/-- `&stop_event` -/
def stopEvent : EventRef := 0

/-- An `epoll_event`: the pointer that was registered, and what has happened. -/
structure Entry where
  ptr : EventRef
  events : UInt32
  deriving DecidableEq, Repr

def Entry.ended (ev : Entry) : Prop :=
  ev.events &&& EPOLLERR ≠ 0 ∨ ev.events &&& EPOLLHUP ≠ 0 ∨ ev.events &&& EPOLLRDHUP ≠ 0

instance (ev : Entry) : Decidable ev.ended := inferInstanceAs (Decidable (_ ∨ _ ∨ _))

/-- An `EpollEvent`; `clbk` is whether a callback is set. -/
structure Watch where
  fd : ℕ
  clbk : Bool
  events : UInt32
  deriving DecidableEq, Repr

/-- A call made by a callback, with whether `epoll_ctl` succeeds. -/
inductive Call
  | addEvent (ctl : Bool)
  | removeEvent (ctl : Bool)
  deriving DecidableEq, Repr

/-- Why a batch is left before its end. -/
inductive Failure
  | epollException
  /-- `events[i]` is not what `epoll_wait` has written. -/
  | badEvent
  deriving DecidableEq, Repr

/-- What comes from outside while one event is handled: the calls its callback makes, and for
the stop pipe the answers of `epoll_ctl` and `pipe`. -/
structure Reaction where
  calls : List Call
  unwatch : Bool
  pipe : Option ℕ
  watch : Bool

def makeCall (c : Call) (e : Epoll Entry) : Except Failure (Epoll Entry) :=
  let (e, done) := match c with
    | .addEvent ctl => e.addEvent ctl
    | .removeEvent ctl => e.removeEvent ctl
  if done then .ok e else .error .epollException

/-- No callback catches an `EpollException`. -/
def makeCalls : List Call → Epoll Entry → Except Failure (Epoll Entry)
  | [], e => .ok e
  | c :: rest, e =>
    match makeCall c e with
    | .ok e => makeCalls rest e
    | .error f => .error f

/-- The `Epoll`, the records that were registered, and `stop_pipe[0]`. -/
structure Poller where
  epl : Epoll Entry
  watches : EventRef → Watch
  stopPipe : ℕ

namespace Poller

/-- `eev->events = events[i].events` -/
def setEvents (p : Poller) (ev : Entry) : Poller :=
  { p with
    watches := Function.update p.watches ev.ptr
      { p.watches ev.ptr with events := ev.events } }

/-- What `initStopPipe` writes for a new pipe. -/
def setStopPipe (p : Poller) (fd : ℕ) : Poller :=
  { p with
    stopPipe := fd
    watches := Function.update p.watches stopEvent
      { p.watches stopEvent with fd, clbk := false } }

def call (calls : List Call) (p : Poller) : Except Failure Poller :=
  match makeCalls calls p.epl with
  | .ok epl => .ok { p with epl }
  | .error f => .error f

def initStopPipe (r : Reaction) (p : Poller) : Except Failure Poller :=
  match r.pipe with
  | none => .error .epollException
  | some fd => (p.setStopPipe fd).call [.addEvent r.watch]

/-- The stop pipe has ended, and a new one is opened. -/
def reopen (r : Reaction) (p : Poller) : Except Failure Poller :=
  match p.call [.removeEvent r.unwatch] with
  | .ok p => p.initStopPipe r
  | .error f => .error f

/-- `end_event_clbk` or the callback of the event is run. -/
def dispatch (ev : Entry) (r : Reaction) (p : Poller) : Except Failure Poller :=
  if ev.ended then
    if (p.watches ev.ptr).fd ≠ p.stopPipe then p.call r.calls
    else p.reopen r
  else if (p.watches ev.ptr).clbk then p.call r.calls
  else .ok p

/-- The loop over a batch from its `i`-th event on, with `rounds` to go: the events that are
handled, each as its callback finds it, and why the batch is left. -/
def loop (r : ℕ → Reaction) : ℕ → ℕ → Poller → List Entry × Option Failure
  | 0, _, _ => ([], none)
  | rounds + 1, i, p =>
    match p.epl.events[i]? with
    | none => ([], some .badEvent)
    | some ev =>
      let p := p.setEvents ev
      let handled : Entry := ⟨ev.ptr, (p.watches ev.ptr).events⟩
      match p.dispatch ev (r i) with
      | .error f => ([handled], some f)
      | .ok p =>
        let (rest, f) := loop r rounds (i + 1) p
        (handled :: rest, f)

/-- `epoll_wait` has returned `evs`. -/
def wait (p : Poller) (evs : List Entry) : Poller := { p with epl := p.epl.wait evs }

end Poller

def Call.count (nevents : ℕ) : Call → ℕ
  | .addEvent _ => nevents + 1
  | .removeEvent _ => nevents - 1

/-- The call succeeds, and the array stays where it is. -/
def Call.Quiet (e : Epoll Entry) : Call → Prop
  | .addEvent ctl => ctl = true ∧ e.nevents < e.eventsSize
  | .removeEvent ctl => ctl = true ∧ e.eventsSize < e.nevents - 1 + 2 * e.edelta

/-- All calls do. -/
def QuietCalls : List Call → Epoll Entry → Prop
  | [], _ => True
  | c :: rest, e => c.Quiet e ∧ QuietCalls rest { e with nevents := c.count e.nevents }

section Calls

variable {e e' : Epoll Entry} {c : Call} {calls : List Call}

theorem makeCall_quiet (hc : c.Quiet e) :
    makeCall c e = .ok { e with nevents := c.count e.nevents } := by
  cases c with
  | addEvent ctl =>
    obtain ⟨rfl, hroom⟩ := hc
    have hstay : ¬e.eventsSize < e.nevents + 1 := by omega
    simp [makeCall, Epoll.addEvent, hstay, Call.count]
  | removeEvent ctl =>
    obtain ⟨rfl, htight⟩ := hc
    have hstay : ¬e.nevents - 1 + 2 * e.edelta ≤ e.eventsSize := by omega
    simp [makeCall, Epoll.removeEvent, hstay, Call.count]

/-- A call that is not quiet throws, or leaves an array that has not been written. -/
theorem makeCall_not_quiet (hc : ¬c.Quiet e) (hok : makeCall c e = .ok e') :
    e'.events = [] := by
  cases c with
  | addEvent ctl =>
    cases ctl with
    | false => simp [makeCall, Epoll.addEvent] at hok
    | true =>
      have hfull : e.eventsSize < e.nevents + 1 := by
        by_contra hroom
        exact hc ⟨rfl, by omega⟩
      simp only [makeCall, Epoll.addEvent, if_pos hfull, if_true, Except.ok.injEq] at hok
      rw [← hok]
  | removeEvent ctl =>
    cases ctl with
    | false => simp [makeCall, Epoll.removeEvent] at hok
    | true =>
      have hloose : e.nevents - 1 + 2 * e.edelta ≤ e.eventsSize := by
        by_contra htight
        exact hc ⟨rfl, by omega⟩
      simp only [makeCall, Epoll.removeEvent, if_pos hloose, if_true, Except.ok.injEq] at hok
      rw [← hok]

theorem makeCall_unwritten (he : e.events = []) (hok : makeCall c e = .ok e') :
    e'.events = [] := by
  by_cases hc : c.Quiet e
  · rw [makeCall_quiet hc] at hok
    cases hok
    exact he
  · exact makeCall_not_quiet hc hok

theorem makeCalls_unwritten (calls : List Call) :
    ∀ {e : Epoll Entry}, e.events = [] → makeCalls calls e = .ok e' → e'.events = [] := by
  induction calls with
  | nil =>
    intro e he hok
    cases hok
    exact he
  | cons c rest ih =>
    intro e he hok
    rw [makeCalls] at hok
    cases h1 : makeCall c e with
    | error f =>
      rw [h1] at hok
      cases hok
    | ok e1 =>
      rw [h1] at hok
      exact ih (makeCall_unwritten he h1) hok

theorem makeCalls_quiet (calls : List Call) : ∀ {e : Epoll Entry}, QuietCalls calls e →
    makeCalls calls e = .ok { e with nevents := calls.foldl Call.count e.nevents } := by
  induction calls with
  | nil => exact fun _ => rfl
  | cons c rest ih =>
    intro e hq
    rw [makeCalls, makeCall_quiet hq.1]
    exact ih hq.2

theorem makeCalls_not_quiet (calls : List Call) : ∀ {e : Epoll Entry}, ¬QuietCalls calls e →
    makeCalls calls e = .ok e' → e'.events = [] := by
  induction calls with
  | nil => exact fun hq => absurd trivial hq
  | cons c rest ih =>
    intro e hq hok
    rw [makeCalls] at hok
    by_cases hc : c.Quiet e
    · rw [makeCall_quiet hc] at hok
      exact ih (fun hrest => hq ⟨hc, hrest⟩) hok
    · cases h1 : makeCall c e with
      | error f =>
        rw [h1] at hok
        cases hok
      | ok e1 =>
        rw [h1] at hok
        exact makeCalls_unwritten rest (makeCall_not_quiet hc h1) hok

end Calls

namespace Poller

/-- The calls made while the event is handled, when none of them throws. -/
def callsOf (p : Poller) (ev : Entry) (r : Reaction) : List Call :=
  if ev.ended then
    if (p.watches ev.ptr).fd ≠ p.stopPipe then r.calls
    else [.removeEvent r.unwatch, .addEvent r.watch]
  else if (p.watches ev.ptr).clbk then r.calls
  else []

/-- The stop pipe after the event; `none` when it had to be opened again and `pipe` failed. -/
def renewed (p : Poller) (ev : Entry) (r : Reaction) : Option Poller :=
  if ev.ended ∧ (p.watches ev.ptr).fd = p.stopPipe then r.pipe.map p.setStopPipe else some p

/-- The number of events after the calls. -/
def counted (p : Poller) (calls : List Call) : Poller :=
  { p with epl := { p.epl with nevents := calls.foldl Call.count p.epl.nevents } }

/-- For each event from the `i`-th on but the last one, no call fails or moves the array. -/
def Steady (r : ℕ → Reaction) : List Entry → ℕ → Poller → Prop
  | ev :: next :: rest, i, p =>
    ∃ q, (p.setEvents ev).renewed ev (r i) = some q ∧
      QuietCalls ((p.setEvents ev).callsOf ev (r i)) q.epl ∧
      Steady r (next :: rest) (i + 1) (q.counted ((p.setEvents ev).callsOf ev (r i)))
  | _, _, _ => True

section Batch

variable {p p' : Poller} {ev : Entry}

theorem renewed_epl {r : Reaction} {q : Poller} (hq : p.renewed ev r = some q) :
    q.epl = p.epl := by
  unfold renewed at hq
  split_ifs at hq
  · obtain ⟨fd, -, rfl⟩ := Option.map_eq_some_iff.mp hq
    rfl
  · cases hq
    rfl

theorem call_eq_ok {calls : List Call} : p.call calls = .ok p' ↔
    ∃ epl, makeCalls calls p.epl = .ok epl ∧ p' = { p with epl } := by
  unfold call
  cases makeCalls calls p.epl with
  | error f => simp
  | ok epl =>
    constructor
    · intro h
      cases h
      exact ⟨epl, rfl, rfl⟩
    · rintro ⟨_, h, rfl⟩
      cases h
      rfl

/-- In the `Epoll` itself opening the stop pipe again is a removal and an addition. -/
theorem reopen_eq_ok {r : Reaction} : p.reopen r = .ok p' ↔ ∃ fd, r.pipe = some fd ∧
    (p.setStopPipe fd).call [.removeEvent r.unwatch, .addEvent r.watch] = .ok p' := by
  unfold reopen initStopPipe call makeCalls
  cases hrem : makeCall (.removeEvent r.unwatch) p.epl with
  | error f => simp [setStopPipe, hrem]
  | ok e =>
    cases r.pipe with
    | none => simp [makeCalls]
    | some fd => simp [makeCalls, setStopPipe, hrem]

theorem dispatch_eq_ok {r : Reaction} : p.dispatch ev r = .ok p' ↔
    ∃ q, p.renewed ev r = some q ∧ q.call (p.callsOf ev r) = .ok p' := by
  unfold dispatch renewed callsOf
  by_cases hend : ev.ended
  · by_cases hfd : (p.watches ev.ptr).fd = p.stopPipe
    · simp only [hend, hfd, if_true, not_true, ne_eq, and_self, if_false, reopen_eq_ok,
        Option.map_eq_some_iff]
      constructor
      · rintro ⟨fd, hpipe, hcall⟩
        exact ⟨_, ⟨fd, hpipe, rfl⟩, hcall⟩
      · rintro ⟨q, ⟨fd, hpipe, rfl⟩, hcall⟩
        exact ⟨fd, hpipe, hcall⟩
    · simp [hend, hfd]
  · by_cases hclbk : (p.watches ev.ptr).clbk
    · simp [hend, hclbk]
    · simp [hend, hclbk, call, makeCalls]

theorem events_setEvents : ((p.setEvents ev).watches ev.ptr).events = ev.events := by
  simp [setEvents]

theorem loop_unwritten (r : ℕ → Reaction) (hp : p.epl.events = []) (rounds i : ℕ) :
    (p.loop r rounds i).1 = [] := by
  cases rounds with
  | zero => rfl
  | succ rounds => simp [loop, hp]

theorem loop_eq_iff (r : ℕ → Reaction) (evs : List Entry) : ∀ {i : ℕ} {p : Poller},
    (∀ j, p.epl.events[i + j]? = evs[j]?) →
      ((p.loop r evs.length i).1 = evs ↔ Steady r evs i p) := by
  induction evs with
  | nil => exact fun _ => iff_of_true rfl trivial
  | cons ev rest ih =>
    intro i p hread
    have hev : p.epl.events[i]? = some ev := hread 0
    rw [List.length_cons, loop, hev]
    dsimp only
    rw [events_setEvents]
    cases hd : (p.setEvents ev).dispatch ev (r i) with
    | error f =>
      cases rest with
      | nil => exact iff_of_true rfl trivial
      | cons next rest =>
        refine iff_of_false (by simp) fun hsteady => ?_
        obtain ⟨q, hq, hquiet, -⟩ := hsteady
        have hcall := call_eq_ok.mpr ⟨_, makeCalls_quiet _ hquiet, rfl⟩
        rw [dispatch_eq_ok.mpr ⟨q, hq, hcall⟩] at hd
        cases hd
    | ok p' =>
      obtain ⟨q, hq, hcall⟩ := dispatch_eq_ok.mp hd
      obtain ⟨epl, hmade, rfl⟩ := call_eq_ok.mp hcall
      cases rest with
      | nil => exact iff_of_true rfl trivial
      | cons next rest =>
        dsimp only
        rw [List.cons_inj_right]
        by_cases hquiet : QuietCalls ((p.setEvents ev).callsOf ev (r i)) q.epl
        · rw [makeCalls_quiet _ hquiet] at hmade
          cases hmade
          have hread' (j : ℕ) : (q.counted ((p.setEvents ev).callsOf ev (r i))).epl.events[i + 1 + j]? =
              (next :: rest)[j]? := by
            have hnext := hread (j + 1)
            rw [← Nat.add_assoc, Nat.add_right_comm] at hnext
            change q.epl.events[i + 1 + j]? = _
            rw [renewed_epl hq]
            exact hnext
          refine (ih hread').trans ⟨fun hsteady => ⟨q, hq, hquiet, hsteady⟩, fun hsteady => ?_⟩
          obtain ⟨q', hq', -, hrest⟩ := hsteady
          cases hq.symm.trans hq'
          exact hrest
        · have hempty : epl.events = [] := makeCalls_not_quiet _ hquiet hmade
          rw [loop_unwritten r hempty]
          refine iff_of_false nofun fun hsteady => ?_
          obtain ⟨q', hq', hquiet', -⟩ := hsteady
          cases hq.symm.trans hq'
          exact hquiet hquiet'

end Batch

/-- A batch is dispatched completely, each event once and as `epoll_wait` returned it, exactly
if no call made before the last event fails, finds the array full, or leaves it with two
increments to spare. -/
theorem batch_dispatched_iff (r : ℕ → Reaction) (evs : List Entry) (p : Poller) :
    ((p.wait evs).loop r evs.length 0).1 = evs ↔ Steady r evs 0 (p.wait evs) := by
  apply loop_eq_iff
  intro j
  rw [Nat.zero_add]
  rfl

/-- An `Epoll` with 64 events, which fill the array; the events 1 and 2 have callbacks. -/
def full : Poller where
  epl := (fun e => (e.addEvent true).1)^[63] (Epoll.new Epoll.DEFAULT_EDELTA)
  watches := fun ref => ⟨ref + 3, ref ≠ stopEvent, 0⟩
  stopPipe := 3

/-- The callback of the first event adds an event. -/
def accepts (i : ℕ) : Reaction where
  calls := if i = 0 then [.addEvent true] else []
  unwatch := true
  pipe := none
  watch := true

theorem batch_dispatched_counterexample : ¬∀ (r : ℕ → Reaction) (evs : List Entry) (p : Poller),
    evs.length ≤ p.epl.eventsSize → ((p.wait evs).loop r evs.length 0).1 = evs := by
  intro hall
  have hloop := hall accepts [⟨1, 1⟩, ⟨2, 1⟩] full (by decide +kernel)
  have hfirst : ((full.wait [⟨1, 1⟩, ⟨2, 1⟩]).loop accepts 2 0).1 = [⟨1, 1⟩] := by decide +kernel
  rw [List.length_cons, List.length_singleton, hfirst] at hloop
  cases hloop

end Poller
end Gpshub.Epoll
