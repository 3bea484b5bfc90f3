import Mathlib.Data.List.Basic

/-! `Epoll`: how many events are registered, and the array that `epoll_wait` fills. -/
namespace Gpshub

/-- `events` lists the entries that `epoll_wait` has written to the array: a newly allocated
array has none. -/
structure Epoll (Entry : Type) where
  edelta : ℕ
  eventsSize : ℕ
  nevents : ℕ
  events : List Entry
  deriving DecidableEq, Repr

namespace Epoll

variable {Entry : Type}

def DEFAULT_EDELTA : ℕ := 64

/-- `addEvent`; `ctl` is whether `epoll_ctl` succeeds, without which an `EpollException` is
thrown. -/
def addEvent (ctl : Bool) (e : Epoll Entry) : Epoll Entry × Bool :=
  let e :=
    if e.eventsSize < e.nevents + 1 then
      { e with eventsSize := e.eventsSize + e.edelta, events := [] }
    else e
  if ctl then ({ e with nevents := e.nevents + 1 }, true) else (e, false)

def removeEvent (ctl : Bool) (e : Epoll Entry) : Epoll Entry × Bool :=
  if ctl then
    let e := { e with nevents := e.nevents - 1 }
    if e.nevents + 2 * e.edelta ≤ e.eventsSize then
      ({ e with eventsSize := e.eventsSize - e.edelta, events := [] }, true)
    else (e, true)
  else (e, false)

/-- `Epoll(edelta)`; `init` registers the event of the stop pipe. -/
def new (edelta : ℕ) : Epoll Entry :=
  (addEvent true { edelta, eventsSize := edelta, nevents := 0, events := [] }).1

/-- `epoll_wait` has returned `evs`. -/
def wait (evs : List Entry) (e : Epoll Entry) : Epoll Entry := { e with events := evs }

end Epoll
end Gpshub
