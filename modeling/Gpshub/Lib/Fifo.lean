import Mathlib.Algebra.GroupWithZero.Nat
import Mathlib.Data.Int.Notation
import Mathlib.Data.List.Basic

/-! First-in first-out queues: their calls, what these answer, and when an implementation
answers the same. -/
namespace Lib.Fifo

variable {α σ ε : Type*}

inductive Call (α : Type*)
  | add (items : List α)
  | get (len : ℕ)
  | read (len : ℕ)
  | size
  deriving DecidableEq, Repr

/-- What a call returns, and the items it hands out. -/
inductive Answer (α : Type*)
  | added (n : ℕ)
  | got (n : ℕ) (items : List α)
  | size (n : ℤ)
  deriving DecidableEq, Repr

namespace Call

/-- The items a call brings. -/
def given : Call α → List α
  | .add items => items
  | _ => []

/-- The number of items a call takes away. -/
def taken : Call α → ℕ
  | .get len => len
  | _ => 0

end Call

/-- All items brought, in order. -/
def given (calls : List (Call α)) : List α := calls.flatMap Call.given

def taken (calls : List (Call α)) : ℕ := (calls.map Call.taken).sum

@[simp] theorem given_nil : given ([] : List (Call α)) = [] := rfl

@[simp] theorem given_cons (k : Call α) (ks : List (Call α)) :
    given (k :: ks) = k.given ++ given ks := List.flatMap_cons

@[simp] theorem given_append (ks ls : List (Call α)) : given (ks ++ ls) = given ks ++ given ls :=
  List.flatMap_append

@[simp] theorem taken_nil : taken ([] : List (Call α)) = 0 := rfl

@[simp] theorem taken_cons (k : Call α) (ks : List (Call α)) :
    taken (k :: ks) = k.taken + taken ks := by
  simp [taken]

/-- One call of the queue that holds `q`, the oldest item first. -/
def call (q : List α) : Call α → List α × Answer α
  | .add items => (q ++ items, .added items.length)
  | .get len => (q.drop len, .got len (q.take len))
  | .read len => (q, .got len (q.take len))
  | .size => (q, .size q.length)

def play (q : List α) : List (Call α) → List α × List (Answer α)
  | [] => (q, [])
  | k :: ks =>
    let (q, a) := call q k
    let (q, as) := play q ks
    (q, a :: as)

/-- The calls of an implementation `f` in order, until one fails. -/
def playOn (f : σ → Call α → Except ε (σ × Answer α)) :
    σ → List (Call α) → Except ε (σ × List (Answer α))
  | s, [] => .ok (s, [])
  | s, k :: ks => do
    let (s, a) ← f s k
    let (s, as) ← playOn f s ks
    return (s, a :: as)

/-- The refinement rule. `R ks s q` relates a state to the queue it stands for when the calls
`ks` are still to come. -/
theorem playOn_eq {f : σ → Call α → Except ε (σ × Answer α)}
    {R : List (Call α) → σ → List α → Prop}
    (hstep : ∀ k ks s q, R (k :: ks) s q →
      ∃ s', f s k = .ok (s', (call q k).2) ∧ R ks s' (call q k).1) {ks : List (Call α)} :
    ∀ {s : σ} {q : List α}, R ks s q →
      ∃ s', playOn f s ks = .ok (s', (play q ks).2) ∧ R [] s' (play q ks).1 := by
  induction ks with
  | nil => exact fun {s q} hR => ⟨s, rfl, hR⟩
  | cons k ks ih =>
    intro s q hR
    obtain ⟨s1, hf, hR1⟩ := hstep k ks s q hR
    obtain ⟨s', hplay, hR'⟩ := ih hR1
    refine ⟨s', ?_, hR'⟩
    rw [playOn, hf]
    change (do let (s, as) ← playOn f s1 ks; pure (s, (call q k).2 :: as)) = _
    rw [hplay]
    rfl

end Lib.Fifo
