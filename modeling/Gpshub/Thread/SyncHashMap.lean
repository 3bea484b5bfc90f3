import Mathlib.Logic.Function.Basic
import Mathlib.Data.List.Basic

/-! The shared maps and sets. Each operation takes the lock, so it is one step. -/
namespace Gpshub

structure SyncHashMap (Key Data : Type) where
  map : Key → Option Data

namespace SyncHashMap

variable {Key Data : Type}

def empty : SyncHashMap Key Data := ⟨fun _ => none⟩

def count (m : SyncHashMap Key Data) (key : Key) : ℕ := if (m.map key).isSome then 1 else 0

theorem count_pos {m : SyncHashMap Key Data} {key : Key} :
    0 < m.count key ↔ ∃ data, m.map key = some data := by
  cases h : m.map key <;> simp [count, h]

theorem count_eq_zero {m : SyncHashMap Key Data} {key : Key} :
    m.count key = 0 ↔ m.map key = none := by
  cases h : m.map key <;> simp [count, h]

/-- What a map of pointers points to; a missing key counts as `NULL`. -/
def pointsTo {α : Type} (m : SyncHashMap Key (Option α)) (key : Key) : Option α :=
  (m.map key).join

theorem pointsTo_eq_some {α : Type} {m : SyncHashMap Key (Option α)} {key : Key}
    {a : α} :
    m.pointsTo key = some a ↔ m.map key = some (some a) :=
  Option.join_eq_some_iff

theorem pointsTo_of_none {α : Type} {m : SyncHashMap Key (Option α)} {key : Key}
    (hm : m.map key = none) : m.pointsTo key = none := by
  rw [pointsTo, hm]
  rfl

variable [DecidableEq Key]

def put (m : SyncHashMap Key Data) (key : Key) (data : Data) : SyncHashMap Key Data :=
  ⟨Function.update m.map key (some data)⟩

def erase (m : SyncHashMap Key Data) (key : Key) : SyncHashMap Key Data :=
  ⟨Function.update m.map key none⟩

@[simp] theorem map_put (m : SyncHashMap Key Data) (key : Key) (data : Data) :
    (m.put key data).map = Function.update m.map key (some data) := rfl

@[simp] theorem map_erase (m : SyncHashMap Key Data) (key : Key) :
    (m.erase key).map = Function.update m.map key none := rfl

/-- `return map[key]`: `operator[]` inserts `Data()` for a missing key. -/
def get [Inhabited Data] (m : SyncHashMap Key Data) (key : Key) : Data × SyncHashMap Key Data :=
  match m.map key with
  | some data => (data, m)
  | none => (default, m.put key default)

variable [Inhabited Data]

theorem get_of_some {m : SyncHashMap Key Data} {key : Key} {data : Data}
    (h : m.map key = some data) : m.get key = (data, m) := by
  simp only [get, h]

theorem get_of_none {m : SyncHashMap Key Data} {key : Key} (h : m.map key = none) :
    m.get key = (default, m.put key default) := by
  simp only [get, h]

theorem map_get (m : SyncHashMap Key Data) (key key' : Key) :
    (m.get key).2.map key' =
      if key' = key ∧ m.map key = none then some default else m.map key' := by
  cases h : m.map key with
  | some data => simp [get_of_some h]
  | none =>
    rw [get_of_none h, map_put]
    by_cases hk : key' = key
    · subst hk; simp
    · simp [hk]

theorem map_get_of_some {m : SyncHashMap Key Data} {key key' : Key} {data : Data}
    (h : m.map key' = some data) : (m.get key).2.map key' = some data := by
  rw [map_get]
  split_ifs with hk
  · rw [hk.1, hk.2] at h
    cases h
  · exact h

section PointsTo

variable {α : Type}

@[simp] theorem pointsTo_put (m : SyncHashMap Key (Option α)) (key : Key) (a : α) :
    (m.put key (some a)).pointsTo = Function.update m.pointsTo key (some a) := by
  funext k
  by_cases hk : k = key
  · subst hk; simp [pointsTo]
  · simp [pointsTo, hk]

@[simp] theorem pointsTo_erase (m : SyncHashMap Key (Option α)) (key : Key) :
    (m.erase key).pointsTo = Function.update m.pointsTo key none := by
  funext k
  by_cases hk : k = key
  · subst hk; simp [pointsTo]
  · simp [pointsTo, hk]

@[simp] theorem pointsTo_get (m : SyncHashMap Key (Option α)) (key : Key) :
    (m.get key).2.pointsTo = m.pointsTo := by
  funext k
  unfold pointsTo
  rw [map_get]
  split_ifs with hk
  · rw [hk.1, hk.2]
    rfl
  · rfl

theorem pointsTo_of_get (m : SyncHashMap Key (Option α)) (key : Key) :
    m.pointsTo key = (m.get key).1 := by
  unfold pointsTo get
  cases m.map key <;> rfl

end PointsTo

end SyncHashMap

/-- The order in which the hash table is gone through is not specified. -/
structure SyncHashSet (Item : Type) where
  set : List Item
  deriving DecidableEq, Repr

namespace SyncHashSet

variable {Item : Type} [DecidableEq Item]

def empty : SyncHashSet Item := ⟨[]⟩

def insert (s : SyncHashSet Item) (item : Item) : SyncHashSet Item :=
  if item ∈ s.set then s else ⟨s.set ++ [item]⟩

def erase (s : SyncHashSet Item) (item : Item) : SyncHashSet Item := ⟨s.set.filter (· ≠ item)⟩

end SyncHashSet
end Gpshub
