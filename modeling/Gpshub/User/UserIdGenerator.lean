import Gpshub.Lib.Rotor
import Gpshub.User.User

/-! The id generator. -/
namespace Gpshub

/-- A `User*` that is not `NULL`. -/
abbrev UserRef := ℕ

abbrev IdUserMap := SyncHashMap Int32 (Option UserRef)

abbrev NickUserMap := SyncHashMap Nick (Option UserRef)

namespace UserIdGenerator

/-- `ULONG_MAX` where `unsigned long` has 64 bits. -/
def ULONG_MAX : ℕ := 2 ^ 64 - 1

/-- The test that ends the loop of `generate`. -/
def isFree (idUmap : IdUserMap) (current : UInt32) : Prop :=
  idUmap.count current.toInt32 = 0 ∧ 0 < current

instance (idUmap : IdUserMap) (current : UInt32) : Decidable (isFree idUmap current) :=
  inferInstanceAs (Decidable (_ ∧ _))

/-- The loop of `generate` for at most `rounds` rounds: the id and the new `current`. -/
def generateLoop (ulongMax : ℕ) (idUmap : IdUserMap) :
    ℕ → UInt32 → UInt32 → Option (UInt32 × UInt32)
  | 0, _, _ => none
  | rounds + 1, n, current =>
    if n.toNat ≤ ulongMax then
      let current := current + 1
      if isFree idUmap current then some (current, current)
      else generateLoop ulongMax idUmap rounds (n + 1) current
    else some (0, current)

/-- `generate()`; the map does not change meanwhile. After `2 ^ 32` rounds the counters are
back where they were: `none` says that the loop never ends. -/
def generate (ulongMax : ℕ) (idUmap : IdUserMap) (current : UInt32) : Option (UInt32 × UInt32) :=
  generateLoop ulongMax idUmap (2 ^ 32) 0 current

theorem generateLoop_eq_some {ulongMax : ℕ} {idUmap : IdUserMap} {rounds : ℕ} :
    ∀ {n current id next : UInt32},
      generateLoop ulongMax idUmap rounds n current = some (id, next) →
      id = 0 ∨ id ≠ 0 ∧ next = id ∧ idUmap.map id.toInt32 = none := by
  induction rounds with
  | zero => intro n current id next h; cases h
  | succ rounds ih =>
    intro n current id next h
    simp only [generateLoop] at h
    split_ifs at h with hn hfree
    · simp only [Option.some.injEq, Prod.mk.injEq] at h
      obtain ⟨rfl, rfl⟩ := h
      exact Or.inr ⟨UInt32.pos_iff_ne_zero.mp hfree.2, rfl, SyncHashMap.count_eq_zero.mp hfree.1⟩
    · exact ih h
    · simp only [Option.some.injEq, Prod.mk.injEq] at h
      exact Or.inl h.1.symm

theorem generate_eq_some {ulongMax : ℕ} {idUmap : IdUserMap} {current id next : UInt32}
    (h : generate ulongMax idUmap current = some (id, next)) :
    id = 0 ∨ id ≠ 0 ∧ next = id ∧ idUmap.map id.toInt32 = none :=
  generateLoop_eq_some h

/-- The id after `current`. -/
def nextId (current : UInt32) : UInt32 := current + 1

theorem iterate_nextId (k : ℕ) (current : UInt32) :
    nextId^[k] current = current + .ofNat k := by
  induction k generalizing current with
  | zero => simp
  | succ k ih =>
    have hk : UInt32.ofNat (k + 1) = 1 + .ofNat k := by
      rw [Nat.add_comm, UInt32.ofNat_add]
      rfl
    rw [Function.iterate_succ_apply, ih, nextId, hk, UInt32.add_assoc]

theorem exists_iterate_nextId (current id : UInt32) :
    ∃ k, 0 < k ∧ k ≤ 2 ^ 32 ∧ nextId^[k] current = id := by
  simp only [iterate_nextId]
  have hsub : current + (id - current) = id := by
    rw [UInt32.add_comm, UInt32.sub_add_cancel]
  by_cases hd : id - current = 0
  · refine ⟨2 ^ 32, by decide, le_rfl, ?_⟩
    rw [hd] at hsub
    exact hsub
  · refine ⟨(id - current).toNat, ?_, (id - current).toNat_lt.le, ?_⟩
    · exact Nat.pos_of_ne_zero fun h0 => hd (UInt32.toNat_inj.mp h0)
    · rw [UInt32.ofNat_toNat, hsub]

section Search

variable {ulongMax : ℕ} {idUmap : IdUserMap} {current : UInt32}

theorem isFree_iff {id : UInt32} :
    isFree idUmap id ↔ id ≠ 0 ∧ idUmap.map id.toInt32 = none := by
  rw [isFree, SyncHashMap.count_eq_zero, UInt32.pos_iff_ne_zero]
  exact and_comm

/-- A counter of 32 bits never exceeds `ULONG_MAX`: the loop is left at a free id only. -/
theorem generateLoop_eq_search (hmax : 2 ^ 32 - 1 ≤ ulongMax) (rounds : ℕ) :
    ∀ n current, generateLoop ulongMax idUmap rounds n current =
      (Lib.Rotor.search nextId (isFree idUmap) rounds current).map fun id => (id, id) := by
  induction rounds with
  | zero => intro n current; rfl
  | succ rounds ih =>
    intro n current
    have hn : n.toNat ≤ ulongMax := by
      have := n.toNat_lt
      omega
    rw [generateLoop, Lib.Rotor.search, if_pos hn]
    change (if isFree idUmap (nextId current) then some (nextId current, nextId current)
      else generateLoop ulongMax idUmap rounds (n + 1) (nextId current)) = _
    rw [ih]
    split_ifs
    · rfl
    · rfl

/-- Some id other than `0` is not a key of the map. -/
def IdLeft (idUmap : IdUserMap) : Prop := ∃ id : UInt32, id ≠ 0 ∧ idUmap.map id.toInt32 = none

theorem generate_of_idLeft (hmax : 2 ^ 32 - 1 ≤ ulongMax) (hleft : IdLeft idUmap)
    (current : UInt32) : ∃ id, generate ulongMax idUmap current = some (id, id) ∧
      ∃ k ≤ 2 ^ 32, Lib.Rotor.FirstAfter nextId (isFree idUmap) current k id := by
  obtain ⟨id, hid⟩ := hleft
  obtain ⟨k, hk, hle, hkid⟩ := exists_iterate_nextId current id
  have hfree : isFree idUmap (nextId^[k] current) := by
    rw [hkid]
    exact isFree_iff.mpr hid
  obtain ⟨id, hs, hfirst⟩ := Lib.Rotor.exists_search hk hle hfree
  refine ⟨id, ?_, hfirst⟩
  rw [generate, generateLoop_eq_search hmax, hs]
  rfl

theorem first_of_generate (hmax : 2 ^ 32 - 1 ≤ ulongMax) {id next : UInt32}
    (h : generate ulongMax idUmap current = some (id, next)) :
    next = id ∧ ∃ k, Lib.Rotor.FirstAfter nextId (isFree idUmap) current k id := by
  rw [generate, generateLoop_eq_search hmax] at h
  obtain ⟨q, hq, he⟩ := Option.map_eq_some_iff.mp h
  cases he
  obtain ⟨k, -, hf⟩ := Lib.Rotor.search_eq_some hq
  exact ⟨rfl, k, hf⟩

theorem generateLoop_of_not_idLeft (hmax : 2 ^ 32 - 1 ≤ ulongMax) (hfull : ¬IdLeft idUmap)
    (rounds : ℕ) (n current : UInt32) :
    generateLoop ulongMax idUmap rounds n current = none := by
  rw [generateLoop_eq_search hmax, Option.map_eq_none_iff, Lib.Rotor.search_eq_none]
  intro k _ _ hfree
  exact hfull ⟨_, isFree_iff.mp hfree⟩

end Search

end UserIdGenerator
end Gpshub
