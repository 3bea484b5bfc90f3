import Gpshub.Lib.RwLock
import Gpshub.Thread.SyncHashMap

/-! The calls of `SyncHashMap` access by access, under its lock: when they are the single steps that
the rest of the model takes them for. -/
namespace Gpshub.SyncHashMap
open Lib Lib.Machine

inductive MapCall (Key Data : Type)
  | put (key : Key) (data : Data)
  | get (key : Key)
  | count (key : Key)
  | erase (key : Key)

inductive MapResult (Data : Type)
  | done
  | data (data : Data)
  | number (n : ℕ)

/-- Where a call is. `operator[]` looks for the key and inserts a missing one; what it returns is
assigned to by `put`, and read by `get`. -/
inductive MapPoint (Key Data : Type)
  | find (key : Key) (assign : Option Data)
  | insert (key : Key) (assign : Option Data)
  | use (key : Key) (assign : Option Data)
  | count (key : Key)
  | erase (key : Key)

variable {Key Data : Type}

def MapPoint.mutates : MapPoint Key Data → Bool
  | .find _ _ => false
  | .insert _ _ => true
  | .use _ assign => assign.isSome
  | .count _ => false
  | .erase _ => true

section Calls

variable [DecidableEq Key] [Inhabited Data]

def access : MapPoint Key Data → SyncHashMap Key Data →
    SyncHashMap Key Data × (MapPoint Key Data ⊕ MapResult Data)
  | .find key assign, m =>
    (m, .inl (if 0 < m.count key then .use key assign else .insert key assign))
  | .insert key assign, m => (m.put key default, .inl (.use key assign))
  | .use key (some data), m => (m.put key data, .inr .done)
  | .use key none, m => (m, .inr (.data ((m.map key).getD default)))
  | .count key, m => (m, .inr (.number (m.count key)))
  | .erase key, m => (m.erase key, .inr .done)

/-- `put` and `erase` take the lock with `ScopeLockWr`, `get` and `count` with `ScopeLockRd`. -/
def shared (Key Data : Type) [DecidableEq Key] [Inhabited Data] :
    Shared (MapCall Key Data) (MapResult Data) (SyncHashMap Key Data) (MapPoint Key Data) where
  writes
    | .put _ _ => true
    | .get _ => false
    | .count _ => false
    | .erase _ => true
  start
    | .put key data => .find key (some data)
    | .get key => .find key none
    | .count key => .count key
    | .erase key => .erase key
  mutates := MapPoint.mutates
  access := access
  reads l m h := by
    cases l with
    | find | count => rfl
    | insert | erase => cases h
    | use key assign =>
      cases assign with
      | none => rfl
      | some data => cases h

/-- A call as one step. -/
def apply (m : SyncHashMap Key Data) : MapCall Key Data → MapResult Data × SyncHashMap Key Data
  | .put key data => (.done, m.put key data)
  | .get key => (.data (m.get key).1, (m.get key).2)
  | .count key => (.number (m.count key), m)
  | .erase key => (.done, m.erase key)

/-- The calls of a log as steps, one after the other, with their results. -/
def Replays {T : Type*} : SyncHashMap Key Data → List (T × MapCall Key Data × MapResult Data) →
    SyncHashMap Key Data → Prop
  | m, [], m' => m' = m
  | m, (_, c, r) :: rest, m' => (m.apply c).1 = r ∧ Replays (m.apply c).2 rest m'

theorem Replays.snoc {T : Type*} {t : T} {c : MapCall Key Data} {r : MapResult Data}
    {m1 m2 : SyncHashMap Key Data} (hc : m1.apply c = (r, m2)) :
    ∀ {m : SyncHashMap Key Data} {log : List (T × MapCall Key Data × MapResult Data)},
      Replays m log m1 → Replays m (log ++ [(t, c, r)]) m2 := by
  intro m log
  induction log generalizing m with
  | nil =>
    intro h
    cases h
    rw [List.nil_append]
    exact ⟨congrArg Prod.fst hc, (congrArg Prod.snd hc).symm⟩
  | cons call rest ih =>
    intro h
    exact ⟨h.1, ih h.2⟩

section Undisturbed

variable {key : Key} {data : Data} {m m' : SyncHashMap Key Data} {r : MapResult Data}

theorem calls_assign (h : (shared Key Data).Calls (.use key (some data)) m r m') :
    r = .done ∧ m' = m.put key data := by
  cases h with
  | last ha =>
    cases ha
    exact ⟨rfl, rfl⟩
  | next ha _ => cases ha

theorem calls_read (h : (shared Key Data).Calls (.use key none) m r m') :
    r = .data ((m.map key).getD default) ∧ m' = m := by
  cases h with
  | last ha =>
    cases ha
    exact ⟨rfl, rfl⟩
  | next ha _ => cases ha

/-- `operator[]` leads to the entry of the key, in the map where it is not missing any more. -/
theorem calls_find {assign : Option Data}
    (h : (shared Key Data).Calls (.find key assign) m r m') :
    (shared Key Data).Calls (.use key assign) (m.get key).2 r m' := by
  cases h with
  | last ha => cases ha
  | next ha h =>
    cases ha
    cases hm : m.map key with
    | some data =>
      have hc : 0 < m.count key := count_pos.mpr ⟨data, hm⟩
      rw [if_pos hc] at h
      rw [get_of_some hm]
      exact h
    | none =>
      have hc : ¬0 < m.count key := by
        rw [count_eq_zero.mpr hm]
        exact Nat.lt_irrefl 0
      rw [if_neg hc] at h
      cases h with
      | last ha => cases ha
      | next ha h =>
        cases ha
        rw [get_of_none hm]
        exact h

theorem put_get (m : SyncHashMap Key Data) (key : Key) (data : Data) :
    (m.get key).2.put key data = m.put key data := by
  cases hm : m.map key with
  | some d => rw [get_of_some hm]
  | none =>
    rw [get_of_none hm]
    simp [put, Function.update_idem]

theorem getD_get (m : SyncHashMap Key Data) (key : Key) :
    ((m.get key).2.map key).getD default = (m.get key).1 := by
  cases hm : m.map key with
  | some d =>
    rw [get_of_some hm]
    simp [hm]
  | none =>
    rw [get_of_none hm]
    simp

/-- The accesses of a call that nobody disturbs are the call as one step. -/
theorem apply_of_calls {c : MapCall Key Data}
    (h : (shared Key Data).Calls ((shared Key Data).start c) m r m') : m.apply c = (r, m') := by
  cases c with
  | put key data =>
    obtain ⟨rfl, rfl⟩ := calls_assign (calls_find h)
    rw [put_get]
    rfl
  | get key =>
    obtain ⟨rfl, rfl⟩ := calls_read (calls_find h)
    rw [getD_get]
    rfl
  | count key =>
    cases h with
    | last ha =>
      cases ha
      rfl
    | next ha _ => cases ha
  | erase key =>
    cases h with
    | last ha =>
      cases ha
      rfl
    | next ha _ => cases ha

end Undisturbed

theorem replays_of_serial {T : Type*} {m m' : SyncHashMap Key Data}
    {log : List (T × MapCall Key Data × MapResult Data)}
    (h : (shared Key Data).Serial m log m') : Replays m log m' := by
  induction h with
  | nil => rfl
  | snoc t _ hc ih => exact ih.snoc (apply_of_calls hc)

/-- The only point of a reading call that changes the map: `get` inserts the key it has not found. -/
theorem reading_mutates {c : MapCall Key Data} {p : MapPoint Key Data}
    (hr : (shared Key Data).Reaches c p) (hc : (shared Key Data).writes c = false)
    (hp : p.mutates = true) : ∃ key, c = .get key ∧ p = .insert key none := by
  cases c with
  | put | erase => cases hc
  | get key =>
    have hpoint : p = .find key none ∨ p = .insert key none ∨ p = .use key none := by
      clear hp
      induction hr with
      | start => exact Or.inl rfl
      | next _ ha ih =>
        rcases ih with rfl | rfl | rfl
        · cases ha
          split_ifs
          · exact Or.inr (Or.inr rfl)
          · exact Or.inr (Or.inl rfl)
        · cases ha
          exact Or.inr (Or.inr rfl)
        · cases ha
    rcases hpoint with rfl | rfl | rfl
    · cases hp
    · exact ⟨key, rfl, rfl⟩
    · cases hp
  | count key =>
    have hpoint : p = .count key := by
      clear hp
      induction hr with
      | start => rfl
      | next _ ha ih =>
        rw [ih] at ha
        cases ha
    rw [hpoint] at hp
    cases hp

variable {T : Type*} [DecidableEq T]

/-- No `get` inserts the key it has not found. -/
def Finds (s : Locked T (MapCall Key Data) (MapResult Data) (SyncHashMap Key Data)
    (MapPoint Key Data)) : LockAction T (MapCall Key Data) → Prop
  | .access t => ∀ key, s.pc t ≠ .inside (.get key) (.insert key none)
  | _ => True

/-- In every run of any number of threads that call `put`, `get`, `count` and `erase`, two threads
are at odds in the map exactly when a `get` is about to insert the key it has not found and another
thread is inside as well. As long as no `get` inserts its key, the calls are serial: each takes
effect as one step between its call and its return, and gives its thread the result of that step. -/
theorem map_calls_serial {m0 : SyncHashMap Key Data}
    {s : Locked T (MapCall Key Data) (MapResult Data) (SyncHashMap Key Data) (MapPoint Key Data)}
    {as : List (LockAction T (MapCall Key Data))}
    (hr : run (Locked.step (shared Key Data)) (.init m0) as = some s) :
    (∀ t u, Locked.Conflict (shared Key Data) s t u ↔
      t ≠ u ∧ (∃ key, s.pc t = .inside (.get key) (.insert key none)) ∧
        ∃ c p, s.pc u = .inside c p) ∧
    (Guarded (Locked.step (shared Key Data)) Finds (.init m0) as →
      s.Answered ∧ ∃ m, Replays m0 s.log m ∧
        ((∀ t c p, s.pc t = .inside c p → (shared Key Data).writes c = false) → s.mem = m)) := by
  have hkeeps : ∀ s a s', Locked.step (shared Key Data) s a = some s' →
      Locked.Exclusive (T := T) (shared Key Data) s → Locked.Exclusive (shared Key Data) s' :=
    fun s a s' hs hi => hi.moved (Locked.step_moved hs)
  have hx : Locked.Exclusive (shared Key Data) s := run_of_inv hkeeps hr (.init m0)
  constructor
  · intro t u
    constructor
    · intro hc
      obtain ⟨c, p, hpc, hw, hp, hreach⟩ := hx.conflict hc
      obtain ⟨key, rfl, rfl⟩ := reading_mutates hreach hw hp
      exact ⟨hc.1, ⟨key, hpc⟩, hc.2.2⟩
    · rintro ⟨hne, ⟨key, hpc⟩, hu⟩
      exact ⟨hne, ⟨_, _, hpc, rfl⟩, hu⟩
  · intro hfinds
    have hreads : Guarded (Locked.step (shared Key Data)) (Locked.Reads (shared Key Data))
        (.init m0) as := by
      apply guarded_mono hkeeps _ (.init m0) hfinds
      intro s a hx hf
      cases a with
      | access t =>
        intro c p hpc hw
        cases hp : p.mutates with
        | false => exact hp
        | true =>
          obtain ⟨key, rfl, rfl⟩ := reading_mutates (hx.reaches t c p hpc) hw hp
          exact absurd hpc (hf key)
      | _ => trivial
    obtain ⟨hanswered, m, hm⟩ := Locked.serial hr hreads
    exact ⟨hanswered, m, replays_of_serial hm.serial, hm.mem⟩

end Calls

/-- Two threads look for a key that is not in the map. -/
def bothMiss : List (LockAction ℕ (MapCall ℕ (Option ℕ))) :=
  [.call 0 (.get 5), .call 1 (.get 5), .lock 0, .lock 1, .access 0, .access 1]

theorem map_calls_serial_bothMiss : ∃ s,
    run (Locked.step (shared ℕ (Option ℕ))) (.init empty) bothMiss = some s ∧
      Locked.Conflict (shared ℕ (Option ℕ)) s 0 1 := by
  have hr : run (Locked.step (shared ℕ (Option ℕ))) (.init empty) bothMiss = some _ := rfl
  have hconflict := (map_calls_serial hr).1 0 1
  exact ⟨_, hr, hconflict.mpr ⟨by decide, ⟨5, rfl⟩, _, _, rfl⟩⟩

end Gpshub.SyncHashMap
