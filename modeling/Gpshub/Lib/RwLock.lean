import Gpshub.Lib.Machine
import Mathlib.Data.Finset.Insert
import Mathlib.Data.Finset.Erase

/-! An object under a readers-writer lock: calls made of several accesses to its memory, of any
number of threads, and the serial order in which they take effect. -/
namespace Lib

/-- Who holds the lock. The free lock is `readers ∅`. -/
inductive RwLock (T : Type*)
  | readers (ts : Finset T)
  | writer (t : T)

namespace RwLock

variable {T : Type*}

/-- The thread holds the lock, for writing or for reading. -/
def Holds (t : T) (write : Bool) : RwLock T → Prop
  | readers ts => write = false ∧ t ∈ ts
  | writer u => write = true ∧ t = u

variable {l l' : RwLock T} {t u : T} {w v : Bool}

theorem Holds.sole (ht : l.Holds t true) (hu : l.Holds u v) : u = t := by
  cases l with
  | readers ts => cases ht.1
  | writer x => exact hu.2.trans ht.2.symm

variable [DecidableEq T]

/-- `wrlock` and `rdlock`, where they return. -/
def acquire (t : T) (write : Bool) : RwLock T → Option (RwLock T)
  | readers ts =>
    if write then if ts = ∅ then some (writer t) else none
    else if t ∈ ts then none else some (readers (insert t ts))
  | writer _ => none

def release (t : T) : RwLock T → RwLock T
  | readers ts => readers (ts.erase t)
  | writer _ => readers ∅

theorem acquire_holds (ha : l.acquire t w = some l') : l'.Holds t w := by
  cases l with
  | readers ts =>
    cases w with
    | true =>
      simp only [acquire, if_true, Option.ite_none_right_eq_some, Option.some.injEq] at ha
      obtain ⟨-, rfl⟩ := ha
      exact ⟨rfl, rfl⟩
    | false =>
      simp only [acquire, Bool.false_eq_true, if_false, Option.ite_none_left_eq_some,
        Option.some.injEq] at ha
      obtain ⟨-, rfl⟩ := ha
      exact ⟨rfl, Finset.mem_insert_self t ts⟩
  | writer x => cases ha

theorem acquire_other (ha : l.acquire t w = some l') (hu : l.Holds u v) :
    w = false ∧ v = false ∧ l'.Holds u v := by
  cases l with
  | readers ts =>
    obtain ⟨hv, hmem⟩ := hu
    cases w with
    | true =>
      simp only [acquire, if_true, Option.ite_none_right_eq_some, Option.some.injEq] at ha
      rw [ha.1] at hmem
      exact absurd hmem (Finset.notMem_empty u)
    | false =>
      simp only [acquire, Bool.false_eq_true, if_false, Option.ite_none_left_eq_some,
        Option.some.injEq] at ha
      obtain ⟨-, rfl⟩ := ha
      exact ⟨rfl, hv, hv, Finset.mem_insert_of_mem hmem⟩
  | writer x => cases ha

theorem release_other (ht : l.Holds t w) (hu : l.Holds u v) (hne : u ≠ t) :
    (l.release t).Holds u v := by
  cases l with
  | readers ts => exact ⟨hu.1, Finset.mem_erase.mpr ⟨hne, hu.2⟩⟩
  | writer x => exact absurd (hu.2.trans ht.2.symm) hne

end RwLock

/-- An object whose calls are made of accesses to a memory `M`; `L` is where a call is. A call that
`writes` takes the lock for writing, and an access that does not `mutate` leaves the memory. -/
structure Shared (Op Ret M L : Type*) where
  writes : Op → Bool
  start : Op → L
  mutates : L → Bool
  access : L → M → M × (L ⊕ Ret)
  reads : ∀ l m, mutates l = false → (access l m).1 = m

inductive Point (Op Ret L : Type*)
  | outside
  | waiting (op : Op)
  | inside (op : Op) (l : L)
  /-- The call is about to release the lock and to return `r`. -/
  | leaving (op : Op) (r : Ret)

/-- The call for which the thread has the lock. -/
def Point.op? {Op Ret L : Type*} : Point Op Ret L → Option Op
  | .outside => none
  | .waiting _ => none
  | .inside op _ => some op
  | .leaving op _ => some op

/-- The object, its lock and its threads. `log` lists the calls in the order of their last accesses,
and `returned` in the order in which they return. -/
structure Locked (T Op Ret M L : Type*) where
  lock : RwLock T
  mem : M
  pc : T → Point Op Ret L
  log : List (T × Op × Ret)
  returned : List (T × Op × Ret)

inductive LockAction (T Op : Type*)
  | call (t : T) (op : Op)
  | lock (t : T)
  | access (t : T)
  | unlock (t : T)

namespace Shared

variable {T Op Ret M L : Type*}

/-- The accesses that lead from `l` in the memory `m` to the end of the call. -/
inductive Calls (O : Shared Op Ret M L) : L → M → Ret → M → Prop
  | last {l : L} {m m' : M} {r : Ret} (ha : O.access l m = (m', .inr r)) : Calls O l m r m'
  | next {l l1 : L} {m m1 m' : M} {r : Ret} (ha : O.access l m = (m1, .inl l1))
      (hrest : Calls O l1 m1 r m') : Calls O l m r m'

/-- The accesses that lead from `l` in the memory `m` to `l'` in the memory `m'`. -/
inductive Path (O : Shared Op Ret M L) (l : L) (m : M) : L → M → Prop
  | here : Path O l m l m
  | next {l1 l2 : L} {m1 m2 : M} (h : Path O l m l1 m1) (ha : O.access l1 m1 = (m2, .inl l2)) :
    Path O l m l2 m2

theorem Path.calls {O : Shared Op Ret M L} {l l' : L} {m m' m'' : M} {r : Ret}
    (h : Path O l m l' m') (hc : Calls O l' m' r m'') : Calls O l m r m'' := by
  induction h with
  | here => exact hc
  | next _ ha ih => exact ih (.next ha hc)

/-- The calls of the log one after the other. -/
inductive Serial (O : Shared Op Ret M L) (m : M) : List (T × Op × Ret) → M → Prop
  | nil : Serial O m [] m
  | snoc {log : List (T × Op × Ret)} {m1 m2 : M} {op : Op} {r : Ret} (t : T)
      (h : Serial O m log m1) (hc : Calls O (O.start op) m1 r m2) :
    Serial O m (log ++ [(t, op, r)]) m2

/-- The points that a call can come to, whatever others do to the memory. -/
inductive Reaches (O : Shared Op Ret M L) (op : Op) : L → Prop
  | start : Reaches O op (O.start op)
  | next {l l' : L} {m m' : M} (h : Reaches O op l) (ha : O.access l m = (m', .inl l')) :
    Reaches O op l'

end Shared
namespace Locked

variable {T Op Ret M L : Type*}

/-- No thread has called anything yet. -/
def init (m : M) : Locked T Op Ret M L where
  lock := .readers ∅
  mem := m
  pc := fun _ => .outside
  log := []
  returned := []

section Inside

variable {O : Shared Op Ret M L} {s s' : Locked T Op Ret M L}

/-- Whoever is inside holds the lock, in the mode of its call, and is at a point of its call. -/
structure Exclusive (O : Shared Op Ret M L) (s : Locked T Op Ret M L) : Prop where
  holds : ∀ t op, Point.op? (s.pc t) = some op → s.lock.Holds t (O.writes op)
  reaches : ∀ t op l, s.pc t = .inside op l → O.Reaches op l

theorem Exclusive.init (m : M) : Exclusive O (init m : Locked T Op Ret M L) where
  holds _ _ h := by cases h
  reaches _ _ _ h := by cases h

/-- Nobody else is inside with a call that writes, and with such a call nobody else at all. -/
theorem Exclusive.others (hx : Exclusive O s) {t u : T} {op op' : Op} {l l' : L}
    (ht : s.pc t = .inside op l) (hu : s.pc u = .inside op' l') (hne : u ≠ t) :
    O.writes op = false ∧ O.writes op' = false := by
  have hht := hx.holds t op (by rw [ht]; rfl)
  have hhu := hx.holds u op' (by rw [hu]; rfl)
  constructor
  · cases hw : O.writes op with
    | false => rfl
    | true =>
      rw [hw] at hht
      exact absurd (hht.sole hhu) hne
  · cases hw : O.writes op' with
    | false => rfl
    | true =>
      rw [hw] at hhu
      exact absurd (hhu.sole hht).symm hne

/-- Two threads are inside, and the next access of the first changes the memory. -/
def Conflict (O : Shared Op Ret M L) (s : Locked T Op Ret M L) (t u : T) : Prop :=
  t ≠ u ∧ (∃ op l, s.pc t = .inside op l ∧ O.mutates l = true) ∧ ∃ op l, s.pc u = .inside op l

/-- The lock leaves no conflict but those of a call that takes it for reading and changes the
memory. -/
theorem Exclusive.conflict (hi : Exclusive O s) {t u : T} (hc : Conflict O s t u) :
    ∃ op l, s.pc t = .inside op l ∧ O.writes op = false ∧ O.mutates l = true ∧ O.Reaches op l := by
  obtain ⟨hne, ⟨op, l, hpc, hmut⟩, op', l', hpc'⟩ := hc
  exact ⟨op, l, hpc, (hi.others hpc hpc' hne.symm).1, hmut, hi.reaches t op l hpc⟩

/-- The result of the call that is about to return. -/
def leaves (s : Locked T Op Ret M L) (t : T) : List (T × Op × Ret) :=
  match s.pc t with
  | .leaving op r => [(t, op, r)]
  | _ => []

theorem leaves_congr {t : T} (h : s'.pc t = s.pc t) : s'.leaves t = s.leaves t := by
  unfold leaves
  rw [h]

theorem leaves_of_pc {t : T} {p : Point Op Ret L} (hpc : s.pc t = p)
    (hp : ∀ op r, p ≠ .leaving op r) : s.leaves t = [] := by
  unfold leaves
  rw [hpc]
  cases p with
  | leaving op r => exact absurd rfl (hp op r)
  | _ => rfl

/-- The calls of the log, one after the other, have led to `m`; the calls that are inside have got
from `m` to where they are, and they have not yet changed it if they only read. -/
structure SerialAt (O : Shared Op Ret M L) (m0 m : M) (s : Locked T Op Ret M L) : Prop where
  serial : O.Serial m0 s.log m
  path : ∀ t op l, s.pc t = .inside op l → O.Path (O.start op) m l s.mem
  mem : (∀ t op l, s.pc t = .inside op l → O.writes op = false) → s.mem = m

theorem SerialAt.init (m : M) : SerialAt O m m (init m : Locked T Op Ret M L) where
  serial := .nil
  path _ _ _ h := by cases h
  mem _ := rfl

end Inside

section Steps

variable [DecidableEq T]

def goTo (s : Locked T Op Ret M L) (t : T) (p : Point Op Ret L) : Locked T Op Ret M L :=
  { s with pc := Function.update s.pc t p }

def accessStep (O : Shared Op Ret M L) (s : Locked T Op Ret M L) (t : T) (op : Op) (l : L) :
    Locked T Op Ret M L :=
  match O.access l s.mem with
  | (m, .inl l) => { s.goTo t (.inside op l) with mem := m }
  | (m, .inr r) => { s.goTo t (.leaving op r) with mem := m, log := s.log ++ [(t, op, r)] }

def step (O : Shared Op Ret M L) (s : Locked T Op Ret M L) :
    LockAction T Op → Option (Locked T Op Ret M L)
  | .call t op =>
    match s.pc t with
    | .outside => some (s.goTo t (.waiting op))
    | _ => none
  | .lock t =>
    match s.pc t with
    | .waiting op => (s.lock.acquire t (O.writes op)).map fun lock =>
        { s.goTo t (.inside op (O.start op)) with lock }
    | _ => none
  | .access t =>
    match s.pc t with
    | .inside op l => some (s.accessStep O t op l)
    | _ => none
  | .unlock t =>
    match s.pc t with
    | .leaving op r =>
      some { s.goTo t .outside with
        lock := s.lock.release t
        returned := s.returned ++ [(t, op, r)] }
    | _ => none

variable {O : Shared Op Ret M L} {s s' : Locked T Op Ret M L} {a : LockAction T Op}

/-- The ways in which a step changes the state. -/
inductive Moved (O : Shared Op Ret M L) (s : Locked T Op Ret M L) :
    LockAction T Op → Locked T Op Ret M L → Prop
  | call (t : T) (op : Op) (hpc : s.pc t = .outside) :
    Moved O s (.call t op) (s.goTo t (.waiting op))
  | lock (t : T) (op : Op) (lock : RwLock T) (hpc : s.pc t = .waiting op)
      (hl : s.lock.acquire t (O.writes op) = some lock) :
    Moved O s (.lock t) { s.goTo t (.inside op (O.start op)) with lock }
  | goOn (t : T) (op : Op) (l l' : L) (m : M) (hpc : s.pc t = .inside op l)
      (ha : O.access l s.mem = (m, .inl l')) :
    Moved O s (.access t) { s.goTo t (.inside op l') with mem := m }
  | last (t : T) (op : Op) (l : L) (r : Ret) (m : M) (hpc : s.pc t = .inside op l)
      (ha : O.access l s.mem = (m, .inr r)) :
    Moved O s (.access t)
      { s.goTo t (.leaving op r) with mem := m, log := s.log ++ [(t, op, r)] }
  | unlock (t : T) (op : Op) (r : Ret) (hpc : s.pc t = .leaving op r) :
    Moved O s (.unlock t)
      { s.goTo t .outside with
        lock := s.lock.release t
        returned := s.returned ++ [(t, op, r)] }

theorem step_moved (hs : s.step O a = some s') : Moved O s a s' := by
  cases a with
  | call t op =>
    cases hpc : s.pc t with
    | outside =>
      simp only [step, hpc, Option.some.injEq] at hs
      rw [← hs]
      exact .call t op hpc
    | _ => simp [step, hpc] at hs
  | lock t =>
    cases hpc : s.pc t with
    | waiting op =>
      simp only [step, hpc] at hs
      obtain ⟨lock, hl, rfl⟩ := Option.map_eq_some_iff.mp hs
      exact .lock t op lock hpc hl
    | _ => simp [step, hpc] at hs
  | access t =>
    cases hpc : s.pc t with
    | inside op l =>
      simp only [step, hpc, Option.some.injEq] at hs
      rw [← hs]
      unfold accessStep
      cases ha : O.access l s.mem with
      | mk m next =>
        cases next with
        | inl l' => exact .goOn t op l l' m hpc ha
        | inr r => exact .last t op l r m hpc ha
    | _ => simp [step, hpc] at hs
  | unlock t =>
    cases hpc : s.pc t with
    | leaving op r =>
      simp only [step, hpc, Option.some.injEq] at hs
      rw [← hs]
      exact .unlock t op r hpc
    | _ => simp [step, hpc] at hs

@[simp] theorem goTo_self (t : T) (p : Point Op Ret L) : (s.goTo t p).pc t = p := by
  unfold goTo
  exact Function.update_self t p s.pc

theorem goTo_other {t u : T} (p : Point Op Ret L) (hu : u ≠ t) : (s.goTo t p).pc u = s.pc u := by
  unfold goTo
  exact Function.update_of_ne hu p s.pc

/-- The thread `t` stays inside or outside, and the lock with those that hold it. -/
theorem Exclusive.goTo (hi : Exclusive O s) {t : T} {p : Point Op Ret L}
    (hop : ∀ op, Point.op? p = some op → s.lock.Holds t (O.writes op))
    (hreach : ∀ op l, p = .inside op l → O.Reaches op l) : Exclusive O (s.goTo t p) where
  holds u op hu := by
    by_cases hut : u = t
    · subst hut
      rw [goTo_self] at hu
      exact hop op hu
    · rw [goTo_other p hut] at hu
      exact hi.holds u op hu
  reaches u op l hu := by
    by_cases hut : u = t
    · subst hut
      rw [goTo_self] at hu
      exact hreach op l hu
    · rw [goTo_other p hut] at hu
      exact hi.reaches u op l hu

theorem Exclusive.moved (hm : Moved O s a s') (hi : Exclusive O s) : Exclusive O s' := by
  cases hm with
  | call t op hpc => exact hi.goTo nofun nofun
  | lock t op lock hpc hl =>
    constructor
    · intro u op' hu
      by_cases hut : u = t
      · subst hut
        change Point.op? ((s.goTo u _).pc u) = _ at hu
        rw [goTo_self] at hu
        cases hu
        exact RwLock.acquire_holds hl
      · change Point.op? ((s.goTo t _).pc u) = _ at hu
        rw [goTo_other _ hut] at hu
        exact (RwLock.acquire_other hl (hi.holds u op' hu)).2.2
    · intro u op' l hu
      by_cases hut : u = t
      · subst hut
        change (s.goTo u _).pc u = _ at hu
        rw [goTo_self] at hu
        cases hu
        exact .start
      · change (s.goTo t _).pc u = _ at hu
        rw [goTo_other _ hut] at hu
        exact hi.reaches u op' l hu
  | goOn t op l l' m hpc ha =>
    have hholds := hi.holds t op (by rw [hpc]; rfl)
    have hgo : Exclusive O (s.goTo t (.inside op l')) := by
      apply hi.goTo
      · intro op' hop
        cases hop
        exact hholds
      · intro op' l'' he
        cases he
        exact .next (hi.reaches t op l hpc) ha
    exact ⟨hgo.holds, hgo.reaches⟩
  | last t op l r m hpc ha =>
    have hholds := hi.holds t op (by rw [hpc]; rfl)
    have hgo : Exclusive O (s.goTo t (.leaving op r)) := by
      apply hi.goTo
      · intro op' hop
        cases hop
        exact hholds
      · exact nofun
    exact ⟨hgo.holds, hgo.reaches⟩
  | unlock t op r hpc =>
    have hholds := hi.holds t op (by rw [hpc]; rfl)
    constructor
    · intro u op' hu
      by_cases hut : u = t
      · subst hut
        change Point.op? ((s.goTo u _).pc u) = _ at hu
        rw [goTo_self] at hu
        cases hu
      · change Point.op? ((s.goTo t _).pc u) = _ at hu
        rw [goTo_other _ hut] at hu
        exact RwLock.release_other hholds (hi.holds u op' hu) hut
    · intro u op' l hu
      by_cases hut : u = t
      · subst hut
        change (s.goTo u _).pc u = _ at hu
        rw [goTo_self] at hu
        cases hu
      · change (s.goTo t _).pc u = _ at hu
        rw [goTo_other _ hut] at hu
        exact hi.reaches u op' l hu

/-- The calls of the thread in a list of calls. -/
def ofThread (t : T) (log : List (T × Op × Ret)) : List (T × Op × Ret) :=
  log.filter fun call => call.1 = t

theorem ofThread_append (t : T) (log log' : List (T × Op × Ret)) :
    ofThread t (log ++ log') = ofThread t log ++ ofThread t log' := List.filter_append _ _

theorem ofThread_self (t : T) (call : Op × Ret) : ofThread t [(t, call)] = [(t, call)] := by
  simp [ofThread]

theorem ofThread_other {t u : T} (call : Op × Ret) (hu : u ≠ t) : ofThread u [(t, call)] = [] := by
  simp [ofThread, hu.symm]

/-- Each thread gets the results of its calls that are in the log, in their order. -/
def Answered (s : Locked T Op Ret M L) : Prop :=
  ∀ t, ofThread t s.log = ofThread t s.returned ++ s.leaves t

theorem Answered.goTo (hi : Answered s) {t : T} (hlog : s'.log = s.log)
    (hret : s'.returned = s.returned) (hpc : ∀ u, u ≠ t → s'.pc u = s.pc u)
    (hbefore : s.leaves t = []) (hafter : s'.leaves t = []) : Answered s' := by
  intro u
  have hu := hi u
  rw [hlog, hret]
  by_cases hut : u = t
  · rw [hut] at hu ⊢
    rw [hafter, ← hbefore]
    exact hu
  · rw [leaves_congr (hpc u hut)]
    exact hu

theorem Answered.moved (hm : Moved O s a s') (hi : Answered s) : Answered s' := by
  cases hm with
  | call t op hpc =>
    exact hi.goTo rfl rfl (fun u hu => goTo_other _ hu) (leaves_of_pc hpc nofun)
      (leaves_of_pc (goTo_self t _) nofun)
  | lock t op lock hpc =>
    exact hi.goTo rfl rfl (fun u hu => goTo_other _ hu) (leaves_of_pc hpc nofun)
      (leaves_of_pc (goTo_self t _) nofun)
  | goOn t op l l' m hpc =>
    exact hi.goTo rfl rfl (fun u hu => goTo_other _ hu) (leaves_of_pc hpc nofun)
      (leaves_of_pc (goTo_self t _) nofun)
  | last t op l r m hpc =>
    intro u
    have hu := hi u
    dsimp only
    rw [ofThread_append, hu]
    by_cases hut : u = t
    · subst hut
      have hafter : (s.goTo u (.leaving op r)).leaves u = [(u, op, r)] := by
        unfold leaves
        rw [goTo_self]
      rw [leaves_of_pc hpc nofun, List.append_nil, ofThread_self]
      exact congrArg _ hafter.symm
    · rw [ofThread_other _ hut, List.append_nil]
      exact congrArg _ (leaves_congr (goTo_other _ hut)).symm
  | unlock t op r hpc =>
    intro u
    have hu := hi u
    change ofThread u s.log = ofThread u (s.returned ++ [(t, op, r)]) ++ leaves _ u
    rw [ofThread_append, hu]
    by_cases hut : u = t
    · subst hut
      have hbefore : s.leaves u = [(u, op, r)] := by
        unfold leaves
        rw [hpc]
      have hafter : (s.goTo u .outside).leaves u = [] := leaves_of_pc (goTo_self u _) nofun
      rw [hbefore, ofThread_self]
      exact ((congrArg _ hafter).trans (List.append_nil _)).symm
    · rw [ofThread_other _ hut, List.append_nil]
      exact congrArg _ (leaves_congr (goTo_other _ hut)).symm

/-- No call that takes the lock for reading changes the memory. -/
def Reads (O : Shared Op Ret M L) (s : Locked T Op Ret M L) : LockAction T Op → Prop
  | .access t => ∀ op l, s.pc t = .inside op l → O.writes op = false → O.mutates l = false
  | _ => True

theorem inside_goTo {t u : T} {p : Point Op Ret L} {op : Op} {l : L}
    (hu : (s.goTo t p).pc u = .inside op l) :
    u = t ∧ p = .inside op l ∨ u ≠ t ∧ s.pc u = .inside op l := by
  by_cases hut : u = t
  · subst hut
    rw [goTo_self] at hu
    exact Or.inl ⟨rfl, hu⟩
  · rw [goTo_other p hut] at hu
    exact Or.inr ⟨hut, hu⟩

/-- A step of a thread that is not inside afterwards, and that leaves log and memory. -/
theorem SerialAt.goTo {m0 m : M} (hi : SerialAt O m0 m s) {t : T} {p : Point Op Ret L}
    (hbefore : ∀ op l, s.pc t ≠ .inside op l) (hp : ∀ op l, p ≠ .inside op l)
    {lock : RwLock T} {returned : List (T × Op × Ret)} :
    SerialAt O m0 m { s.goTo t p with lock, returned } := by
  refine ⟨hi.serial, fun u op l hu => ?_, fun hall => hi.mem fun u op l hu => ?_⟩
  · rcases inside_goTo hu with ⟨-, he⟩ | ⟨-, hu⟩
    · exact absurd he (hp op l)
    · exact hi.path u op l hu
  · by_cases hut : u = t
    · rw [hut] at hu
      exact absurd hu (hbefore op l)
    · exact hall u op l ((goTo_other p hut).trans hu)

theorem SerialAt.moved {m0 m : M} (hm : Moved O s a s') (hg : Reads O s a) (hx : Exclusive O s)
    (hi : SerialAt O m0 m s) : ∃ m', SerialAt O m0 m' s' := by
  cases hm with
  | call t op hpc =>
    have hout : ∀ op l, s.pc t ≠ .inside op l := by
      rw [hpc]
      exact nofun
    refine ⟨m, hi.goTo hout ?_⟩
    exact nofun
  | unlock t op r hpc =>
    have hout : ∀ op l, s.pc t ≠ .inside op l := by
      rw [hpc]
      exact nofun
    refine ⟨m, hi.goTo hout ?_⟩
    exact nofun
  | lock t op lock hpc hl =>
    -- the lock was free, or only read
    have hall (u : T) (op' : Op) (l : L) (hu : s.pc u = .inside op' l) : O.writes op' = false :=
      (RwLock.acquire_other hl (hx.holds u op' (by rw [hu]; rfl))).2.1
    have hmem : s.mem = m := hi.mem hall
    refine ⟨m, hi.serial, fun u op' l hu => ?_, fun _ => hmem⟩
    rcases inside_goTo hu with ⟨-, he⟩ | ⟨-, hu⟩
    · cases he
      show O.Path _ m _ s.mem
      rw [hmem]
      exact .here
    · exact hi.path u op' l hu
  | goOn t op l l' mem hpc ha =>
    have hpath : O.Path (O.start op) m l' mem := .next (hi.path t op l hpc) ha
    cases hw : O.writes op with
    | false =>
      have hsame : mem = s.mem := by
        have hreads := O.reads l s.mem (hg op l hpc hw)
        rw [ha] at hreads
        exact hreads
      refine ⟨m, hi.serial, fun u op' l'' hu => ?_, fun hall => ?_⟩
      · rcases inside_goTo hu with ⟨-, he⟩ | ⟨-, hu⟩
        · cases he
          exact hpath
        · show O.Path _ m _ mem
          rw [hsame]
          exact hi.path u op' l'' hu
      · refine hsame.trans (hi.mem fun u op' l'' hu => ?_)
        by_cases hut : u = t
        · rw [hut, hpc] at hu
          cases hu
          exact hw
        · exact (hx.others hpc hu hut).2
    | true =>
      refine ⟨m, hi.serial, fun u op' l'' hu => ?_, fun hall => ?_⟩
      · rcases inside_goTo hu with ⟨-, he⟩ | ⟨hut, hu⟩
        · cases he
          exact hpath
        · have hfalse := (hx.others hpc hu hut).1
          cases hw.symm.trans hfalse
      · have hfalse := hall t op l' (goTo_self t _)
        cases hw.symm.trans hfalse
  | last t op l r mem hpc ha =>
    have hcalls : O.Calls (O.start op) m r mem := (hi.path t op l hpc).calls (.last ha)
    refine ⟨mem, .snoc t hi.serial hcalls, fun u op' l' hu => ?_, fun _ => rfl⟩
    rcases inside_goTo hu with ⟨-, he⟩ | ⟨hut, hu⟩
    · cases he
    · -- others are inside: nobody writes, and the memory is still `m`
      have hothers := hx.others hpc hu hut
      have hsame : mem = s.mem := by
        have hreads := O.reads l s.mem (hg op l hpc hothers.1)
        rw [ha] at hreads
        exact hreads
      have hmem : s.mem = m := by
        apply hi.mem
        intro v op'' l'' hv
        by_cases hvt : v = t
        · rw [hvt, hpc] at hv
          cases hv
          exact hothers.1
        · exact (hx.others hpc hv hvt).2
      show O.Path _ mem _ mem
      have hpath := hi.path u op' l' hu
      rw [hsame, hmem]
      rw [hmem] at hpath
      exact hpath

theorem Answered.init (m : M) : Answered (init m : Locked T Op Ret M L) := fun _ => rfl

/-- In every run in which no call that takes the lock for reading changes the memory, the calls are
serial: they are as if each had been made at one point between its call and its return, in the
order of the log, and each thread gets the results of this order. -/
theorem serial {m0 : M} {as : List (LockAction T Op)}
    (hr : Machine.run (step O) (.init m0) as = some s)
    (hg : Machine.Guarded (step O) (Reads O) (.init m0) as) :
    Answered s ∧ ∃ m, SerialAt O m0 m s := by
  have hanswered : Answered s :=
    Machine.run_of_inv (fun _ _ _ hs hi => hi.moved (step_moved hs)) hr (.init m0)
  have hall : Machine.Always (step O) (fun s => Exclusive O s ∧ ∃ m, SerialAt O m0 m s)
      (.init m0) as := by
    apply Machine.always_of_step _ (Machine.always_true _ as) hg
    · exact ⟨.init m0, m0, .init m0⟩
    · intro s a s' _ _ hreads hs hi
      obtain ⟨hx, m, hi⟩ := hi
      exact ⟨hx.moved (step_moved hs), hi.moved (step_moved hs) hreads hx⟩
  exact ⟨hanswered, (hall.last hr).2⟩

end Steps

end Locked
end Lib
