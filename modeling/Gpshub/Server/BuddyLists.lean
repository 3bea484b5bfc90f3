import Gpshub.Lib.Fields
import Gpshub.Lib.Machine
import Gpshub.Server.CommandHandler

/-! The comma separated lists of `ADD_BUDDIES` and `REMOVE_BUDDIES`, and the names that the
two loops cut off. -/
namespace Gpshub.CommandHandler
open Lib.Fields Lib.Machine

/-- `','` -/
abbrev COMMA : UInt8 := 44

/-- The local variables of the loops, and the names cut off so far. -/
structure Cutter where
  i : ℕ
  a : ℕ
  names : List Nick
  deriving DecidableEq

/-- One round, entered as long as `i < strlen(data) + 1`. -/
def Cutter.round (skipEmpty : Bool) (data : Nick) (c : Cutter) (_ : Unit) : Option Cutter :=
  if c.i < data.length + 1 then
    if data[c.i]? = some COMMA ∨ data[c.i]? = none then
      if skipEmpty ∧ c.i - c.a = 0 then some { c with i := c.i + 1 }
      else some ⟨c.i + 1, c.i + 1, c.names ++ [(data.drop c.a).take (c.i - c.a)]⟩
    else some { c with i := c.i + 1 }
  else none

/-- The loop ends after one round for each byte and one for the `'\0'`, and it has then cut
off the names that `scan` lists. -/
theorem scan_runs (skipEmpty : Bool) (data : Nick) (rounds : ℕ) :
    ∀ {i : ℕ} (a : ℕ) (names : List Nick), i + rounds = data.length + 1 →
      ∃ a', run (Cutter.round skipEmpty data) ⟨i, a, names⟩ (List.replicate rounds ()) =
        some ⟨data.length + 1, a', names ++ scan skipEmpty data rounds i a⟩ := by
  induction rounds with
  | zero =>
    intro i a names hi
    have hi' : i = data.length + 1 := hi
    subst hi'
    exact ⟨a, by simp [scan]⟩
  | succ rounds ih =>
    intro i a names hi
    have hlt : i < data.length + 1 := by omega
    have hnext : i + 1 + rounds = data.length + 1 := by omega
    simp only [List.replicate_succ, run_cons, Cutter.round, hlt, if_true, scan]
    by_cases hend : data[i]? = some COMMA ∨ data[i]? = none
    · simp only [if_pos hend]
      by_cases hskip : skipEmpty ∧ i - a = 0
      · simp only [if_pos hskip]
        obtain ⟨a', ha'⟩ := ih a names hnext
        exact ⟨a', _, rfl, ha'⟩
      · simp only [if_neg hskip]
        obtain ⟨a', ha'⟩ := ih (i + 1) (names ++ [(data.drop a).take (i - a)]) hnext
        rw [List.append_assoc] at ha'
        exact ⟨a', _, rfl, ha'⟩
    · simp only [if_neg hend]
      obtain ⟨a', ha'⟩ := ih a names hnext
      exact ⟨a', _, rfl, ha'⟩

/-- What `addBuddies` makes of the fields: a field behind an empty one keeps the comma. -/
def addNames : List Nick → List Nick
  | [] => []
  | [f] => if f = [] then [] else [f]
  | f :: g :: rest => if f = [] then (COMMA :: g) :: addNames rest else f :: addNames (g :: rest)

theorem addNames_cons {f : Nick} (hf : f ≠ []) (rest : List Nick) :
    addNames (f :: rest) = f :: addNames rest := by
  cases rest with
  | nil => simp [addNames, hf]
  | cons g rest => simp [addNames, hf]

/-- `scan` in the middle of the data: `before` is done with, and `cur` has been passed since
the current field has begun. -/
def scanFrom (skipEmpty : Bool) (before cur rest : Nick) : List Nick :=
  scan skipEmpty (before ++ cur ++ rest) (rest.length + 1) (before.length + cur.length)
    before.length

section Scan

variable (skipEmpty : Bool) (before cur rest : Nick)

theorem getElem?_passed :
    (before ++ cur ++ rest)[before.length + cur.length]? = rest.head? := by
  rw [← List.length_append, List.getElem?_append_right (le_refl _), Nat.sub_self,
    List.head?_eq_getElem?]

/-- What they cut off is what they have passed since the field has begun. -/
theorem take_passed :
    ((before ++ cur ++ rest).drop before.length).take (before.length + cur.length - before.length) =
      cur := by
  rw [List.append_assoc, List.drop_left, Nat.add_sub_cancel_left, List.take_left]

theorem passed_sub_eq_zero : before.length + cur.length - before.length = 0 ↔ cur = [] := by
  rw [Nat.add_sub_cancel_left, List.length_eq_zero_iff]

theorem scanFrom_nil :
    scanFrom skipEmpty before cur [] = if skipEmpty ∧ cur = [] then [] else [cur] := by
  have hbyte := getElem?_passed before cur []
  have hfield := take_passed before cur []
  simp only [scanFrom, List.length_nil, scan, hbyte, hfield, passed_sub_eq_zero]
  simp

theorem scanFrom_comma : scanFrom skipEmpty before cur (COMMA :: rest) =
    if skipEmpty ∧ cur = [] then scanFrom skipEmpty before [COMMA] rest
    else cur :: scanFrom skipEmpty (before ++ cur ++ [COMMA]) [] rest := by
  have hbyte := getElem?_passed before cur (COMMA :: rest)
  have hfield := take_passed before cur (COMMA :: rest)
  unfold scanFrom
  rw [List.length_cons, scan]
  simp only [hbyte, hfield, passed_sub_eq_zero, List.head?_cons, true_or, if_true]
  by_cases hskip : skipEmpty ∧ cur = []
  · obtain ⟨-, rfl⟩ := hskip
    simp
  · simp [hskip, Nat.add_assoc]

theorem scanFrom_other {c : UInt8} (hc : c ≠ COMMA) :
    scanFrom skipEmpty before cur (c :: rest) = scanFrom skipEmpty before (cur ++ [c]) rest := by
  have hbyte := getElem?_passed before cur (c :: rest)
  unfold scanFrom
  rw [List.length_cons, scan, hbyte]
  simp [hc, Nat.add_assoc]

end Scan

theorem scanFrom_false (rest : Nick) : ∀ (before cur : Nick), COMMA ∉ cur →
    scanFrom false before cur rest = (cur ++ rest).splitOn COMMA := by
  induction rest with
  | nil =>
    intro before cur hcur
    rw [scanFrom_nil, List.append_nil, List.splitOn_eq_singleton hcur]
    simp
  | cons c rest ih =>
    intro before cur hcur
    by_cases hc : c = COMMA
    · subst hc
      rw [scanFrom_comma, List.splitOn_append_cons_self_of_not_mem hcur]
      simpa using ih (before ++ cur ++ [COMMA]) [] List.not_mem_nil
    · have hcur' : COMMA ∉ cur ++ [c] := by simpa using ⟨hcur, Ne.symm hc⟩
      rw [scanFrom_other _ _ _ _ hc, ih _ _ hcur', List.append_assoc]
      rfl

theorem removeFields_eq (data : Nick) : removeFields data = data.splitOn COMMA :=
  scanFrom_false data [] [] List.not_mem_nil

/-- Behind an empty field `addBuddies` has passed a comma, and otherwise none. -/
theorem scanFrom_true (rest : Nick) : ∀ (before cur : Nick), COMMA ∉ cur →
    scanFrom true before cur rest = addNames ((cur ++ rest).splitOn COMMA) ∧
      scanFrom true before (COMMA :: cur) rest =
        addNames ([] :: (cur ++ rest).splitOn COMMA) := by
  induction rest with
  | nil =>
    intro before cur hcur
    rw [scanFrom_nil, scanFrom_nil, List.append_nil, List.splitOn_eq_singleton hcur]
    simp [addNames]
  | cons c rest ih =>
    intro before cur hcur
    by_cases hc : c = COMMA
    · subst hc
      rw [scanFrom_comma, scanFrom_comma, List.splitOn_append_cons_self_of_not_mem hcur]
      have hnext (before : Nick) := (ih before [] List.not_mem_nil).1
      have hglued := (ih before [] List.not_mem_nil).2
      simp only [List.nil_append] at hnext hglued
      constructor
      · by_cases hnil : cur = []
        · subst hnil
          simpa using hglued
        · rw [addNames_cons hnil, hnext]
          simp [hnil]
      · rw [hnext]
        simp [addNames]
    · have hcur' : COMMA ∉ cur ++ [c] := by simpa using ⟨hcur, Ne.symm hc⟩
      have hstep := ih before _ hcur'
      rw [List.append_assoc] at hstep
      rw [scanFrom_other _ _ _ _ hc, scanFrom_other _ _ _ _ hc]
      exact hstep

theorem addFields_eq (data : Nick) : addFields data = addNames (data.splitOn COMMA) :=
  (scanFrom_true data [] [] List.not_mem_nil).1

/-- The fields that `addBuddies` takes as they stand. -/
def kept : List Nick → List Nick
  | [] => []
  | [f] => if f = [] then [] else [f]
  | f :: g :: rest => if f = [] then kept rest else f :: kept (g :: rest)

/-- The fields that it takes with the comma in front of them: each empty field that is not the
last one does this to the next field. -/
def glued : List Nick → List Nick
  | f :: g :: rest => if f = [] then g :: glued rest else glued (g :: rest)
  | _ => []

section Names

variable {fs : List Nick} {nick : Nick}

theorem mem_addNames :
    nick ∈ addNames fs ↔ nick ∈ kept fs ∨ ∃ g ∈ glued fs, nick = COMMA :: g := by
  induction fs using addNames.induct with
  | case1 => simp [addNames, kept, glued]
  | case2 => simp [addNames, kept, glued]
  | case3 f hf => simp [addNames, kept, glued, hf]
  | case4 g rest ih =>
    simp only [addNames, kept, glued, if_true, List.mem_cons, ih, exists_eq_or_imp]
    exact or_left_comm
  | case5 f g rest hf ih =>
    simp only [addNames, kept, glued, hf, if_false, List.mem_cons, ih]
    exact or_assoc.symm

theorem ne_nil_of_mem_kept (hn : nick ∈ kept fs) : nick ≠ [] := by
  induction fs using kept.induct with
  | case1 => simp [kept] at hn
  | case2 => simp [kept] at hn
  | case3 f hf =>
    simp only [kept, hf, if_false, List.mem_singleton] at hn
    rw [hn]
    exact hf
  | case4 g rest ih =>
    simp only [kept, if_true] at hn
    exact ih hn
  | case5 f g rest hf ih =>
    simp only [kept, hf, if_false, List.mem_cons] at hn
    rcases hn with rfl | hn
    · exact hf
    · exact ih hn

theorem mem_fields (hne : nick ≠ []) : nick ∈ fs ↔ nick ∈ kept fs ∨ nick ∈ glued fs := by
  induction fs using kept.induct with
  | case1 => simp [kept, glued]
  | case2 => simp [kept, glued, hne]
  | case3 f hf => simp [kept, glued, hf]
  | case4 g rest ih =>
    simp only [kept, glued, if_true, List.mem_cons, ih, hne, false_or]
    exact or_left_comm
  | case5 f g rest hf ih =>
    rw [List.mem_cons, ih]
    simp only [kept, glued, hf, if_false, List.mem_cons]
    exact or_assoc.symm

/-- All is well with a list without empty fields, except for the last one. -/
theorem glued_eq_nil : glued fs = [] ↔ [] ∉ fs.dropLast := by
  induction fs using glued.induct with
  | case1 g rest ih => simp [glued]
  | case2 f g rest hf ih => simp [glued, hf, ih, Ne.symm hf]
  | case3 fs hfs =>
    cases fs with
    | nil => simp [glued]
    | cons f fs =>
      cases fs with
      | nil => simp [glued]
      | cons g rest => exact absurd rfl (hfs f g rest)

/-- When the names that are added to `B` come to the non-empty fields. -/
theorem addNames_listed_iff (hfs : ∀ f ∈ fs, COMMA ∉ f) (B : List Nick) :
    (∀ nick, nick ∈ B ∨ nick ∈ addNames fs ↔ nick ∈ B ∨ nick ≠ [] ∧ nick ∈ fs) ↔
      ∀ g ∈ glued fs, COMMA :: g ∈ B ∧ (g = [] ∨ g ∈ B ∨ g ∈ kept fs) := by
  constructor
  · intro hall g hg
    constructor
    · have hmem : COMMA :: g ∈ addNames fs := mem_addNames.mpr (Or.inr ⟨g, hg, rfl⟩)
      rcases (hall _).mp (Or.inr hmem) with hB | ⟨-, hf⟩
      · exact hB
      · exact absurd List.mem_cons_self (hfs _ hf)
    · by_cases hne : g = []
      · exact Or.inl hne
      · right
        have hf : g ∈ fs := (mem_fields hne).mpr (Or.inr hg)
        rcases (hall g).mpr (Or.inr ⟨hne, hf⟩) with hB | hadd
        · exact Or.inl hB
        · rcases mem_addNames.mp hadd with hk | ⟨g', -, rfl⟩
          · exact Or.inr hk
          · exact absurd List.mem_cons_self (hfs _ hf)
  · intro hall nick
    constructor
    · rintro (hB | hadd)
      · exact Or.inl hB
      · rcases mem_addNames.mp hadd with hk | ⟨g, hg, rfl⟩
        · have hne := ne_nil_of_mem_kept hk
          exact Or.inr ⟨hne, (mem_fields hne).mpr (Or.inl hk)⟩
        · exact Or.inl (hall g hg).1
    · rintro (hB | ⟨hne, hf⟩)
      · exact Or.inl hB
      · rcases (mem_fields hne).mp hf with hk | hg
        · exact Or.inr (mem_addNames.mpr (Or.inl hk))
        · rcases (hall nick hg).2.resolve_left hne with hB | hk
          · exact Or.inl hB
          · exact Or.inr (mem_addNames.mpr (Or.inl hk))

theorem ne_nil_of_mem_addNames (hn : nick ∈ addNames fs) : nick ≠ [] := by
  rcases mem_addNames.mp hn with hk | ⟨g, -, rfl⟩
  · exact ne_nil_of_mem_kept hk
  · exact List.cons_ne_nil _ _

theorem addNames_eq_self (hfs : ∀ f ∈ fs, f ≠ []) : addNames fs = fs := by
  induction fs with
  | nil => rfl
  | cons f fs ih =>
    rw [addNames_cons (hfs f List.mem_cons_self), ih fun g hg => hfs g (List.mem_cons_of_mem f hg)]

theorem sum_addNames_le (fs : List Nick) :
    ((addNames fs).map fun f => f.length + 1).sum ≤ (fs.map fun f => f.length + 1).sum := by
  induction fs using addNames.induct with
  | case1 => simp [addNames]
  | case2 => simp [addNames]
  | case3 f hf => simp [addNames, hf]
  | case4 g rest ih =>
    simp only [addNames, if_true, List.map_cons, List.sum_cons, List.length_cons, List.length_nil]
    omega
  | case5 f g rest hf ih =>
    simp only [addNames, hf, if_false, List.map_cons, List.sum_cons] at ih ⊢
    omega

end Names

theorem sum_addFields_le (data : Nick) :
    ((addFields data).map fun f => f.length + 1).sum ≤ data.length + 1 := by
  rw [addFields_eq, ← sum_length_splitOn COMMA data]
  exact sum_addNames_le _

theorem addFields_eq_nil {data : Nick} : addFields data = [] ↔ data = [] := by
  rw [addFields_eq]
  constructor
  · intro hnil
    have hdata : [COMMA].intercalate (data.splitOn COMMA) = data := List.intercalate_splitOn COMMA
    have hne : data.splitOn COMMA ≠ [] := List.splitOn_ne_nil COMMA data
    revert hnil hdata hne
    cases data.splitOn COMMA with
    | nil => exact fun _ _ hne => absurd rfl hne
    | cons f fs =>
      cases fs with
      | nil =>
        intro hnil hdata _
        by_cases hf : f = []
        · subst hf
          exact hdata.symm
        · simp [addNames, hf] at hnil
      | cons g rest =>
        intro hnil
        by_cases hf : f = [] <;> simp [addNames, hf] at hnil
  · rintro rfl
    simp [addNames]

theorem addFields_intercalate {names : List Nick} (hn : ∀ nick ∈ names, nick ≠ [] ∧ COMMA ∉ nick) :
    addFields ([COMMA].intercalate names) = names := by
  rw [addFields_eq]
  by_cases hnil : names = []
  · subst hnil
    simp [addNames]
  · rw [List.splitOn_intercalate COMMA (fun nick hm => (hn nick hm).2) hnil]
    exact addNames_eq_self fun nick hm => (hn nick hm).1

/-- `char* nick = new char(n + 1); memcpy(nick, data + a, n); nick[n] = '\0';`, where `nick` is
the part of `data`. `new char(n + 1)` is one `char`, with the value `n + 1`. -/
def copyNick (nick : Nick) : Except Abort (List UInt8) := do
  let n := nick.length
  let block := [UInt8.ofNat (n + 1)]
  let block ← memcpy block 0 nick
  store block n 0

theorem copyNick_ok_iff {nick : Nick} : (∃ block, copyNick nick = .ok block) ↔ nick = [] := by
  constructor
  · rintro ⟨block, he⟩
    obtain ⟨copy, hcopy, he⟩ := bind_eq_ok.mp he
    have hlen : copy.length = 1 := memcpy_length hcopy
    unfold store at he
    split_ifs at he with hn
    exact List.length_eq_zero_iff.mp (by omega)
  · rintro rfl
    exact ⟨[0], rfl⟩

/-- The loop of `removeBuddies` with the copies: each name is written to its block, and then
erased. -/
def removeCopies (usr : UserRef) : List Nick → Hub → Except Abort Hub
  | [], h => .ok h
  | nick :: rest, h => do
    let _ ← copyNick nick
    let user ← h.deref usr
    removeCopies usr rest (h.setUser usr (user.eraseBuddy nick))

/-- `removeBuddies` with the copies, which `CommandHandler.removeBuddies` takes as stored. -/
def removeBuddiesCopying (pkg : CmdPkg) (s : SessionRef) (h : Hub) : Except Abort Hub := do
  let session ← h.session s
  match session.user with
  | none => return h
  | some usr => removeCopies usr (removeFields pkg.getData) h

theorem copyNick_cons (b : UInt8) (nick : Nick) : copyNick (b :: nick) = .error .badIndex := by
  unfold copyNick
  cases nick with
  | nil => rfl
  | cons c nick =>
    have hlong : ¬0 + (b :: c :: nick).length ≤ [UInt8.ofNat ((b :: c :: nick).length + 1)].length := by
      simp
    have hcopy : memcpy [UInt8.ofNat ((b :: c :: nick).length + 1)] 0 (b :: c :: nick) =
        .error .badIndex := if_neg hlong
    dsimp only
    rw [hcopy]
    rfl

/-- As long as all blocks have room, the copies make no difference; else the first that has
none ends the loop. -/
theorem removeCopies_eq {usr : UserRef} {nicks : List Nick} {user : User} :
    ∀ {h : Hub}, h.users usr = some user → removeCopies usr nicks h =
      if ∀ nick ∈ nicks, nick = [] then removeAll usr nicks h else .error .badIndex := by
  induction nicks generalizing user with
  | nil =>
    intro h hu
    rfl
  | cons nick rest ih =>
    intro h hu
    have hderef : h.deref usr = .ok user := Hub.deref_eq_ok.mpr hu
    have hself : (h.setUser usr (user.eraseBuddy nick)).users usr = some (user.eraseBuddy nick) :=
      Function.update_self ..
    cases nick with
    | nil =>
      rw [removeCopies, removeAll, show copyNick [] = .ok [0] from rfl, ok_bind, hderef, ok_bind,
        ok_bind, ih hself]
      simp
    | cons b nick =>
      rw [removeCopies, copyNick_cons, error_bind, if_neg]
      exact fun hall => List.cons_ne_nil b nick (hall _ List.mem_cons_self)

end Gpshub.CommandHandler
