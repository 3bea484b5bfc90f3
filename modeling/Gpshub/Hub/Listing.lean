import Gpshub.Hub.Broadcast
import Gpshub.Server.BuddyLists

/-! What `ADD_BUDDIES` and `REMOVE_BUDDIES` leave in the buddies of a user: the names they
list, and where the two differ from that. -/
namespace Gpshub
open CommandServer CommandHandler Lib.Machine Lib.Fields

section Sets

variable (nicks : List Nick) {usr : User} {nick : Nick}

theorem SyncHashSet.mem_insert {Item : Type} [DecidableEq Item] {b : SyncHashSet Item}
    {item x : Item} : x ∈ (b.insert item).set ↔ x ∈ b.set ∨ x = item := by
  unfold SyncHashSet.insert
  split_ifs with hi
  · constructor
    · exact Or.inl
    · rintro (hx | rfl)
      · exact hx
      · exact hi
  · simp

theorem SyncHashSet.mem_erase {Item : Type} [DecidableEq Item] {b : SyncHashSet Item}
    {item x : Item} : x ∈ (b.erase item).set ↔ x ∈ b.set ∧ x ≠ item := by
  simp [SyncHashSet.erase]

theorem mem_insertBuddies : nick ∈ (nicks.foldl User.insertBuddy usr).buddies.set ↔
    nick ∈ usr.buddies.set ∨ nick ∈ nicks := by
  induction nicks generalizing usr with
  | nil => simp
  | cons n rest ih =>
    rw [List.foldl_cons, ih]
    simp only [User.insertBuddy, SyncHashSet.mem_insert, List.mem_cons]
    exact or_assoc

theorem mem_eraseBuddies : nick ∈ (nicks.foldl User.eraseBuddy usr).buddies.set ↔
    nick ∈ usr.buddies.set ∧ nick ∉ nicks := by
  induction nicks generalizing usr with
  | nil => simp
  | cons n rest ih =>
    rw [List.foldl_cons, ih]
    simp only [User.eraseBuddy, SyncHashSet.mem_erase, List.mem_cons, not_or]
    exact and_assoc

theorem eraseBuddies_eq :
    nicks.foldl User.eraseBuddy usr =
      { usr with buddies := (nicks.foldl User.eraseBuddy usr).buddies } := by
  induction nicks generalizing usr with
  | nil => rfl
  | cons n rest ih => exact ih

end Sets

section Commands

variable {env : Env} {h h' : Hub} {s : SessionRef} {u : UserRef} {usr : User}

theorem addBuddy_users {nick : Nick} {st st' : AddState} (husr : h.users u = some usr)
    (he : addBuddy env s u nick st h = .ok (st', h')) :
    h'.users = Function.update h.users u (some (usr.insertBuddy nick)) := by
  obtain ⟨user, hu, he⟩ := bind_eq_ok.mp he
  cases husr.symm.trans (Hub.deref_eq_ok.mp hu)
  dsimp only at he
  split_ifs at he with hc
  · rw [get_of_count hc] at he
    obtain ⟨buddy, -, he⟩ := bind_eq_ok.mp he
    obtain ⟨buddyUser, -, he⟩ := bind_eq_ok.mp he
    obtain ⟨pkgUid, -, he⟩ := bind_eq_ok.mp he
    obtain ⟨h1, hsend, he⟩ := bind_eq_ok.mp he
    obtain ⟨q, o, rfl⟩ := send_eq_ok hsend
    cases he
    rfl
  · cases he
    rfl

theorem addAll_users (nicks : List Nick) :
    ∀ {usr : User} {st st' : AddState} {h h' : Hub}, h.users u = some usr →
      addAll env s u nicks st h = .ok (st', h') →
      h'.users = Function.update h.users u (some (nicks.foldl User.insertBuddy usr)) := by
  induction nicks with
  | nil =>
    intro usr st st' h h' husr he
    cases he
    exact (Function.update_eq_self_iff.mpr husr.symm).symm
  | cons nick rest ih =>
    intro usr st st' h h' husr he
    obtain ⟨⟨st1, h1⟩, h1e, he⟩ := bind_eq_ok.mp he
    have hone := addBuddy_users husr h1e
    have hself : h1.users u = some (usr.insertBuddy nick) := by
      rw [hone]
      exact Function.update_self ..
    have hrest := ih hself he
    rw [hrest, hone, Function.update_idem]
    rfl

theorem addBuddies_users {session : Session} {pkg : CmdPkg} (hs : h.sessions s = some session)
    (hu : session.user = some u) (husr : h.users u = some usr)
    (he : addBuddies env pkg s h = .ok h') :
    h'.users = Function.update h.users u
      (some ((addFields pkg.getData).foldl User.insertBuddy usr)) := by
  obtain ⟨session', hs', he⟩ := bind_eq_ok.mp he
  cases hs.symm.trans (Hub.session_eq_ok.mp hs')
  rw [hu] at he
  obtain ⟨⟨st, h1⟩, hall, he⟩ := bind_eq_ok.mp he
  rw [← addAll_users _ husr hall]
  dsimp only at he
  split_ifs at he
  · obtain ⟨pkgIds, -, he⟩ := bind_eq_ok.mp he
    obtain ⟨q, o, rfl⟩ := send_eq_ok he
    rfl
  · cases he
    rfl

theorem removeAll_eq (nicks : List Nick) : ∀ {usr : User} {h : Hub}, h.users u = some usr →
    removeAll u nicks h = .ok (h.setUser u (nicks.foldl User.eraseBuddy usr)) := by
  induction nicks with
  | nil =>
    intro usr h husr
    rw [removeAll, Hub.setUser, List.foldl_nil, Function.update_eq_self_iff.mpr husr.symm]
  | cons nick rest ih =>
    intro usr h husr
    have hself : (h.setUser u (usr.eraseBuddy nick)).users u = some (usr.eraseBuddy nick) :=
      Function.update_self ..
    rw [removeAll, Hub.deref_eq_ok.mpr husr, ok_bind, ih hself]
    simp only [Hub.setUser, Function.update_idem, List.foldl_cons]

theorem removeBuddies_eq {session : Session} (pkg : CmdPkg) (hs : h.sessions s = some session)
    (hu : session.user = some u) (husr : h.users u = some usr) :
    removeBuddies pkg s h =
      .ok (h.setUser u ((removeFields pkg.getData).foldl User.eraseBuddy usr)) := by
  rw [removeBuddies, Hub.session_eq_ok.mpr hs, ok_bind, hu]
  exact removeAll_eq _ husr

end Commands

/-- `ADD_BUDDIES` adds exactly the non-empty fields as long as the loop meets no empty field
before the last one; and else if the buddies have the names it makes of the next field, and
do not need that field. -/
theorem adds_listed_iff {env : Env} {h h' : Hub} {s : SessionRef} {session : Session}
    {u : UserRef} {usr : User} {pkg : CmdPkg} (hs : h.sessions s = some session)
    (hu : session.user = some u) (husr : h.users u = some usr)
    (he : addBuddies env pkg s h = .ok h') :
    ∃ usr', h'.users u = some usr' ∧
      ((∀ nick, nick ∈ usr'.buddies.set ↔
          nick ∈ usr.buddies.set ∨ nick ≠ [] ∧ IsField COMMA pkg.getData nick) ↔
        ∀ g ∈ glued (pkg.getData.splitOn COMMA), COMMA :: g ∈ usr.buddies.set ∧
          (g = [] ∨ g ∈ usr.buddies.set ∨ g ∈ kept (pkg.getData.splitOn COMMA))) := by
  refine ⟨(addFields pkg.getData).foldl User.insertBuddy usr, ?_, ?_⟩
  · rw [addBuddies_users hs hu husr he]
    exact Function.update_self ..
  · have hfields (f : Nick) (hf : f ∈ pkg.getData.splitOn COMMA) : COMMA ∉ f :=
      sep_not_mem_of_mem_splitOn hf
    rw [← addNames_listed_iff hfields usr.buddies.set]
    simp only [mem_insertBuddies, addFields_eq, mem_splitOn]

/-- What a client sends to add the buddies in `data`, as `ofBuffer` leaves it. -/
def CmdPkg.addBuddies (data : Nick) : CmdPkg :=
  ⟨CmdPkg.ADD_BUDDIES :: shortBytes (.ofNat (3 + data.length)) ++ data ++ [0]⟩

/-- What it sends to remove them. -/
def CmdPkg.removeBuddies (data : Nick) : CmdPkg :=
  ⟨CmdPkg.REMOVE_BUDDIES :: shortBytes (.ofNat (3 + data.length)) ++ data ++ [0]⟩

/-- One peer, registered as `a`. -/
def loneUser : List (Event × Env) :=
  [(.accept default, default), (.command 0 (.registerNick [97]), default)]

/-- The list `x,` has its empty field at the end. -/
theorem adds_listed_iff_last : ∃ h h' usr', run Hub.step .boot loneUser = some h ∧
    addBuddies default (.addBuddies [120, 44]) 0 h = .ok h' ∧ h'.users 0 = some usr' ∧
      ∀ nick, nick ∈ usr'.buddies.set ↔ nick ≠ [] ∧ IsField COMMA [120, 44] nick := by
  have hrun : ∃ h h' usr, run Hub.step .boot loneUser = some h ∧
      addBuddies default (.addBuddies [120, 44]) 0 h = .ok h' ∧
      h.sessions 0 = some ⟨0, some 0⟩ ∧ h.users 0 = some usr ∧ usr.buddies.set = [] :=
    ⟨_, _, _, rfl, rfl, rfl, rfl, rfl⟩
  obtain ⟨h, h', usr, hr, he, hs, husr, hB⟩ := hrun
  obtain ⟨usr', husr', hiff⟩ := @adds_listed_iff default h h' 0 _ 0 usr _ hs rfl husr he
  have hglued : glued (([120, 44] : Nick).splitOn COMMA) = [] := by decide
  refine ⟨h, h', usr', hr, he, husr', fun nick => ?_⟩
  have hdata : (CmdPkg.addBuddies [120, 44]).getData = [120, 44] := by decide
  rw [hdata, hglued, hB] at hiff
  simpa using hiff.mpr (by simp) nick

/-- Of the list `,x` the user gets the buddy `,x`. -/
theorem adds_listed_counterexample : ∃ h h' usr usr', run Hub.step .boot loneUser = some h ∧
    addBuddies default (.addBuddies [44, 120]) 0 h = .ok h' ∧ h.users 0 = some usr ∧
      h'.users 0 = some usr' ∧ usr.buddies.set = [] ∧ usr'.buddies.set = [[44, 120]] ∧
      ¬∀ nick, nick ∈ usr'.buddies.set ↔
        nick ∈ usr.buddies.set ∨ nick ≠ [] ∧ IsField COMMA [44, 120] nick := by
  refine ⟨_, _, _, _, rfl, rfl, rfl, rfl, rfl, by decide, fun hall => ?_⟩
  have hmem : ([44, 120] : Nick) ∈ ([[44, 120]] : List Nick) := List.mem_singleton_self _
  rcases (hall [44, 120]).mp hmem with hB | ⟨-, hcomma, -⟩
  · cases hB
  · exact hcomma List.mem_cons_self

/-- The buddies of the user are those of `usr` but for the fields of the data, and nothing else
in the hub has changed. -/
def Removed (pkg : CmdPkg) (u : UserRef) (usr : User) (h h' : Hub) : Prop :=
  ∃ b, h' = h.setUser u { usr with buddies := b } ∧
    ∀ nick, nick ∈ b.set ↔ nick ∈ usr.buddies.set ∧ ¬IsField COMMA pkg.getData nick

theorem removed_removeAll {h h' : Hub} {s : SessionRef} {session : Session} {u : UserRef}
    {usr : User} {pkg : CmdPkg} (hs : h.sessions s = some session) (hu : session.user = some u)
    (husr : h.users u = some usr) (he : removeBuddies pkg s h = .ok h') : Removed pkg u usr h h' := by
  rw [removeBuddies_eq pkg hs hu husr, eraseBuddies_eq] at he
  cases he
  refine ⟨_, rfl, fun nick => ?_⟩
  rw [mem_eraseBuddies, removeFields_eq, mem_splitOn]

/-- `REMOVE_BUDDIES` comes to an end; it removes exactly the fields, if these are all empty, and
else the first one that is not is written past the end of its block. Leaving the copies aside, it
always removes exactly the fields. -/
theorem removes_listed_iff {h : Hub} {s : SessionRef} {session : Session} {u : UserRef} {usr : User}
    (pkg : CmdPkg) (hs : h.sessions s = some session) (hu : session.user = some u)
    (husr : h.users u = some usr) :
    (∃ rounds last, run (Cutter.round false pkg.getData) ⟨0, 0, []⟩ (List.replicate rounds ()) =
        some last ∧ last.round false pkg.getData () = none ∧
        last.names = removeFields pkg.getData) ∧
      ((∃ h', removeBuddiesCopying pkg s h = .ok h' ∧ Removed pkg u usr h h') ↔
        ∀ nick, IsField COMMA pkg.getData nick → nick = []) ∧
      ∃ h', removeBuddies pkg s h = .ok h' ∧ Removed pkg u usr h h' := by
  have hplain : ∃ h', removeBuddies pkg s h = .ok h' ∧ Removed pkg u usr h h' :=
    ⟨_, removeBuddies_eq pkg hs hu husr,
      removed_removeAll hs hu husr (removeBuddies_eq pkg hs hu husr)⟩
  have hall : removeBuddies pkg s h = removeAll u (removeFields pkg.getData) h := by
    rw [removeBuddies, Hub.session_eq_ok.mpr hs, ok_bind, hu]
  have hcopying : removeBuddiesCopying pkg s h =
      if ∀ nick ∈ removeFields pkg.getData, nick = [] then removeBuddies pkg s h
      else .error .badIndex := by
    rw [hall, removeBuddiesCopying, Hub.session_eq_ok.mpr hs, ok_bind, hu]
    exact removeCopies_eq husr
  have hfields : (∀ nick ∈ removeFields pkg.getData, nick = []) ↔
      ∀ nick, IsField COMMA pkg.getData nick → nick = [] := by
    simp only [removeFields_eq, mem_splitOn]
  refine ⟨?_, ?_, hplain⟩
  · obtain ⟨a', ha'⟩ := scan_runs false pkg.getData (pkg.getData.length + 1) 0 [] (Nat.zero_add _)
    exact ⟨_, _, ha', by simp [Cutter.round], rfl⟩
  · rw [hcopying, ← hfields]
    constructor
    · rintro ⟨h', he, -⟩
      by_contra hsome
      rw [if_neg hsome] at he
      cases he
    · intro hempty
      rw [if_pos hempty]
      exact hplain

/-- The user `a` has the buddies `b` and `c`. -/
def twoBuddies : List (Event × Env) :=
  loneUser ++ [(.command 0 (.addBuddies [98, 44, 99]), default)]

/-- Of them `b` is removed, and `c` is kept. -/
theorem removes_listed_iff_two : ∃ h h' usr b, run Hub.step .boot twoBuddies = some h ∧
    h.users 0 = some usr ∧ usr.buddies.set = [[98], [99]] ∧
      removeBuddies (.removeBuddies [98]) 0 h = .ok h' ∧
      h' = h.setUser 0 { usr with buddies := b } ∧ [98] ∉ b.set ∧ [99] ∈ b.set := by
  have hrun : ∃ h usr, run Hub.step .boot twoBuddies = some h ∧
      h.sessions 0 = some ⟨0, some 0⟩ ∧ h.users 0 = some usr ∧
      usr.buddies.set = [[98], [99]] := ⟨_, _, rfl, rfl, rfl, by decide +kernel⟩
  obtain ⟨h, usr, hr, hs, husr, hB⟩ := hrun
  obtain ⟨-, -, h', he, b, hb, hset⟩ :=
    @removes_listed_iff h 0 _ 0 usr (.removeBuddies [98]) hs rfl husr
  have hdata : (CmdPkg.removeBuddies [98]).getData = [98] := by decide
  rw [hdata, hB] at hset
  refine ⟨h, h', usr, b, hr, husr, hB, he, hb, fun hmem => ?_, (hset [99]).mpr ⟨by decide, ?_⟩⟩
  · exact ((hset [98]).mp hmem).2 ((isField_of_not_mem (by decide)).mpr rfl)
  · intro hfield
    exact absurd ((isField_of_not_mem (by decide)).mp hfield) (by decide)

/-- The copy of the name `b` does not fit in its block. -/
theorem removes_listed_counterexample : ∃ h usr, run Hub.step .boot twoBuddies = some h ∧
    h.users 0 = some usr ∧ removeBuddiesCopying (.removeBuddies [98]) 0 h = .error .badIndex ∧
      ¬∃ h', removeBuddiesCopying (.removeBuddies [98]) 0 h = .ok h' ∧
        Removed (.removeBuddies [98]) 0 usr h h' := by
  refine ⟨_, _, rfl, rfl, rfl, ?_⟩
  rintro ⟨h', he, -⟩
  cases he

end Gpshub
