import Gpshub.Hub.Machine

/-! What `ADD_BUDDIES` and `REMOVE_BUDDIES` do, one effect after the other: they send packages,
and they change the buddies of the user of the session. -/
namespace Gpshub
open CommandServer CommandHandler Relation

theorem get_of_count {Key Data : Type} [DecidableEq Key] [Inhabited Data]
    {m : SyncHashMap Key Data} {key : Key} (hc : 0 < m.count key) : (m.get key).2 = m := by
  obtain ⟨p, hp⟩ := SyncHashMap.count_pos.mp hc
  rw [SyncHashMap.get_of_some hp]

/-- Only the buddies of a user differ. -/
def SameButBuddies (usr usr' : User) : Prop :=
  ∃ b, usr' = { usr with buddies := b } ∧ (usr.buddies.set.Nodup → b.set.Nodup)

theorem SameButBuddies.refl (usr : User) : SameButBuddies usr usr := ⟨usr.buddies, rfl, id⟩

theorem SameButBuddies.trans {a b c : User} (hab : SameButBuddies a b)
    (hbc : SameButBuddies b c) : SameButBuddies a c := by
  obtain ⟨x, rfl, hx⟩ := hab
  obtain ⟨y, rfl, hy⟩ := hbc
  exact ⟨y, rfl, fun hn => hy (hx hn)⟩

theorem SyncHashSet.nodup_insert {Item : Type} [DecidableEq Item] {b : SyncHashSet Item}
    (hb : b.set.Nodup) (item : Item) : (b.insert item).set.Nodup := by
  unfold SyncHashSet.insert
  split_ifs with hi
  · exact hb
  · exact List.nodup_append.mpr ⟨hb, List.nodup_singleton item, fun a ha c hc => by
      rw [List.mem_singleton.mp hc]
      rintro rfl
      exact hi ha⟩

theorem sameButBuddies_insert (usr : User) (nick : Nick) :
    SameButBuddies usr (usr.insertBuddy nick) :=
  ⟨_, rfl, fun hb => SyncHashSet.nodup_insert hb nick⟩

theorem sameButBuddies_erase (usr : User) (nick : Nick) :
    SameButBuddies usr (usr.eraseBuddy nick) :=
  ⟨_, rfl, fun hb => hb.filter _⟩

/-- The single effects for the session `s`, which has the user `user`. -/
inductive Edit (s : SessionRef) (user : Option UserRef) : Hub → Hub → Prop
  | send {h h' : Hub} (pkg : CmdPkg) (answer : SendResult) (he : send h s pkg answer = .ok h') :
    Edit s user h h'
  | buddies {h : Hub} (u : UserRef) (usr usr' : User) (hu : user = some u)
      (husr : h.users u = some usr) (hb : SameButBuddies usr usr') :
    Edit s user h (h.setUser u usr')

/-- Any number of effects. -/
def Edits (s : SessionRef) (user : Option UserRef) : Hub → Hub → Prop :=
  ReflTransGen (Edit s user)

namespace Edits

variable {s : SessionRef} {user : Option UserRef} {h h' : Hub}

theorem refl (h : Hub) : Edits s user h h := ReflTransGen.refl

theorem trans {a b c : Hub} (hab : Edits s user a b) (hbc : Edits s user b c) :
    Edits s user a c :=
  ReflTransGen.trans hab hbc

theorem single (he : Edit s user h h') : Edits s user h h' := ReflTransGen.single he

end Edits

section Handlers

variable {env : Env} {h h' : Hub} {s : SessionRef} {u : UserRef}

theorem addBuddy_edits {nick : Nick} {st st' : AddState}
    (he : addBuddy env s u nick st h = .ok (st', h')) : Edits s (some u) h h' := by
  obtain ⟨user, hu, he⟩ := bind_eq_ok.mp he
  have hset : Edits s (some u) h (h.setUser u (user.insertBuddy nick)) :=
    .single (.buddies u user _ rfl (Hub.deref_eq_ok.mp hu) (sameButBuddies_insert user nick))
  dsimp only at he
  split_ifs at he with hc
  · rw [get_of_count hc] at he
    obtain ⟨buddy, -, he⟩ := bind_eq_ok.mp he
    obtain ⟨buddyUser, -, he⟩ := bind_eq_ok.mp he
    obtain ⟨pkgUid, -, he⟩ := bind_eq_ok.mp he
    obtain ⟨h1, hsend, he⟩ := bind_eq_ok.mp he
    cases he
    exact hset.trans (.single (.send pkgUid _ hsend))
  · cases he
    exact hset

theorem addAll_edits (nicks : List Nick) :
    ∀ {st st' : AddState} {h h' : Hub}, addAll env s u nicks st h = .ok (st', h') →
      Edits s (some u) h h' := by
  induction nicks with
  | nil =>
    intro st st' h h' he
    cases he
    exact .refl h
  | cons nick rest ih =>
    intro st st' h h' he
    obtain ⟨⟨st1, h1⟩, h1e, he⟩ := bind_eq_ok.mp he
    exact (addBuddy_edits h1e).trans (ih he)

theorem addBuddies_edits {pkg : CmdPkg} (he : addBuddies env pkg s h = .ok h') :
    ∃ session, h.sessions s = some session ∧ Edits s session.user h h' := by
  obtain ⟨session, hs, he⟩ := bind_eq_ok.mp he
  refine ⟨session, Hub.session_eq_ok.mp hs, ?_⟩
  cases hu : session.user with
  | none =>
    rw [hu] at he
    cases he
    exact .refl h
  | some u =>
    rw [hu] at he
    obtain ⟨⟨st, h1⟩, h1e, he⟩ := bind_eq_ok.mp he
    have hall : Edits s (some u) h h1 := addAll_edits _ h1e
    dsimp only at he
    split_ifs at he
    · obtain ⟨pkgIds, -, he⟩ := bind_eq_ok.mp he
      exact hall.trans (.single (.send pkgIds _ he))
    · cases he
      exact hall

theorem removeAll_edits (nicks : List Nick) :
    ∀ {h h' : Hub}, removeAll u nicks h = .ok h' → Edits s (some u) h h' := by
  induction nicks with
  | nil =>
    intro h h' he
    cases he
    exact .refl h
  | cons nick rest ih =>
    intro h h' he
    obtain ⟨user, hu, he⟩ := bind_eq_ok.mp he
    have hset : Edits s (some u) h (h.setUser u (user.eraseBuddy nick)) :=
      .single (.buddies u user _ rfl (Hub.deref_eq_ok.mp hu) (sameButBuddies_erase user nick))
    exact hset.trans (ih he)

theorem removeBuddies_edits {pkg : CmdPkg} (he : removeBuddies pkg s h = .ok h') :
    ∃ session, h.sessions s = some session ∧ Edits s session.user h h' := by
  obtain ⟨session, hs, he⟩ := bind_eq_ok.mp he
  refine ⟨session, Hub.session_eq_ok.mp hs, ?_⟩
  cases hu : session.user with
  | none =>
    rw [hu] at he
    cases he
    exact .refl h
  | some u =>
    rw [hu] at he
    exact removeAll_edits _ he

end Handlers
end Gpshub
