import Gpshub.Hub.Effects

/-! What the handler of a command does, one effect after the other. -/
namespace Gpshub
open CommandServer CommandHandler Relation Lib.Machine

/-- The single effects of the handler of a command of the session `s`. -/
inductive Act (s : SessionRef) : Hub → Hub → Prop
  | send {h h' : Hub} (pkg : CmdPkg) (answer : SendResult)
      (he : send h s pkg answer = .ok h') : Act s h h'
  | buddies {h : Hub} (session : Session) (u : UserRef) (usr usr' : User)
      (hs : h.sessions s = some session) (hu : session.user = some u)
      (husr : h.users u = some usr) (hb : SameButBuddies usr usr') : Act s h (h.setUser u usr')
  | current {h : Hub} (c : UInt32) : Act s h { h with current := c }
  | logIn {h : Hub} (env : Env) (nick : Nick) (id : UInt32) (session : Session)
      (hs : h.sessions s = some session) (hnick : h.nickUmap.map nick = none) (hne : id ≠ 0)
      (hid : h.idUmap.map id.toInt32 = none) : Act s h (logIn env nick id s session h)
  | token {h : Hub} (session : Session) (u : UserRef) (usr : User) (token : Int32)
      (hs : h.sessions s = some session) (hu : session.user = some u)
      (husr : h.users u = some usr) : Act s h (h.setUser u (usr.setToken token))

/-- Any number of effects of the session. -/
def Acts (s : SessionRef) : Hub → Hub → Prop := ReflTransGen (Act s)

namespace Acts

variable {s : SessionRef} {h h' : Hub}

theorem refl (h : Hub) : Acts s h h := ReflTransGen.refl

theorem trans {a b c : Hub} (hab : Acts s a b) (hbc : Acts s b c) : Acts s a c :=
  ReflTransGen.trans hab hbc

theorem single (ha : Act s h h') : Acts s h h' := ReflTransGen.single ha

end Acts

section Handlers

variable {env : Env} {h h' : Hub} {s : SessionRef} {u : UserRef} {session : Session}

/-- The effects of a handler that keeps the session are effects of the session. -/
theorem Edits.acts (hs : h.sessions s = some session) (he : Edits s session.user h h') :
    Acts s h h' := by
  have hacts := effects_rule (R := fun h h' => h.sessions s = some session →
    Acts s h h' ∧ h'.sessions s = some session) ?_ ?_ ?_ he hs
  · exact hacts.1
  · exact fun h hs => ⟨.refl h, hs⟩
  · intro a b c hab hbc hs
    obtain ⟨hb, hs⟩ := hab hs
    obtain ⟨hc, hs⟩ := hbc hs
    exact ⟨hb.trans hc, hs⟩
  · intro a b he hs
    refine ⟨.single ?_, by rw [he.quiet.sessions, hs]⟩
    cases he with
    | send pkg answer he => exact .send pkg answer he
    | buddies u usr usr' hu husr hb => exact .buddies session u usr usr' hs hu husr hb

theorem registerNick_acts {pkg : CmdPkg} (he : registerNick env pkg s h = .ok h') :
    Acts s h h' := by
  unfold registerNick at he
  dsimp only at he
  split_ifs at he with htaken
  · obtain ⟨pkgFail, -, he⟩ := bind_eq_ok.mp he
    exact .single (.send pkgFail _ he)
  · have hnick : h.nickUmap.map pkg.getData = none :=
      SyncHashMap.count_eq_zero.mp (Nat.eq_zero_of_not_pos htaken)
    cases hg : UserIdGenerator.generate UserIdGenerator.ULONG_MAX h.idUmap h.current with
    | none =>
      rw [hg] at he
      cases he
    | some r =>
      obtain ⟨id, next⟩ := r
      rw [hg] at he
      have hcur : Acts s h { h with current := next } := .single (.current next)
      dsimp only at he
      split_ifs at he with hz
      · obtain ⟨pkgFail, -, he⟩ := bind_eq_ok.mp he
        exact hcur.trans (.single (.send pkgFail _ he))
      · obtain ⟨-, rfl, hid⟩ := (UserIdGenerator.generate_eq_some hg).resolve_left hz
        obtain ⟨session, hs, he⟩ := bind_eq_ok.mp he
        obtain ⟨pkgOk, -, he⟩ := bind_eq_ok.mp he
        obtain ⟨h1, hsend, he⟩ := bind_eq_ok.mp he
        obtain ⟨user, huser, he⟩ := bind_eq_ok.mp he
        obtain ⟨pkgInit, -, he⟩ := bind_eq_ok.mp he
        have hin : Acts s { h with current := next }
            (logIn env pkg.getData next s session { h with current := next }) :=
          .single (.logIn env pkg.getData next session (Hub.session_eq_ok.mp hs) hnick hz hid)
        have hsent := Acts.single (.send pkgOk _ hsend)
        -- the package that was just sent has left the new session as it is
        have hs1 : h1.sessions s = some { session with user := some h.nextUser } := by
          obtain ⟨q, o, rfl⟩ := send_eq_ok hsend
          exact Function.update_self ..
        have htok := Acts.single
          (.token _ h.nextUser user env.rand hs1 rfl (Hub.deref_eq_ok.mp huser))
        exact (((hcur.trans hin).trans hsent).trans htok).trans (.single (.send pkgInit _ he))

theorem handle_acts {pkg : CmdPkg} (he : handle env pkg s h = .ok h') : Acts s h h' := by
  unfold handle at he
  split_ifs at he
  · exact registerNick_acts he
  · obtain ⟨session, hs, hed⟩ := addBuddies_edits he
    exact hed.acts hs
  · obtain ⟨session, hs, hed⟩ := removeBuddies_edits he
    exact hed.acts hs
  · cases he
    exact .refl h

end Handlers
end Gpshub
