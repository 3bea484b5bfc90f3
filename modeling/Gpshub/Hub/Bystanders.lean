import Gpshub.Hub.Isolation
import Gpshub.Hub.Secrecy

/-! Hubs that agree on all clients but one, whatever memory held before in either of them. -/
namespace Gpshub
open CommandServer CommandHandler GpsDataServer Lib Lib.Machine Hub

/-- The hub without the addresses that have not been set. -/
def Hub.defined (h : Hub) : Hub :=
  { h with users := fun u => (h.users u).map fun usr => usr.withUnset default }

/-- The hubs are the same but for what waits to be sent to the client of `s`, what was sent, and
what addresses hold that have not been set. -/
def Agree (s : SessionRef) (h h' : Hub) : Prop := (h'.without s).defined = (h.without s).defined

def Env.leftovers (env : Env) : Leftovers := ⟨env.junk, env.addrUdp, env.token⟩

theorem SameBut.agree {s : SessionRef} {h h' : Hub} (hs : SameBut s h h') : Agree s h h' :=
  congrArg Hub.defined hs

namespace Agree

variable {s : SessionRef} {h h' g : Hub}

theorem refl (s : SessionRef) (h : Hub) : Agree s h h := rfl

theorem symm (ha : Agree s h h') : Agree s h' h := Eq.symm ha

theorem trans (hgh : Agree s g h) (ha : Agree s h h') : Agree s g h' := Eq.trans ha hgh

theorem field {α : Type} (f : Hub → α) (ha : Agree s h h') :
    f (h'.without s).defined = f (h.without s).defined := congrArg f ha

theorem sessions (ha : Agree s h h') : h'.sessions = h.sessions := ha.field Hub.sessions

theorem nextSession (ha : Agree s h h') : h'.nextSession = h.nextSession :=
  ha.field Hub.nextSession

/-- With the addresses of the first hub the second one differs in what waits to be sent only. -/
theorem between (ha : Agree s h h') : SameBut s h { h' with users := h.users } := by
  simp only [Agree, Hub.without, Hub.defined, Hub.mk.injEq] at ha
  obtain ⟨hid, hnick, hcur, -, hsock, hses, hq, huq, hp, -, hnu, hns⟩ := ha
  simp only [SameBut, Hub.without, hid, hnick, hcur, hsock, hses, hq, huq, hp, hnu, hns]

theorem user (ha : Agree s h h') (v : UserRef) :
    (h'.users v).map (fun usr => usr.withUnset default) =
      (h.users v).map fun usr => usr.withUnset default :=
  congrFun (ha.field Hub.users) v

end Agree

theorem withUnset_withUnset (usr : User) (addr addr' : SockAddr) :
    (usr.withUnset addr).withUnset addr' = usr.withUnset addr' := by
  unfold User.withUnset
  split_ifs <;> rfl

theorem withUnset_self (usr : User) : usr.withUnset usr.addrUdp = usr := by
  unfold User.withUnset
  split_ifs <;> rfl

section Related

variable {u : UserRef} {h h' : Hub}

/-- The veil of a user that does not exist hides addresses only. -/
theorem related_of_users (hu : h.users u = none) {users : UserRef → Option User}
    (hsame : ∀ v, (users v).map (fun usr => usr.withUnset default) =
      (h.users v).map fun usr => usr.withUnset default) : Related u h { h with users } := by
  let p : Hidden := .blank fun v => ((users v).map User.addrUdp).getD default
  have hcover (v : UserRef) : (h.users v).map (cover u p v) = users v := by
    have hv := hsame v
    cases hh : h.users v with
    | none =>
      rw [hh] at hv
      exact (Option.map_eq_none_iff.mp hv).symm
    | some usr =>
      have hne : v ≠ u := by
        rintro rfl
        cases hu.symm.trans hh
      rw [hh] at hv
      obtain ⟨usr', hu', heq⟩ := Option.map_eq_some_iff.mp hv
      have heq : usr'.withUnset default = usr.withUnset default := heq
      have haddr : p.addrUdp v = usr'.addrUdp := by simp [p, Hidden.blank, hu']
      rw [hu', Option.map_some]
      unfold cover
      dsimp only
      rw [if_neg hne, haddr, ← withUnset_withUnset usr default, ← heq, withUnset_withUnset,
        withUnset_self]
  refine ⟨p, h.out, ?_⟩
  unfold veil silent
  dsimp only
  rw [List.append_nil, funext hcover]

theorem Related.agree (hrel : Related u h h') (hu : h.users u = none) (s : SessionRef) :
    Agree s h h' := by
  obtain ⟨p, o, rfl⟩ := hrel
  have hsame : (fun v => ((h.users v).map (cover u p v)).map fun usr => usr.withUnset default) =
      fun v => (h.users v).map fun usr => usr.withUnset default := by
    funext v
    cases hv : h.users v with
    | none => rfl
    | some usr =>
      have hne : v ≠ u := by
        rintro rfl
        cases hu.symm.trans hv
      rw [Option.map_some, Option.map_some, Option.map_some]
      unfold cover
      dsimp only
      rw [if_neg hne, withUnset_withUnset]
  simp only [Agree, Hub.defined, Hub.without, veil, silent, hsame]

end Related

section Steps

variable {s : SessionRef} {h h' g g' : Hub} {ev ev' : Event} {env env' : Env}

theorem nextUser_step {h h' : Hub} {call : Event × Env} (hs : h.step call = some h') :
    h'.nextUser ≤ h.nextUser + 1 := by
  cases step_change hs with
  | accept | close | logOut => exact Nat.le_succ _
  | register => exact le_refl _
  | frame _ hin hclose hf hid hpend => exact hf.nextUser.le.trans (Nat.le_succ _)

theorem determined_of_agree (ha : Agree s h h') : Determined { h' with users := h.users } ev' ↔
    Determined h ev' := by
  obtain ⟨q, p, o, heq, -, -⟩ := ha.between.elim
  rw [heq]
  cases ev' <;> exact Iff.rfl

/-- What leaves hubs the same that differ in what waits to be sent also does so where memory
held something else, as long as none of that is sent or compared. -/
theorem Agree.step {l : Leftovers} (ha : Agree s h h') (hwf : WellFormed h) (hwf' : WellFormed h')
    (hsame : ∀ m, SameBut s h m → m.pendingCmdQueue = h'.pendingCmdQueue →
      Both (SameBut s) (h.dispatch env ev) (m.dispatch (env'.over l) ev'))
    (hsender : ∀ theirAddr bytes, ev' = .datagram theirAddr bytes →
      Determined h ev' ∧ Determined h' ev')
    (hj : l.junk = env'.junk ∨ Determined h ev')
    (hs : h.step (ev, env) = some g) (hs' : h'.step (ev', env') = some g') : Agree s g g' := by
  let m : Hub := { h' with users := h.users }
  have hbetween : SameBut s h m := ha.between
  have hwfm : WellFormed m := by
    obtain ⟨q, p, o, heq, -, -⟩ := hbetween.elim
    rw [heq]
    have hid : h.idUmap = lookedUpIn h.idUmap none := rfl
    exact hwf.frame ⟨rfl, fun _ => rfl, rfl, rfl, rfl, rfl⟩ hid
  have hu (h : Hub) (hwf : WellFormed h) {u : UserRef} (hle : h.nextUser ≤ u) :
      h.users u = none := by
    cases hu : h.users u with
    | none => rfl
    | some usr => exact absurd (hwf.user hu).1 (not_lt.mpr hle)
  have hrel : Related (h'.nextUser + 1) h' m :=
    related_of_users (hu h' hwf' (Nat.le_succ _)) fun v => (ha.user v).symm
  obtain ⟨m', hm, hrel'⟩ : ∃ m', m.step (ev', env'.over l) = some m' ∧
      Related (h'.nextUser + 1) g' m' := by
    by_cases hpull : ev' = .pull
    · subst hpull
      exact hrel.pull hs'
    · obtain ⟨m', -, hm, hrel', -, -⟩ := hrel.step (l := l) hwf' hwfm hpull (.refl _ _ _)
        (fun theirAddr bytes hev => by
          obtain ⟨hd, hd'⟩ := hsender theirAddr bytes hev
          exact ⟨hd', (determined_of_agree ha).mpr hd⟩)
        (hj.imp_right (determined_of_agree ha).mpr) hs'
      exact ⟨m', hm, hrel'⟩
  have hgm : SameBut s g m' := hsame m hbetween rfl g m' (step_eq_some.mp hs) (step_eq_some.mp hm)
  have hgone : g'.users (h'.nextUser + 1) = none := hu g' (hwf'.step hs') (nextUser_step hs')
  exact hgm.agree.trans (hrel'.agree hgone s).symm

theorem Agree.command {k : SessionRef} {pkg pkg' : CmdPkg} (ha : Agree s h h')
    (hwf : WellFormed h) (hwf' : WellFormed h') (hrand : env'.rand = env.rand)
    (ht : pkg'.getType = pkg.getType) (hd : pkg'.getData = pkg.getData)
    (hothers : k ≠ s → env'.answer = env.answer ∧ Determined h (.command k pkg))
    (hs : h.step (.command k pkg, env) = some g)
    (hs' : h'.step (.command k pkg', env') = some g') : Agree s g g' := by
  have hsame (l : Leftovers) (hi : SameInput s k env (env'.over l)) (m : Hub)
      (hm : SameBut s h m) (_ : m.pendingCmdQueue = h'.pendingCmdQueue) :
      Both (SameBut s) (h.dispatch env (.command k pkg))
        (m.dispatch (env'.over l) (.command k pkg')) := by
    intro a b he he'
    obtain ⟨-, -, he⟩ := bind_eq_ok.mp he
    obtain ⟨-, -, he'⟩ := bind_eq_ok.mp he'
    exact handle_sameBut hm hi ht hd a b he he'
  by_cases hk : k = s
  · let l : Leftovers := ⟨env'.junk, env.addrUdp, env.token⟩
    exact ha.step (l := l) hwf hwf' (hsame l ⟨rfl, rfl, hrand, fun hne => absurd hk hne⟩) nofun
      (Or.inl rfl) hs hs'
  · obtain ⟨hans, hdet⟩ := hothers hk
    have hdet' : Determined h (.command k pkg') := by
      simpa only [Determined, ht, hd] using hdet
    exact ha.step (l := env.leftovers) hwf hwf'
      (hsame _ ⟨rfl, rfl, hrand, fun _ => ⟨hans, rfl⟩⟩) nofun (Or.inr hdet') hs hs'

/-- Handlers that nothing from memory goes into. -/
theorem Agree.call (ev : Event) (ha : Agree s h h') (hwf : WellFormed h) (hwf' : WellFormed h')
    (hsame : ∀ m, SameBut s h m → m.pendingCmdQueue = h'.pendingCmdQueue →
      Both (SameBut s) (h.dispatch env ev) (m.dispatch env' ev))
    (hsender : ∀ theirAddr bytes, ev = .datagram theirAddr bytes →
      Determined h ev ∧ Determined h' ev)
    (hs : h.step (ev, env) = some g) (hs' : h'.step (ev, env') = some g') : Agree s g g' :=
  ha.step (l := env'.leftovers) hwf hwf' hsame hsender (Or.inl rfl) hs hs'

end Steps
end Gpshub
