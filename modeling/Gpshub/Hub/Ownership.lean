import Gpshub.Hub.Maps

/-! How long a user lives: as long as its session points to it. -/
namespace Gpshub
open CommandServer CommandHandler Lib.Machine

def InMaps (h : Hub) (u : UserRef) : Prop :=
  (∃ i, h.idUmap.map i = some (some u)) ∨ ∃ k, h.nickUmap.map k = some (some u)

/-- Every user in the maps has the socket of an open session, which points to it. -/
def Owned (h : Hub) : Prop :=
  ∀ u, InMaps h u → ∃ usr s session, h.users u = some usr ∧ h.sessions s = some session ∧
    usr.sock = some session.sock ∧ session.user = some u

/-- After `closeConnection` no user that was registered through the session is left. -/
def LeavesNone (h : Hub) (call : Event × Env) : Prop :=
  ∀ s session h', call.1 = .close s → h.sessions s = some session →
    Hub.step h call = some h' →
    ∀ u usr, h.users u = some usr → usr.sock = some session.sock → ¬InMaps h' u

/-- A successful `REGISTER_NICK` comes from a session that is not logged in. -/
def OnFreshSession (h : Hub) (call : Event × Env) : Prop :=
  ∀ s pkg session, call.1 = .command s pkg → LogsIn h call.1 → h.sessions s = some session →
    session.user = none

section Owners

variable {h h' : Hub}

private theorem inMaps_iff (hwf : WellFormed h) {u : UserRef} :
    InMaps h u ↔ ∃ i, h.idUmap.pointsTo i = some u := by
  unfold InMaps
  simp only [SyncHashMap.pointsTo_eq_some]
  constructor
  · rintro (hi | ⟨k, hk⟩)
    · exact hi
    · obtain ⟨usr, -, -, hid⟩ := hwf.inverse.nick hk
      exact ⟨usr.id, hid⟩
  · exact Or.inl

theorem SameEntries.inMaps_iff {u : UserRef} (hs : SameEntries u h h') :
    InMaps h' u ↔ InMaps h u := by
  unfold InMaps
  simp only [hs.1, hs.2]

theorem owned_iff (hwf : WellFormed h) : Owned h ↔
    ∀ u, InMaps h u → ∃ s session, h.sessions s = some session ∧ session.user = some u := by
  constructor
  · intro ho u hu
    obtain ⟨usr, s, session, -, hs, -, hus⟩ := ho u hu
    exact ⟨s, session, hs, hus⟩
  · intro ho u hu
    obtain ⟨s, session, hs, hus⟩ := ho u hu
    obtain ⟨usr, husr, hsock, -⟩ := hwf.login hs hus
    refine ⟨usr, s, session, husr, hs, ?_, hus⟩
    rw [hsock, (hwf.session hs).1]

private theorem WellFormed.login_unique (hwf : WellFormed h) {s t : SessionRef}
    {session x : Session} {u : UserRef} (hs : h.sessions s = some session)
    (hx : h.sessions t = some x) (hu : session.user = some u) (hxu : x.user = some u) : s = t := by
  obtain ⟨usr, husr, hsock, -⟩ := hwf.login hs hu
  obtain ⟨usr', husr', hsock', -⟩ := hwf.login hx hxu
  cases husr.symm.trans husr'
  exact Option.some.inj (hsock.symm.trans hsock')

private theorem WellFormed.login_inMaps (hwf : WellFormed h) {s : SessionRef} {session : Session}
    {u : UserRef} (hs : h.sessions s = some session) (hu : session.user = some u) :
    InMaps h u := by
  obtain ⟨usr, -, -, hid⟩ := hwf.login hs hu
  exact (inMaps_iff hwf).mpr ⟨usr.id, hid⟩

/-- A step that lets the listed users and their sessions be keeps them owned. -/
private theorem owned_of_sessions (hwf : WellFormed h) (hwf' : WellFormed h') (ho : Owned h)
    (hmaps : ∀ u, InMaps h' u → InMaps h u)
    (hses : ∀ s session u, h.sessions s = some session → session.user = some u → InMaps h' u →
      h'.sessions s = some session) : Owned h' := by
  rw [owned_iff hwf']
  intro u hu
  obtain ⟨s, session, hs, hus⟩ := (owned_iff hwf).mp ho u (hmaps u hu)
  exact ⟨s, session, hses s session u hs hus hu, hus⟩

private theorem owned_register (hwf : WellFormed h) (hwf' : WellFormed h') (ho : Owned h)
    {s : SessionRef} {session : Session} (hs : h.sessions s = some session)
    (hses : h'.sessions =
      Function.update h.sessions s (some { session with user := some h.nextUser }))
    (hmaps : ∀ u, u ≠ h.nextUser → SameEntries u h h') : Owned h' ↔ session.user = none := by
  rw [owned_iff hwf', hses]
  constructor
  · intro ho'
    cases hv : session.user with
    | none => rfl
    | some v =>
      obtain ⟨vsr, hvsr, -⟩ := hwf.login hs hv
      have hvn : v ≠ h.nextUser := (hwf.user hvsr).1.ne
      have hin : InMaps h' v := (hmaps v hvn).inMaps_iff.mpr (hwf.login_inMaps hs hv)
      obtain ⟨t, x, hx, hxv⟩ := ho' v hin
      rcases Lib.of_update_some hx with ⟨rfl, rfl⟩ | ⟨hts, hx⟩
      · exact absurd (Option.some.inj hxv).symm hvn
      · exact absurd (hwf.login_unique hx hs hxv hv) hts
  · intro hnone u hu
    by_cases hun : u = h.nextUser
    · subst hun
      exact ⟨s, _, Function.update_self .., rfl⟩
    · obtain ⟨t, x, hx, hxu⟩ := (owned_iff hwf).mp ho u ((hmaps u hun).inMaps_iff.mp hu)
      have hts : t ≠ s := by
        rintro rfl
        rw [hs] at hx
        cases hx
        rw [hnone] at hxu
        cases hxu
      exact ⟨t, x, (Function.update_of_ne hts ..).trans hx, hxu⟩

/-- One step keeps all users owned exactly if it does not register a second one on a session. -/
theorem owned_step {call : Event × Env} (hs : Hub.step h call = some h') (hwf : WellFormed h)
    (ho : Owned h) : Owned h' ↔ OnFreshSession h call := by
  have hwf' := hwf.step hs
  have hfresh (hno : ∀ s pkg, call.1 ≠ .command s pkg) : OnFreshSession h call :=
    fun s pkg _ hev => absurd hev (hno s pkg)
  have hsame (u : UserRef) := hwf.sameEntries hs (u := u)
  cases step_change hs with
  | accept addr hev =>
    refine iff_of_true ?_ (hfresh (by simp [hev]))
    refine owned_of_sessions hwf hwf' ho (fun u hu => hu) fun s session u hses _ _ => ?_
    have hne : s ≠ h.nextSession := (hwf.session hses).2.ne
    exact (Function.update_of_ne hne ..).trans hses
  | register s pkg session id q o hev hin hses hnick hne hid =>
    have hiff := owned_register hwf hwf' ho hses rfl fun u hu => hsame u (by
      rw [hev]
      exact fun hc => hu hc.2)
    rw [hiff]
    constructor
    · intro hnone s' pkg' session' hev' _ hses'
      rw [hev] at hev'
      cases hev'
      rw [hses] at hses'
      cases hses'
      exact hnone
    · intro hg
      exact hg s pkg session hev hin hses
  | close s session hev hses hnone =>
    refine iff_of_true ?_ (hfresh (by simp [hev]))
    refine owned_of_sessions hwf hwf' ho (fun u hu => hu) fun t x u hx hxu _ => ?_
    have hts : t ≠ s := by
      rintro rfl
      rw [hses] at hx
      cases hx
      rw [hnone] at hxu
      cases hxu
    exact (Function.update_of_ne hts ..).trans hx
  | logOut s session v vsr hev hses hv hvsr =>
    refine iff_of_true ?_ (hfresh (by simp [hev]))
    -- the user that has quit is in neither map any more
    have hgone (u : UserRef)
        (hu : InMaps (deleteSession s session (loggedOut v vsr h)) u) : u ≠ v := by
      rintro rfl
      obtain ⟨i, hi⟩ := (inMaps_iff hwf').mp hu
      obtain ⟨usr, husr, -⟩ := hwf'.inverse.id (SyncHashMap.pointsTo_eq_some.mp hi)
      change Function.update h.users u none u = some usr at husr
      rw [Function.update_self] at husr
      cases husr
    refine owned_of_sessions hwf hwf' ho (fun u hu => ?_) fun t x u hx hxu hu => ?_
    · have hnot : ¬Concerns h call.1 u := by
        rw [hev]
        rintro ⟨x, hx, hxu⟩
        rw [hses] at hx
        cases hx
        exact hgone u hu (Option.some.inj (hxu.symm.trans hv))
      exact (hsame u hnot).inMaps_iff.mp hu
    · have hts : t ≠ s := by
        rintro rfl
        rw [hses] at hx
        cases hx
        exact hgone u hu (Option.some.inj (hxu.symm.trans hv))
      exact (Function.update_of_ne hts ..).trans hx
  | frame _ hin hclose hf hid hpend =>
    refine iff_of_true ?_ fun s pkg session hev hin' => absurd hin' hin
    refine owned_of_sessions hwf hwf' ho (fun u hu => ?_) fun s session u hses _ _ => ?_
    · have hnot : ¬Concerns h call.1 u := by
        intro hc
        cases hev : call.1 with
        | command s pkg =>
          rw [hev] at hc hin
          exact hin hc.1
        | close s => exact hclose s hev
        | accept | writable | datagram | timeout | put | pull =>
          rw [hev] at hc
          exact hc
      exact (hsame u hnot).inMaps_iff.mp hu
    · rw [hf.sessions]
      exact hses

/-- A user that is owned after its socket's session was closed would have another session. -/
theorem leavesNone_of_owned {call : Event × Env} (hwf : WellFormed h)
    (ho : ∀ h', Hub.step h call = some h' → Owned h') : LeavesNone h call := by
  intro s session h' hev hses hs u usr husr hsock hu
  have hwf' := hwf.step hs
  obtain ⟨usr', t, x, husr', hx, hsock', -⟩ := ho h' hs u hu
  have hgone : h'.sessions s = none ∧ (h'.users u).map User.ident = (h.users u).map User.ident := by
    cases step_change hs with
    | close s' session' hev' hses' hnone =>
      cases hev.symm.trans hev'
      exact ⟨Function.update_self .., rfl⟩
    | logOut s' session' v vsr hev' hses' hv hvsr =>
      cases hev.symm.trans hev'
      refine ⟨Function.update_self .., congrArg _ (Function.update_of_ne ?_ ..)⟩
      rintro rfl
      change Function.update h.users u none u = some usr' at husr'
      rw [Function.update_self] at husr'
      cases husr'
    | accept addr hev' => cases hev.symm.trans hev'
    | register s' pkg session' id q o hev' => cases hev.symm.trans hev'
    | frame _ hin hclose hf hid hpend => exact absurd hev (hclose s)
  obtain ⟨hclosed, hident⟩ := hgone
  rw [husr, husr'] at hident
  simp only [Option.map_some, User.ident, Option.some.injEq, Prod.mk.injEq] at hident
  have hts : t = s := by
    rw [← (hwf'.session hx).1, ← (hwf.session hses).1]
    exact Option.some.inj (hsock'.symm.trans (hident.2.2.trans hsock))
  rw [hts, hclosed] at hx
  cases hx

end Owners

/-- Along a run all users in the maps are owned by their sessions, and closing a session
leaves none of its users behind, exactly if no session registers a second time. -/
theorem users_owned_iff (calls : List (Event × Env)) :
    Always Hub.step Owned Hub.boot calls ∧ Guarded Hub.step LeavesNone Hub.boot calls ↔
      Guarded Hub.step OnFreshSession Hub.boot calls := by
  have hboot : Owned Hub.boot := by
    rintro u (⟨i, hi⟩ | ⟨k, hk⟩)
    · cases hi
    · cases hk
  refine always_and_guarded_iff (fun _ _ _ => WellFormed.step) (fun h call h' hs hwf ho => ?_)
    .boot hboot
  have hiff := owned_step hs hwf ho
  constructor
  · rintro ⟨ho', -⟩
    exact hiff.mp ho'
  · intro hg
    refine ⟨hiff.mpr hg, leavesNone_of_owned hwf fun h'' hs' => ?_⟩
    exact (owned_step hs' hwf ho).mpr hg

/-- One peer registers twice and hangs up. -/
def registersTwice : List (Event × Env) :=
  [(.accept default, default), (.command 0 (.registerNick [97]), default),
    (.command 0 (.registerNick [98]), default), (.close 0, default)]

/-- The first of the two users stays in both maps when no session is left. -/
theorem users_owned_counterexample : (∃ h, run Hub.step Hub.boot registersTwice = some h ∧
      h.idUmap.map 1 = some (some 0) ∧ h.nickUmap.map [97] = some (some 0) ∧
      h.sessions 0 = none) ∧
    ¬∀ calls, Always Hub.step Owned Hub.boot calls ∧
      Guarded Hub.step LeavesNone Hub.boot calls := by
  obtain ⟨h, hr, hid, hnick, hses, hnext⟩ : ∃ h, run Hub.step Hub.boot registersTwice = some h ∧
      h.idUmap.map 1 = some (some 0) ∧ h.nickUmap.map [97] = some (some 0) ∧
      h.sessions 0 = none ∧ h.nextSession = 1 := ⟨_, rfl, by decide, by decide, rfl, rfl⟩
  have hwf : WellFormed h := run_of_inv (fun _ _ _ => WellFormed.step) hr .boot
  refine ⟨⟨h, hr, hid, hnick, hses⟩, fun hall => ?_⟩
  obtain ⟨usr, s, session, -, hs, -⟩ := (hall registersTwice).1.last hr 0 (Or.inl ⟨1, hid⟩)
  have hlt := (hwf.session hs).2
  rw [hnext, Nat.lt_one_iff] at hlt
  rw [hlt, hses] at hs
  cases hs

end Gpshub
