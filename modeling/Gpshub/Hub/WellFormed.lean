import Gpshub.Hub.Effects
import Gpshub.Lib.Directory

/-! The invariant of the hub: both maps list the same users, and a session that is logged in
points to one of them. -/
namespace Gpshub
open CommandServer CommandHandler Lib.Machine

/-- What a user says of itself. -/
def User.tag (u : User) : Int32 × Nick := (u.id, u.nick)

def Hub.tag (h : Hub) (u : UserRef) : Option (Int32 × Nick) := (h.users u).map User.tag

structure WellFormed (h : Hub) : Prop where
  directory : Lib.Directory.Inverse h.idUmap.pointsTo h.nickUmap.pointsTo h.tag
  user : ∀ {u usr}, h.users u = some usr → u < h.nextUser ∧ usr.id ≠ 0 ∧
    ∃ s, usr.sock = some s ∧ s < h.nextSession
  session : ∀ {s session}, h.sessions s = some session → session.sock = s ∧ s < h.nextSession
  login : ∀ {s session u}, h.sessions s = some session → session.user = some u →
    ∃ usr, h.users u = some usr ∧ usr.sock = some s ∧ h.idUmap.pointsTo usr.id = some u
  socket : ∀ {s}, s < h.nextSession → ((h.sockets s).deleted = false ↔ ∃ x, h.sessions s = some x)

namespace WellFormed

variable {h h' : Hub}

theorem boot : WellFormed Hub.boot where
  directory := .empty _
  user hu := nomatch hu
  session hs := nomatch hs
  login hs := nomatch hs
  socket hs := absurd hs (Nat.not_lt_zero _)

theorem tag_eq_some {u : UserRef} {t : Int32 × Nick} :
    h.tag u = some t ↔ ∃ usr, h.users u = some usr ∧ (usr.id, usr.nick) = t :=
  Option.map_eq_some_iff

theorem tag_of_user {u : UserRef} {usr : User} (hu : h.users u = some usr) :
    h.tag u = some (usr.id, usr.nick) :=
  tag_eq_some.mpr ⟨usr, hu, rfl⟩

private theorem tag_frame (hf : Frame h h') : h'.tag = h.tag := by
  funext u
  have hu := congrArg (Option.map fun i => (i.1, i.2.1)) (hf.users u)
  rw [Option.map_map, Option.map_map] at hu
  exact hu

theorem pointsTo_lookedUpIn (m : IdUserMap) (id? : Option Int32) :
    (lookedUpIn m id?).pointsTo = m.pointsTo := by
  cases id? with
  | none => rfl
  | some id => exact SyncHashMap.pointsTo_get m id

theorem frame (hwf : WellFormed h) {id? : Option Int32} (hf : Frame h h')
    (hid : h'.idUmap = lookedUpIn h.idUmap id?) : WellFormed h' where
  directory := by
    rw [hid, pointsTo_lookedUpIn, hf.nickUmap, tag_frame hf]
    exact hwf.directory
  user hu := by
    obtain ⟨usr, hu', hi⟩ := hf.some_of_user hu
    simp only [User.ident, Prod.mk.injEq] at hi
    rw [hf.nextUser, hf.nextSession, ← hi.1, ← hi.2.2]
    exact hwf.user hu'
  session hs := by
    rw [hf.sessions] at hs
    rw [hf.nextSession]
    exact hwf.session hs
  login hs hu := by
    rw [hf.sessions] at hs
    obtain ⟨usr, husr, hsock, hmap⟩ := hwf.login hs hu
    obtain ⟨usr', husr', hi⟩ := hf.user_of_some husr
    simp only [User.ident, Prod.mk.injEq] at hi
    refine ⟨usr', husr', hi.2.2.trans hsock, ?_⟩
    rw [hid, pointsTo_lookedUpIn, hi.1]
    exact hmap
  socket hs := by
    rw [hf.nextSession] at hs
    rw [hf.sockets, hf.sessions]
    exact hwf.socket hs

theorem accept (hwf : WellFormed h) (addr : SockAddr) :
    WellFormed (incomingConnection addr h) where
  directory := hwf.directory
  user hu := by
    obtain ⟨hlt, hid, s, hsock, hs⟩ := hwf.user hu
    exact ⟨hlt, hid, s, hsock, Nat.lt_succ_of_lt hs⟩
  session := by
    intro s session hs
    change Function.update h.sessions h.nextSession _ s = some session at hs
    rcases Lib.of_update_some hs with ⟨rfl, rfl⟩ | ⟨-, hs⟩
    · exact ⟨rfl, Nat.lt_succ_self _⟩
    · obtain ⟨hsock, hlt⟩ := hwf.session hs
      exact ⟨hsock, Nat.lt_succ_of_lt hlt⟩
  login := by
    intro s session u hs hu
    change Function.update h.sessions h.nextSession _ s = some session at hs
    rcases Lib.of_update_some hs with ⟨rfl, rfl⟩ | ⟨-, hs⟩
    · cases hu
    · exact hwf.login hs hu
  socket := by
    intro s hs
    change (Function.update h.sockets h.nextSession _ s).deleted = false ↔
      ∃ x, Function.update h.sessions h.nextSession _ s = some x
    by_cases hn : s = h.nextSession
    · subst hn
      simp
    · rw [Function.update_of_ne hn, Function.update_of_ne hn]
      exact hwf.socket (lt_of_le_of_ne (Nat.le_of_lt_succ hs) hn)

theorem nextUser_none (hwf : WellFormed h) : h.users h.nextUser = none := by
  cases hu : h.users h.nextUser with
  | none => rfl
  | some usr => exact absurd (hwf.user hu).1 (lt_irrefl _)

theorem register (hwf : WellFormed h) (env : Env) {nick : Nick} {id : UInt32} {s : SessionRef}
    {session : Session} (hs : h.sessions s = some session)
    (hnick : h.nickUmap.map nick = none) (hne : id ≠ 0) (hid : h.idUmap.map id.toInt32 = none) :
    WellFormed (registered env nick id s session h) where
  directory := by
    have hd := hwf.directory.insert (SyncHashMap.pointsTo_of_none hid) (SyncHashMap.pointsTo_of_none hnick)
      (show h.tag h.nextUser = none by rw [Hub.tag, hwf.nextUser_none]; rfl)
    have htag : (registered env nick id s session h).tag =
        Function.update h.tag h.nextUser (some (id.toInt32, nick)) := by
      funext u
      unfold Hub.tag
      rw [registered_users]
      by_cases hu : u = h.nextUser
      · subst hu
        simp [User.tag, registerUser, User.new, User.setSockPtr, User.setToken]
      · simp [hu]
    rw [htag]
    simpa [registered, logIn, Hub.setUser, Hub.setSession] using hd
  user := by
    intro u usr hu
    rw [registered_users] at hu
    rcases Lib.of_update_some hu with ⟨rfl, rfl⟩ | ⟨-, hu⟩
    · refine ⟨Nat.lt_succ_self _, fun h0 => hne ?_, session.sock, rfl, ?_⟩
      · exact congrArg Int32.toUInt32 h0
      · obtain ⟨hsock, hlt⟩ := hwf.session hs
        rw [hsock]
        exact hlt
    · obtain ⟨hlt, hrest⟩ := hwf.user hu
      exact ⟨Nat.lt_succ_of_lt hlt, hrest⟩
  session := by
    intro t x hx
    change Function.update h.sessions s _ t = some x at hx
    rcases Lib.of_update_some hx with ⟨rfl, rfl⟩ | ⟨-, hx⟩
    · exact ⟨(hwf.session hs).1, (hwf.session hs).2⟩
    · exact hwf.session hx
  login := by
    intro t x u hx hu
    change Function.update h.sessions s _ t = some x at hx
    rw [registered_users]
    have hmap : (registered env nick id s session h).idUmap.pointsTo =
        Function.update h.idUmap.pointsTo id.toInt32 (some h.nextUser) :=
      SyncHashMap.pointsTo_put ..
    rw [hmap]
    rcases Lib.of_update_some hx with ⟨rfl, rfl⟩ | ⟨-, hx⟩
    · cases hu
      refine ⟨_, Function.update_self .., ?_, Function.update_self ..⟩
      exact congrArg some (hwf.session hs).1
    · obtain ⟨usr, husr, hsock, hl⟩ := hwf.login hx hu
      have hun : u ≠ h.nextUser := (hwf.user husr).1.ne
      have hik : usr.id ≠ id.toInt32 := fun he => by
        rw [he, SyncHashMap.pointsTo_of_none hid] at hl
        cases hl
      exact ⟨usr, by rw [Function.update_of_ne hun, husr], hsock,
        by rw [Function.update_of_ne hik, hl]⟩
  socket := by
    intro t ht
    change (h.sockets t).deleted = false ↔ ∃ x, Function.update h.sessions s _ t = some x
    rw [hwf.socket ht]
    by_cases hts : t = s
    · subst hts
      simp [hs]
    · rw [Function.update_of_ne hts]

private theorem sessions_delete {s t : SessionRef} {session x : Session}
    (hx : (deleteSession s session h).sessions t = some x) : t ≠ s ∧ h.sessions t = some x := by
  change Function.update h.sessions s none t = some x at hx
  obtain ⟨ht, hx⟩ := Lib.of_update_none hx
  exact ⟨ht, hx⟩

private theorem sockets_delete (hwf : WellFormed h) {s t : SessionRef} {session : Session}
    (hs : h.sessions s = some session) (ht : t < h.nextSession) :
    ((deleteSession s session h).sockets t).deleted = false ↔
      ∃ x, (deleteSession s session h).sessions t = some x := by
  change (Function.update h.sockets session.sock _ t).deleted = false ↔
    ∃ x, Function.update h.sessions s none t = some x
  rw [(hwf.session hs).1]
  by_cases hts : t = s
  · subst hts
    simp
  · rw [Function.update_of_ne hts, Function.update_of_ne hts]
    exact hwf.socket ht

theorem close (hwf : WellFormed h) {s : SessionRef} {session : Session}
    (hs : h.sessions s = some session) : WellFormed (deleteSession s session h) where
  directory := hwf.directory
  user := hwf.user
  session hx := hwf.session (sessions_delete hx).2
  login hx := hwf.login (sessions_delete hx).2
  socket ht := hwf.sockets_delete hs ht

theorem logOut (hwf : WellFormed h) {s : SessionRef} {session : Session} {u : UserRef}
    {usr : User} (hs : h.sessions s = some session) (hu : session.user = some u)
    (husr : h.users u = some usr) : WellFormed (deleteSession s session (loggedOut u usr h)) := by
  obtain ⟨usr', husr', hsock, hlisted⟩ := hwf.login hs hu
  cases husr.symm.trans husr'
  have hd := hwf.directory.erase (tag_of_user husr) hlisted
  have htag : (deleteSession s session (loggedOut u usr h)).tag =
      Function.update h.tag u none := by
    funext v
    change (Function.update h.users u none v).map User.tag = _
    by_cases hv : v = u
    · subst hv
      simp
    · simp [hv, Hub.tag]
  constructor
  · rw [htag]
    simpa [deleteSession, loggedOut] using hd
  · intro v w hw
    change Function.update h.users u none v = some w at hw
    by_cases hv : v = u
    · subst hv
      simp at hw
    · rw [Function.update_of_ne hv] at hw
      exact hwf.user hw
  · intro t x hx
    exact hwf.session (sessions_delete hx).2
  · intro t x v hx hv
    obtain ⟨hts, hx⟩ := sessions_delete hx
    obtain ⟨w, hw, hwsock, hwlisted⟩ := hwf.login hx hv
    -- the two users have different sockets, hence different ids
    have hvu : v ≠ u := by
      rintro rfl
      rw [husr] at hw
      cases hw
      exact hts (Option.some.inj (hwsock.symm.trans hsock))
    refine ⟨w, (Function.update_of_ne hvu ..).trans hw, hwsock, ?_⟩
    change (h.idUmap.erase usr.id).pointsTo w.id = some v
    rw [SyncHashMap.pointsTo_erase]
    exact (Lib.Directory.erase_other hlisted hvu).mpr hwlisted
  · intro t ht
    exact hwf.sockets_delete hs ht

theorem step {h h' : Hub} {call : Event × Env} (hs : Hub.step h call = some h')
    (hwf : WellFormed h) : WellFormed h' := by
  cases step_change hs with
  | accept addr hev => exact hwf.accept addr
  | register s pkg session id q o hev hin hses hnick hne hid =>
    have hr := hwf.register call.2 hses hnick hne hid
    exact ⟨hr.directory, hr.user, hr.session, hr.login, hr.socket⟩
  | close s session hev hses hu => exact hwf.close hses
  | logOut s session u usr hev hses hu husr => exact hwf.logOut hses hu husr
  | frame _ hin hclose hf hid hpend => exact hwf.frame hf hid

theorem of_reachable (hr : Reachable Hub.step Hub.Booted h) : WellFormed h :=
  reachable_of_inv (fun _ hb => hb ▸ boot) (fun _ _ _ => step) hr

end WellFormed
end Gpshub
