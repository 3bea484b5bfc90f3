import Gpshub.Hub.WellFormed

/-! What one step of the hub can do to a single user. -/
namespace Gpshub
open CommandServer CommandHandler GpsDataServer CoordsBroadcastThread Lib.Machine

/-- The user and the coordinates that `processCoordinates` takes from a datagram. -/
def takenFrom (h : Hub) : Event → Option (UserRef × Coordinates)
  | .datagram theirAddr bytes =>
    let buf := bytes.take BUF_LEN
    if buf.length = 12 ∨ buf.length = 16 then do
      let u ← h.idUmap.pointsTo (toint buf 0)
      let usr ← h.users u
      if socketEquals theirAddr usr.addrUdp then
        some (u, ⟨toint buf 4, toint buf 8, altitude buf buf.length⟩)
      else none
    else none
  | _ => none

/-- The ways a step changes a user that is there before and after it. -/
inductive UserMoved (h : Hub) (call : Event × Env) (u : UserRef) (usr : User) : User → Prop
  | same : UserMoved h call u usr usr
  | buddies (s : SessionRef) (pkg : CmdPkg) (b : SyncHashSet Nick)
      (hev : call.1 = .command s pkg) (hb : usr.buddies.set.Nodup → b.set.Nodup) :
    UserMoved h call u usr { usr with buddies := b }
  | address (theirAddr : SockAddr) (bytes : List UInt8) (sock : SocketRef)
      (hev : call.1 = .datagram theirAddr bytes) (hsock : usr.sock = some sock)
      (hip : ipEquals (h.sockets sock).addr theirAddr = true) :
    UserMoved h call u usr (usr.setAddrUdp theirAddr)
  | coordinates (c : Coordinates) (hc : takenFrom h call.1 = some (u, c)) :
    UserMoved h call u usr (usr.stored c)
  | reset (hev : call.1 = .pull) : UserMoved h call u usr (usr.setReady none)

theorem UserMoved.ident_eq {h : Hub} {call : Event × Env} {u : UserRef} {usr usr' : User}
    (hm : UserMoved h call u usr usr') : usr'.ident = usr.ident := by
  cases hm with
  | same | buddies | address | reset => rfl
  | coordinates c hc => exact ident_stored usr c

section Commands

variable {env : Env} {h h' : Hub} {s : SessionRef} {u v : UserRef} {usr usr' : User}

/-- Between `h` and `h'` users have only changed in their buddies. -/
def BuddiesOnly (h h' : Hub) : Prop :=
  ∀ u usr', h'.users u = some usr' → ∃ usr, h.users u = some usr ∧ SameButBuddies usr usr'

theorem BuddiesOnly.trans {a b c : Hub} (hab : BuddiesOnly a b) (hbc : BuddiesOnly b c) :
    BuddiesOnly a c := by
  intro u usr'' hu
  obtain ⟨usr', hu', hs'⟩ := hbc u usr'' hu
  obtain ⟨usr, hu, hs⟩ := hab u usr' hu'
  exact ⟨usr, hu, hs.trans hs'⟩

theorem BuddiesOnly.of_users (hu : h'.users = h.users) : BuddiesOnly h h' := by
  intro u usr' hu'
  rw [hu] at hu'
  exact ⟨usr', hu', .refl usr'⟩

theorem BuddiesOnly.setUser (hu : h.users u = some usr) (hs : SameButBuddies usr usr') :
    BuddiesOnly h (h.setUser u usr') := by
  intro v w hw
  change Function.update h.users u (some usr') v = some w at hw
  rcases Lib.of_update_some hw with ⟨rfl, rfl⟩ | ⟨-, hw⟩
  · exact ⟨usr, hu, hs⟩
  · exact ⟨w, hw, .refl w⟩

theorem Edit.buddiesOnly {user : Option UserRef} (he : Edit s user h h') : BuddiesOnly h h' := by
  cases he with
  | send pkg answer he =>
    obtain ⟨q, o, rfl⟩ := send_eq_ok he
    exact .of_users rfl
  | buddies u usr usr' hu husr hb => exact .setUser husr hb

theorem Edits.buddiesOnly {user : Option UserRef} (he : Edits s user h h') : BuddiesOnly h h' :=
  effects_rule (R := BuddiesOnly) (fun _ => .of_users rfl) .trans Edit.buddiesOnly he

end Commands

section Others

variable {env : Env} {h h' : Hub} {u : UserRef}

theorem Acked.users {sock : SocketRef} (ha : Acked env sock h h') : h'.users = h.users := by
  cases ha with
  | sent | putOff => rfl

theorem sendPendingCmd_users (he : sendPendingCmd env h = .ok h') : h'.users = h.users := by
  obtain ⟨⟨kept, sent⟩, -, he⟩ := bind_eq_ok.mp he
  cases he
  rfl

theorem sendAll_users {coords : Coordinates} (nicks : List Nick) :
    ∀ {k : ℕ} {h h' : Hub}, sendAll env u coords nicks k h = .ok h' → h'.users = h.users := by
  induction nicks with
  | nil =>
    intro k h h' he
    cases he
    rfl
  | cons nick rest ih =>
    intro k h h' he
    rw [sendAll] at he
    split at he
    · obtain ⟨buddy, -, he⟩ := bind_eq_ok.mp he
      obtain ⟨buddyUser, -, he⟩ := bind_eq_ok.mp he
      split at he
      · have hsame := ih he
        exact hsame
      · obtain ⟨usr, -, he⟩ := bind_eq_ok.mp he
        split at he
        · have hsame := ih he
          exact hsame
        · cases he
    · exact ih he

theorem turn_users {id : Int32} (he : turn env id h = .ok h') :
    h'.users = h.users ∨ ∃ u usr, h.users u = some usr ∧
      h'.users = Function.update h.users u (some (usr.setReady none)) := by
  unfold turn at he
  generalize h.idUmap.get id = p at he
  obtain ⟨ptr, m⟩ := p
  cases ptr with
  | none =>
    cases he
    exact Or.inl rfl
  | some u =>
    obtain ⟨usr, husr, he⟩ := bind_eq_ok.mp he
    cases hc : usr.ready with
    | none =>
      rw [hc] at he
      cases he
      exact Or.inl rfl
    | some c =>
      rw [hc] at he
      obtain ⟨h1, hb, he⟩ := bind_eq_ok.mp he
      obtain ⟨usr', -, hb⟩ := bind_eq_ok.mp hb
      obtain ⟨usr1, husr1, he⟩ := bind_eq_ok.mp he
      have hsame := sendAll_users _ hb
      have husr1 := Hub.deref_eq_ok.mp husr1
      cases he
      refine Or.inr ⟨u, usr1, hsame ▸ husr1, ?_⟩
      simp only [Hub.setUser, hsame]

end Others

section Steps

variable {h h' : Hub} {call : Event × Env} {u : UserRef} {usr' : User}

private theorem moved_of_users (hu : h'.users = h.users) (hu' : h'.users u = some usr') :
    ∃ usr, h.users u = some usr ∧ UserMoved h call u usr usr' := by
  rw [hu] at hu'
  exact ⟨usr', hu', .same⟩

private theorem moved_of_buddies {s : SessionRef} {pkg : CmdPkg}
    (hev : call.1 = .command s pkg) (hb : BuddiesOnly h h') (hu' : h'.users u = some usr') :
    ∃ usr, h.users u = some usr ∧ UserMoved h call u usr usr' := by
  obtain ⟨usr, hu, b, rfl, hn⟩ := hb u usr' hu'
  exact ⟨usr, hu, .buddies s pkg b hev hn⟩

private theorem moved_of_update {v : UserRef} {usr new : User} (hv : h.users v = some usr)
    (hm : UserMoved h call v usr new) (hu : h'.users = Function.update h.users v (some new))
    (hu' : h'.users u = some usr') :
    ∃ usr, h.users u = some usr ∧ UserMoved h call u usr usr' := by
  rw [hu] at hu'
  rcases Lib.of_update_some hu' with ⟨rfl, rfl⟩ | ⟨-, hu'⟩
  · exact ⟨usr, hv, hm⟩
  · exact ⟨usr', hu', .same⟩

private theorem process_moved {env : Env} {theirAddr : SockAddr} {bytes : List UInt8}
    (hp : Processed env theirAddr (bytes.take BUF_LEN) h h') (hu' : h'.users u = some usr') :
    ∃ usr, h.users u = some usr ∧
      UserMoved h (.datagram theirAddr bytes, env) u usr usr' := by
  generalize hbuf : bytes.take BUF_LEN = buf at hp
  cases hp with
  | ignored | refused | unknown => exact moved_of_users rfl hu'
  | stored hc v usr uq hid hv ha =>
    have htaken : takenFrom h (.datagram theirAddr bytes) =
        some (v, ⟨toint buf 4, toint buf 8, altitude buf buf.length⟩) := by
      simp [takenFrom, hbuf, hc, hid, hv, ha]
    exact moved_of_update hv (.coordinates _ htaken) rfl hu'
  | denied hi v usr sock hid hv hsock ha => exact moved_of_users ha.users hu'
  | addressed hi v usr sock hid hv hsock hip ha =>
    exact moved_of_update hv (.address theirAddr bytes sock rfl hsock hip) ha.users hu'

/-- A user after a step was there before it and has moved, or has just registered. -/
theorem step_user (hs : Hub.step h call = some h') (hu' : h'.users u = some usr') :
    (∃ usr, h.users u = some usr ∧ UserMoved h call u usr usr') ∨
      u = h.nextUser ∧ ∃ nick id session,
        usr' = (registerUser call.2 nick id session).setToken call.2.rand := by
  obtain ⟨ev, env⟩ := call
  have he := Hub.step_eq_some.mp hs
  cases ev with
  | accept addr =>
    cases he
    exact Or.inl (moved_of_users rfl hu')
  | command s pkg =>
    obtain ⟨session, -, he⟩ := bind_eq_ok.mp he
    unfold handle at he
    split_ifs at he
    · rcases registerNick_eq_ok he with ⟨-, q, o, rfl⟩ |
        ⟨-, session, id, q, o, -, -, -, -, -, rfl⟩
      · exact Or.inl (moved_of_users rfl hu')
      · change (registered env pkg.getData id s session h).users u = some usr' at hu'
        rw [registered_users] at hu'
        rcases Lib.of_update_some hu' with ⟨rfl, rfl⟩ | ⟨-, hu'⟩
        · exact Or.inr ⟨rfl, pkg.getData, id, session, rfl⟩
        · exact Or.inl ⟨usr', hu', .same⟩
    · obtain ⟨session, -, hed⟩ := addBuddies_edits he
      exact Or.inl (moved_of_buddies rfl hed.buddiesOnly hu')
    · obtain ⟨session, -, hed⟩ := removeBuddies_edits he
      exact Or.inl (moved_of_buddies rfl hed.buddiesOnly hu')
    · cases he
      exact Or.inl (moved_of_users rfl hu')
  | writable s =>
    obtain ⟨q, o, rfl⟩ := sendQueued_eq_ok he
    exact Or.inl (moved_of_users rfl hu')
  | close s =>
    obtain ⟨session, -, ⟨-, rfl⟩ | ⟨v, usr, -, -, rfl⟩⟩ := closeConnection_eq_ok he
    · exact Or.inl (moved_of_users rfl hu')
    · change Function.update h.users v none u = some usr' at hu'
      obtain ⟨-, hu'⟩ := Lib.of_update_none hu'
      exact Or.inl ⟨usr', hu', .same⟩
  | datagram theirAddr bytes =>
    obtain ⟨h1, hp, he⟩ := bind_eq_ok.mp he
    rw [sendPendingCmd_users he] at hu'
    exact Or.inl (process_moved (process_processed hp) hu')
  | timeout => exact Or.inl (moved_of_users (sendPendingCmd_users he) hu')
  | put id =>
    cases he
    exact Or.inl (moved_of_users rfl hu')
  | pull =>
    cases hq : h.uqueue with
    | nil =>
      simp only [Hub.dispatch, hq] at he
      cases he
    | cons id rest =>
      simp only [Hub.dispatch, hq] at he
      rcases turn_users he with hu | ⟨v, usr, hv, hu⟩
      · exact Or.inl (moved_of_users hu hu')
      · exact Or.inl (moved_of_update hv (.reset rfl) hu hu')

end Steps

end Gpshub
