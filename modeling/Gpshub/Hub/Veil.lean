import Gpshub.Hub.Chronicle

/-! Hubs that agree but for the coordinates of one user, for the addresses that users have not
set yet and for what was sent before: the handlers do the same to all of them. -/
namespace Gpshub
open CommandServer CommandHandler GpsDataServer CoordsBroadcastThread UserIdGenerator

/-- Coordinates for both slots of one user, and what the addresses hold that are not set. -/
structure Hidden where
  slot1 : Coordinates
  slot2 : Coordinates
  addrUdp : UserRef → SockAddr

/-- The slots as in a new user. -/
def Hidden.blank (addrUdp : UserRef → SockAddr) : Hidden := ⟨⟨0, 0, 0⟩, ⟨0, 0, 0⟩, addrUdp⟩

def User.withSlots (usr : User) (p : Hidden) : User :=
  { usr with slot1 := p.slot1, slot2 := p.slot2 }

/-- An address that is set stays. -/
def User.withUnset (usr : User) (addr : SockAddr) : User :=
  if usr.udpReady then usr else { usr with addrUdp := addr }

/-- `u` gets the coordinates of `p`, any other user keeps its own. -/
def cover (u : UserRef) (p : Hidden) (v : UserRef) (usr : User) : User :=
  let usr := usr.withUnset (p.addrUdp v)
  if v = u then usr.withSlots p else usr

/-- The same call, with `addr` in the block of a new user. -/
def Env.withUnset (env : Env) (addr : SockAddr) : Env := { env with addrUdp := addr }

namespace Hub

/-- The hub with other coordinates for `u` and other unset addresses, after `o` was sent. -/
def veil (u : UserRef) (p : Hidden) (o : List Output) (h : Hub) : Hub :=
  { h with users := fun v => (h.users v).map (cover u p v), out := o ++ h.out }

end Hub

section Cover

variable (u : UserRef) (p : Hidden) (v : UserRef) (usr : User)

@[simp] theorem udpReady_withUnset (addr : SockAddr) :
    (usr.withUnset addr).udpReady = usr.udpReady := by
  unfold User.withUnset
  split_ifs <;> rfl

theorem cover_field {α : Type} (f : User → α) (hslots : ∀ usr p, f (usr.withSlots p) = f usr)
    (haddr : ∀ (usr : User) addr, f { usr with addrUdp := addr } = f usr) :
    f (cover u p v usr) = f usr := by
  unfold cover User.withUnset
  split_ifs <;> simp only [hslots, haddr]

@[simp] theorem cover_id : (cover u p v usr).id = usr.id :=
  cover_field u p v usr User.id (fun _ _ => rfl) fun _ _ => rfl

@[simp] theorem cover_nick : (cover u p v usr).nick = usr.nick :=
  cover_field u p v usr User.nick (fun _ _ => rfl) fun _ _ => rfl

@[simp] theorem cover_buddies : (cover u p v usr).buddies = usr.buddies :=
  cover_field u p v usr User.buddies (fun _ _ => rfl) fun _ _ => rfl

@[simp] theorem cover_empty : (cover u p v usr).empty = usr.empty :=
  cover_field u p v usr User.empty (fun _ _ => rfl) fun _ _ => rfl

@[simp] theorem cover_ready : (cover u p v usr).ready = usr.ready :=
  cover_field u p v usr User.ready (fun _ _ => rfl) fun _ _ => rfl

@[simp] theorem cover_udpReady : (cover u p v usr).udpReady = usr.udpReady :=
  cover_field u p v usr User.udpReady (fun _ _ => rfl) fun _ _ => rfl

@[simp] theorem cover_sock : (cover u p v usr).sock = usr.sock :=
  cover_field u p v usr User.sock (fun _ _ => rfl) fun _ _ => rfl

@[simp] theorem cover_token : (cover u p v usr).token = usr.token :=
  cover_field u p v usr User.token (fun _ _ => rfl) fun _ _ => rfl

theorem cover_cover (p' : Hidden) : cover u p' v (cover u p v usr) = cover u p' v usr := by
  unfold cover User.withUnset
  split_ifs <;> first | rfl | contradiction

theorem cover_addrUdp (hr : usr.udpReady = true) : (cover u p v usr).addrUdp = usr.addrUdp := by
  unfold cover User.withUnset
  rw [if_pos hr]
  dsimp only
  split_ifs <;> rfl

/-- A change of a user that touches neither the slots nor the address. -/
structure Apart (f : User → User) : Prop where
  slots : ∀ usr p, f (usr.withSlots p) = (f usr).withSlots p
  addr : ∀ (usr : User) addr, f { usr with addrUdp := addr } = { f usr with addrUdp := addr }
  ready : ∀ usr, (f usr).udpReady = usr.udpReady

theorem cover_of_apart {f : User → User} (hf : Apart f) :
    f (cover u p v usr) = cover u p v (f usr) := by
  have hunset : f (usr.withUnset (p.addrUdp v)) = (f usr).withUnset (p.addrUdp v) := by
    unfold User.withUnset
    by_cases hr : usr.udpReady = true
    · rw [if_pos hr, if_pos ((hf.ready usr).trans hr)]
    · rw [if_neg hr, if_neg (by rwa [hf.ready]), hf.addr]
  unfold cover
  dsimp only
  rw [← hunset]
  split_ifs
  · exact hf.slots _ p
  · rfl

theorem uidPkg_cover (env : Env) : uidPkg env (cover u p v usr) = uidPkg env usr := by
  unfold uidPkg
  rw [cover_nick, cover_id]

@[simp] theorem cover_setToken (token : Int32) :
    (cover u p v usr).setToken token = cover u p v (usr.setToken token) :=
  cover_of_apart (f := fun usr => usr.setToken token) u p v usr
    ⟨fun _ _ => rfl, fun _ _ => rfl, fun _ => rfl⟩

@[simp] theorem cover_insertBuddy (nick : Nick) :
    (cover u p v usr).insertBuddy nick = cover u p v (usr.insertBuddy nick) :=
  cover_of_apart (f := fun usr => usr.insertBuddy nick) u p v usr
    ⟨fun _ _ => rfl, fun _ _ => rfl, fun _ => rfl⟩

@[simp] theorem cover_eraseBuddy (nick : Nick) :
    (cover u p v usr).eraseBuddy nick = cover u p v (usr.eraseBuddy nick) :=
  cover_of_apart (f := fun usr => usr.eraseBuddy nick) u p v usr
    ⟨fun _ _ => rfl, fun _ _ => rfl, fun _ => rfl⟩

@[simp] theorem cover_setAddrUdp (addr : SockAddr) :
    (cover u p v usr).setAddrUdp addr = cover u p v (usr.setAddrUdp addr) := by
  unfold cover User.withUnset
  split_ifs <;> first | rfl | contradiction

@[simp] theorem cover_setReady (c : Option Slot) :
    (cover u p v usr).setReady c = cover u p v (usr.setReady c) :=
  cover_of_apart (f := fun usr => usr.setReady c) u p v usr
    ⟨fun _ _ => rfl, fun _ _ => rfl, fun _ => rfl⟩

end Cover

section Handlers

variable {u : UserRef} {p : Hidden} {o : List Output} {env : Env} {s : SessionRef}

open Hub

@[simp] theorem deref_veil (h : Hub) (v : UserRef) :
    (veil u p o h).deref v = cover u p v <$> h.deref v := by
  cases hu : h.users v with
  | none => simp only [veil, deref, hu, Option.map_none, map_error]
  | some usr => simp only [veil, deref, hu, Option.map_some, map_ok]

@[simp] theorem session_veil (h : Hub) : (veil u p o h).session s = h.session s := rfl

@[simp] theorem emit_veil (h : Hub) (x : Output) :
    (veil u p o h).emit x = veil u p o (h.emit x) := by
  simp only [veil, emit, List.append_assoc]

@[simp] theorem setUser_veil (h : Hub) (v : UserRef) (usr : User) :
    (veil u p o h).setUser v (cover u p v usr) = veil u p o (h.setUser v usr) := by
  unfold veil setUser
  congr 1
  funext w
  by_cases hw : w = v
  · subst hw
    simp
  · simp [Function.update_of_ne hw]

theorem deleteUser_veil (h : Hub) (v : UserRef) :
    (veil u p o h).deleteUser v = veil u p o (h.deleteUser v) := by
  unfold veil deleteUser
  congr 1
  funext w
  by_cases hw : w = v
  · subst hw
    simp
  · simp [Function.update_of_ne hw]

@[simp] theorem send_veil (h : Hub) (pkg : CmdPkg) (answer : SendResult) :
    send (veil u p o h) s pkg answer = veil u p o <$> send h s pkg answer := by
  unfold send
  rw [session_veil, map_bind]
  congr 1
  funext session
  cases answer with
  | all | part => simp
  | wouldBlock => rfl
  | error => rfl

theorem drain_veil (sock : SocketRef) (q : List CmdPkg) :
    ∀ (i : ℕ) (h : Hub), drain env.answer s sock q i (veil u p o h) =
      veil u p o <$> drain env.answer s sock q i h := by
  induction q with
  | nil => exact fun i h => rfl
  | cons pkg rest ih =>
    intro i h
    simp only [drain]
    cases env.answer i with
    | all | part => simp only [emit_veil, ih]
    | wouldBlock => rfl
    | error => rfl

theorem sendQueued_veil (h : Hub) :
    sendQueued env s (veil u p o h) = veil u p o <$> sendQueued env s h := by
  unfold sendQueued
  rw [session_veil, map_bind]
  congr 1
  funext session
  exact drain_veil ..

theorem sendUdpInitAck_veil (h : Hub) (v : UserRef) (status : UInt8) :
    sendUdpInitAck env v status (veil u p o h) = veil u p o <$> sendUdpInitAck env v status h := by
  unfold sendUdpInitAck
  simp only [deref_veil, map_bind, bind_map_left, cover_sock]
  congr 1
  funext ack
  congr 1
  funext usr
  congr 1
  funext sock
  cases env.answer 0 with
  | all | part => simp
  | wouldBlock => rfl
  | error => rfl

theorem sendPendingCmd_veil (h : Hub) :
    sendPendingCmd env (veil u p o h) = veil u p o <$> sendPendingCmd env h := by
  unfold sendPendingCmd
  simp only [map_bind, map_pure]
  congr 1
  funext r
  simp only [veil, List.append_assoc]

theorem logIn_veil (h : Hub) (nick : Nick) (id : UInt32) (session : Session)
    (hz : h.nextUser = u → p = .blank p.addrUdp) :
    logIn (env.withUnset (p.addrUdp h.nextUser)) nick id s session (veil u p o h) =
      veil u p o (logIn env nick id s session h) := by
  have hnew : cover u p h.nextUser (registerUser env nick id session) =
      registerUser (env.withUnset (p.addrUdp h.nextUser)) nick id session := by
    unfold cover
    split_ifs with hu
    · rw [hz hu]
      rfl
    · rfl
  have hset := setUser_veil (u := u) (p := p) (o := o) h h.nextUser
    (registerUser env nick id session)
  rw [hnew] at hset
  have hnext : (veil u p o h).nextUser = h.nextUser := rfl
  simp only [logIn, hnext, hset]
  rfl

theorem registerNick_veil (h : Hub) (pkg : CmdPkg)
    (hz : h.nextUser = u → p = .blank p.addrUdp) :
    registerNick (env.withUnset (p.addrUdp h.nextUser)) pkg s (veil u p o h) =
      veil u p o <$> registerNick env pkg s h := by
  unfold registerNick
  dsimp only
  have hcount : (veil u p o h).nickUmap.count pkg.getData = h.nickUmap.count pkg.getData := rfl
  rw [hcount]
  split_ifs
  · simp only [map_bind, send_veil]
    rfl
  · have hgen : generate ULONG_MAX (veil u p o h).idUmap (veil u p o h).current =
        generate ULONG_MAX h.idUmap h.current := rfl
    rw [hgen]
    cases generate ULONG_MAX h.idUmap h.current with
    | none => rfl
    | some r =>
      obtain ⟨id, current⟩ := r
      have hcurrent : { veil u p o h with current := current } =
        veil u p o { h with current := current } := rfl
      dsimp only
      rw [hcurrent]
      split_ifs
      · simp only [map_bind, send_veil]
        rfl
      · have hlogIn (session : Session) := @logIn_veil u p o env s
          { h with current := current } pkg.getData id session hz
        have hnext : (veil u p o h).nextUser = h.nextUser := rfl
        simp only [session_veil, map_bind, hlogIn, send_veil, bind_map_left, deref_veil, hnext,
          cover_setToken, setUser_veil]
        rfl

theorem addBuddy_veil (h : Hub) (v : UserRef) (nick : Nick) (st : AddState) :
    addBuddy env s v nick st (veil u p o h) =
      Prod.map id (veil u p o) <$> addBuddy env s v nick st h := by
  unfold addBuddy
  simp only [deref_veil, map_bind, bind_map_left, cover_insertBuddy, setUser_veil]
  congr 1
  funext user
  generalize h.setUser v (user.insertBuddy nick) = h1
  have hnicks : (veil u p o h1).nickUmap = h1.nickUmap := rfl
  rw [hnicks]
  split_ifs
  · generalize h1.nickUmap.get nick = r
    obtain ⟨ptr, m⟩ := r
    have hget : { veil u p o h1 with nickUmap := m } = veil u p o { h1 with nickUmap := m } := rfl
    dsimp only
    rw [hget]
    simp only [deref_veil, map_bind, bind_map_left, uidPkg_cover, send_veil, cover_id]
    rfl
  · rfl

theorem addAll_veil (v : UserRef) (nicks : List Nick) : ∀ (st : AddState) (h : Hub),
    addAll env s v nicks st (veil u p o h) =
      Prod.map id (veil u p o) <$> addAll env s v nicks st h := by
  induction nicks with
  | nil => exact fun st h => rfl
  | cons nick rest ih =>
    intro st h
    simp only [addAll, addBuddy_veil, map_bind, bind_map_left, Prod.map, id, ih]

theorem addBuddies_veil (h : Hub) (pkg : CmdPkg) :
    addBuddies env pkg s (veil u p o h) = veil u p o <$> addBuddies env pkg s h := by
  unfold addBuddies
  rw [session_veil, map_bind]
  congr 1
  funext session
  cases session.user with
  | none => rfl
  | some v =>
    simp only [addAll_veil, map_bind, bind_map_left, Prod.map, id, send_veil]
    congr 1
    funext r
    split_ifs
    · simp only [map_bind]
    · rfl

theorem addAll_unset (addr : SockAddr) (v : UserRef) (nicks : List Nick) :
    ∀ {st : AddState} {h : Hub},
      addAll (env.withUnset addr) s v nicks st h = addAll env s v nicks st h := by
  induction nicks with
  | nil => exact fun {st h} => rfl
  | cons nick rest ih =>
    intro st h
    simp only [addAll, ih]
    rfl

theorem addBuddies_unset (addr : SockAddr) (h : Hub) (pkg : CmdPkg) :
    addBuddies (env.withUnset addr) pkg s h = addBuddies env pkg s h := by
  unfold addBuddies
  simp only [addAll_unset]
  rfl

theorem removeAll_veil (v : UserRef) (nicks : List Nick) : ∀ h : Hub,
    removeAll v nicks (veil u p o h) = veil u p o <$> removeAll v nicks h := by
  induction nicks with
  | nil => exact fun h => rfl
  | cons nick rest ih =>
    intro h
    simp only [removeAll, deref_veil, map_bind, bind_map_left, cover_eraseBuddy, setUser_veil, ih]

theorem removeBuddies_veil (h : Hub) (pkg : CmdPkg) :
    removeBuddies pkg s (veil u p o h) = veil u p o <$> removeBuddies pkg s h := by
  unfold removeBuddies
  rw [session_veil, map_bind]
  congr 1
  funext session
  cases session.user with
  | none => rfl
  | some v => exact removeAll_veil v _ h

theorem handle_veil (h : Hub) (pkg : CmdPkg) (hz : h.nextUser = u → p = .blank p.addrUdp) :
    handle (env.withUnset (p.addrUdp h.nextUser)) pkg s (veil u p o h) =
      veil u p o <$> handle env pkg s h := by
  unfold handle
  split_ifs
  · exact registerNick_veil h pkg hz
  · rw [addBuddies_unset]
    exact addBuddies_veil h pkg
  · exact removeBuddies_veil h pkg
  · rfl

theorem quit_veil (h : Hub) (v : UserRef) :
    quit v (veil u p o h) = veil u p o <$> quit v h := by
  unfold quit
  simp only [deref_veil, map_bind, bind_map_left, cover_id, cover_nick, map_pure]
  congr 1
  funext usr
  exact congrArg Except.ok (deleteUser_veil
    { h with idUmap := h.idUmap.erase usr.id, nickUmap := h.nickUmap.erase usr.nick } v)

theorem closeConnection_veil (h : Hub) :
    closeConnection s (veil u p o h) = veil u p o <$> closeConnection s h := by
  unfold closeConnection
  rw [session_veil, map_bind]
  congr 1
  funext session
  cases session.user with
  | none => rfl
  | some v =>
    simp only [quit_veil, map_bind, bind_map_left, map_pure]
    rfl

theorem initAddrUdp_veil (h : Hub) (theirAddr : SockAddr) (buf : List UInt8) :
    initAddrUdp env theirAddr buf (veil u p o h) =
      veil u p o <$> initAddrUdp env theirAddr buf h := by
  unfold initAddrUdp
  have hids : (veil u p o h).idUmap = h.idUmap := rfl
  have hsockets : (veil u p o h).sockets = h.sockets := rfl
  dsimp only
  simp only [hids, hsockets]
  generalize h.idUmap.get (toint buf 0) = r
  obtain ⟨ptr, m⟩ := r
  have hget : { veil u p o h with idUmap := m, sockets := h.sockets } =
    veil u p o { h with idUmap := m } := rfl
  cases ptr with
  | none => rfl
  | some v =>
    dsimp only
    rw [hget]
    simp only [deref_veil, map_bind, bind_map_left, cover_token, cover_sock, cover_setAddrUdp,
      setUser_veil, sendUdpInitAck_veil]
    congr 1
    funext usr
    split_ifs
    · rfl
    · rw [map_bind]
      congr 1
      funext sock
      split_ifs <;> rfl

/-- What the slots hold after `c` has been written to the one that `empty` names. -/
def Hidden.write (p : Hidden) (empty : Slot) (c : Coordinates) : Hidden :=
  match empty with
  | .slot1 => { p with slot1 := c }
  | .slot2 => { p with slot2 := c }

theorem write_addrUdp (empty : Slot) (c : Coordinates) : (p.write empty c).addrUdp = p.addrUdp := by
  cases empty <;> rfl

theorem stored_withSlots (usr : User) (p : Hidden) (c c' : Coordinates) :
    (usr.withSlots p).stored c' = (usr.stored c).withSlots (p.write usr.empty c') := by
  unfold User.stored
  cases he : usr.empty <;> by_cases hr : usr.ready = none <;>
    simp [User.withSlots, User.setSlot, User.setReady, User.swapEmpty, Hidden.write, he, hr]

theorem stored_withUnset (usr : User) (addr : SockAddr) (c : Coordinates) :
    (usr.withUnset addr).stored c = (usr.stored c).withUnset addr := by
  unfold User.stored User.withUnset
  cases he : usr.empty <;> by_cases hr : usr.ready = none <;> by_cases hu : usr.udpReady = true <;>
    simp [User.setSlot, User.setReady, User.swapEmpty, he, hr, hu]

theorem setUser_stored_veil {h : Hub} {v : UserRef} {usr : User} {c c' : Coordinates}
    (hc : v = u ∨ c' = c) : ∃ p', (veil u p o h).setUser v ((cover u p v usr).stored c') =
      veil u p' o (h.setUser v (usr.stored c)) := by
  by_cases hv : v = u
  · subst hv
    have hempty : (usr.withUnset (p.addrUdp v)).empty = usr.empty := by
      unfold User.withUnset
      split_ifs <;> rfl
    have hstored : (cover v p v usr).stored c' = cover v (p.write usr.empty c') v (usr.stored c) := by
      unfold cover
      dsimp only
      rw [if_pos rfl, if_pos rfl, stored_withSlots _ p c c', stored_withUnset, hempty,
        write_addrUdp]
    refine ⟨p.write usr.empty c', ?_⟩
    rw [hstored]
    unfold veil setUser
    congr 1
    funext w
    by_cases hw : w = v
    · subst hw
      simp
    · simp only [Function.update_of_ne hw]
      congr 1
      funext x
      simp only [cover, if_neg hw, write_addrUdp]
  · have hsame : c' = c := hc.resolve_left hv
    have hstored : (cover u p v usr).stored c = cover u p v (usr.stored c) := by
      unfold cover
      dsimp only
      rw [if_neg hv, if_neg hv, stored_withUnset]
    refine ⟨p, ?_⟩
    rw [hsame, hstored, setUser_veil]

/-- The comparison with the address of the user whose id is in `buf` comes out the same. -/
def SameSender (u : UserRef) (p : Hidden) (h : Hub) (theirAddr : SockAddr) (buf : List UInt8) :
    Prop :=
  ∀ v ∈ h.idUmap.pointsTo (toint buf 0), ∀ usr ∈ h.users v,
    socketEquals theirAddr (cover u p v usr).addrUdp = socketEquals theirAddr usr.addrUdp

/-- Datagrams of the same length for the same id, which is the one of `u` or of nobody, leave
hubs behind that again differ in what is hidden only. -/
theorem processCoordinates_veil {h : Hub} {theirAddr : SockAddr} {buf buf' : List UInt8} {n : ℕ}
    (hsender : SameSender u p h theirAddr buf) (hid : toint buf' 0 = toint buf 0)
    (hown : buf' = buf ∨ ∀ v, h.idUmap.pointsTo (toint buf 0) = some v → v = u) :
    ∃ p', processCoordinates theirAddr buf' n (veil u p o h) =
      veil u p' o <$> processCoordinates theirAddr buf n h := by
  have hpoints := SyncHashMap.pointsTo_of_get h.idUmap (toint buf 0)
  have hids : (veil u p o h).idUmap = h.idUmap := rfl
  cases hget : h.idUmap.get (toint buf 0) with
  | mk ptr m =>
    rw [hget] at hpoints
    cases ptr with
    | none =>
      refine ⟨p, ?_⟩
      have hget' := hget
      rw [← hid] at hget'
      have hb : (touint buf 0).toInt32 = toint buf 0 := rfl
      have hb' : (touint buf' 0).toInt32 = toint buf' 0 := rfl
      simp only [processCoordinates, hb, hb', hids, hget, hget']
      rfl
    | some v =>
      have hget' : (veil u p o h).idUmap.get (toint buf' 0) = (some v, m) := by
        rw [hids, hid, hget]
      cases hu : h.users v with
      | none =>
        have hu' : (veil u p o h).users v = none := by simp only [veil, hu, Option.map_none]
        refine ⟨p, ?_⟩
        have hb : (touint buf 0).toInt32 = toint buf 0 := rfl
        have hb' : (touint buf' 0).toInt32 = toint buf' 0 := rfl
        simp only [processCoordinates, hb, hb', hget, hget', deref, hu, hu', error_bind, map_error]
      | some usr =>
        have hu' : (veil u p o h).users v = some (cover u p v usr) := by
          simp only [veil, hu, Option.map_some]
        have hsame : v = u ∨ buf' = buf := hown.symm.imp_left fun hall => hall v hpoints
        obtain ⟨p', hset⟩ := @setUser_stored_veil u p o h v usr
          ⟨toint buf 4, toint buf 8, altitude buf n⟩
          ⟨toint buf' 4, toint buf' 8, altitude buf' n⟩ (hsame.imp_right fun hb => by rw [hb])
        simp only [processCoordinates_some hget hu, processCoordinates_some hget' hu', map_ok,
          hsender v hpoints usr hu, cover_ready, hset, hid]
        by_cases ha : socketEquals theirAddr usr.addrUdp = true
        · exact ⟨p', by simp only [if_pos ha]; rfl⟩
        · exact ⟨p, by simp only [if_neg ha]; rfl⟩

/-- Two 12- or 16-byte datagrams for the id of `u`, or of nobody, that differ at most in the
coordinates. -/
def OwnCoordinates (u : UserRef) (h : Hub) (bytes bytes' : List UInt8) : Prop :=
  (bytes.length = 12 ∨ bytes.length = 16) ∧ bytes'.length = bytes.length ∧
    bytes'.take 4 = bytes.take 4 ∧ ∀ v ∈ h.idUmap.pointsTo (toint bytes 0), v = u

instance (u : UserRef) (h : Hub) (bytes bytes' : List UInt8) :
    Decidable (OwnCoordinates u h bytes bytes') := by
  unfold OwnCoordinates
  infer_instance

theorem toint_eq_of_take {buf buf' : List UInt8} (ht : buf'.take 4 = buf.take 4) :
    toint buf' 0 = toint buf 0 := by
  have hbyte (i : ℕ) (hi : i < 4) : byteAt buf' i = byteAt buf i := by
    rw [← byteAt_take hi, ht, byteAt_take hi]
  unfold toint touint
  rw [hbyte 0 (by decide), hbyte (0 + 1) (by decide), hbyte (0 + 2) (by decide),
    hbyte (0 + 3) (by decide)]

theorem incomingData_veil {h : Hub} {theirAddr : SockAddr} {bytes bytes' : List UInt8}
    (hsender : bytes.length = 12 ∨ bytes.length = 16 → SameSender u p h theirAddr bytes)
    (hb : bytes' = bytes ∨ OwnCoordinates u h bytes bytes') :
    ∃ p', incomingData env theirAddr bytes' (veil u p o h) =
      veil u p' o <$> incomingData env theirAddr bytes h := by
  suffices ∃ p', process env theirAddr bytes' (veil u p o h) =
      veil u p' o <$> process env theirAddr bytes h by
    obtain ⟨p', hp⟩ := this
    refine ⟨p', ?_⟩
    unfold incomingData
    simp only [hp, map_bind, bind_map_left, sendPendingCmd_veil]
  rcases hb with rfl | ⟨hlen, hlen', htake, hall⟩
  · unfold process
    dsimp only
    split_ifs with hlen
    · have hbuf : bytes'.length = 12 ∨ bytes'.length = 16 := by
        rw [List.length_take, BUF_LEN] at hlen
        omega
      have hwhole : bytes'.take BUF_LEN = bytes' :=
        List.take_of_length_le (by unfold BUF_LEN; omega)
      rw [hwhole]
      exact processCoordinates_veil (hsender hbuf) rfl (Or.inl rfl)
    · exact ⟨p, initAddrUdp_veil h theirAddr _⟩
    · exact ⟨p, rfl⟩
  · have hbuf : bytes.take BUF_LEN = bytes := List.take_of_length_le (by unfold BUF_LEN; omega)
    have hbuf' : bytes'.take BUF_LEN = bytes' := List.take_of_length_le (by unfold BUF_LEN; omega)
    unfold process
    simp only [hbuf, hbuf', hlen', if_pos hlen]
    exact processCoordinates_veil (hsender hlen) (toint_eq_of_take htake) (Or.inr hall)

end Handlers

section Turns

variable {u : UserRef} {p : Hidden} {o : List Output} {env : Env}

open Hub

/-- The hub without what was sent. -/
def Hub.silent (h : Hub) : Hub := { h with out := [] }

theorem silent_veil {h : Hub} : (veil u p o h).silent = (veil u p [] h).silent := rfl

theorem sendAll_cons_some {v : UserRef} {coords : Coordinates} {nick : Nick} {h : Hub}
    {q : Option UserRef} (hq : h.nickUmap.map nick = some q) (rest : List Nick) (k : ℕ) :
    sendAll env v coords (nick :: rest) k h = (do
      let buddy ← notNull .badUser q
      let buddyUser ← h.deref buddy
      if ¬buddyUser.udpReady then sendAll env v coords rest k h
      else
        let usr ← h.deref v
        if env.sendto k then
          sendAll env v coords rest (k + 1)
            (h.emit (.udp buddyUser.addrUdp (coordsPkg usr.id coords)))
        else throw .socketException) := by
  rw [sendAll, if_pos (SyncHashMap.count_pos.mpr ⟨q, hq⟩), SyncHashMap.get_of_some hq]

theorem sendAll_cons_none {v : UserRef} {coords : Coordinates} {nick : Nick} {h : Hub}
    (hq : h.nickUmap.map nick = none) (rest : List Nick) (k : ℕ) :
    sendAll env v coords (nick :: rest) k h = sendAll env v coords rest k h := by
  rw [sendAll, if_neg (by rw [SyncHashMap.count_eq_zero.mpr hq]; exact lt_irrefl 0)]

theorem of_silent_eq {h h2 : Hub} (heq : h2.silent = (veil u p [] h).silent) :
    h2.nickUmap = h.nickUmap ∧ ∀ v, h2.deref v = cover u p v <$> h.deref v := by
  have hnicks := congrArg Hub.nickUmap heq
  have husers := congrArg Hub.users heq
  refine ⟨hnicks, fun v => ?_⟩
  have hderef : h2.deref v = (veil u p [] h).deref v := by
    unfold deref
    have hv : h2.users v = (veil u p [] h).users v := congrFun husers v
    rw [hv]
  rw [hderef, deref_veil]

theorem sendAll_silent (v : UserRef) (coords coords' : Coordinates) (nicks : List Nick) :
    ∀ (k : ℕ) (h h2 : Hub), h2.silent = (veil u p [] h).silent →
      silent <$> sendAll env v coords' nicks k h2 =
        (fun h => (veil u p [] h).silent) <$> sendAll env v coords nicks k h := by
  induction nicks with
  | nil => exact fun k h h2 heq => congrArg Except.ok heq
  | cons nick rest ih =>
    intro k h h2 heq
    obtain ⟨hnicks, hderef⟩ := of_silent_eq heq
    cases hq : h.nickUmap.map nick with
    | none =>
      rw [sendAll_cons_none hq, sendAll_cons_none (by rw [hnicks, hq])]
      exact ih k h h2 heq
    | some q =>
      rw [sendAll_cons_some hq, sendAll_cons_some (by rw [hnicks, hq])]
      simp only [hderef, map_bind, bind_map_left, cover_udpReady, cover_id]
      congr 1
      funext b
      congr 1
      funext buddy
      by_cases hready : buddy.udpReady = true
      · simp only [hready, not_true_eq_false, if_false, map_bind]
        congr 1
        funext usr
        by_cases hk : env.sendto k = true
        · rw [if_pos hk, if_pos hk]
          exact ih (k + 1) (h.emit _) (h2.emit _) heq
        · rw [if_neg hk, if_neg hk]
          rfl
      · rw [if_pos hready, if_pos hready]
        exact ih k h h2 heq

theorem turn_silent (id : Int32) (h : Hub) :
    silent <$> turn env id (veil u p o h) =
      (fun h => (veil u p [] h).silent) <$> turn env id h := by
  unfold turn
  have hids : (veil u p o h).idUmap = h.idUmap := rfl
  dsimp only
  rw [hids]
  generalize h.idUmap.get id = r
  obtain ⟨ptr, m⟩ := r
  have hget : { veil u p o h with idUmap := m } = veil u p o { h with idUmap := m } := rfl
  dsimp only
  rw [hget]
  cases ptr with
  | none => rfl
  | some v =>
    generalize { h with idUmap := m } = h
    cases hd : h.deref v with
    | error e => simp only [deref_veil, hd, map_error, error_bind]
    | ok usr =>
      simp only [deref_veil, hd, map_ok, ok_bind, cover_ready]
      cases usr.ready with
      | none => rfl
      | some c =>
        unfold broadcast
        simp only [deref_veil, hd, map_ok, ok_bind, cover_buddies]
        have hall := @sendAll_silent u p env v (usr.slot c) ((cover u p v usr).slot c)
          (iterate env usr.buddies) 0 h (veil u p o h) silent_veil
        generalize sendAll env v ((cover u p v usr).slot c) _ 0 (veil u p o h) = x at hall ⊢
        cases hx : sendAll env v (usr.slot c) (iterate env usr.buddies) 0 h with
        | error e =>
          rw [hx, map_error] at hall
          cases x with
          | error e' =>
            cases hall
            rfl
          | ok h2 => cases hall
        | ok h1 =>
          rw [hx, map_ok] at hall
          cases x with
          | error e' => cases hall
          | ok h2 =>
            have heq : h2.silent = (veil u p [] h1).silent := Except.ok.inj hall
            obtain ⟨-, hderef⟩ := of_silent_eq heq
            simp only [ok_bind, hderef, map_bind, bind_map_left, cover_setReady, map_pure]
            congr 1
            funext usr1
            have hset := congrArg (fun h => h.setUser v (cover u p v (usr1.setReady none))) heq
            exact congrArg Except.ok (hset.trans (congrArg silent (setUser_veil ..)))

end Turns

end Gpshub
