import Gpshub.Hub.Machine

/-! What a datagram does, case by case. -/
namespace Gpshub
open GpsDataServer

/-- What a user looks like after `processCoordinates` has taken the coordinates for it. -/
def User.stored (usr : User) (c : Coordinates) : User :=
  let usr := usr.setSlot usr.empty c
  if usr.ready = none then (usr.setReady (some usr.empty)).swapEmpty else usr

theorem stored_eq (usr : User) (a b c : Int32) :
    (let usr := ((usr.setLongitude a).setLatitude b).setAltitude c
     if usr.ready = none then (usr.setReady (some usr.empty)).swapEmpty else usr) =
      usr.stored ⟨a, b, c⟩ := by
  have hset : ((usr.setLongitude a).setLatitude b).setAltitude c =
      usr.setSlot usr.empty ⟨a, b, c⟩ := by
    cases he : usr.empty <;>
      simp [User.setLongitude, User.setLatitude, User.setAltitude, User.setSlot, User.slot, he]
  simp only [User.stored, hset]

theorem ident_stored (usr : User) (c : Coordinates) : (usr.stored c).ident = usr.ident := by
  unfold User.stored
  dsimp only
  split_ifs <;> cases usr.empty <;> rfl

theorem slot_stored (usr : User) (c : Coordinates) :
    (usr.stored c).slot = Function.update usr.slot usr.empty c := by
  have hset : (usr.setSlot usr.empty c).slot = Function.update usr.slot usr.empty c := by
    funext d
    by_cases hd : d = usr.empty
    · rw [hd, Function.update_self, User.slot_setSlot_self]
    · rw [Function.update_of_ne hd, User.slot_setSlot_ne usr c hd]
  unfold User.stored
  dsimp only
  split_ifs
  · exact hset
  · exact hset

theorem buddies_stored (usr : User) (c : Coordinates) : (usr.stored c).buddies = usr.buddies := by
  unfold User.stored
  dsimp only
  split_ifs <;> exact User.buddies_setSlot usr usr.empty c

/-- The slot just written becomes ready, and the other one is written to next; or the slots
keep their parts. -/
theorem ready_stored {usr : User} {c : Coordinates} {d : Slot}
    (h : (usr.stored c).ready = some d) :
    d = usr.empty ∧ d ≠ (usr.stored c).empty ∨
      usr.ready = some d ∧ (usr.stored c).empty = usr.empty := by
  have hswap : usr.empty ≠ if usr.empty = .slot1 then .slot2 else .slot1 := by
    cases usr.empty <;> decide
  have hempty := User.empty_setSlot usr usr.empty c
  unfold User.stored at h ⊢
  simp only [User.ready_setSlot] at h ⊢
  split_ifs at h ⊢
  · cases h
    refine Or.inl ⟨hempty, ?_⟩
    show (usr.setSlot usr.empty c).empty ≠
      if (usr.setSlot usr.empty c).empty = .slot1 then .slot2 else .slot1
    rw [hempty]
    exact hswap
  · rw [User.ready_setSlot] at h
    exact Or.inr ⟨h, hempty⟩

/-- Reading the id map at `id`: the only effect of a lookup is the entry it may insert. -/
def Hub.lookUp (h : Hub) (id : Int32) : Hub := { h with idUmap := (h.idUmap.get id).2 }

/-- What `processCoordinates` does for the user `v` that the id points to. -/
theorem processCoordinates_some {h : Hub} {theirAddr : SockAddr} {buf : List UInt8} {n : ℕ}
    {v : UserRef} {m : IdUserMap} {usr : User} (hget : h.idUmap.get (toint buf 0) = (some v, m))
    (hu : h.users v = some usr) :
    processCoordinates theirAddr buf n h =
      .ok (if socketEquals theirAddr usr.addrUdp then
        { h.setUser v (usr.stored ⟨toint buf 4, toint buf 8, altitude buf n⟩) with
          idUmap := m
          uqueue := h.uqueue ++ if usr.ready = none then [toint buf 0] else [] }
      else { h with idUmap := m }) := by
  have hid : (touint buf 0).toInt32 = toint buf 0 := rfl
  have hready : (((usr.setLongitude (toint buf 4)).setLatitude (toint buf 8)).setAltitude
      (altitude buf n)).ready = usr.ready := by
    simp only [User.setLongitude, User.setLatitude, User.setAltitude, User.ready_setSlot]
  have hstored := stored_eq usr (toint buf 4) (toint buf 8) (altitude buf n)
  unfold processCoordinates
  simp only [hid, hget, Hub.deref, hu, ok_bind, hready]
  by_cases ha : socketEquals theirAddr usr.addrUdp = true
  · rw [if_pos ha, ← hstored]
    simp only [ha, hready]
    by_cases hr : usr.ready = none
    · simp only [hr, if_true, not_true_eq_false, if_false]
      rfl
    · simp only [hr, if_false, not_true_eq_false, List.append_nil]
      rfl
  · rw [if_neg ha, if_pos ha]
    rfl

/-- An acknowledgement for `sock` has been sent, or it is put off. -/
inductive Acked (env : Env) (sock : SocketRef) (h : Hub) : Hub → Prop
  | sent (ack : CmdPkg) (n : ℕ)
      (hn : env.answer 0 = .all ∧ n = ack.getLen.toNat ∨ env.answer 0 = .part n) :
    Acked env sock h (h.emit (.tcp sock ack n))
  | putOff (ack : CmdPkg) (ha : env.answer 0 = .wouldBlock) :
    Acked env sock h { h with pendingCmdQueue := h.pendingCmdQueue ++ [{ cmd := ack, sock }] }

/-- What becomes of a datagram of which `buf` is what fits into the buffer. -/
inductive Processed (env : Env) (theirAddr : SockAddr) (buf : List UInt8) (h : Hub) : Hub → Prop
  | ignored (hc : ¬(buf.length = 12 ∨ buf.length = 16)) (hi : buf.length ≠ 8) :
    Processed env theirAddr buf h h
  | refused (hc : buf.length = 12 ∨ buf.length = 16) :
    Processed env theirAddr buf h (h.lookUp (toint buf 0))
  | stored (hc : buf.length = 12 ∨ buf.length = 16) (u : UserRef) (usr : User) (uq : List Int32)
      (hid : h.idUmap.pointsTo (toint buf 0) = some u) (hu : h.users u = some usr)
      (ha : socketEquals theirAddr usr.addrUdp = true) :
    Processed env theirAddr buf h { (h.lookUp (toint buf 0)).setUser u
      (usr.stored ⟨toint buf 4, toint buf 8, altitude buf buf.length⟩) with uqueue := uq }
  | unknown (hi : buf.length = 8) (hid : h.idUmap.pointsTo (toint buf 0) = none) :
    Processed env theirAddr buf h (h.lookUp (toint buf 0))
  | denied {h' : Hub} (hi : buf.length = 8) (u : UserRef) (usr : User) (sock : SocketRef)
      (hid : h.idUmap.pointsTo (toint buf 0) = some u) (hu : h.users u = some usr)
      (hsock : usr.sock = some sock) (ha : Acked env sock (h.lookUp (toint buf 0)) h') :
    Processed env theirAddr buf h h'
  | addressed {h' : Hub} (hi : buf.length = 8) (u : UserRef) (usr : User) (sock : SocketRef)
      (hid : h.idUmap.pointsTo (toint buf 0) = some u) (hu : h.users u = some usr)
      (hsock : usr.sock = some sock) (hip : ipEquals (h.sockets sock).addr theirAddr = true)
      (ha : Acked env sock
        ((h.lookUp (toint buf 0)).setUser u (usr.setAddrUdp theirAddr)) h') :
    Processed env theirAddr buf h h'

section Handlers

variable {env : Env} {h h' : Hub} {u : UserRef} {theirAddr : SockAddr} {buf : List UInt8}

theorem sendUdpInitAck_acked {status : UInt8} (he : sendUdpInitAck env u status h = .ok h') :
    ∃ usr sock, h.users u = some usr ∧ usr.sock = some sock ∧ Acked env sock h h' := by
  obtain ⟨ack, -, he⟩ := bind_eq_ok.mp he
  obtain ⟨usr, hu, he⟩ := bind_eq_ok.mp he
  obtain ⟨sock, hsock, he⟩ := bind_eq_ok.mp he
  refine ⟨usr, sock, Hub.deref_eq_ok.mp hu, notNull_eq_ok.mp hsock, ?_⟩
  cases ha : env.answer 0 with
  | all =>
    rw [ha] at he
    cases he
    exact .sent ack _ (Or.inl ⟨ha, rfl⟩)
  | part n =>
    rw [ha] at he
    cases he
    exact .sent ack n (Or.inr ha)
  | wouldBlock =>
    rw [ha] at he
    cases he
    exact .putOff ack ha
  | error =>
    rw [ha] at he
    cases he

theorem processCoordinates_processed (hc : buf.length = 12 ∨ buf.length = 16)
    (he : processCoordinates theirAddr buf buf.length h = .ok h') :
    Processed env theirAddr buf h h' := by
  have hid := SyncHashMap.pointsTo_of_get h.idUmap (toint buf 0)
  have hlook : (h.idUmap.get (touint buf 0).toInt32) = h.idUmap.get (toint buf 0) := rfl
  cases hp : h.idUmap.pointsTo (toint buf 0) with
  | none =>
    rw [hp] at hid
    unfold processCoordinates at he
    simp only [hlook, ← hid] at he
    cases he
    exact .refused hc
  | some u =>
    rw [hp] at hid
    have hget : h.idUmap.get (toint buf 0) = (some u, (h.lookUp (toint buf 0)).idUmap) :=
      Prod.ext hid.symm rfl
    cases hu : h.users u with
    | none =>
      unfold processCoordinates at he
      simp only [hlook, hget, Hub.deref, hu, error_bind] at he
      cases he
    | some usr =>
      rw [processCoordinates_some hget hu] at he
      by_cases ha : socketEquals theirAddr usr.addrUdp = true
      · rw [if_pos ha] at he
        cases he
        exact .stored hc u usr _ hp hu ha
      · rw [if_neg ha] at he
        cases he
        exact .refused hc

theorem initAddrUdp_processed (hi : buf.length = 8)
    (he : initAddrUdp env theirAddr buf h = .ok h') : Processed env theirAddr buf h h' := by
  have hid := SyncHashMap.pointsTo_of_get h.idUmap (toint buf 0)
  unfold initAddrUdp at he
  dsimp only at he
  cases hp : h.idUmap.pointsTo (toint buf 0) with
  | none =>
    rw [hp] at hid
    rw [← hid] at he
    cases he
    exact .unknown hi hp
  | some u =>
    rw [hp] at hid
    rw [← hid] at he
    obtain ⟨usr, hu, he⟩ := bind_eq_ok.mp he
    have hu : h.users u = some usr := Hub.deref_eq_ok.mp hu
    -- a refusal goes to the socket of the user that is named
    have hdeny (he : sendUdpInitAck env u 0 (h.lookUp (toint buf 0)) = .ok h') :
        Processed env theirAddr buf h h' := by
      obtain ⟨w, sock, hw, hsock, hack⟩ := sendUdpInitAck_acked he
      cases hu.symm.trans hw
      exact .denied hi u usr sock hp hu hsock hack
    split at he
    · exact hdeny he
    · obtain ⟨sock, hsock, he⟩ := bind_eq_ok.mp he
      have hsock : usr.sock = some sock := notNull_eq_ok.mp hsock
      split at he
      · exact hdeny he
      · rename_i hip
        obtain ⟨w, sock', hw, hsock', hack⟩ := sendUdpInitAck_acked he
        have hw : usr.setAddrUdp theirAddr = w := by
          simpa [Hub.setUser] using hw
        subst hw
        cases hsock.symm.trans hsock'
        exact .addressed hi u usr sock hp hu hsock (not_not.mp hip) hack

theorem process_processed {bytes : List UInt8} (he : process env theirAddr bytes h = .ok h') :
    Processed env theirAddr (bytes.take BUF_LEN) h h' := by
  unfold process at he
  dsimp only at he
  split_ifs at he with hc hi
  · exact processCoordinates_processed hc he
  · exact initAddrUdp_processed hi he
  · cases he
    exact .ignored hc hi

end Handlers
end Gpshub
