import Gpshub.Hub.Machine
import Gpshub.Lib.Solo
import Gpshub.Threads.Moves

/-! The GPS thread alone: its steps compute the handlers that the hub takes in one step. -/
namespace Gpshub.Threads
open Lib GpsDataServer

/-- All errors but the one that stands for a loop without an end. -/
def Reported (e : Abort) : Prop := e ≠ .diverges

/-- A lookup in `nick_umap`, with what it leaves behind. -/
def lookUpNick (h : Hub) (nick : Nick) : Hub := { h with nickUmap := (h.nickUmap.get nick).2 }

section Users

variable {h : Hub} {u : UserRef} {usr usr' : User}

@[simp] theorem setUser_setUser : (h.setUser u usr).setUser u usr' = h.setUser u usr' := by
  simp [Hub.setUser, Function.update_idem]

@[simp] theorem deref_setUser : (h.setUser u usr).deref u = .ok usr := by
  simp [Hub.setUser, Hub.deref]

end Users

/-- A step of the GPS thread, without the notes. -/
def gpsMove (env : Env) (g : GpsPc × Hub) : Except Abort (GpsPc × Hub) := do
  let r ← gpsStep env g.2 g.1
  return (r.1, r.2.1)

section Gps

variable {env : Env} {h : Hub} {theirAddr : SockAddr} {id token : Int32} {c : Coordinates}
  {u : UserRef} {usr : User}

theorem gpsMove_coord (cpc : CoordPc) (hu : h.deref u = .ok usr) :
    gpsMove env (.coord theirAddr id c u cpc, h) =
      .ok ((coordStep theirAddr id c u usr h cpc).1,
        (coordStep theirAddr id c u usr h cpc).2.1) := by
  simp only [gpsMove, gpsStep, hu]
  rfl

theorem gpsMove_init (ipc : InitPc) (hu : h.deref u = .ok usr) :
    gpsMove env (.init theirAddr token u ipc, h) =
      (do let r ← initStep env theirAddr token u usr h ipc; return (r.1, r.2.1)) := by
  simp only [gpsMove, gpsStep, hu]
  rfl

theorem stores_alone {y : Except Abort Hub} {post : Hub → GpsPc × Hub}
    (hu : h.deref u = .ok usr)
    (hy : Computes gpsMove Reported (.coord theirAddr id c u .ready, h.setUser u
      (((usr.setLongitude c.longitude).setLatitude c.latitude).setAltitude c.altitude)) y post) :
    Computes gpsMove Reported (.coord theirAddr id c u .lon, h) y post := by
  apply Computes.step default (gpsMove_coord .lon hu)
  apply Computes.step default (gpsMove_coord .lat deref_setUser)
  apply Computes.step default (gpsMove_coord .alt deref_setUser)
  simpa only [coordStep, setUser_setUser] using hy

/-- `processCoordinates` once the user is known. -/
def takeCoordinates (theirAddr : SockAddr) (id : Int32) (c : Coordinates) (u : UserRef) (usr : User)
    (h : Hub) : Hub :=
  if ¬socketEquals theirAddr usr.addrUdp then h
  else
    let usr := ((usr.setLongitude c.longitude).setLatitude c.latitude).setAltitude c.altitude
    if usr.ready = none then
      { h.setUser u (usr.setReady (some usr.empty)).swapEmpty with uqueue := h.uqueue ++ [id] }
    else h.setUser u usr

theorem takeCoordinates_alone (hu : h.deref u = .ok usr) :
    Computes gpsMove Reported (.coord theirAddr id c u .check, h)
      (.ok (takeCoordinates theirAddr id c u usr h)) (fun h => (.flush, h)) := by
  apply Computes.step default (gpsMove_coord .check hu)
  unfold takeCoordinates
  simp only [coordStep]
  by_cases hsame : socketEquals theirAddr usr.addrUdp = true
  · rw [if_neg (not_not.mpr hsame), if_neg (not_not.mpr hsame)]
    apply stores_alone hu
    set usr' := ((usr.setLongitude c.longitude).setLatitude c.latitude).setAltitude c.altitude
    apply Computes.step default (gpsMove_coord .ready deref_setUser)
    simp only [coordStep]
    by_cases hready : usr'.ready = none
    · rw [if_pos hready, if_pos hready]
      apply Computes.step default (gpsMove_coord .set deref_setUser)
      apply Computes.step default (gpsMove_coord .swap deref_setUser)
      simp only [coordStep, setUser_setUser]
      apply Computes.call default
      rfl
    · rw [if_neg hready, if_neg hready]
      exact .done rfl
  · rw [if_pos hsame, if_pos hsame]
    apply Computes.step default (gpsMove_coord .warn hu)
    exact .done rfl

theorem processCoordinates_eq (buf : List UInt8) (n : ℕ) :
    processCoordinates theirAddr buf n h = match (h.idUmap.get (toint buf 0)).1 with
      | none => .ok (lookUp h (toint buf 0))
      | some u => (lookUp h (toint buf 0)).deref u >>= fun usr =>
          .ok (takeCoordinates theirAddr (toint buf 0) ⟨toint buf 4, toint buf 8, altitude buf n⟩ u
            usr (lookUp h (toint buf 0))) := by
  unfold processCoordinates lookUp takeCoordinates toint
  dsimp only
  cases h.idUmap.get (touint buf 0).toInt32 with
  | mk ptr idUmap =>
    cases ptr with
    | none => rfl
    | some u =>
      apply bind_congr
      intro usr
      split_ifs
      · rfl
      · rfl
      · rfl

theorem gpsMove_getCoord : gpsMove env (.getCoord theirAddr id c, h) =
    match (h.idUmap.get id).1 with
    | none => .ok (.flush, lookUp h id)
    | some u => .ok (.coord theirAddr id c u .check, lookUp h id) := by
  simp only [gpsMove, gpsStep]
  cases (h.idUmap.get id).1 <;> rfl

theorem processCoordinates_alone (buf : List UInt8) (n : ℕ) :
    Computes gpsMove Reported
      (.getCoord theirAddr (toint buf 0) ⟨toint buf 4, toint buf 8, altitude buf n⟩, h)
      (processCoordinates theirAddr buf n h) (fun h => (.flush, h)) := by
  have hlook : gpsMove default (.getCoord theirAddr (toint buf 0)
      ⟨toint buf 4, toint buf 8, altitude buf n⟩, h) = _ := gpsMove_getCoord
  rw [processCoordinates_eq]
  cases hp : (h.idUmap.get (toint buf 0)).1 with
  | none =>
    rw [hp] at hlook
    apply Computes.step default hlook
    exact .done rfl
  | some u =>
    rw [hp] at hlook
    apply Computes.step default hlook
    apply Computes.read default
    · intro e he
      simp only [gpsMove, gpsStep, he]
      rfl
    · intro usr hu
      exact takeCoordinates_alone hu

theorem initMove {r : GpsPc × Hub × List Note} (ipc : InitPc) (hu : h.deref u = .ok usr)
    (hstep : initStep env theirAddr token u usr h ipc = .ok r) :
    gpsMove env (.init theirAddr token u ipc, h) = .ok (r.1, r.2.1) := by
  rw [gpsMove_init ipc hu, hstep]
  rfl

theorem sendUdpInitAck_alone (status : UInt8) (hu : h.deref u = .ok usr) :
    Computes gpsMove Reported (.init theirAddr token u (.ack status), h)
      (sendUdpInitAck env u status h) (fun h => (.flush, h)) := by
  apply Computes.call env
  rw [gpsMove_init _ hu]
  simp only [initStep, bind_assoc, pure_bind]

/-- `initAddrUdp` once the user is known. -/
def setAddr (env : Env) (theirAddr : SockAddr) (token : Int32) (u : UserRef) (usr : User)
    (h : Hub) : Except Abort Hub :=
  if token ≠ usr.token then sendUdpInitAck env u 0 h
  else do
    let sock ← notNull .badSession usr.sock
    if ¬ipEquals (h.sockets sock).addr theirAddr then sendUdpInitAck env u 0 h
    else sendUdpInitAck env u 1 (h.setUser u (usr.setAddrUdp theirAddr))

theorem setAddr_alone (hu : h.deref u = .ok usr) :
    Computes gpsMove Reported (.init theirAddr token u .token, h)
      (setAddr env theirAddr token u usr h) (fun h => (.flush, h)) := by
  unfold setAddr
  by_cases htoken : token ≠ usr.token
  · rw [if_pos htoken]
    have hstep : initStep env theirAddr token u usr h .token =
        .ok (.init theirAddr token u (.ack 0), h, []) := if_pos htoken
    apply Computes.step env (initMove .token hu hstep)
    exact sendUdpInitAck_alone 0 hu
  · rw [if_neg htoken]
    have hstep : initStep env theirAddr token u usr h .token =
        .ok (.init theirAddr token u .ip, h, []) := if_neg htoken
    apply Computes.step env (initMove .token hu hstep)
    apply Computes.read env
    · intro e he
      rw [gpsMove_init _ hu, initStep, he]
      rfl
    · intro sock hsock
      have hip : initStep env theirAddr token u usr h .ip =
          if ¬ipEquals (h.sockets sock).addr theirAddr then
            .ok (.init theirAddr token u (.ack 0), h, [])
          else .ok (.init theirAddr token u .set, h, []) := by
        rw [initStep, hsock]
        rfl
      by_cases hsame : ¬ipEquals (h.sockets sock).addr theirAddr
      · rw [if_pos hsame] at hip ⊢
        apply Computes.step env (initMove .ip hu hip)
        exact sendUdpInitAck_alone 0 hu
      · rw [if_neg hsame] at hip ⊢
        apply Computes.step env (initMove .ip hu hip)
        apply Computes.step env (initMove .set hu rfl)
        exact sendUdpInitAck_alone 1 deref_setUser

theorem initAddrUdp_eq (buf : List UInt8) :
    initAddrUdp env theirAddr buf h = match (h.idUmap.get (toint buf 0)).1 with
      | none => .ok (lookUp h (toint buf 0))
      | some u => (lookUp h (toint buf 0)).deref u >>= fun usr =>
          setAddr env theirAddr (toint buf 4) u usr (lookUp h (toint buf 0)) := by
  unfold initAddrUdp lookUp setAddr
  dsimp only
  cases h.idUmap.get (toint buf 0) with
  | mk ptr idUmap =>
    cases ptr with
    | none => rfl
    | some u => rfl

theorem gpsMove_getInit : gpsMove env (.getInit theirAddr id token, h) =
    match (h.idUmap.get id).1 with
    | none => .ok (.flush, lookUp h id)
    | some u => .ok (.init theirAddr token u .token, lookUp h id) := by
  simp only [gpsMove, gpsStep]
  cases (h.idUmap.get id).1 <;> rfl

theorem initAddrUdp_alone (buf : List UInt8) :
    Computes gpsMove Reported (.getInit theirAddr (toint buf 0) (toint buf 4), h)
      (initAddrUdp env theirAddr buf h) (fun h => (.flush, h)) := by
  have hlook : gpsMove env (.getInit theirAddr (toint buf 0) (toint buf 4), h) = _ :=
    gpsMove_getInit
  rw [initAddrUdp_eq]
  cases hp : (h.idUmap.get (toint buf 0)).1 with
  | none =>
    rw [hp] at hlook
    apply Computes.step env hlook
    exact .done rfl
  | some u =>
    rw [hp] at hlook
    apply Computes.step env hlook
    apply Computes.read env
    · intro e he
      simp only [gpsMove, gpsStep, he]
      rfl
    · intro usr hu
      exact setAddr_alone hu

theorem sendPendingCmd_alone :
    Computes gpsMove Reported (.flush, h) (sendPendingCmd env h) (fun h => (.idle, h)) := by
  apply Computes.call env
  simp only [gpsMove, gpsStep, bind_assoc, pure_bind]

theorem incomingData_alone (datagram : List UInt8) :
    Computes gpsMove Reported (received theirAddr datagram, h)
      (incomingData env theirAddr datagram h) (fun h => (.idle, h)) := by
  have hprocess : Computes gpsMove Reported (received theirAddr datagram, h)
      (process env theirAddr datagram h) (fun h => (.flush, h)) := by
    unfold received process
    dsimp only
    split_ifs
    · exact processCoordinates_alone _ _
    · exact initAddrUdp_alone _
    · exact .done rfl
  exact hprocess.bind fun h _ => sendPendingCmd_alone

end Gps

end Gpshub.Threads
