import Gpshub.Threads.GpsHandlers

/-! A broadcast thread alone: its steps compute a turn of `run`. -/
namespace Gpshub.Threads
open Lib CoordsBroadcastThread

/-- A step of a broadcast thread that has not been stopped, without the notes. -/
def threadMove (env : Env) (g : ThreadPc × Hub) : Except Abort (ThreadPc × Hub) := do
  let r ← threadStep env true g.2 g.1
  return (r.1, r.2.1)

section Broadcast

variable {env : Env} {h : Hub} {id : Int32} {u : UserRef} {usr : User} {coords : Coordinates}

theorem turnMove {r : ThreadPc × Hub × List Note} (tpc : TurnPc)
    (hstep : turnStep env id u h tpc = .ok r) :
    threadMove env (.turn id u tpc, h) = .ok (r.1, r.2.1) := by
  simp only [threadMove, threadStep, hstep]
  rfl

theorem turnMove_error {e : Abort} (tpc : TurnPc) (hstep : turnStep env id u h tpc = .error e) :
    threadMove env (.turn id u tpc, h) = .error e := by
  simp only [threadMove, threadStep, hstep]
  rfl

/-- What the loop of `broadcast` does once the buddy is known. -/
def sendBuddy (env : Env) (u : UserRef) (coords : Coordinates) (buddyUser : User) (rest : List Nick)
    (k : ℕ) (h : Hub) : Except Abort Hub :=
  if ¬buddyUser.udpReady then sendAll env u coords rest k h
  else h.deref u >>= fun usr =>
    if env.sendto k then
      sendAll env u coords rest (k + 1) (h.emit (.udp buddyUser.addrUdp (coordsPkg usr.id coords)))
    else .error .socketException

theorem sendAll_cons (nick : Nick) (rest : List Nick) (k : ℕ) :
    sendAll env u coords (nick :: rest) k h =
      if 0 < h.nickUmap.count nick then
        notNull .badUser (h.nickUmap.get nick).1 >>= fun buddy =>
          (lookUpNick h nick).deref buddy >>= fun buddyUser =>
            sendBuddy env u coords buddyUser rest k (lookUpNick h nick)
      else sendAll env u coords rest k h := by
  rw [sendAll]
  rfl

theorem buddy_alone {ptr : Option UserRef} {rest : List Nick} {k : ℕ}
    (ih : ∀ {k : ℕ} {h : Hub}, Computes threadMove Reported (.turn id u (.each coords rest), h)
      (sendAll env u coords rest k h) (fun h => (.turn id u .reset, h))) :
    Computes threadMove Reported (.turn id u (.udpReady coords ptr rest), h)
      (notNull .badUser ptr >>= fun buddy => h.deref buddy >>= fun buddyUser =>
        sendBuddy env u coords buddyUser rest k h) (fun h => (.turn id u .reset, h)) := by
  apply Computes.read env
  · intro e he
    apply turnMove_error
    rw [turnStep, he]
    rfl
  intro buddy hptr
  have hready (env : Env) : turnStep env id u h (.udpReady coords ptr rest) =
      h.deref buddy >>= fun buddyUser =>
        if ¬buddyUser.udpReady then .ok (.turn id u (.each coords rest), h, [])
        else .ok (.turn id u (.pack coords buddy rest), h, []) := by
    rw [turnStep, hptr]
    rfl
  apply Computes.read env
  · intro e he
    apply turnMove_error
    rw [hready, he]
    rfl
  intro buddyUser hb
  rw [hb] at hready
  unfold sendBuddy
  by_cases hudp : ¬buddyUser.udpReady
  · rw [if_pos hudp]
    apply Computes.step env (turnMove _ ((hready env).trans (if_pos hudp)))
    exact ih
  · rw [if_neg hudp]
    apply Computes.step env (turnMove _ ((hready env).trans (if_neg hudp)))
    apply Computes.read env
    · intro e he
      apply turnMove_error
      rw [turnStep, he]
      rfl
    intro usr hu
    have hpack : turnStep env id u h (.pack coords buddy rest) =
        .ok (.turn id u (.sendto coords buddy (coordsPkg usr.id coords) rest), h, []) := by
      rw [turnStep, hu]
      rfl
    apply Computes.step env (turnMove _ hpack)
    -- the step sees the answer to this one `Sendto`
    let answer : Env := { env with sendto := fun _ => env.sendto k }
    have hsend : turnStep answer id u h (.sendto coords buddy (coordsPkg usr.id coords) rest) =
        if env.sendto k then
          .ok (.turn id u (.each coords rest),
            h.emit (.udp buddyUser.addrUdp (coordsPkg usr.id coords)), [])
        else .error .socketException := by
      rw [turnStep, hb]
      rfl
    by_cases hk : env.sendto k = true
    · rw [if_pos hk] at hsend ⊢
      apply Computes.step answer (turnMove _ hsend)
      exact ih
    · rw [if_neg hk] at hsend ⊢
      exact .failed answer (turnMove_error _ hsend)

theorem sendAll_alone (nicks : List Nick) : ∀ {k : ℕ} {h : Hub},
    Computes threadMove Reported (.turn id u (.each coords nicks), h)
      (sendAll env u coords nicks k h) (fun h => (.turn id u .reset, h)) := by
  induction nicks with
  | nil =>
    intro k h
    apply Computes.step env (turnMove (.each coords []) rfl)
    exact .done rfl
  | cons nick rest ih =>
    intro k h
    rw [sendAll_cons]
    by_cases hc : 0 < h.nickUmap.count nick
    · rw [if_pos hc]
      apply Computes.step env (turnMove (.each coords (nick :: rest)) (if_pos hc))
      apply Computes.step env (turnMove (.get coords nick rest) rfl)
      exact buddy_alone ih
    · rw [if_neg hc]
      apply Computes.step env (turnMove (.each coords (nick :: rest)) (if_neg hc))
      exact ih

theorem broadcast_alone (c : Slot) :
    Computes threadMove Reported (.turn id u (.call c coords), h) (broadcast env u coords h)
      (fun h => (.turn id u .reset, h)) := by
  apply Computes.read env
  · intro e he
    apply turnMove_error
    rw [turnStep, he]
    rfl
  intro usr hu
  have hcall : turnStep env id u h (.call c coords) =
      .ok (.turn id u (.each coords (iterate env usr.buddies)), h, [.broadcast u coords]) := by
    rw [turnStep, hu]
    rfl
  apply Computes.step env (turnMove _ hcall)
  exact sendAll_alone _

/-- What `run` does with the coordinates that are ready. -/
def runReady (env : Env) (u : UserRef) (usr : User) (h : Hub) : Except Abort Hub :=
  match usr.ready with
  | none => .ok h
  | some c => broadcast env u (usr.slot c) h >>= fun h =>
      h.deref u >>= fun usr => .ok (h.setUser u (usr.setReady none))

theorem runReady_alone (hu : h.deref u = .ok usr) :
    Computes threadMove Reported (.turn id u .load, h) (runReady env u usr h)
      (fun h => (.test, h)) := by
  have hload (env : Env) : turnStep env id u h .load = match usr.ready with
      | none => .ok (.test, h, [])
      | some c => .ok (.turn id u (.copyLon c), h, []) := by
    rw [turnStep, hu]
    rfl
  unfold runReady
  cases hready : usr.ready with
  | none =>
    rw [hready] at hload
    apply Computes.step env (turnMove _ (hload env))
    exact .done rfl
  | some c =>
    rw [hready] at hload
    apply Computes.step env (turnMove _ (hload env))
    have hlon : turnStep env id u h (.copyLon c) =
        .ok (.turn id u (.copyLat c (usr.slot c).longitude), h, []) := by
      rw [turnStep, hu]
      rfl
    apply Computes.step env (turnMove _ hlon)
    have hlat : turnStep env id u h (.copyLat c (usr.slot c).longitude) =
        .ok (.turn id u (.copyAlt c (usr.slot c).longitude (usr.slot c).latitude), h, []) := by
      rw [turnStep, hu]
      rfl
    apply Computes.step env (turnMove _ hlat)
    have halt : turnStep env id u h (.copyAlt c (usr.slot c).longitude (usr.slot c).latitude) =
        .ok (.turn id u (.call c (usr.slot c)), h, []) := by
      rw [turnStep, hu]
      rfl
    apply Computes.step env (turnMove _ halt)
    apply (broadcast_alone c).bind
    intro h' _
    have hreset : threadMove env (.turn id u .reset, h') =
        (h'.deref u >>= fun usr => pure (h'.setUser u (usr.setReady none))) >>=
          fun h => pure (.test, h) := by
      simp only [threadMove, threadStep, turnStep, bind_assoc, pure_bind]
    exact Computes.call env hreset

theorem turn_of_none (hp : (h.idUmap.get id).1 = none) : turn env id h = .ok (lookUp h id) := by
  unfold turn lookUp
  cases hget : h.idUmap.get id with
  | mk ptr idUmap =>
    rw [hget] at hp
    cases hp
    rfl

theorem turn_of_some (hp : (h.idUmap.get id).1 = some u) : turn env id h =
    (lookUp h id).deref u >>= fun usr => runReady env u usr (lookUp h id) := by
  unfold turn lookUp runReady
  cases hget : h.idUmap.get id with
  | mk ptr idUmap =>
    rw [hget] at hp
    cases hp
    rfl

theorem turn_alone : Computes threadMove Reported (.lookup id, h) (turn env id h)
    (fun h => (.test, h)) := by
  cases hp : (h.idUmap.get id).1 with
  | none =>
    have hlook : threadMove env (.lookup id, h) = .ok (.test, lookUp h id) := by
      simp only [threadMove, threadStep, hp]
      rfl
    rw [turn_of_none hp]
    apply Computes.step env hlook
    exact .done rfl
  | some u =>
    have hlook : threadMove env (.lookup id, h) = .ok (.turn id u .load, lookUp h id) := by
      simp only [threadMove, threadStep, hp]
      rfl
    rw [turn_of_some hp]
    apply Computes.step env hlook
    apply Computes.read env
    · intro e he
      apply turnMove_error
      rw [turnStep, he]
      rfl
    intro usr hu
    exact runReady_alone hu

end Broadcast

end Gpshub.Threads
