import Gpshub.Hub.Users

/-! The hub together with its history: which coordinates were taken, what was sent to whom,
and who has been told which ids. -/
namespace Gpshub
open CommandServer CommandHandler GpsDataServer CoordsBroadcastThread Lib.Machine

/-- Something the server sends, with the one it is for. -/
inductive Mail
  | tcp (sock : SocketRef) (pkg : CmdPkg) (n : ℕ)
  /-- The position of `sender`, sent to `recipient`. -/
  | position (sender recipient : UserRef) (addr : SockAddr) (bytes : List UInt8)
  deriving DecidableEq

def Mail.output : Mail → Output
  | .tcp sock pkg n => .tcp sock pkg n
  | .position _ _ addr bytes => .udp addr bytes

/-- What is sent for one of the nicks that `broadcast` goes through. -/
def post (h : Hub) (u : UserRef) (usr : User) (coords : Coordinates) (nick : Nick) :
    Option Mail := do
  let b ← h.nickUmap.pointsTo nick
  let buddy ← h.users b
  if buddy.udpReady then some (.position u b buddy.addrUdp (coordsPkg usr.id coords)) else none

/-- The user that the next turn broadcasts, and its coordinates. -/
def broadcasting (h : Hub) : Option (UserRef × User × Coordinates) := do
  let id ← h.uqueue.head?
  let u ← h.idUmap.pointsTo id
  let usr ← h.users u
  let c ← usr.ready
  return (u, usr, usr.slot c)

def posts (env : Env) (h : Hub) : List Mail :=
  match broadcasting h with
  | none => []
  | some (u, usr, coords) => (iterate env usr.buddies).filterMap (post h u usr coords)

/-- Each nick in `nick_umap` leads to a user. -/
def NicksFound (h : Hub) : Prop := ∀ nick, 0 < h.nickUmap.count nick →
  ∃ b buddy, h.nickUmap.map nick = some (some b) ∧ h.users b = some buddy

section Turn

variable {env : Env} {h h' : Hub} {u : UserRef} {usr : User} {coords : Coordinates}

theorem post_eq_some {nick : Nick} {m : Mail} : post h u usr coords nick = some m ↔
    ∃ b buddy, h.nickUmap.pointsTo nick = some b ∧ h.users b = some buddy ∧
      buddy.udpReady = true ∧ m = .position u b buddy.addrUdp (coordsPkg usr.id coords) := by
  unfold post
  simp only [Option.bind_eq_bind, Option.bind_eq_some_iff, Option.ite_none_right_eq_some,
    Option.some.injEq]
  constructor
  · rintro ⟨b, hb, buddy, hbuddy, hready, rfl⟩
    exact ⟨b, buddy, hb, hbuddy, hready, rfl⟩
  · rintro ⟨b, buddy, hb, hbuddy, hready, rfl⟩
    exact ⟨b, hb, buddy, hbuddy, hready, rfl⟩

theorem broadcasting_eq_some {c : Coordinates} : broadcasting h = some (u, usr, c) ↔
    ∃ id sl, h.uqueue.head? = some id ∧ h.idUmap.pointsTo id = some u ∧
      h.users u = some usr ∧ usr.ready = some sl ∧ c = usr.slot sl := by
  unfold broadcasting
  simp only [Option.bind_eq_bind, Option.bind_eq_some_iff, Option.pure_def, Option.some.injEq,
    Prod.mk.injEq]
  constructor
  · rintro ⟨id, hid, v, hv, vsr, hvsr, sl, hsl, rfl, rfl, rfl⟩
    exact ⟨id, sl, hid, hv, hvsr, hsl, rfl⟩
  · rintro ⟨id, sl, hid, hv, hvsr, hsl, rfl⟩
    exact ⟨id, hid, u, hv, usr, hvsr, sl, hsl, rfl, rfl, rfl⟩

theorem sendAll_eq_ok (hu : h.users u = some usr) (nicks : List Nick) :
    ∀ {k : ℕ} {o : List Output}, sendAll env u coords nicks k { h with out := o } = .ok h' →
      h' = { h with out := o ++ (nicks.filterMap (post h u usr coords)).map Mail.output } := by
  induction nicks with
  | nil =>
    intro k o he
    cases he
    simp
  | cons nick rest ih =>
    intro k o he
    rw [sendAll] at he
    split at he
    · rename_i hc
      obtain ⟨p, hp⟩ := SyncHashMap.count_pos.mp hc
      rw [SyncHashMap.get_of_some hp] at he
      obtain ⟨b, hb, he⟩ := bind_eq_ok.mp he
      have hb : p = some b := notNull_eq_ok.mp hb
      obtain ⟨buddy, hbuddy, he⟩ := bind_eq_ok.mp he
      have hbuddy : h.users b = some buddy := Hub.deref_eq_ok.mp hbuddy
      have hpoints : h.nickUmap.pointsTo nick = some b :=
        SyncHashMap.pointsTo_eq_some.mpr (hp.trans (congrArg some hb))
      split at he
      · rename_i hready
        have hpost : post h u usr coords nick = none := by
          simp [post, hpoints, hbuddy, Bool.eq_false_of_not_eq_true hready]
        rw [List.filterMap_cons, hpost]
        exact ih he
      · rename_i hready
        obtain ⟨usr', husr', he⟩ := bind_eq_ok.mp he
        have husr' : h.users u = some usr' := Hub.deref_eq_ok.mp husr'
        cases hu.symm.trans husr'
        have hpost : post h u usr coords nick =
            some (.position u b buddy.addrUdp (coordsPkg usr.id coords)) :=
          post_eq_some.mpr ⟨b, buddy, hpoints, hbuddy, not_not.mp hready, rfl⟩
        split at he
        · have hrest := ih he
          rw [hrest, List.filterMap_cons, hpost, List.map_cons, List.append_assoc]
          rfl
        · cases he
    · rename_i hc
      have hnone := SyncHashMap.count_eq_zero.mp (Nat.eq_zero_of_not_pos hc)
      have hpost : post h u usr coords nick = none := by
        simp [post, SyncHashMap.pointsTo_of_none hnone]
      rw [List.filterMap_cons, hpost]
      exact ih he

/-- The loop goes through as long as nothing in `nick_umap` is `NULL`. -/
theorem sendAll_ok (hsend : ∀ k, env.sendto k = true) (hu : h.users u = some usr)
    (hnicks : NicksFound h) (nicks : List Nick) :
    ∀ {k : ℕ} {o : List Output},
      ∃ h', sendAll env u coords nicks k { h with out := o } = .ok h' := by
  induction nicks with
  | nil => exact fun {k o} => ⟨_, rfl⟩
  | cons nick rest ih =>
    intro k o
    rw [sendAll]
    split
    · rename_i hc
      obtain ⟨b, buddy, hb, hbuddy⟩ := hnicks nick hc
      simp only [SyncHashMap.get_of_some hb, notNull, Hub.deref, hbuddy, hu, hsend, bind,
        Except.bind, if_true]
      split
      · exact ih
      · exact ih
    · exact ih

end Turn

/-- `BUDDIES_IDS` lists ids with nicks, each closed by a `'\0'`. -/
def idEntry (p : Int32 × Nick) : List UInt8 := intBytes p.1.toUInt32 ++ (p.2 ++ [0])

/-- The users that the user of the session names in an `ADD_BUDDIES`, as far as they are
registered. -/
def naming (h : Hub) : Event → List (UserRef × UserRef)
  | .command s pkg =>
    if pkg.getType = CmdPkg.ADD_BUDDIES then
      match (h.sessions s).bind Session.user with
      | none => []
      | some b =>
        (addFields pkg.getData).filterMap fun nick => (h.nickUmap.pointsTo nick).map (b, ·)
    else []
  | _ => []

def Output.tcpTo (sock : SocketRef) : Output → Option CmdPkg
  | .tcp k pkg _ => if k = sock then some pkg else none
  | .udp _ _ => none

/-- What has been handed to `send` for the session so far: what waits, and what has left. -/
def handed (h : Hub) (s : SessionRef) (sock : SocketRef) : List CmdPkg :=
  h.sendQueue s ++ h.out.filterMap (Output.tcpTo sock)

/-- What has been handed to the two servers for the socket and has not left. -/
def waiting (h : Hub) (k : SocketRef) : List CmdPkg :=
  h.sendQueue k ++ (h.pendingCmdQueue.filter (·.sock = k)).map PendingCmd.cmd

/-- The session of the user is open, and no `BUDDIES_IDS` waits for it. -/
def answered (h : Hub) (b : UserRef) : Bool :=
  match (h.users b).bind User.sock with
  | none => false
  | some k => (h.sessions k).isSome &&
      (waiting h k).all fun p => decide (p.getType ≠ CmdPkg.BUDDIES_IDS)

def Output.mail : Output → Option Mail
  | .tcp sock pkg n => some (.tcp sock pkg n)
  | .udp _ _ => none

/-- What the event has sent. -/
def mailed (h h' : Hub) (call : Event × Env) : List Mail :=
  match call.1 with
  | .pull => posts call.2 h
  | _ => (h'.out.drop h.out.length).filterMap Output.mail

theorem mailed_of_ne_pull {h h' : Hub} {ev : Event} {env : Env} (hpull : ev ≠ .pull) :
    mailed h h' (ev, env) = (h'.out.drop h.out.length).filterMap Output.mail := by
  unfold mailed
  cases ev with
  | pull => exact absurd rfl hpull
  | _ => rfl

structure Chronicle where
  hub : Hub
  /-- All that was sent, oldest first. -/
  mail : List Mail
  /-- What `processCoordinates` has taken, for whom. -/
  taken : List (UserRef × Coordinates)
  /-- Who has named whom in an `ADD_BUDDIES`. -/
  named : List (UserRef × UserRef)
  /-- Of these, the pairs of which the first has since been sent all that waited for it. -/
  heard : List (UserRef × UserRef)

namespace Chronicle

def boot : Chronicle := ⟨.boot, [], [], [], []⟩

/-- The history after the event has taken the hub to `h'`. -/
def record (s : Chronicle) (call : Event × Env) (h' : Hub) : Chronicle where
  hub := h'
  mail := s.mail ++ mailed s.hub h' call
  taken := s.taken ++ (takenFrom s.hub call.1).toList
  named := s.named ++ naming s.hub call.1
  heard := s.heard ++ (s.named ++ naming s.hub call.1).filter fun p => answered h' p.1

def step (s : Chronicle) (call : Event × Env) : Option Chronicle :=
  (s.hub.step call).map (s.record call)

variable {s s' : Chronicle} {call : Event × Env}

theorem step_eq_some :
    step s call = some s' ↔ ∃ h', s.hub.step call = some h' ∧ s' = s.record call h' := by
  rw [step, Option.map_eq_some_iff]
  exact exists_congr fun h' => and_congr_right fun _ => eq_comm

end Chronicle
end Gpshub
