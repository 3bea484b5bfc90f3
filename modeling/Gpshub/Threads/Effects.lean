import Gpshub.Lib.Directory
import Gpshub.Threads.Moves

/-! What the steps of the threads leave alone, and everything the command thread can do in
one step. -/
namespace Gpshub.Threads
open CommandServer CommandHandler GpsDataServer CoordsBroadcastThread UserIdGenerator

/-- What the GPS thread and the broadcast threads never change of a user. -/
def account (u : User) : Int32 × Nick × Option SocketRef × Int32 := (u.id, u.nick, u.sock, u.token)

/-- What the command thread never changes of a user it has created. -/
def core (u : User) : User := { u with buddies := .empty, token := 0 }

theorem account_eq {u v : User} (ha : account u = account v) :
    u.id = v.id ∧ u.nick = v.nick ∧ u.sock = v.sock ∧ u.token = v.token := by
  simpa only [account, Prod.mk.injEq] using ha

theorem id_of_core {u v : User} (hc : core u = core v) : u.id = v.id :=
  show (core u).id = (core v).id from congrArg User.id hc

/-- Nobody connects, registers, logs out or leaves between `h` and `h'`. -/
structure Calm (h h' : Hub) : Prop where
  id : h'.idUmap.pointsTo = h.idUmap.pointsTo
  nick : h'.nickUmap.pointsTo = h.nickUmap.pointsTo
  keys : ∀ k, 0 < h.nickUmap.count k → 0 < h'.nickUmap.count k
  users : ∀ r, (h'.users r).map account = (h.users r).map account
  sockets : h'.sockets = h.sockets
  sessions : h'.sessions = h.sessions
  nextUser : h'.nextUser = h.nextUser
  nextSession : h'.nextSession = h.nextSession

/-- Besides, no user gets or hands over a position. -/
structure Aside (h h' : Hub) : Prop extends Calm h h' where
  nickUmap : h'.nickUmap = h.nickUmap
  rest : ∀ r, (h'.users r).map core = (h.users r).map core
  uqueue : h'.uqueue = h.uqueue

namespace Calm

variable {h h' : Hub} {u : UserRef} {usr usr' : User}

theorem refl (h : Hub) : Calm h h :=
  ⟨rfl, rfl, fun _ hk => hk, fun _ => rfl, rfl, rfl, rfl, rfl⟩

theorem traffic (h : Hub) (uqueue : List Int32) (pendingCmdQueue : List PendingCmd)
    (sendQueue : SessionRef → List CmdPkg) (out : List Output) :
    Calm h { h with uqueue, pendingCmdQueue, sendQueue, out } :=
  ⟨rfl, rfl, fun _ hk => hk, fun _ => rfl, rfl, rfl, rfl, rfl⟩

theorem setUser (hu : h.users u = some usr) (ha : account usr' = account usr) :
    Calm h (h.setUser u usr') where
  id := rfl
  nick := rfl
  keys _ hk := hk
  users r := by
    by_cases hr : r = u
    · subst hr
      simp [Hub.setUser, hu, ha]
    · simp [Hub.setUser, hr]
  sockets := rfl
  sessions := rfl
  nextUser := rfl
  nextSession := rfl

theorem lookUp (h : Hub) (i : Int32) : Calm h (lookUp h i) where
  id := SyncHashMap.pointsTo_get h.idUmap i
  nick := rfl
  keys _ hk := hk
  users _ := rfl
  sockets := rfl
  sessions := rfl
  nextUser := rfl
  nextSession := rfl

theorem lookUpNick (h : Hub) (nick : Nick) :
    Calm h { h with nickUmap := (h.nickUmap.get nick).2 } where
  id := rfl
  nick := SyncHashMap.pointsTo_get h.nickUmap nick
  keys k hk := by
    obtain ⟨p, hp⟩ := SyncHashMap.count_pos.mp hk
    exact SyncHashMap.count_pos.mpr ⟨p, SyncHashMap.map_get_of_some hp⟩
  users _ := rfl
  sockets := rfl
  sessions := rfl
  nextUser := rfl
  nextSession := rfl

theorem before (hc : Calm h h') (hu : h'.users u = some usr') :
    ∃ usr, h.users u = some usr ∧ account usr = account usr' := by
  have hr := hc.users u
  rw [hu] at hr
  exact Option.map_eq_some_iff.mp hr.symm

theorem after (hc : Calm h h') (hu : h.users u = some usr) :
    ∃ usr', h'.users u = some usr' ∧ account usr' = account usr := by
  have hr := hc.users u
  rw [hu] at hr
  exact Option.map_eq_some_iff.mp hr

end Calm

private theorem account_setSlot (u : User) (c : Slot) (x : Coordinates) :
    account (u.setSlot c x) = account u := by
  cases c <;> rfl

theorem GpsMoved.calm {env : Env} {h h' : Hub} {pc pc' : GpsPc} {notes : List Note}
    (hm : GpsMoved env h pc pc' h' notes) : Calm h h' := by
  cases hm with
  | coordNone | coordFound | initNone | initFound => exact .lookUp h _
  | reject | allow | warn | skip | decide | badToken | goodToken | badIp | goodIp => exact .refl h
  | lon hu | lat hu | alt hu => exact .setUser hu (account_setSlot ..)
  | publish hu | swap hu | set hu => exact .setUser hu rfl
  | put | ack | flush => exact .traffic h ..

theorem ThreadMoved.calm {env : Env} {h h' : Hub} {pc pc' : ThreadPc} {notes : List Note}
    (hm : ThreadMoved env h pc pc' h' notes) : Calm h h' := by
  cases hm with
  | again | leave | miss | load | copyLon | copyLat | copyAlt | call | last | taken | free
  | notReady | isReady | pack => exact .refl h
  | unknown | found => exact .lookUp h _
  | get => exact .lookUpNick h _
  | reset hu => exact .setUser hu rfl
  | pull | sendto => exact .traffic h ..

def Live (h : Hub) (u : UserRef) : Prop := ∃ usr, h.users u = some usr

/-- What the local variables of `addBuddies` say of the hub. -/
def AddPc.Ok (h : Hub) : AddPc → Prop
  | .get nick _ => 0 < h.nickUmap.count nick
  | .buddy ptr _ _ => ∀ b, ptr = some b → Live h b
  | _ => True

/-- What the local variables of the command thread say of the hub. -/
def CmdPc.Ok (h : Hub) : CmdPc → Prop
  | .regNew _ _ id => id ≠ 0
  | .reg s nick id u _ => ∃ usr, h.users u = some usr ∧ usr.id = id.toInt32 ∧ usr.nick = nick ∧
    usr.sock = some s
  | .add _ u _ pc => Live h u ∧ pc.Ok h
  | .rem u _ => Live h u
  | .quitRead s u => ∃ session, h.sessions s = some session ∧ session.user = some u
  | .quit s u id nick pc => (∃ session, h.sessions s = some session ∧ session.user = some u) ∧
    (∃ usr, h.users u = some usr ∧ usr.id = id ∧ usr.nick = nick) ∧
    (pc ≠ .eraseId → h.idUmap.pointsTo id ≠ some u) ∧
    (pc = .delete → h.nickUmap.pointsTo nick ≠ some u)
  | _ => True

/-- The command thread has just been given a pointer from `nick_umap`. -/
def CmdPc.fetched : CmdPc → Option (Option UserRef)
  | .add _ _ _ (.buddy ptr _ _) => some ptr
  | _ => none

/-- The user that `registerNick` has created and not yet put into `id_umap`. -/
def CmdPc.unborn : CmdPc → Option UserRef
  | .reg _ _ _ u .putNick => some u
  | .reg _ _ _ u .putId => some u
  | _ => none

/-- The nick and the user that the command thread is about to delete. -/
def CmdPc.deletes : CmdPc → Option (Nick × UserRef)
  | .quit _ u _ nick .delete => some (nick, u)
  | _ => none

/-- The command thread has nothing in hand that matters to others. -/
def CmdPc.Plain (pc : CmdPc) : Prop := pc.fetched = none ∧ pc.unborn = none ∧ pc.deletes = none

inductive CmdMoved (env : Env) (h : Hub) : CmdPc → CmdPc → Hub → List Note → Prop
  | aside (ha : Aside h h') (hpc : ∀ x, pc ≠ .closeEnd x) (hok : pc.Ok h → pc'.Ok h)
      (hp : pc'.Plain) : CmdMoved env h pc pc' h' []
  | create (hs : h.sessions s = some session) :
    CmdMoved env h (.regNew s nick i) (.reg s nick i h.nextUser .putNick)
      { h.setUser h.nextUser (registerUser env nick i session) with
        nextUser := h.nextUser + 1 } []
  | putNick :
    CmdMoved env h (.reg s nick i u .putNick) (.reg s nick i u .putId)
      { h with nickUmap := h.nickUmap.put nick (some u) } []
  | putId :
    CmdMoved env h (.reg s nick i u .putId) (.reg s nick i u .store)
      { h with idUmap := h.idUmap.put (UInt32.toInt32 i) (some u) } []
  | store (hs : h.sessions s = some session) :
    CmdMoved env h (.reg s nick i u .store) (.reg s nick i u .ack)
      (h.setSession s { session with user := some u }) []
  | token (hu : h.users u = some usr) :
    CmdMoved env h (.reg s nick i u .token) (.reg s nick i u (.init env.rand))
      (h.setUser u (usr.setToken env.rand)) [.token u env.rand]
  | get :
    CmdMoved env h (.add s u st (.get nick rest))
      (.add s u st (.buddy (h.nickUmap.get nick).1 nick rest))
      { h with nickUmap := (h.nickUmap.get nick).2 } []
  | read (hu : h.users u = some usr) :
    CmdMoved env h (.quitRead s u) (.quit s u usr.id usr.nick .eraseId) h []
  | eraseId :
    CmdMoved env h (.quit s u i nick .eraseId) (.quit s u i nick .eraseNick)
      { h with idUmap := h.idUmap.erase i } []
  | eraseNick :
    CmdMoved env h (.quit s u i nick .eraseNick) (.quit s u i nick .delete)
      { h with nickUmap := h.nickUmap.erase nick } []
  | delete : CmdMoved env h (.quit s u i nick .delete) (.closeEnd s) (h.deleteUser u) []
  | close (hs : h.sessions s = some session) :
    CmdMoved env h (.closeEnd s) .idle (deleteSession s session h) []

namespace Aside

variable {h h' : Hub} {u : UserRef} {usr usr' : User}

theorem refl (h : Hub) : Aside h h := ⟨.refl h, rfl, fun _ => rfl, rfl⟩

theorem sent (h : Hub) (q : SessionRef → List CmdPkg) (o : List Output) :
    Aside h { h with sendQueue := q, out := o } :=
  ⟨.traffic h .., rfl, fun _ => rfl, rfl⟩

theorem generated (h : Hub) (current : UInt32) : Aside h { h with current } :=
  ⟨⟨rfl, rfl, fun _ hk => hk, fun _ => rfl, rfl, rfl, rfl, rfl⟩, rfl, fun _ => rfl, rfl⟩

theorem setUser (hu : h.users u = some usr) (ha : account usr' = account usr)
    (hw : core usr' = core usr) : Aside h (h.setUser u usr') := by
  refine ⟨.setUser hu ha, rfl, fun r => ?_, rfl⟩
  by_cases hr : r = u
  · subst hr
    simp [Hub.setUser, hu, hw]
  · simp [Hub.setUser, hr]

end Aside

section Command

variable {env : Env} {h h' : Hub} {pc' : CmdPc} {notes : List Note} {s : SessionRef}
  {nick : Nick} {i : UInt32} {u : UserRef}

private theorem regStep_moved {rpc : RegPc}
    (he : regStep env s nick i u h rpc = .ok (pc', h', notes)) :
    CmdMoved env h (.reg s nick i u rpc) pc' h' notes := by
  cases rpc with
  | putNick => cases he; exact .putNick
  | putId => cases he; exact .putId
  | store =>
    obtain ⟨session, hs, he⟩ := bind_eq_ok.mp he
    cases he
    exact .store (Hub.session_eq_ok.mp hs)
  | ack =>
    obtain ⟨p, -, he⟩ := bind_eq_ok.mp he
    obtain ⟨h1, h1e, he⟩ := bind_eq_ok.mp he
    obtain ⟨q, o, rfl⟩ := send_eq_ok h1e
    cases he
    exact .aside (.sent h q o) nofun (fun hok => hok) ⟨rfl, rfl, rfl⟩
  | token =>
    obtain ⟨usr, hu, he⟩ := bind_eq_ok.mp he
    cases he
    exact .token (Hub.deref_eq_ok.mp hu)
  | init token =>
    obtain ⟨p, -, he⟩ := bind_eq_ok.mp he
    obtain ⟨h1, h1e, he⟩ := bind_eq_ok.mp he
    obtain ⟨q, o, rfl⟩ := send_eq_ok h1e
    cases he
    exact .aside (.sent h q o) nofun (fun _ => trivial) ⟨rfl, rfl, rfl⟩

private theorem addStep_moved {st : AddState} {apc : AddPc}
    (he : addStep env s u st h apc = .ok (pc', h', notes)) :
    CmdMoved env h (.add s u st apc) pc' h' notes := by
  cases apc with
  | each nicks =>
    cases nicks with
    | nil =>
      simp only [addStep] at he
      split_ifs at he
      · obtain ⟨p, -, he⟩ := bind_eq_ok.mp he
        obtain ⟨h1, h1e, he⟩ := bind_eq_ok.mp he
        obtain ⟨q, o, rfl⟩ := send_eq_ok h1e
        cases he
        exact .aside (.sent h q o) nofun (fun _ => trivial) ⟨rfl, rfl, rfl⟩
      · cases he
        exact .aside (.refl h) nofun (fun _ => trivial) ⟨rfl, rfl, rfl⟩
    | cons nick rest =>
      obtain ⟨usr, hu, he⟩ := bind_eq_ok.mp he
      cases he
      exact .aside (.setUser (Hub.deref_eq_ok.mp hu) rfl rfl) nofun
        (fun hok => ⟨hok.1, trivial⟩) ⟨rfl, rfl, rfl⟩
  | count nick rest =>
    simp only [addStep] at he
    split_ifs at he with hc
    · cases he
      exact .aside (.refl h) nofun (fun hok => ⟨hok.1, hc⟩) ⟨rfl, rfl, rfl⟩
    · cases he
      exact .aside (.refl h) nofun (fun hok => ⟨hok.1, trivial⟩) ⟨rfl, rfl, rfl⟩
  | get nick rest => cases he; exact .get
  | buddy ptr nick rest =>
    obtain ⟨b, -, he⟩ := bind_eq_ok.mp he
    obtain ⟨busr, -, he⟩ := bind_eq_ok.mp he
    cases he
    exact .aside (.refl h) nofun (fun hok => ⟨hok.1, trivial⟩) ⟨rfl, rfl, rfl⟩
  | notify rest =>
    obtain ⟨usr, -, he⟩ := bind_eq_ok.mp he
    obtain ⟨p, -, he⟩ := bind_eq_ok.mp he
    obtain ⟨h1, h1e, he⟩ := bind_eq_ok.mp he
    obtain ⟨q, o, rfl⟩ := send_eq_ok h1e
    cases he
    exact .aside (.sent h q o) nofun (fun hok => ⟨hok.1, trivial⟩) ⟨rfl, rfl, rfl⟩

theorem cmdStep_moved {pc : CmdPc} (he : cmdStep env h pc = .ok (pc', h', notes)) :
    CmdMoved env h pc pc' h' notes := by
  cases pc with
  | idle => cases he; exact .aside (.refl h) nofun (fun hok => hok) ⟨rfl, rfl, rfl⟩
  | regCount s nick =>
    simp only [cmdStep] at he
    split_ifs at he
    · cases he
      exact .aside (.refl h) nofun (fun _ => trivial) ⟨rfl, rfl, rfl⟩
    · cases he
      exact .aside (.refl h) nofun (fun _ => trivial) ⟨rfl, rfl, rfl⟩
  | regFail s status =>
    obtain ⟨p, -, he⟩ := bind_eq_ok.mp he
    obtain ⟨h1, h1e, he⟩ := bind_eq_ok.mp he
    obtain ⟨q, o, rfl⟩ := send_eq_ok h1e
    cases he
    exact .aside (.sent h q o) nofun (fun _ => trivial) ⟨rfl, rfl, rfl⟩
  | regGen s nick n =>
    simp only [cmdStep] at he
    split_ifs at he with hn hfree
    · cases he
      exact .aside (.generated h _) nofun (fun _ => UInt32.pos_iff_ne_zero.mp hfree.2) ⟨rfl, rfl, rfl⟩
    · cases he
      exact .aside (.generated h _) nofun (fun _ => trivial) ⟨rfl, rfl, rfl⟩
    · cases he
      exact .aside (.refl h) nofun (fun _ => trivial) ⟨rfl, rfl, rfl⟩
  | regNew s nick id =>
    obtain ⟨session, hs, he⟩ := bind_eq_ok.mp he
    cases he
    exact .create (Hub.session_eq_ok.mp hs)
  | reg s nick id u rpc => exact regStep_moved he
  | add s u st apc => exact addStep_moved he
  | rem u nicks =>
    cases nicks with
    | nil => cases he; exact .aside (.refl h) nofun (fun _ => trivial) ⟨rfl, rfl, rfl⟩
    | cons nick rest =>
      obtain ⟨usr, hu, he⟩ := bind_eq_ok.mp he
      cases he
      exact .aside (.setUser (Hub.deref_eq_ok.mp hu) rfl rfl) nofun (fun hok => hok) ⟨rfl, rfl, rfl⟩
  | quitRead s u =>
    obtain ⟨usr, hu, he⟩ := bind_eq_ok.mp he
    cases he
    exact .read (Hub.deref_eq_ok.mp hu)
  | quit s u id nick qpc =>
    cases qpc with
    | eraseId => cases he; exact .eraseId
    | eraseNick => cases he; exact .eraseNick
    | delete => cases he; exact .delete
  | closeEnd s =>
    obtain ⟨session, hs, he⟩ := bind_eq_ok.mp he
    cases he
    exact .close (Hub.session_eq_ok.mp hs)

end Command

end Gpshub.Threads
