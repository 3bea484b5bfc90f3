import Gpshub.Hub.Machine
import Gpshub.Server.Receive

/-! Which handlers a `SocketException` can leave: only those whose `send` fails. -/
namespace Gpshub
open CommandServer CommandHandler GpsDataServer

/-- `x` does not end in a `SocketException`. -/
structure NoSocketException {α : Type} (x : Except Abort α) : Prop where
  ne : x ≠ .error .socketException

/-- No `send` that the handler makes fails in another way than with `EWOULDBLOCK`. -/
structure Env.Sends (env : Env) : Prop where
  answer : ∀ k, env.answer k ≠ .error
  flush : ∀ k, env.flush k ≠ .error

namespace NoSocketException

variable {α β : Type}

theorem ok (a : α) : NoSocketException (.ok a) := ⟨nofun⟩

theorem error {e : Abort} (he : e ≠ .socketException) :
    NoSocketException (.error e : Except Abort α) := by
  constructor
  intro h
  exact he (Except.error.inj h)

theorem bind {x : Except Abort α} {f : α → Except Abort β} (hx : NoSocketException x)
    (hf : ∀ a, x = .ok a → NoSocketException (f a)) : NoSocketException (x >>= f) := by
  cases x with
  | error e => exact error fun he => hx.ne (congrArg _ he)
  | ok a => exact hf a rfl

end NoSocketException

open NoSocketException

theorem store_caught (mem : List UInt8) (i : ℕ) (b : UInt8) :
    NoSocketException (store mem i b) := by
  unfold store
  split
  · exact ok _
  · exact error nofun

theorem memcpy_caught (mem : List UInt8) (i : ℕ) (src : List UInt8) :
    NoSocketException (memcpy mem i src) := by
  unfold memcpy
  split
  · exact ok _
  · exact error nofun

namespace CmdPkg

theorem new_caught (junk : ℕ → UInt8) (type : UInt8) (len : UInt16) :
    NoSocketException (new junk type len) := by
  unfold new
  apply NoSocketException.bind (store_caught ..)
  intro a _
  apply NoSocketException.bind (store_caught ..)
  intro b _
  apply NoSocketException.bind (memcpy_caught ..)
  intro c _
  exact ok _

theorem setByte_caught (p : CmdPkg) (index : ℕ) (val : UInt8) :
    NoSocketException (p.setByte index val) :=
  NoSocketException.bind (store_caught ..) fun _ _ => ok _

theorem setInt_caught (p : CmdPkg) (index : ℕ) (val : Int32) :
    NoSocketException (p.setInt index val) :=
  NoSocketException.bind (memcpy_caught ..) fun _ _ => ok _

theorem setBytes_caught (p : CmdPkg) (index : ℕ) (buf : List UInt8) :
    NoSocketException (p.setBytes index buf) :=
  NoSocketException.bind (memcpy_caught ..) fun _ _ => ok _

end CmdPkg

theorem deref_caught (h : Hub) (u : UserRef) : NoSocketException (h.deref u) := by
  unfold Hub.deref
  split
  · exact ok _
  · exact error nofun

theorem session_caught (h : Hub) (s : SessionRef) : NoSocketException (h.session s) := by
  unfold Hub.session
  split
  · exact ok _
  · exact error nofun

theorem notNull_caught {α : Type} {e : Abort} (he : e ≠ .socketException) (p : Option α) :
    NoSocketException (notNull e p) := by
  cases p with
  | none => exact error he
  | some a => exact ok a

section CommandServer

variable {env : Env} {h : Hub} {s : SessionRef} {u : UserRef}

theorem send_caught (p : CmdPkg) {answer : SendResult} (ha : answer ≠ .error) :
    NoSocketException (send h s p answer) := by
  apply NoSocketException.bind (session_caught h s)
  intro session _
  cases answer with
  | all | part | wouldBlock => exact ok _
  | error => exact absurd rfl ha

theorem drain_caught {answer : ℕ → SendResult} (ha : ∀ k, answer k ≠ .error) {sock : SocketRef}
    (ps : List CmdPkg) : ∀ {i : ℕ} {h : Hub}, NoSocketException (drain answer s sock ps i h) := by
  induction ps with
  | nil => exact ok _
  | cons p rest ih =>
    intro i h
    rw [drain]
    cases hi : answer i with
    | all => exact ih
    | part n => exact ih
    | wouldBlock => exact ok _
    | error => exact absurd hi (ha i)

theorem sendQueued_caught (ha : env.Sends) : NoSocketException (sendQueued env s h) :=
  NoSocketException.bind (session_caught h s) fun _ _ => drain_caught ha.answer _

theorem registerNick_caught (ha : env.Sends) (pkg : CmdPkg) :
    NoSocketException (registerNick env pkg s h) := by
  have hfail (status : UInt8) : NoSocketException (registerFail env status) :=
    NoSocketException.bind (CmdPkg.new_caught ..) fun _ _ => CmdPkg.setByte_caught ..
  have hok (id : Int32) : NoSocketException (registerOk env id) := by
    apply NoSocketException.bind (CmdPkg.new_caught ..)
    intro p _
    exact NoSocketException.bind (CmdPkg.setByte_caught ..) fun _ _ => CmdPkg.setInt_caught ..
  have hinit (token : Int32) : NoSocketException (initUdp env token) :=
    NoSocketException.bind (CmdPkg.new_caught ..) fun _ _ => CmdPkg.setInt_caught ..
  unfold registerNick
  dsimp only
  split
  · exact NoSocketException.bind (hfail 0) fun p _ => send_caught p (ha.answer 0)
  · split
    · exact error nofun
    · split
      · exact NoSocketException.bind (hfail 2) fun p _ => send_caught p (ha.answer 0)
      · apply NoSocketException.bind (session_caught ..)
        intro session _
        apply NoSocketException.bind (hok _)
        intro pkgOk _
        apply NoSocketException.bind (send_caught pkgOk (ha.answer 0))
        intro h1 _
        apply NoSocketException.bind (deref_caught ..)
        intro user _
        exact NoSocketException.bind (hinit _) fun p _ => send_caught p (ha.answer 1)

theorem addBuddy_caught (ha : env.Sends) (nick : Nick) (st : AddState) :
    NoSocketException (addBuddy env s u nick st h) := by
  have huid (user : User) : NoSocketException (uidPkg env user) := by
    apply NoSocketException.bind (CmdPkg.new_caught ..)
    intro p _
    exact NoSocketException.bind (CmdPkg.setInt_caught ..) fun _ _ => CmdPkg.setBytes_caught ..
  apply NoSocketException.bind (deref_caught h u)
  intro user _
  dsimp only
  split
  · apply NoSocketException.bind (notNull_caught (by nofun) _)
    intro buddy _
    apply NoSocketException.bind (deref_caught ..)
    intro buddyUser _
    apply NoSocketException.bind (huid _)
    intro pkgUid _
    exact NoSocketException.bind (send_caught pkgUid (ha.answer _)) fun _ _ => ok _
  · exact ok _

theorem addAll_caught (ha : env.Sends) (nicks : List Nick) :
    ∀ {st : AddState} {h : Hub}, NoSocketException (addAll env s u nicks st h) := by
  induction nicks with
  | nil => exact ok _
  | cons nick rest ih =>
    intro st h
    exact NoSocketException.bind (addBuddy_caught ha nick st) fun _ _ => ih

theorem writeIds_caught (idsMap : List (Int32 × Nick)) :
    ∀ {offset : ℕ} {pkg : CmdPkg}, NoSocketException (writeIds idsMap offset pkg) := by
  induction idsMap with
  | nil => exact ok _
  | cons entry rest ih =>
    intro offset pkg
    apply NoSocketException.bind (CmdPkg.setInt_caught ..)
    intro p _
    exact NoSocketException.bind (CmdPkg.setBytes_caught ..) fun _ _ => ih

theorem addBuddies_caught (ha : env.Sends) (pkg : CmdPkg) :
    NoSocketException (addBuddies env pkg s h) := by
  have hids (m : List (Int32 × Nick)) (n : ℕ) : NoSocketException (idsPkg env m n) :=
    NoSocketException.bind (CmdPkg.new_caught ..) fun _ _ => writeIds_caught m
  apply NoSocketException.bind (session_caught h s)
  intro session _
  cases session.user with
  | none => exact ok _
  | some usr =>
    apply NoSocketException.bind (addAll_caught ha _)
    intro r _
    dsimp only
    split
    · exact NoSocketException.bind (hids _ _) fun p _ => send_caught p (ha.answer _)
    · exact ok _

theorem removeAll_caught (nicks : List Nick) :
    ∀ {h : Hub}, NoSocketException (removeAll u nicks h) := by
  induction nicks with
  | nil => exact ok _
  | cons nick rest ih =>
    intro h
    exact NoSocketException.bind (deref_caught h u) fun _ _ => ih

theorem removeBuddies_caught (pkg : CmdPkg) : NoSocketException (removeBuddies pkg s h) := by
  apply NoSocketException.bind (session_caught h s)
  intro session _
  cases session.user with
  | none => exact ok _
  | some usr => exact removeAll_caught _

theorem handle_caught (ha : env.Sends) (pkg : CmdPkg) : NoSocketException (handle env pkg s h) := by
  unfold handle
  split_ifs
  · exact registerNick_caught ha pkg
  · exact addBuddies_caught ha pkg
  · exact removeBuddies_caught pkg
  · exact ok _

theorem closeConnection_caught : NoSocketException (closeConnection s h) := by
  apply NoSocketException.bind (session_caught h s)
  intro session _
  cases session.user with
  | none => exact ok _
  | some u =>
    have hquit : NoSocketException (quit u h) :=
      NoSocketException.bind (deref_caught h u) fun _ _ => ok _
    exact NoSocketException.bind hquit fun _ _ => ok _

/-! The bytes of a session are taken apart without sending anything. -/

theorem cell_caught (mem : List UInt8) (j : Int32) :
    NoSocketException (CircularBuffer.cell mem j) := by
  unfold CircularBuffer.cell
  split
  · exact ok _
  · exact error nofun

theorem addLoop_caught (c : CircularBuffer) (bytes : List UInt8) :
    ∀ {mem : List UInt8} {n : ℕ}, NoSocketException (c.addLoop mem bytes n) := by
  induction bytes with
  | nil => exact ok _
  | cons b rest ih =>
    intro mem n
    rw [CircularBuffer.addLoop]
    split
    · exact ok _
    · exact NoSocketException.bind (cell_caught ..) fun _ _ => ih

theorem copyLoop_caught (c : CircularBuffer) (left : ℕ) :
    ∀ {i : ℕ}, NoSocketException (c.copyLoop left i) := by
  induction left with
  | zero => exact ok _
  | succ left ih =>
    intro i
    rw [CircularBuffer.copyLoop]
    split
    · exact ok _
    · apply NoSocketException.bind (cell_caught ..)
      intro k _
      exact NoSocketException.bind ih fun _ _ => ok _

theorem receive_caught (bytes : List UInt8) (r : Receiver) :
    NoSocketException (receive bytes r) := by
  unfold receive
  apply NoSocketException.bind (memcpy_caught ..)
  intro cmdBuf _
  apply NoSocketException.bind
    (NoSocketException.bind (addLoop_caught r.buf _) fun _ _ => ok _)
  intro p _
  apply NoSocketException.bind (copyLoop_caught p.1 3)
  intro header _
  apply NoSocketException.bind (memcpy_caught ..)
  intro cmdBuf _
  unfold takePkg
  dsimp only
  split
  · apply NoSocketException.bind
      (NoSocketException.bind (copyLoop_caught p.1 _) fun _ _ => ok _)
    intro q _
    apply NoSocketException.bind (memcpy_caught ..)
    intro cmdBuf _
    exact NoSocketException.bind
      (NoSocketException.bind (store_caught ..) fun _ _ => ok _) fun _ _ => ok _
  · exact ok _

end CommandServer

section GpsDataServer

variable {env : Env} {h : Hub}

theorem sendUdpInitAck_caught (ha : env.Sends) (u : UserRef) (status : UInt8) :
    NoSocketException (sendUdpInitAck env u status h) := by
  have hack : NoSocketException (udpInitAck env status) :=
    NoSocketException.bind (CmdPkg.new_caught ..) fun _ _ => CmdPkg.setByte_caught ..
  apply NoSocketException.bind hack
  intro ack _
  apply NoSocketException.bind (deref_caught h u)
  intro usr _
  apply NoSocketException.bind (notNull_caught (by nofun) _)
  intro sock _
  cases hk : env.answer 0 with
  | all | part | wouldBlock => exact ok _
  | error => exact absurd hk (ha.answer 0)

theorem process_caught (ha : env.Sends) (theirAddr : SockAddr) (datagram : List UInt8) :
    NoSocketException (process env theirAddr datagram h) := by
  unfold process
  dsimp only
  split_ifs
  · unfold processCoordinates
    dsimp only
    split
    · exact ok _
    · apply NoSocketException.bind (deref_caught ..)
      intro usr _
      split_ifs <;> exact ok _
  · unfold initAddrUdp
    dsimp only
    split
    · exact ok _
    · apply NoSocketException.bind (deref_caught ..)
      intro usr _
      split
      · exact sendUdpInitAck_caught ha ..
      · apply NoSocketException.bind (notNull_caught (by nofun) _)
        intro sock _
        split
        · exact sendUdpInitAck_caught ha ..
        · exact sendUdpInitAck_caught ha ..
  · exact ok _

theorem flushLoop_caught {flush : ℕ → SendResult} (ha : ∀ k, flush k ≠ .error)
    (q : List PendingCmd) : ∀ {i : ℕ}, NoSocketException (flushLoop flush q i) := by
  induction q with
  | nil => exact ok _
  | cons pcmd rest ih =>
    intro i
    rw [flushLoop]
    cases hi : flush i with
    | all | part | wouldBlock => exact NoSocketException.bind ih fun _ _ => ok _
    | error => exact absurd hi (ha i)

theorem sendPendingCmd_caught (ha : env.Sends) : NoSocketException (sendPendingCmd env h) :=
  NoSocketException.bind (flushLoop_caught ha.flush _) fun _ _ => ok _

end GpsDataServer

/-- While all sends succeed or would block, no `SocketException` leaves a callback. -/
theorem dispatch_caught {env : Env} {h : Hub} (ha : env.Sends) {ev : Event} (hpull : ev ≠ .pull) :
    NoSocketException (h.dispatch env ev) := by
  cases ev with
  | accept addr => exact ok _
  | command s pkg => exact NoSocketException.bind (session_caught h s) fun _ _ => handle_caught ha pkg
  | writable s => exact sendQueued_caught ha
  | close s => exact closeConnection_caught
  | datagram theirAddr bytes =>
    exact NoSocketException.bind (process_caught ha theirAddr bytes) fun _ _ =>
      sendPendingCmd_caught ha
  | timeout => exact sendPendingCmd_caught ha
  | put id => exact ok _
  | pull => exact absurd rfl hpull

end Gpshub
