import Gpshub.Threads.Pointers

/-! When a step of a thread uses no missing and no deleted user. -/
namespace Gpshub.Threads
open CommandServer CommandHandler GpsDataServer CoordsBroadcastThread

/-- The call uses no missing or deleted user. -/
structure UsesLive {α : Type} (x : Except Abort α) : Prop where
  ne : x ≠ .error .badUser

section Calls

variable {α β : Type} {env : Env} {h : Hub}

theorem UsesLive.bind {x : Except Abort α} {f : α → Except Abort β} (hx : UsesLive x)
    (hf : ∀ a, UsesLive (f a)) : UsesLive (x >>= f) := by
  cases x with
  | ok a => exact hf a
  | error e => exact ⟨fun he => hx.ne (by cases he; rfl)⟩

theorem usesLive_ok (a : α) : UsesLive (Except.ok a : Except Abort α) := ⟨nofun⟩

theorem UsesLive.deref {u : UserRef} {f : User → Except Abort β} (hl : Live h u)
    (hf : ∀ usr, UsesLive (f usr)) : UsesLive (h.deref u >>= f) := by
  obtain ⟨usr, hu⟩ := hl
  rw [Hub.deref_eq_ok.mpr hu]
  exact hf usr

theorem usesLive_session (s : SessionRef) : UsesLive (h.session s) := by
  unfold Hub.session
  split <;> exact ⟨nofun⟩

theorem usesLive_sock (p : Option α) : UsesLive (notNull .badSession p) := by
  cases p <;> exact ⟨nofun⟩

private theorem usesLive_store (mem : List UInt8) (i : ℕ) (b : UInt8) :
    UsesLive (store mem i b) := by
  unfold store
  split_ifs <;> exact ⟨nofun⟩

private theorem usesLive_memcpy (mem src : List UInt8) (i : ℕ) : UsesLive (memcpy mem i src) := by
  unfold memcpy
  split_ifs <;> exact ⟨nofun⟩

private theorem usesLive_new (junk : ℕ → UInt8) (type : UInt8) (len : UInt16) :
    UsesLive (CmdPkg.new junk type len) :=
  (usesLive_store ..).bind fun _ => (usesLive_store ..).bind fun _ =>
    (usesLive_memcpy ..).bind fun _ => usesLive_ok _

private theorem usesLive_setByte (p : CmdPkg) (i : ℕ) (b : UInt8) : UsesLive (p.setByte i b) :=
  (usesLive_store ..).bind fun _ => usesLive_ok _

private theorem usesLive_setInt (p : CmdPkg) (i : ℕ) (val : Int32) : UsesLive (p.setInt i val) :=
  UsesLive.bind (usesLive_memcpy ..) fun _ => usesLive_ok _

private theorem usesLive_setBytes (p : CmdPkg) (i : ℕ) (buf : List UInt8) :
    UsesLive (p.setBytes i buf) :=
  (usesLive_memcpy ..).bind fun _ => usesLive_ok _

theorem usesLive_registerFail (status : UInt8) : UsesLive (registerFail env status) :=
  (usesLive_new ..).bind fun _ => usesLive_setByte ..

theorem usesLive_registerOk (id : Int32) : UsesLive (registerOk env id) :=
  (usesLive_new ..).bind fun _ => (usesLive_setByte ..).bind fun _ => usesLive_setInt ..

theorem usesLive_initUdp (token : Int32) : UsesLive (initUdp env token) :=
  (usesLive_new ..).bind fun _ => usesLive_setInt ..

theorem usesLive_uidPkg (usr : User) : UsesLive (uidPkg env usr) :=
  (usesLive_new ..).bind fun _ => (usesLive_setInt ..).bind fun _ => usesLive_setBytes ..

private theorem usesLive_writeIds (ids : List (Int32 × Nick)) :
    ∀ (offset : ℕ) (pkg : CmdPkg), UsesLive (writeIds ids offset pkg) := by
  induction ids with
  | nil => exact fun _ _ => usesLive_ok _
  | cons p rest ih =>
    intro offset pkg
    exact (usesLive_setInt ..).bind fun _ => (usesLive_setBytes ..).bind fun _ => ih ..

theorem usesLive_idsPkg (ids : List (Int32 × Nick)) (len : ℕ) : UsesLive (idsPkg env ids len) :=
  (usesLive_new ..).bind fun _ => usesLive_writeIds ..

theorem usesLive_send (s : SessionRef) (p : CmdPkg) (answer : SendResult) :
    UsesLive (send h s p answer) := by
  refine (usesLive_session s).bind fun session => ?_
  cases answer <;> exact ⟨nofun⟩

private theorem usesLive_drain (answer : ℕ → SendResult) (s : SessionRef) (sock : SocketRef)
    (ps : List CmdPkg) : ∀ (i : ℕ) (h : Hub), UsesLive (drain answer s sock ps i h) := by
  induction ps with
  | nil => exact fun _ _ => usesLive_ok _
  | cons p rest ih =>
    intro i h
    unfold drain
    cases answer i with
    | all => exact ih ..
    | part n => exact ih ..
    | wouldBlock => exact usesLive_ok _
    | error => exact ⟨fun he => by cases he⟩

theorem usesLive_sendQueued (s : SessionRef) : UsesLive (sendQueued env s h) :=
  (usesLive_session s).bind fun _ => usesLive_drain ..

private theorem usesLive_flushLoop (flush : ℕ → SendResult) (ps : List PendingCmd) :
    ∀ i, UsesLive (flushLoop flush ps i) := by
  induction ps with
  | nil => exact fun _ => usesLive_ok _
  | cons p rest ih =>
    intro i
    unfold flushLoop
    cases flush i with
    | all => exact (ih _).bind fun _ => usesLive_ok _
    | part n => exact (ih _).bind fun _ => usesLive_ok _
    | wouldBlock => exact (ih _).bind fun _ => usesLive_ok _
    | error => exact ⟨nofun⟩

theorem usesLive_sendPendingCmd : UsesLive (sendPendingCmd env h) :=
  (usesLive_flushLoop ..).bind fun _ => usesLive_ok _

theorem usesLive_sendUdpInitAck {u : UserRef} (hl : Live h u) (status : UInt8) :
    UsesLive (sendUdpInitAck env u status h) := by
  refine ((usesLive_new ..).bind fun _ => usesLive_setByte ..).bind fun _ => ?_
  refine .deref hl fun usr => (usesLive_sock _).bind fun sock => ?_
  cases env.answer 0 <;> exact ⟨nofun⟩

end Calls

/-- What `nick_umap` has just given to a broadcast thread. -/
def ThreadPc.fetched : ThreadPc → Option (Option UserRef)
  | .turn _ _ (.udpReady _ ptr _) => some ptr
  | .turn _ _ (.pack _ b _) => some (some b)
  | .turn _ _ (.sendto _ b _ _) => some (some b)
  | _ => none

/-- A pointer to a user that is there. -/
def LivePtr (h : Hub) (ptr : Option UserRef) : Prop := ∃ b, ptr = some b ∧ Live h b

section Steps

variable {env : Env} {h : Hub}

theorem gpsStep_usesLive {pc : GpsPc} (hl : ∀ u, pc.user = some u → Live h u) :
    UsesLive (gpsStep env h pc) := by
  cases pc with
  | idle | put => exact usesLive_ok _
  | getCoord theirAddr id c =>
    simp only [gpsStep]
    split <;> exact usesLive_ok _
  | getInit theirAddr id token =>
    simp only [gpsStep]
    split <;> exact usesLive_ok _
  | coord theirAddr id c u cpc => exact .deref (hl u rfl) fun _ => usesLive_ok _
  | init theirAddr token u ipc =>
    have hu := hl u rfl
    refine .deref hu fun usr => ?_
    cases ipc with
    | token =>
      simp only [initStep]
      split_ifs <;> exact usesLive_ok _
    | ip =>
      refine (usesLive_sock _).bind fun sock => ?_
      split_ifs <;> exact usesLive_ok _
    | set => exact usesLive_ok _
    | ack status => exact (usesLive_sendUdpInitAck hu status).bind fun _ => usesLive_ok _
  | flush => exact usesLive_sendPendingCmd.bind fun _ => usesLive_ok _

private theorem turnStep_usesLive {id : Int32} {u : UserRef} {pc : TurnPc} (hu : Live h u)
    (hb : ∀ ptr, (ThreadPc.turn id u pc).fetched = some ptr → LivePtr h ptr) :
    UsesLive (turnStep env id u h pc) := by
  cases pc with
  | load =>
    refine .deref hu fun usr => ?_
    split <;> exact usesLive_ok _
  | copyLon | copyLat | copyAlt | call | reset => exact .deref hu fun usr => usesLive_ok _
  | each coords nicks =>
    cases nicks with
    | nil => exact usesLive_ok _
    | cons nick rest =>
      simp only [turnStep]
      split_ifs <;> exact usesLive_ok _
  | get coords nick rest => exact usesLive_ok _
  | udpReady coords ptr rest =>
    obtain ⟨b, rfl, hl⟩ := hb ptr rfl
    refine .deref hl fun usr => ?_
    split_ifs <;> exact usesLive_ok _
  | pack coords b rest => exact .deref hu fun usr => usesLive_ok _
  | sendto coords b buf rest =>
    obtain ⟨b', he, hl⟩ := hb (some b) rfl
    cases he
    refine .deref hl fun usr => ?_
    split_ifs
    · exact usesLive_ok _
    · exact ⟨fun he => by cases he⟩

theorem threadStep_usesLive {loop : Bool} {pc : ThreadPc}
    (hl : ∀ u, pc.user = some u → Live h u)
    (hb : ∀ ptr, pc.fetched = some ptr → LivePtr h ptr) : UsesLive (threadStep env loop h pc) := by
  cases pc with
  | test =>
    simp only [threadStep]
    split_ifs <;> exact usesLive_ok _
  | pull =>
    simp only [threadStep]
    split <;> exact usesLive_ok _
  | lookup id =>
    simp only [threadStep]
    split <;> exact usesLive_ok _
  | turn id u tpc => exact turnStep_usesLive (hl u rfl) hb
  | exited => exact usesLive_ok _

private theorem regStep_usesLive {s : SessionRef} {nick : Nick} {id : UInt32} {u : UserRef}
    {pc : RegPc} (hu : Live h u) : UsesLive (regStep env s nick id u h pc) := by
  cases pc with
  | putNick | putId => exact usesLive_ok _
  | store => exact (usesLive_session s).bind fun _ => usesLive_ok _
  | ack =>
    exact (usesLive_registerOk _).bind fun _ => (usesLive_send ..).bind fun _ => usesLive_ok _
  | token => exact .deref hu fun _ => usesLive_ok _
  | init token =>
    exact (usesLive_initUdp _).bind fun _ => (usesLive_send ..).bind fun _ => usesLive_ok _

private theorem addStep_usesLive {s : SessionRef} {u : UserRef} {st : AddState} {pc : AddPc}
    (hu : Live h u)
    (hb : ∀ ptr, (CmdPc.add s u st pc).fetched = some ptr → LivePtr h ptr) :
    UsesLive (addStep env s u st h pc) := by
  cases pc with
  | each nicks =>
    cases nicks with
    | nil =>
      simp only [addStep]
      split_ifs
      · exact (usesLive_idsPkg ..).bind fun _ => (usesLive_send ..).bind fun _ => usesLive_ok _
      · exact usesLive_ok _
    | cons nick rest => exact .deref hu fun _ => usesLive_ok _
  | count nick rest =>
    simp only [addStep]
    split_ifs <;> exact usesLive_ok _
  | get nick rest => exact usesLive_ok _
  | buddy ptr nick rest =>
    obtain ⟨b, rfl, hl⟩ := hb ptr rfl
    exact .deref hl fun _ => usesLive_ok _
  | notify rest =>
    exact .deref hu fun _ =>
      (usesLive_uidPkg _).bind fun _ => (usesLive_send ..).bind fun _ => usesLive_ok _

theorem cmdStep_usesLive {pc : CmdPc} (hw : Consistent h pc)
    (hb : ∀ ptr, pc.fetched = some ptr → LivePtr h ptr) : UsesLive (cmdStep env h pc) := by
  cases pc with
  | idle => exact usesLive_ok _
  | regCount s nick =>
    simp only [cmdStep]
    split_ifs <;> exact usesLive_ok _
  | regFail s status =>
    exact (usesLive_registerFail _).bind fun _ => (usesLive_send ..).bind fun _ => usesLive_ok _
  | regGen s nick n =>
    simp only [cmdStep]
    split_ifs <;> exact usesLive_ok _
  | regNew s nick id => exact (usesLive_session s).bind fun _ => usesLive_ok _
  | reg s nick id u rpc =>
    obtain ⟨usr, hu, -⟩ := hw.locals
    exact regStep_usesLive ⟨usr, hu⟩
  | add s u st apc => exact addStep_usesLive hw.locals.1 hb
  | rem u nicks =>
    cases nicks with
    | nil => exact usesLive_ok _
    | cons nick rest => exact .deref hw.locals fun _ => usesLive_ok _
  | quitRead s u =>
    obtain ⟨session, hs, hu⟩ := hw.locals
    obtain ⟨usr, husr, -⟩ := hw.login hs hu fun he => by cases he
    exact .deref ⟨usr, husr⟩ fun _ => usesLive_ok _
  | quit s u id nick qpc => exact usesLive_ok _
  | closeEnd s => exact (usesLive_session s).bind fun _ => usesLive_ok _

end Steps

end Gpshub.Threads
