import Gpshub.Lib.Machine
import Gpshub.Threads.State

/-! What each thread does from one point to the next. -/
namespace Gpshub.Threads
open CommandServer CommandHandler GpsDataServer CoordsBroadcastThread UserIdGenerator

/-- `incomingData` up to the first access to `id_umap`. -/
def received (theirAddr : SockAddr) (datagram : List UInt8) : GpsPc :=
  let buf := datagram.take BUF_LEN
  let n := buf.length
  if n = 12 ∨ n = 16 then
    .getCoord theirAddr (toint buf 0) ⟨toint buf 4, toint buf 8, altitude buf n⟩
  else if n = 8 then .getInit theirAddr (toint buf 0) (toint buf 4)
  else .flush

def coordStep (theirAddr : SockAddr) (id : Int32) (c : Coordinates) (u : UserRef) (usr : User)
    (h : Hub) : CoordPc → GpsPc × Hub × List Note
  | .check =>
    if ¬socketEquals theirAddr usr.addrUdp then (.coord theirAddr id c u .warn, h, [])
    else (.coord theirAddr id c u .lon, h, [])
  | .warn => (.flush, h, [])
  | .lon => (.coord theirAddr id c u .lat, h.setUser u (usr.setLongitude c.longitude), [])
  | .lat => (.coord theirAddr id c u .alt, h.setUser u (usr.setLatitude c.latitude), [])
  | .alt => (.coord theirAddr id c u .ready, h.setUser u (usr.setAltitude c.altitude), [])
  | .ready =>
    if usr.ready = none then (.coord theirAddr id c u .set, h, [])
    else (.flush, h, [.accepted u c false])
  | .set =>
    (.coord theirAddr id c u .swap, h.setUser u (usr.setReady (some usr.empty)),
      [.accepted u c true])
  | .swap => (.put id, h.setUser u usr.swapEmpty, [])

def initStep (env : Env) (theirAddr : SockAddr) (token : Int32) (u : UserRef) (usr : User)
    (h : Hub) : InitPc → Except Abort (GpsPc × Hub × List Note)
  | .token =>
    if token ≠ usr.token then return (.init theirAddr token u (.ack 0), h, [])
    else return (.init theirAddr token u .ip, h, [])
  | .ip => do
    let sock ← notNull .badSession usr.sock
    if ¬ipEquals (h.sockets sock).addr theirAddr then
      return (.init theirAddr token u (.ack 0), h, [])
    else return (.init theirAddr token u .set, h, [])
  | .set =>
    return (.init theirAddr token u (.ack 1), h.setUser u (usr.setAddrUdp theirAddr),
      [.initAddr u theirAddr token])
  | .ack status => do
    let h ← sendUdpInitAck env u status h
    return (.flush, h, [])

def gpsStep (env : Env) (h : Hub) : GpsPc → Except Abort (GpsPc × Hub × List Note)
  | .idle => .ok (.idle, h, [])
  | .getCoord theirAddr id c =>
    let (ptr, idUmap) := h.idUmap.get id
    match ptr with
    | none => .ok (.flush, { h with idUmap }, [])
    | some u => .ok (.coord theirAddr id c u .check, { h with idUmap }, [])
  | .coord theirAddr id c u pc => do
    let usr ← h.deref u
    return coordStep theirAddr id c u usr h pc
  | .put id => .ok (.flush, { h with uqueue := h.uqueue ++ [id] }, [])
  | .getInit theirAddr id token =>
    let (ptr, idUmap) := h.idUmap.get id
    match ptr with
    | none => .ok (.flush, { h with idUmap }, [])
    | some u => .ok (.init theirAddr token u .token, { h with idUmap }, [])
  | .init theirAddr token u pc => do
    let usr ← h.deref u
    initStep env theirAddr token u usr h pc
  | .flush => do
    let h ← sendPendingCmd env h
    return (.idle, h, [])

/-- A broadcast thread in its turn. `call` copies the buddies in one step and leaves out that the
copy takes the state of their lock with it: copied while a writer is inside, it would never let
the reader in. -/
def turnStep (env : Env) (id : Int32) (u : UserRef) (h : Hub) :
    TurnPc → Except Abort (ThreadPc × Hub × List Note)
  | .load => do
    let usr ← h.deref u
    match usr.ready with
    | none => return (.test, h, [])
    | some c => return (.turn id u (.copyLon c), h, [])
  | .copyLon c => do
    let usr ← h.deref u
    return (.turn id u (.copyLat c (usr.slot c).longitude), h, [])
  | .copyLat c lon => do
    let usr ← h.deref u
    return (.turn id u (.copyAlt c lon (usr.slot c).latitude), h, [])
  | .copyAlt c lon lat => do
    let usr ← h.deref u
    return (.turn id u (.call c ⟨lon, lat, (usr.slot c).altitude⟩), h, [])
  | .call _ coords => do
    let usr ← h.deref u
    return (.turn id u (.each coords (iterate env usr.buddies)), h, [.broadcast u coords])
  | .each coords nicks =>
    match nicks with
    | [] => .ok (.turn id u .reset, h, [])
    | nick :: rest =>
      if 0 < h.nickUmap.count nick then .ok (.turn id u (.get coords nick rest), h, [])
      else .ok (.turn id u (.each coords rest), h, [])
  | .get coords nick rest =>
    let (ptr, nickUmap) := h.nickUmap.get nick
    .ok (.turn id u (.udpReady coords ptr rest), { h with nickUmap }, [])
  | .udpReady coords ptr rest => do
    let buddy ← notNull .badUser ptr
    let buddyUser ← h.deref buddy
    if ¬buddyUser.udpReady then return (.turn id u (.each coords rest), h, [])
    else return (.turn id u (.pack coords buddy rest), h, [])
  | .pack coords buddy rest => do
    let usr ← h.deref u
    return (.turn id u (.sendto coords buddy (coordsPkg usr.id coords) rest), h, [])
  | .sendto coords buddy buf rest => do
    let buddyUser ← h.deref buddy
    if env.sendto 0 then
      return (.turn id u (.each coords rest), h.emit (.udp buddyUser.addrUdp buf), [])
    else throw .socketException
  | .reset => do
    let usr ← h.deref u
    return (.test, h.setUser u (usr.setReady none), [])

def threadStep (env : Env) (loop : Bool) (h : Hub) :
    ThreadPc → Except Abort (ThreadPc × Hub × List Note)
  | .test => if loop then .ok (.pull, h, []) else .ok (.exited, h, [])
  | .pull =>
    match h.uqueue with
    | [] => .ok (.pull, h, [])
    | id :: rest => .ok (.lookup id, { h with uqueue := rest }, [])
  | .lookup id =>
    let (ptr, idUmap) := h.idUmap.get id
    match ptr with
    | none => .ok (.test, { h with idUmap }, [])
    | some u => .ok (.turn id u .load, { h with idUmap }, [])
  | .turn id u pc => turnStep env id u h pc
  | .exited => .ok (.exited, h, [])

def regStep (env : Env) (s : SessionRef) (nick : Nick) (id : UInt32) (u : UserRef) (h : Hub) :
    RegPc → Except Abort (CmdPc × Hub × List Note)
  | .putNick =>
    .ok (.reg s nick id u .putId, { h with nickUmap := h.nickUmap.put nick (some u) }, [])
  | .putId =>
    .ok (.reg s nick id u .store, { h with idUmap := h.idUmap.put id.toInt32 (some u) }, [])
  | .store => do
    let session ← h.session s
    return (.reg s nick id u .ack, h.setSession s { session with user := some u }, [])
  | .ack => do
    let pkgOk ← registerOk env id.toInt32
    let h ← send h s pkgOk (env.answer 0)
    return (.reg s nick id u .token, h, [])
  | .token => do
    let usr ← h.deref u
    return (.reg s nick id u (.init env.rand), h.setUser u (usr.setToken env.rand),
      [.token u env.rand])
  | .init token => do
    let pkgInit ← initUdp env token
    let h ← send h s pkgInit (env.answer 0)
    return (.idle, h, [])

def addStep (env : Env) (s : SessionRef) (u : UserRef) (st : AddState) (h : Hub) :
    AddPc → Except Abort (CmdPc × Hub × List Note)
  | .each nicks =>
    match nicks with
    | [] =>
      if 0 < st.idsPkgLen then do
        let pkgIds ← idsPkg env st.idsMap st.idsPkgLen
        let h ← send h s pkgIds (env.answer 0)
        return (.idle, h, [])
      else return (.idle, h, [])
    | nick :: rest => do
      let usr ← h.deref u
      return (.add s u st (.count nick rest), h.setUser u (usr.insertBuddy nick), [])
  | .count nick rest =>
    if 0 < h.nickUmap.count nick then .ok (.add s u st (.get nick rest), h, [])
    else .ok (.add s u st (.each rest), h, [])
  | .get nick rest =>
    let (ptr, nickUmap) := h.nickUmap.get nick
    .ok (.add s u st (.buddy ptr nick rest), { h with nickUmap }, [])
  | .buddy ptr nick rest => do
    let buddy ← notNull .badUser ptr
    let buddyUser ← h.deref buddy
    let st := { st with
      idsMap := insertId buddyUser.id nick st.idsMap
      idsPkgLen := st.idsPkgLen + (nick.length + 1) }
    return (.add s u st (.notify rest), h, [])
  | .notify rest => do
    let usr ← h.deref u
    let pkgUid ← uidPkg env usr
    let h ← send h s pkgUid (env.answer 0)
    return (.add s u st (.each rest), h, [])

def quitStep (s : SessionRef) (u : UserRef) (id : Int32) (nick : Nick) (h : Hub) :
    QuitPc → CmdPc × Hub × List Note
  | .eraseId => (.quit s u id nick .eraseNick, { h with idUmap := h.idUmap.erase id }, [])
  | .eraseNick => (.quit s u id nick .delete, { h with nickUmap := h.nickUmap.erase nick }, [])
  | .delete => (.closeEnd s, h.deleteUser u, [])

def cmdStep (env : Env) (h : Hub) : CmdPc → Except Abort (CmdPc × Hub × List Note)
  | .idle => .ok (.idle, h, [])
  | .regCount s nick =>
    if 0 < h.nickUmap.count nick then .ok (.regFail s 0, h, [])
    else .ok (.regGen s nick 0, h, [])
  | .regFail s status => do
    let pkgFail ← registerFail env status
    let h ← send h s pkgFail (env.answer 0)
    return (.idle, h, [])
  | .regGen s nick n =>
    if n.toNat ≤ ULONG_MAX then
      let current := h.current + 1
      if isFree h.idUmap current then .ok (.regNew s nick current, { h with current }, [])
      else .ok (.regGen s nick (n + 1), { h with current }, [])
    else .ok (.regFail s 2, h, [])
  | .regNew s nick id => do
    let session ← h.session s
    let u := h.nextUser
    return (.reg s nick id u .putNick,
      { h.setUser u (registerUser env nick id session) with nextUser := u + 1 }, [])
  | .reg s nick id u pc => regStep env s nick id u h pc
  | .add s u st pc => addStep env s u st h pc
  | .rem u nicks =>
    match nicks with
    | [] => .ok (.idle, h, [])
    | nick :: rest => do
      let usr ← h.deref u
      return (.rem u rest, h.setUser u (usr.eraseBuddy nick), [])
  | .quitRead s u => do
    let usr ← h.deref u
    return (.quit s u usr.id usr.nick .eraseId, h, [])
  | .quit s u id nick pc => .ok (quitStep s u id nick h pc)
  | .closeEnd s => do
    let session ← h.session s
    return (.idle, deleteSession s session h, [])

/-- `handle`, and the start of what it calls, for a package of the session. -/
def handled (pkg : CmdPkg) (s : SessionRef) (session : Session) : CmdPc :=
  if pkg.getType = CmdPkg.REGISTER_NICK then .regCount s pkg.getData
  else
    match session.user with
    | none => .idle
    | some u =>
      if pkg.getType = CmdPkg.ADD_BUDDIES then
        .add s u ⟨[], 0, 0⟩ (.each (addFields pkg.getData))
      else if pkg.getType = CmdPkg.REMOVE_BUDDIES then .rem u (removeFields pkg.getData)
      else .idle

/-- The start of `closeConnection`. -/
def closing (s : SessionRef) (session : Session) : CmdPc :=
  match session.user with
  | none => .closeEnd s
  | some u => .quitRead s u

inductive Action (n : ℕ)
  | datagram (theirAddr : SockAddr) (bytes : List UInt8)
  /-- `epoll_wait` of the GPS data server times out. -/
  | timeout
  /-- The GPS thread goes on. -/
  | gps (env : Env)
  | thread (j : Fin n) (env : Env)
  /-- The two steps of `CoordsBroadcastThread::stop`. -/
  | stop (j : Fin n)
  | wake
  | accept (addr : SockAddr)
  | command (s : SessionRef) (pkg : CmdPkg)
  | writable (s : SessionRef) (env : Env)
  | close (s : SessionRef)
  /-- The command thread goes on. -/
  | cmd (env : Env)

variable {n : ℕ}

def Action.isCmd : Action n → Bool
  | .cmd _ => true
  | _ => false

def Action.isGps : Action n → Bool
  | .gps _ => true
  | _ => false

def Thread.blocked (t : Thread) (h : Hub) : Bool :=
  t.pc = .exited || (t.pc = .pull && h.uqueue = [])

namespace System

/-- What a thread has done, put into the state; a fault stops the server. -/
def resume {α : Type} (s : System n) (r : Except Abort (α × Hub × List Note))
    (move : α → System n → System n) : System n :=
  match r with
  | .ok (pc, hub, notes) => move pc { s with hub, hist := s.hist ++ notes }
  | .error e => { s with fault := some e }

def setGps (pc : GpsPc) (s : System n) : System n := { s with gps := pc }

def setCmd (pc : CmdPc) (s : System n) : System n := { s with cmd := pc }

def setThread (j : Fin n) (pc : ThreadPc) (s : System n) : System n :=
  { s with threads := Function.update s.threads j { s.threads j with pc } }

/-- One action of one thread; `none` when the thread cannot take it here. -/
def step (s : System n) (a : Action n) : Option (System n) :=
  if s.fault ≠ none then none
  else
    match a with
    | .datagram theirAddr bytes =>
      if s.gps = .idle then some (s.setGps (received theirAddr bytes)) else none
    | .timeout => if s.gps = .idle then some (s.setGps .flush) else none
    | .gps env =>
      if s.gps = .idle then none else some (s.resume (gpsStep env s.hub s.gps) setGps)
    | .thread j env =>
      if (s.threads j).blocked s.hub then none
      else
        some (s.resume (threadStep env (s.threads j).loop s.hub (s.threads j).pc) (setThread j))
    | .stop j =>
      some { s with threads := Function.update s.threads j { s.threads j with loop := false } }
    | .wake => some { s with hub := { s.hub with uqueue := s.hub.uqueue ++ [0] } }
    | .accept addr =>
      match s.cmd with
      | .idle => some { s with hub := incomingConnection addr s.hub }
      | _ => none
    | .command ses pkg =>
      match s.cmd, s.hub.sessions ses with
      | .idle, some session => some (s.setCmd (handled pkg ses session))
      | _, _ => none
    | .writable ses env =>
      match s.cmd, s.hub.sessions ses with
      | .idle, some _ =>
        some (s.resume (do let h ← sendQueued env ses s.hub; return (.idle, h, [])) setCmd)
      | _, _ => none
    | .close ses =>
      match s.cmd, s.hub.sessions ses with
      | .idle, some session => some (s.setCmd (closing ses session))
      | _, _ => none
    | .cmd env =>
      match s.cmd with
      | .idle => none
      | pc => some (s.resume (cmdStep env s.hub pc) setCmd)

/-- The call that an action makes ends in a fault. -/
def Faults (s : System n) (e : Abort) : Action n → Prop
  | .gps env => gpsStep env s.hub s.gps = .error e
  | .thread j env => threadStep env (s.threads j).loop s.hub (s.threads j).pc = .error e
  | .writable ses env => sendQueued env ses s.hub = .error e
  | .cmd env => cmdStep env s.hub s.cmd = .error e
  | _ => False

/-- The ways a step changes the state. -/
inductive Moved (s : System n) : Action n → System n → Prop
  | receive (theirAddr : SockAddr) (bytes : List UInt8) (hi : s.gps = .idle) :
    Moved s (.datagram theirAddr bytes) (s.setGps (received theirAddr bytes))
  | timeout (hi : s.gps = .idle) : Moved s .timeout (s.setGps .flush)
  | gps (env : Env) (pc : GpsPc) (hub : Hub) (notes : List Note) (hi : s.gps ≠ .idle)
      (he : gpsStep env s.hub s.gps = .ok (pc, hub, notes)) :
    Moved s (.gps env) { s with gps := pc, hub, hist := s.hist ++ notes }
  | thread (j : Fin n) (env : Env) (pc : ThreadPc) (hub : Hub) (notes : List Note)
      (hb : (s.threads j).blocked s.hub = false)
      (he : threadStep env (s.threads j).loop s.hub (s.threads j).pc = .ok (pc, hub, notes)) :
    Moved s (.thread j env)
      { s with
        threads := Function.update s.threads j { s.threads j with pc }
        hub
        hist := s.hist ++ notes }
  | stop (j : Fin n) :
    Moved s (.stop j)
      { s with threads := Function.update s.threads j { s.threads j with loop := false } }
  | wake : Moved s .wake { s with hub := { s.hub with uqueue := s.hub.uqueue ++ [0] } }
  | accept (addr : SockAddr) (hi : s.cmd = .idle) :
    Moved s (.accept addr) { s with hub := incomingConnection addr s.hub }
  | command (ses : SessionRef) (pkg : CmdPkg) (session : Session) (hi : s.cmd = .idle)
      (hs : s.hub.sessions ses = some session) :
    Moved s (.command ses pkg) (s.setCmd (handled pkg ses session))
  | writable (ses : SessionRef) (env : Env) (q : SessionRef → List CmdPkg) (o : List Output)
      (hi : s.cmd = .idle) :
    Moved s (.writable ses env) { s with hub := { s.hub with sendQueue := q, out := o } }
  | close (ses : SessionRef) (session : Session) (hi : s.cmd = .idle)
      (hs : s.hub.sessions ses = some session) :
    Moved s (.close ses) (s.setCmd (closing ses session))
  | cmd (env : Env) (pc : CmdPc) (hub : Hub) (notes : List Note)
      (he : cmdStep env s.hub s.cmd = .ok (pc, hub, notes)) :
    Moved s (.cmd env) { s with cmd := pc, hub, hist := s.hist ++ notes }
  | fault (a : Action n) (e : Abort) (he : s.Faults e a) : Moved s a { s with fault := some e }

theorem step_moved {s s' : System n} {a : Action n} (hs : s.step a = some s') :
    s.fault = none ∧ Moved s a s' := by
  unfold step at hs
  split at hs
  · cases hs
  · rename_i hf
    refine ⟨not_not.mp hf, ?_⟩
    cases a with
    | datagram theirAddr bytes =>
      dsimp only at hs
      split at hs
      · rename_i hi
        cases hs
        exact .receive theirAddr bytes hi
      · cases hs
    | timeout =>
      dsimp only at hs
      split at hs
      · rename_i hi
        cases hs
        exact .timeout hi
      · cases hs
    | gps env =>
      dsimp only at hs
      split at hs
      · cases hs
      · rename_i hi
        cases he : gpsStep env s.hub s.gps with
        | error e =>
          rw [he] at hs
          cases hs
          exact .fault _ e he
        | ok r =>
          rw [he] at hs
          cases hs
          exact .gps env _ _ _ hi he
    | thread j env =>
      dsimp only at hs
      split at hs
      · cases hs
      · rename_i hb
        cases he : threadStep env (s.threads j).loop s.hub (s.threads j).pc with
        | error e =>
          rw [he] at hs
          cases hs
          exact .fault _ e he
        | ok r =>
          rw [he] at hs
          cases hs
          exact .thread j env _ _ _ (Bool.not_eq_true _ ▸ hb) he
    | stop j =>
      cases hs
      exact .stop j
    | wake =>
      cases hs
      exact .wake
    | accept addr =>
      dsimp only at hs
      split at hs
      · rename_i hi
        cases hs
        exact .accept addr hi
      · cases hs
    | command ses pkg =>
      dsimp only at hs
      split at hs
      · rename_i session hi hses
        cases hs
        exact .command ses pkg session hi hses
      · cases hs
    | writable ses env =>
      dsimp only at hs
      split at hs
      · rename_i session hi hses
        cases he : sendQueued env ses s.hub with
        | error e =>
          rw [he] at hs
          cases hs
          exact .fault _ e he
        | ok h =>
          rw [he] at hs
          cases hs
          obtain ⟨q, o, rfl⟩ := sendQueued_eq_ok he
          have hm := Moved.writable ses env q o hi
          simpa [resume, setCmd, bind, Except.bind, pure, Except.pure, ← hi] using hm
      · cases hs
    | close ses =>
      dsimp only at hs
      split at hs
      · rename_i session hi hses
        cases hs
        exact .close ses session hi hses
      · cases hs
    | cmd env =>
      dsimp only at hs
      split at hs
      · cases hs
      · cases he : cmdStep env s.hub s.cmd with
        | error e =>
          rw [he] at hs
          cases hs
          exact .fault _ e he
        | ok r =>
          rw [he] at hs
          cases hs
          exact .cmd env _ _ _ he

theorem stop_pc (s : System n) (j k : Fin n) :
    (Function.update s.threads j { s.threads j with loop := false } k).pc = (s.threads k).pc := by
  by_cases hkj : k = j
  · subst hkj
    rw [Function.update_self]
  · rw [Function.update_of_ne hkj]

/-- A thread that has moved is at its new point, the others are where they were. -/
theorem moved_pc (s : System n) (j k : Fin n) (pc : ThreadPc) :
    (Function.update s.threads j { s.threads j with pc } k).pc =
      if k = j then pc else (s.threads k).pc := by
  by_cases hkj : k = j
  · subst hkj
    rw [Function.update_self, if_pos rfl]
  · rw [Function.update_of_ne hkj, if_neg hkj]

end System

/-- A peer connects and registers as user 0 with the id 1; `env` is what `new User` gets. -/
def registration (env : Env) : List (Action n) :=
  [.accept default, .command 0 (.registerNick [97]), .cmd default, .cmd default, .cmd env] ++
    List.replicate 6 (.cmd default)

/-- Besides, it gives its UDP address. -/
def login : List (Action n) :=
  registration default ++
    .datagram default (intBytes 1 ++ intBytes 0) :: List.replicate 6 (.gps default)

def position (theirAddr : SockAddr) (longitude latitude : UInt32) : Action n :=
  .datagram theirAddr (intBytes 1 ++ intBytes longitude ++ intBytes latitude)

end Gpshub.Threads
