import Gpshub.Server.CommandServer

/-! The commands of a session, and what closing the session does to its user. -/
namespace Gpshub.CommandHandler
open CommandServer UserIdGenerator

/-- A `REGISTER_NICK_ACK` that only carries a status. -/
def registerFail (env : Env) (status : UInt8) : Except Abort CmdPkg := do
  let pkg ← CmdPkg.new env.junk CmdPkg.REGISTER_NICK_ACK 4
  pkg.setByte 0 status

def registerOk (env : Env) (id : Int32) : Except Abort CmdPkg := do
  let pkg ← CmdPkg.new env.junk CmdPkg.REGISTER_NICK_ACK 8
  let pkg ← pkg.setByte 0 1
  pkg.setInt 1 id

def initUdp (env : Env) (token : Int32) : Except Abort CmdPkg := do
  let pkg ← CmdPkg.new env.junk CmdPkg.INITIALIZE_UDP 7
  pkg.setInt 0 token

/-- The `BUDDIES_IDS` package with the user's own id and nick. -/
def uidPkg (env : Env) (usr : User) : Except Abort CmdPkg := do
  let lenNick := usr.nick.length + 1
  let pkg ← CmdPkg.new env.junk CmdPkg.BUDDIES_IDS (.ofNat (3 + 4 + lenNick))
  let pkg ← pkg.setInt 0 usr.id
  pkg.setBytes 4 (usr.nick ++ [0])

/-- The loop that writes the entries of `ids_map` from `offset` on. -/
def writeIds : List (Int32 × Nick) → ℕ → CmdPkg → Except Abort CmdPkg
  | [], _, pkg => .ok pkg
  | (id, nick) :: rest, offset, pkg => do
    let pkg ← pkg.setInt offset id
    let offset := offset + 4
    let n := nick.length + 1
    let pkg ← pkg.setBytes offset (nick ++ [0])
    writeIds rest (offset + n) pkg

/-- The `BUDDIES_IDS` package with the ids of the listed buddies; `idsPkgLen` is the length
summed up while the list was scanned. -/
def idsPkg (env : Env) (idsMap : List (Int32 × Nick)) (idsPkgLen : ℕ) :
    Except Abort CmdPkg := do
  let len := idsPkgLen + 3 + 4 * idsMap.length
  let pkg ← CmdPkg.new env.junk CmdPkg.BUDDIES_IDS (.ofNat len)
  writeIds idsMap 0 pkg

def registerUser (env : Env) (nick : Nick) (id : UInt32) (session : Session) : User :=
  (User.new id.toInt32 nick env.addrUdp env.token).setSockPtr session.sock

/-- The middle part of `registerNick`: the new user goes into both maps and the session. -/
def logIn (env : Env) (nick : Nick) (id : UInt32) (s : SessionRef) (session : Session)
    (h : Hub) : Hub :=
  let usr := h.nextUser
  let h := { h.setUser usr (registerUser env nick id session) with nextUser := usr + 1 }
  let h := { h with nickUmap := h.nickUmap.put nick (some usr) }
  let h := { h with idUmap := h.idUmap.put id.toInt32 (some usr) }
  h.setSession s { session with user := some usr }

def registerNick (env : Env) (pkg : CmdPkg) (s : SessionRef) (h : Hub) : Except Abort Hub := do
  let nick := pkg.getData
  if 0 < h.nickUmap.count nick then
    let pkgFail ← registerFail env 0
    send h s pkgFail (env.answer 0)
  else
    match generate ULONG_MAX h.idUmap h.current with
    | none => throw .diverges
    | some (id, current) =>
      let h := { h with current }
      if id = 0 then
        let pkgFail ← registerFail env 2
        send h s pkgFail (env.answer 0)
      else
        let session ← h.session s
        let usr := h.nextUser
        let h := logIn env nick id s session h
        let pkgOk ← registerOk env id.toInt32
        let h ← send h s pkgOk (env.answer 0)
        let user ← h.deref usr
        let h := h.setUser usr (user.setToken env.rand)
        let pkgInit ← initUdp env env.rand
        send h s pkgInit (env.answer 1)

/-- The scan of a comma separated list in its `i`-th round, with `rounds` to go; `a` is where
the current field starts. Only `addBuddies` goes on to the next round on an empty field,
before `a` is moved. -/
def scan (skipEmpty : Bool) (data : Nick) : ℕ → ℕ → ℕ → List Nick
  | 0, _, _ => []
  | rounds + 1, i, a =>
    if data[i]? = some 44 ∨ data[i]? = none then
      let n := i - a
      if skipEmpty ∧ n = 0 then scan skipEmpty data rounds (i + 1) a
      else (data.drop a).take n :: scan skipEmpty data rounds (i + 1) (i + 1)
    else scan skipEmpty data rounds (i + 1) a

/-- The names `addBuddies` cuts off, in order. -/
def addFields (data : Nick) : List Nick := scan true data (data.length + 1) 0 0

/-- The names `removeBuddies` cuts off, in order. -/
def removeFields (data : Nick) : List Nick := scan false data (data.length + 1) 0 0

/-- `map[id] = nick` in a `std::map<int, char*>`. -/
def insertId (id : Int32) (nick : Nick) : List (Int32 × Nick) → List (Int32 × Nick)
  | [] => [(id, nick)]
  | (id', nick') :: rest =>
    if id < id' then (id, nick) :: (id', nick') :: rest
    else if id = id' then (id, nick) :: rest
    else (id', nick') :: insertId id nick rest

/-- The local variables of `addBuddies`; `sent` counts the packages sent. -/
structure AddState where
  idsMap : List (Int32 × Nick)
  idsPkgLen : ℕ
  sent : ℕ

/-- What `addBuddies` does with one name. -/
def addBuddy (env : Env) (s : SessionRef) (usr : UserRef) (nick : Nick) (st : AddState)
    (h : Hub) : Except Abort (AddState × Hub) := do
  let user ← h.deref usr
  let user := user.insertBuddy nick
  let h := h.setUser usr user
  if 0 < h.nickUmap.count nick then
    let (ptr, nickUmap) := h.nickUmap.get nick
    let h := { h with nickUmap }
    let buddy ← notNull .badUser ptr
    let buddyUser ← h.deref buddy
    let pkgUid ← uidPkg env user
    let h ← send h s pkgUid (env.answer st.sent)
    return ({
      idsMap := insertId buddyUser.id nick st.idsMap
      idsPkgLen := st.idsPkgLen + (nick.length + 1)
      sent := st.sent + 1 }, h)
  else return (st, h)

def addAll (env : Env) (s : SessionRef) (usr : UserRef) :
    List Nick → AddState → Hub → Except Abort (AddState × Hub)
  | [], st, h => .ok (st, h)
  | nick :: rest, st, h => do
    let (st, h) ← addBuddy env s usr nick st h
    addAll env s usr rest st h

def addBuddies (env : Env) (pkg : CmdPkg) (s : SessionRef) (h : Hub) : Except Abort Hub := do
  let session ← h.session s
  match session.user with
  | none => return h
  | some usr =>
    let (st, h) ← addAll env s usr (addFields pkg.getData) ⟨[], 0, 0⟩ h
    if 0 < st.idsPkgLen then
      let pkgIds ← idsPkg env st.idsMap st.idsPkgLen
      send h s pkgIds (env.answer st.sent)
    else return h

def removeAll (usr : UserRef) : List Nick → Hub → Except Abort Hub
  | [], h => .ok h
  | nick :: rest, h => do
    let user ← h.deref usr
    removeAll usr rest (h.setUser usr (user.eraseBuddy nick))

def removeBuddies (pkg : CmdPkg) (s : SessionRef) (h : Hub) : Except Abort Hub := do
  let session ← h.session s
  match session.user with
  | none => return h
  | some usr => removeAll usr (removeFields pkg.getData) h

def handle (env : Env) (pkg : CmdPkg) (s : SessionRef) (h : Hub) : Except Abort Hub :=
  if pkg.getType = CmdPkg.REGISTER_NICK then registerNick env pkg s h
  else if pkg.getType = CmdPkg.ADD_BUDDIES then addBuddies env pkg s h
  else if pkg.getType = CmdPkg.REMOVE_BUDDIES then removeBuddies pkg s h
  else return h

def quit (u : UserRef) (h : Hub) : Except Abort Hub := do
  let usr ← h.deref u
  let h := { h with idUmap := h.idUmap.erase usr.id }
  let h := { h with nickUmap := h.nickUmap.erase usr.nick }
  return h.deleteUser u

/-- The part of `CommandServer::closeConnection` after the user has been logged out. -/
def deleteSession (s : SessionRef) (session : Session) (h : Hub) : Hub :=
  { h with
    sockets := Function.update h.sockets session.sock
      { h.sockets session.sock with deleted := true }
    sessions := Function.update h.sessions s none
    sendQueue := Function.update h.sendQueue s [] }

/-- `CommandServer::closeConnection` -/
def closeConnection (s : SessionRef) (h : Hub) : Except Abort Hub := do
  let session ← h.session s
  match session.user with
  | none => return deleteSession s session h
  | some u =>
    let h ← quit u h
    return deleteSession s session h

/-- A `REGISTER_NICK` that finds its nick free and an id left. -/
def Registers (h : Hub) (pkg : CmdPkg) : Prop :=
  h.nickUmap.count pkg.getData = 0 ∧
    ∃ id next, generate ULONG_MAX h.idUmap h.current = some (id, next) ∧ id ≠ 0

/-- The hub after a successful registration, but for what was sent. -/
def registered (env : Env) (nick : Nick) (id : UInt32) (s : SessionRef) (session : Session)
    (h : Hub) : Hub :=
  let h' := logIn env nick id s session { h with current := id }
  h'.setUser h.nextUser ((registerUser env nick id session).setToken env.rand)

theorem registered_users (env : Env) (nick : Nick) (id : UInt32) (s : SessionRef)
    (session : Session) (h : Hub) :
    (registered env nick id s session h).users =
      Function.update h.users h.nextUser
        (some ((registerUser env nick id session).setToken env.rand)) := by
  simp [registered, logIn, Hub.setUser, Hub.setSession]

theorem registerNick_eq_ok {env : Env} {pkg : CmdPkg} {s : SessionRef} {h h' : Hub}
    (he : registerNick env pkg s h = .ok h') :
    (¬Registers h pkg ∧ ∃ q o, h' = { h with sendQueue := q, out := o }) ∨
    (Registers h pkg ∧ ∃ session id q o,
      generate ULONG_MAX h.idUmap h.current = some (id, id) ∧ h.sessions s = some session ∧
      h.nickUmap.map pkg.getData = none ∧ id ≠ 0 ∧ h.idUmap.map id.toInt32 = none ∧
      h' = { registered env pkg.getData id s session h with sendQueue := q, out := o }) := by
  unfold registerNick at he
  dsimp only at he
  split_ifs at he with htaken
  · obtain ⟨p, -, he⟩ := bind_eq_ok.mp he
    obtain ⟨q, o, rfl⟩ := send_eq_ok he
    exact Or.inl ⟨fun hr => by have := hr.1; omega, q, o, rfl⟩
  · have hfree : h.nickUmap.count pkg.getData = 0 := by omega
    cases hg : generate ULONG_MAX h.idUmap h.current with
    | none =>
      rw [hg] at he
      cases he
    | some r =>
      obtain ⟨id, next⟩ := r
      rw [hg] at he
      dsimp only at he
      split_ifs at he with hz
      · -- the loop is only left at a free id
        obtain ⟨-, k, hf⟩ := first_of_generate (by decide) hg
        exact absurd hz (isFree_iff.mp hf.free_k).1
      · obtain ⟨-, rfl, hid⟩ := (generate_eq_some hg).resolve_left hz
        obtain ⟨session, hs, he⟩ := bind_eq_ok.mp he
        obtain ⟨p, -, he⟩ := bind_eq_ok.mp he
        obtain ⟨h1, h1e, he⟩ := bind_eq_ok.mp he
        obtain ⟨q1, o1, rfl⟩ := send_eq_ok h1e
        obtain ⟨user, hu, he⟩ := bind_eq_ok.mp he
        obtain ⟨p', -, he⟩ := bind_eq_ok.mp he
        obtain ⟨q, o, rfl⟩ := send_eq_ok he
        have hu' : some (registerUser env pkg.getData next session) = some user := by
          have := Hub.deref_eq_ok.mp hu
          simpa [logIn, Hub.setUser, Hub.setSession] using this
        cases hu'
        exact Or.inr ⟨⟨hfree, next, next, hg, hz⟩, session, next, q, o, rfl, Hub.session_eq_ok.mp hs,
          SyncHashMap.count_eq_zero.mp hfree, hz, hid, rfl⟩

end Gpshub.CommandHandler
