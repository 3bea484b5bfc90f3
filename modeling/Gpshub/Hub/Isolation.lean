import Gpshub.Hub.Datagrams
import Gpshub.Lib.Pair
import Gpshub.Server.GpsLoop

/-! Hubs that agree but for what waits to be sent to one client: the handlers do the same to
both. -/
namespace Gpshub
open CommandServer CommandHandler GpsDataServer CoordsBroadcastThread UserIdGenerator Lib

/-- The acknowledgements in the queue that are not for the client of `s`. -/
def notFor (s : SessionRef) (q : List PendingCmd) : List PendingCmd :=
  q.filter fun pcmd => pcmd.sock ≠ s

/-- The hub without what waits to be sent to the client of `s`, and without what was sent. -/
def Hub.without (s : SessionRef) (h : Hub) : Hub :=
  { h with
    sendQueue := Function.update h.sendQueue s []
    pendingCmdQueue := notFor s h.pendingCmdQueue
    out := [] }

def SameBut (s : SessionRef) (h h' : Hub) : Prop := h'.without s = h.without s

namespace SameBut

variable {s : SessionRef} {h h' : Hub}

theorem intro {q q' : SessionRef → List CmdPkg} {p p' : List PendingCmd} {o o' : List Output}
    (hq : ∀ k, k ≠ s → q' k = q k)
    (hp : notFor s p' = notFor s p) :
    SameBut s { h with sendQueue := q, pendingCmdQueue := p, out := o }
      { h with sendQueue := q', pendingCmdQueue := p', out := o' } := by
  have hqueue : Function.update q' s [] = Function.update q s [] := by
    funext k
    by_cases hk : k = s
    · subst hk
      rw [Function.update_self, Function.update_self]
    · rw [Function.update_of_ne hk, Function.update_of_ne hk, hq k hk]
  simp only [SameBut, Hub.without, hqueue, hp]

theorem elim (hs : SameBut s h h') : ∃ q p o,
    h' = { h with sendQueue := q, pendingCmdQueue := p, out := o } ∧
      (∀ k, k ≠ s → q k = h.sendQueue k) ∧
      notFor s p = notFor s h.pendingCmdQueue := by
  obtain ⟨ids, nicks, current, users, sockets, sessions, q, uqueue, p, o, nu, ns⟩ := h'
  have hq := congrArg Hub.sendQueue hs
  have hp := congrArg Hub.pendingCmdQueue hs
  simp only [SameBut, Hub.without, Hub.mk.injEq] at hs
  obtain ⟨rfl, rfl, rfl, rfl, rfl, rfl, -, rfl, -, -, rfl, rfl⟩ := hs
  refine ⟨q, p, o, rfl, fun k hk => ?_, hp⟩
  have hk' := congrFun hq k
  simpa only [Hub.without, Function.update_of_ne hk] using hk'

theorem refl (s : SessionRef) (h : Hub) : SameBut s h h := rfl

theorem symm (hs : SameBut s h h') : SameBut s h' h := Eq.symm hs

theorem trans {g : Hub} (hgh : SameBut s g h) (hh : SameBut s h h') : SameBut s g h' :=
  Eq.trans hh hgh

theorem update_agrees {k : SessionRef} {q q' : SessionRef → List CmdPkg} {x x' : List CmdPkg}
    (hq : ∀ j, j ≠ s → q' j = q j) (hx : k ≠ s → x' = x) :
    ∀ j, j ≠ s → Function.update q' k x' j = Function.update q k x j := by
  intro j hj
  by_cases hk : j = k
  · subst hk
    rw [Function.update_self, Function.update_self, hx hj]
  · rw [Function.update_of_ne hk, Function.update_of_ne hk, hq j hj]

theorem queue (hs : SameBut s h h') {k : SessionRef} {x x' : List CmdPkg} (hx : k ≠ s → x' = x) :
    SameBut s { h with sendQueue := Function.update h.sendQueue k x }
      { h' with sendQueue := Function.update h'.sendQueue k x' } := by
  obtain ⟨q, p, o, rfl, hq, hp⟩ := hs.elim
  exact .intro (update_agrees hq hx) hp

theorem emit (hs : SameBut s h h') (x : Output) : SameBut s (h.emit x) (h'.emit x) := by
  obtain ⟨q, p, o, rfl, hq, hp⟩ := hs.elim
  exact .intro hq hp

/-- A change that has nothing to do with what waits to be sent. -/
theorem map (f : Hub → Hub) (hf : ∀ h q p o,
      f { h with sendQueue := q, pendingCmdQueue := p, out := o } =
        { f h with sendQueue := q, pendingCmdQueue := p, out := o })
    (hs : SameBut s h h') : SameBut s (f h) (f h') := by
  obtain ⟨q, p, o, rfl, hq, hp⟩ := hs.elim
  have hsame : SameBut s
      { f h with sendQueue := h.sendQueue, pendingCmdQueue := h.pendingCmdQueue, out := h.out }
      { f h with sendQueue := q, pendingCmdQueue := p, out := o } := .intro hq hp
  have hold := hf h h.sendQueue h.pendingCmdQueue h.out
  have hnew := hf h q p o
  exact (congrArg (Hub.without s) hnew).trans (Eq.trans hsame (congrArg (Hub.without s) hold.symm))

end SameBut

section Sends

variable {s k : SessionRef} {h h' : Hub}

theorem send_sameBut (hh : SameBut s h h') {p p' : CmdPkg} {answer answer' : SendResult}
    (hk : k ≠ s → p' = p ∧ answer' = answer) :
    Both (SameBut s) (send h k p answer) (send h' k p' answer') := by
  obtain ⟨q, ps, o, rfl, hq, hp⟩ := hh.elim
  by_cases hks : k = s
  · intro g g' hg hg'
    obtain ⟨x, o1, rfl⟩ := send_update hg
    obtain ⟨x', o2, rfl⟩ := send_update hg'
    exact .intro (SameBut.update_agrees hq fun hne => absurd hks hne) hp
  · obtain ⟨rfl, rfl⟩ := hk hks
    refine .andThen fun session _ => ?_
    cases answer' with
    | all | part => exact .ok (.intro hq hp)
    | wouldBlock =>
      have hqueue : q k ++ [p'] = h.sendQueue k ++ [p'] := by rw [hq k hks]
      exact .ok (.intro (SameBut.update_agrees hq fun _ => hqueue) hp)
    | error => exact .left rfl

theorem drain_sameBut (answer : ℕ → SendResult) (sock : SocketRef) (ps : List CmdPkg) :
    ∀ {i : ℕ} {h h' : Hub}, SameBut s h h' →
      Both (SameBut s) (drain answer k sock ps i h) (drain answer k sock ps i h') := by
  induction ps with
  | nil =>
    intro i h h' hh
    exact .ok (hh.queue fun _ => rfl)
  | cons p rest ih =>
    intro i h h' hh
    rw [drain, drain]
    cases answer i with
    | all | part => exact ih (hh.emit _)
    | wouldBlock =>
      exact .ok (hh.queue fun _ => rfl)
    | error => exact .left rfl

theorem sendQueued_sameBut (hh : SameBut s h h') {env env' : Env}
    (hk : k ≠ s → env'.answer = env.answer) :
    Both (SameBut s) (sendQueued env k h) (sendQueued env' k h') := by
  obtain ⟨q, ps, o, rfl, hq, hp⟩ := hh.elim
  by_cases hks : k = s
  · intro g g' hg hg'
    obtain ⟨x, o1, rfl⟩ := sendQueued_update hg
    obtain ⟨x', o2, rfl⟩ := sendQueued_update hg'
    exact .intro (SameBut.update_agrees hq fun hne => absurd hks hne) hp
  · unfold sendQueued
    rw [hk hks]
    refine .andThen fun session _ => ?_
    dsimp only
    rw [hq k hks]
    exact drain_sameBut _ _ _ hh

end Sends

/-- The two calls get the same from outside, up to the answers to sends to the client of `s` and
to what memory held in packages for it. -/
structure SameInput (s k : SessionRef) (env env' : Env) : Prop where
  addrUdp : env'.addrUdp = env.addrUdp
  token : env'.token = env.token
  rand : env'.rand = env.rand
  others : k ≠ s → env'.answer = env.answer ∧ env'.junk = env.junk

section Commands

variable {s k : SessionRef} {h h' : Hub} {env env' : Env} {pkg pkg' : CmdPkg}

theorem SameInput.answer (he : SameInput s k env env') {p : CmdPkg} (i : ℕ) :
    k ≠ s → p = p ∧ env'.answer i = env.answer i :=
  fun hne => ⟨rfl, by rw [(he.others hne).1]⟩

theorem logIn_sameBut (hh : SameBut s h h') (he : SameInput s k env env') (nick : Nick)
    (id : UInt32) (session : Session) :
    SameBut s (logIn env nick id k session h) (logIn env' nick id k session h') := by
  have huser : registerUser env' nick id session = registerUser env nick id session := by
    unfold registerUser
    rw [he.addrUdp, he.token]
  have hlogIn : logIn env' nick id k session h' = logIn env nick id k session h' := by
    unfold logIn
    rw [huser]
  rw [hlogIn]
  exact hh.map (logIn env nick id k session) fun _ _ _ _ => rfl

theorem registerNick_sameBut (hh : SameBut s h h') (he : SameInput s k env env')
    (hd : pkg'.getData = pkg.getData) :
    Both (SameBut s) (registerNick env pkg k h) (registerNick env' pkg' k h') := by
  obtain ⟨q, ps, o, rfl, hq, hp⟩ := hh.elim
  unfold registerNick
  rw [hd]
  dsimp only
  split_ifs
  · exact .andThen fun pkgFail _ => send_sameBut hh (he.answer 0)
  · cases generate ULONG_MAX h.idUmap h.current with
    | none => exact .left rfl
    | some r =>
      obtain ⟨id, current⟩ := r
      have hh1 := hh.map (fun h => { h with current }) fun _ _ _ _ => rfl
      dsimp only
      split_ifs
      · exact .andThen fun pkgFail _ => send_sameBut hh1 (he.answer 0)
      · refine .andThen fun session _ => ?_
        refine .andThen fun pkgOk _ => ?_
        refine .bind (send_sameBut (logIn_sameBut hh1 he _ _ _) (he.answer 0)) fun g g' hg => ?_
        obtain ⟨q', ps', o', rfl, hq', hp'⟩ := hg.elim
        refine .andThen fun user _ => ?_
        rw [he.rand]
        refine .andThen fun pkgInit _ => ?_
        exact send_sameBut (hg.map (fun h => h.setUser _ _) fun _ _ _ _ => rfl) (he.answer 1)

theorem packages_agree (he : SameInput s k env env') (f : Env → Except Abort CmdPkg)
    (hf : env'.junk = env.junk → f env' = f env) :
    Both (fun p p' => k ≠ s → p' = p) (f env) (f env') := by
  intro p p' hp hp' hne
  rw [hf (he.others hne).2] at hp'
  exact Except.ok.inj (hp'.symm.trans hp)

theorem addBuddy_sameBut (hh : SameBut s h h') (he : SameInput s k env env') (u : UserRef)
    (nick : Nick) (st : AddState) :
    Both (fun r r' => r'.1 = r.1 ∧ SameBut s r.2 r'.2) (addBuddy env k u nick st h)
      (addBuddy env' k u nick st h') := by
  obtain ⟨q, ps, o, rfl, hq, hp⟩ := hh.elim
  refine .andThen fun user _ => ?_
  have hh1 := hh.map (fun h => h.setUser u (user.insertBuddy nick)) fun _ _ _ _ => rfl
  dsimp only
  split_ifs with hc hc' hc'
  · refine .andThen fun buddy _ => ?_
    have hh2 := hh1.map (fun h => { h with nickUmap := (h.nickUmap.get nick).2 })
      fun _ _ _ _ => rfl
    refine .andThen fun buddyUser _ => ?_
    refine .bind (packages_agree he (fun env => uidPkg env _) fun hj => ?_) fun p p' hp => ?_
    · unfold uidPkg
      rw [hj]
    · refine .bind (send_sameBut hh2 fun hne => ⟨hp hne, by rw [(he.others hne).1]⟩) ?_
      exact fun g g' hg => .ok ⟨rfl, hg⟩
  · exact absurd hc hc'
  · exact absurd hc' hc
  · exact .ok ⟨rfl, hh1⟩

theorem addAll_sameBut (he : SameInput s k env env') (u : UserRef) (nicks : List Nick) :
    ∀ {st : AddState} {h h' : Hub}, SameBut s h h' →
      Both (fun r r' => r'.1 = r.1 ∧ SameBut s r.2 r'.2) (addAll env k u nicks st h)
        (addAll env' k u nicks st h') := by
  induction nicks with
  | nil => exact fun hh => .ok ⟨rfl, hh⟩
  | cons nick rest ih =>
    intro st h h' hh
    refine .bind (addBuddy_sameBut hh he u nick st) fun r r' hr => ?_
    obtain ⟨st1, h1⟩ := r
    obtain ⟨st1', h1'⟩ := r'
    obtain ⟨rfl, hh1⟩ := hr
    exact ih hh1

theorem addBuddies_sameBut (hh : SameBut s h h') (he : SameInput s k env env')
    (hd : pkg'.getData = pkg.getData) :
    Both (SameBut s) (addBuddies env pkg k h) (addBuddies env' pkg' k h') := by
  have hsession : h'.session k = h.session k := by
    obtain ⟨q, ps, o, rfl, hq, hp⟩ := hh.elim
    rfl
  unfold addBuddies
  rw [hd, hsession]
  refine .andThen fun session _ => ?_
  cases session.user with
  | none => exact .ok hh
  | some u =>
    refine .bind (addAll_sameBut he u _ hh) fun r r' hr => ?_
    obtain ⟨st1, h1⟩ := r
    obtain ⟨st1', h1'⟩ := r'
    obtain ⟨rfl, hh1⟩ := hr
    dsimp only
    split_ifs
    · refine .bind (packages_agree he (fun env => idsPkg env _ _) fun hj => ?_) fun p p' hp => ?_
      · unfold idsPkg
        rw [hj]
      · exact send_sameBut hh1 fun hne => ⟨hp hne, by rw [(he.others hne).1]⟩
    · exact .ok hh1

theorem removeAll_sameBut (u : UserRef) (nicks : List Nick) : ∀ {h h' : Hub}, SameBut s h h' →
    Both (SameBut s) (removeAll u nicks h) (removeAll u nicks h') := by
  induction nicks with
  | nil => exact fun hh => .ok hh
  | cons nick rest ih =>
    intro h h' hh
    obtain ⟨q, ps, o, rfl, hq, hp⟩ := hh.elim
    refine .andThen fun user _ => ?_
    exact ih (hh.map (fun h => h.setUser u (user.eraseBuddy nick)) fun _ _ _ _ => rfl)

theorem removeBuddies_sameBut (hh : SameBut s h h') (hd : pkg'.getData = pkg.getData) :
    Both (SameBut s) (removeBuddies pkg k h) (removeBuddies pkg' k h') := by
  have hsession : h'.session k = h.session k := by
    obtain ⟨q, ps, o, rfl, hq, hp⟩ := hh.elim
    rfl
  unfold removeBuddies
  rw [hd, hsession]
  refine .andThen fun session _ => ?_
  cases session.user with
  | none => exact .ok hh
  | some u => exact removeAll_sameBut u _ hh

/-- `handle` sees the type and the data of a package. -/
theorem handle_sameBut (hh : SameBut s h h') (he : SameInput s k env env')
    (ht : pkg'.getType = pkg.getType) (hd : pkg'.getData = pkg.getData) :
    Both (SameBut s) (handle env pkg k h) (handle env' pkg' k h') := by
  unfold handle
  rw [ht]
  split_ifs
  · exact registerNick_sameBut hh he hd
  · exact addBuddies_sameBut hh he hd
  · exact removeBuddies_sameBut hh hd
  · exact .ok hh

theorem closeConnection_sameBut (hh : SameBut s h h') :
    Both (SameBut s) (closeConnection k h) (closeConnection k h') := by
  have hdelete (session : Session) {h h' : Hub} (hh : SameBut s h h') :
      SameBut s (deleteSession k session h) (deleteSession k session h') := by
    exact (hh.map (fun h => { h with
      sockets := Function.update h.sockets session.sock
        { h.sockets session.sock with deleted := true }
      sessions := Function.update h.sessions k none }) fun _ _ _ _ => rfl).queue fun _ => rfl
  obtain ⟨q, ps, o, rfl, hq, hp⟩ := hh.elim
  refine .andThen fun session _ => ?_
  cases session.user with
  | none => exact .ok (hdelete session hh)
  | some u =>
    have hquit : Both (SameBut s) (quit u h)
        (quit u { h with sendQueue := q, pendingCmdQueue := ps, out := o }) := by
      refine .andThen fun usr _ => .ok ?_
      exact hh.map (fun h => { h with
        idUmap := h.idUmap.erase usr.id
        nickUmap := h.nickUmap.erase usr.nick
        users := Function.update h.users u none }) fun _ _ _ _ => rfl
    exact .bind hquit fun g g' hg => .ok (hdelete session hg)

theorem incomingConnection_sameBut (hh : SameBut s h h') (addr : SockAddr) :
    SameBut s (incomingConnection addr h) (incomingConnection addr h') := by
  obtain ⟨q, ps, o, rfl, hq, hp⟩ := hh.elim
  exact (hh.map (fun h => { h with
    sockets := Function.update h.sockets h.nextSession { addr, deleted := false }
    sessions := Function.update h.sessions h.nextSession
      (some { sock := h.nextSession, user := none })
    nextSession := h.nextSession + 1 }) fun _ _ _ _ => rfl).queue fun _ => rfl

end Commands

/-- The acknowledgements of clients other than the one of `s`, from the `i`-th entry of the queue
on, and what `send` answers for them. -/
def ackAnswers (s : SessionRef) (flush : ℕ → SendResult) :
    List PendingCmd → ℕ → List (PendingCmd × SendResult)
  | [], _ => []
  | pcmd :: rest, i =>
    if pcmd.sock = s then ackAnswers s flush rest (i + 1)
    else (pcmd, flush i) :: ackAnswers s flush rest (i + 1)

/-- The user to whom the datagram may bring an acknowledgement. -/
def acknowledged (h : Hub) : Event → Option User
  | .datagram _ bytes => (h.idUmap.pointsTo (toint bytes 0)).bind h.users
  | _ => none

/-- The sends of the GPS data server to other clients than the one of `s` have the same answers
in both calls, also one for an acknowledgement that the call itself puts off. -/
def SameAnswers (s : SessionRef) (h h' : Hub) (env env' : Env) (ev : Event) : Prop :=
  (∀ usr ∈ acknowledged h ev, usr.sock ≠ some s → env'.answer 0 = env.answer 0 ∧
    env'.flush h'.pendingCmdQueue.length = env.flush h.pendingCmdQueue.length) ∧
  ackAnswers s env'.flush h'.pendingCmdQueue 0 = ackAnswers s env.flush h.pendingCmdQueue 0

instance (s : SessionRef) (h h' : Hub) (env env' : Env) (ev : Event) :
    Decidable (SameAnswers s h h' env env' ev) := by
  unfold SameAnswers
  infer_instance

section Datagrams

variable {s : SessionRef} {h h' : Hub} {env env' : Env}

theorem flushLoop_ackAnswers (s : SessionRef) {flush : ℕ → SendResult} (q : List PendingCmd) :
    ∀ {i : ℕ} {kept : List PendingCmd} {sent : List Output},
      flushLoop flush q i = .ok (kept, sent) →
        notFor s kept =
          ((ackAnswers s flush q i).filter fun x => x.2 = .wouldBlock).map Prod.fst := by
  induction q with
  | nil =>
    intro i kept sent he
    cases he
    rfl
  | cons pcmd rest ih =>
    intro i kept sent he
    rw [flushLoop] at he
    rw [ackAnswers]
    cases ha : flush i with
    | all | part n =>
      rw [ha] at he
      obtain ⟨⟨kept', sent'⟩, hrest, he⟩ := bind_eq_ok.mp he
      cases he
      rw [ih hrest]
      split_ifs <;> simp
    | wouldBlock =>
      rw [ha] at he
      obtain ⟨⟨kept', sent'⟩, hrest, he⟩ := bind_eq_ok.mp he
      cases he
      have hrest' := ih hrest
      unfold notFor at hrest' ⊢
      rw [List.filter_cons, hrest']
      by_cases hs : pcmd.sock = s <;> simp [hs]
    | error =>
      rw [ha] at he
      cases he

theorem sendPendingCmd_sameBut (hh : SameBut s h h')
    (ha : ackAnswers s env'.flush h'.pendingCmdQueue 0 =
      ackAnswers s env.flush h.pendingCmdQueue 0) :
    Both (SameBut s) (sendPendingCmd env h) (sendPendingCmd env' h') := by
  obtain ⟨q, ps, o, rfl, hq, hp⟩ := hh.elim
  intro g g' hg hg'
  obtain ⟨⟨kept, sent⟩, hkept, hg⟩ := bind_eq_ok.mp hg
  obtain ⟨⟨kept', sent'⟩, hkept', hg'⟩ := bind_eq_ok.mp hg'
  cases hg
  cases hg'
  refine .intro hq ?_
  rw [flushLoop_ackAnswers s _ hkept, flushLoop_ackAnswers s _ hkept', ha]

theorem processCoordinates_sameBut (hh : SameBut s h h') (theirAddr : SockAddr) (buf : List UInt8)
    (n : ℕ) : Both (SameBut s) (processCoordinates theirAddr buf n h)
      (processCoordinates theirAddr buf n h') := by
  have hid : (touint buf 0).toInt32 = toint buf 0 := rfl
  obtain ⟨q, ps, o, rfl, hq, hp⟩ := hh.elim
  cases hget : h.idUmap.get (toint buf 0) with
  | mk ptr m =>
    have hids := hh.map (fun h => { h with idUmap := m }) fun _ _ _ _ => rfl
    cases ptr with
    | none =>
      simp only [processCoordinates, hid, hget]
      exact .ok hids
    | some u =>
      cases hu : h.users u with
      | none =>
        refine .left (e := .badUser) ?_
        simp only [processCoordinates, hid, hget, Hub.deref, hu, error_bind]
      | some usr =>
        rw [processCoordinates_some hget hu, processCoordinates_some
          (h := { h with sendQueue := q, pendingCmdQueue := ps, out := o }) hget hu]
        by_cases ha : socketEquals theirAddr usr.addrUdp = true
        · rw [if_pos ha, if_pos ha]
          exact .ok (hh.map (fun h => { h.setUser u (usr.stored _) with
            idUmap := m, uqueue := h.uqueue ++ _ }) fun _ _ _ _ => rfl)
        · rw [if_neg ha, if_neg ha]
          exact .ok hids

theorem sendUdpInitAck_own {u : UserRef} {status : UInt8} {usr : User} (hu : h.users u = some usr)
    (hs : usr.sock = some s) (he : sendUdpInitAck env u status h = .ok h') : SameBut s h h' := by
  obtain ⟨w, sock, hw, hsock, hack⟩ := sendUdpInitAck_acked he
  cases hu.symm.trans hw
  cases hs.symm.trans hsock
  cases hack with
  | sent => exact .intro (fun _ _ => rfl) rfl
  | putOff ack => exact .intro (fun _ _ => rfl) (by simp [notFor])

theorem sendUdpInitAck_sameBut (hh : SameBut s h h') (u : UserRef) (status : UInt8)
    (ha : ∀ usr ∈ h.users u, usr.sock ≠ some s → env'.answer 0 = env.answer 0) :
    Both (SameBut s) (sendUdpInitAck env u status h) (sendUdpInitAck env' u status h') := by
  obtain ⟨q, ps, o, rfl, hq, hp⟩ := hh.elim
  cases hu : h.users u with
  | none =>
    intro g g' hg
    obtain ⟨usr, sock, hu', -⟩ := sendUdpInitAck_acked hg
    cases hu.symm.trans hu'
  | some usr =>
    by_cases hs : usr.sock = some s
    · intro g g' hg hg'
      exact (sendUdpInitAck_own hu hs hg).symm.trans (hh.trans (sendUdpInitAck_own hu hs hg'))
    · unfold sendUdpInitAck
      rw [ha usr hu hs]
      refine .andThen fun ack _ => .andThen fun _ _ => .andThen fun sock _ => ?_
      cases env.answer 0 with
      | all | part => exact .ok (.intro hq hp)
      | wouldBlock =>
        refine .ok (.intro hq ?_)
        unfold notFor at hp ⊢
        rw [List.filter_append, List.filter_append, hp]
      | error => exact .left rfl

theorem initAddrUdp_sameBut (hh : SameBut s h h') (theirAddr : SockAddr) (buf : List UInt8)
    (ha : ∀ u ∈ h.idUmap.pointsTo (toint buf 0), ∀ usr ∈ h.users u, usr.sock ≠ some s →
      env'.answer 0 = env.answer 0) :
    Both (SameBut s) (initAddrUdp env theirAddr buf h) (initAddrUdp env' theirAddr buf h') := by
  have hids := hh.map (fun h => h.lookUp (toint buf 0)) fun _ _ _ _ => rfl
  have hpoints := SyncHashMap.pointsTo_of_get h.idUmap (toint buf 0)
  obtain ⟨q, ps, o, rfl, hq, hp⟩ := hh.elim
  unfold initAddrUdp
  dsimp only
  cases hptr : (h.idUmap.get (toint buf 0)).1 with
  | none => exact .ok hids
  | some u =>
    rw [hptr] at hpoints
    refine .andThen fun usr hu => ?_
    have hu : h.users u = some usr := Hub.deref_eq_ok.mp hu
    have hack := ha u hpoints
    split_ifs
    · exact sendUdpInitAck_sameBut hids u 0 hack
    · refine .andThen fun sock _ => ?_
      split_ifs
      · refine sendUdpInitAck_sameBut
          (hids.map (fun h => h.setUser u _) fun _ _ _ _ => rfl) u 1 fun usr' hu' hs => ?_
        change Function.update h.users u (some (usr.setAddrUdp theirAddr)) u = some usr' at hu'
        rw [Function.update_self] at hu'
        cases hu'
        exact hack usr hu hs
      · exact sendUdpInitAck_sameBut hids u 0 hack

theorem process_sameBut (hh : SameBut s h h') (theirAddr : SockAddr) (bytes : List UInt8)
    (ha : ∀ u ∈ h.idUmap.pointsTo (toint bytes 0), ∀ usr ∈ h.users u, usr.sock ≠ some s →
      env'.answer 0 = env.answer 0) :
    Both (SameBut s) (process env theirAddr bytes h) (process env' theirAddr bytes h') := by
  unfold process
  dsimp only
  split_ifs with hc hi
  · exact processCoordinates_sameBut hh theirAddr _ _
  · have hbuf : bytes.take BUF_LEN = bytes := by
      rw [List.length_take] at hi
      apply List.take_of_length_le
      unfold BUF_LEN at hi ⊢
      omega
    rw [hbuf]
    exact initAddrUdp_sameBut hh theirAddr _ ha
  · exact .ok hh

theorem process_pending {theirAddr : SockAddr} {bytes : List UInt8}
    (he : process env theirAddr bytes h = .ok h') : h'.pendingCmdQueue = h.pendingCmdQueue ∨
      ∃ usr pcmd, acknowledged h (.datagram theirAddr bytes) = some usr ∧
        usr.sock = some pcmd.sock ∧ h'.pendingCmdQueue = h.pendingCmdQueue ++ [pcmd] := by
  have hp := process_processed he
  have hfits (hi : (bytes.take BUF_LEN).length = 8) : bytes.take BUF_LEN = bytes := by
    rw [List.length_take] at hi
    apply List.take_of_length_le
    unfold BUF_LEN at hi ⊢
    omega
  have hack {u : UserRef} {usr : User} (hi : (bytes.take BUF_LEN).length = 8)
      (hid : h.idUmap.pointsTo (toint (bytes.take BUF_LEN) 0) = some u)
      (hu : h.users u = some usr) : acknowledged h (.datagram theirAddr bytes) = some usr := by
    rw [hfits hi] at hid
    simp only [acknowledged, hid, Option.bind_some, hu]
  cases hp with
  | ignored | refused | stored | unknown => exact Or.inl rfl
  | denied hi u usr sock hid hu hsock ha | addressed hi u usr sock hid hu hsock _ ha =>
    cases ha with
    | sent => exact Or.inl rfl
    | putOff ack => exact Or.inr ⟨usr, ⟨ack, sock⟩, hack hi hid hu, hsock, rfl⟩

theorem ackAnswers_append (s : SessionRef) (flush : ℕ → SendResult) (x : PendingCmd)
    (q : List PendingCmd) : ∀ i, ackAnswers s flush (q ++ [x]) i =
      ackAnswers s flush q i ++ (if x.sock = s then [] else [(x, flush (i + q.length))]) := by
  induction q with
  | nil =>
    intro i
    simp only [List.nil_append, ackAnswers, List.length_nil, Nat.add_zero]
  | cons pcmd rest ih =>
    intro i
    have hi : i + 1 + rest.length = i + (pcmd :: rest).length := by
      rw [List.length_cons]
      omega
    rw [List.cons_append, ackAnswers, ackAnswers, ih, hi]
    split_ifs <;> rfl

theorem SameAnswers.processed {theirAddr : SockAddr} {bytes : List UInt8} {g g' : Hub}
    (ha : SameAnswers s h h' env env' (.datagram theirAddr bytes)) (hh : SameBut s h h')
    (hg : SameBut s g g') (he : process env theirAddr bytes h = .ok g)
    (he' : process env' theirAddr bytes h' = .ok g') :
    ackAnswers s env'.flush g'.pendingCmdQueue 0 = ackAnswers s env.flush g.pendingCmdQueue 0 := by
  obtain ⟨hack, hflush⟩ := ha
  have hn : notFor s h'.pendingCmdQueue = notFor s h.pendingCmdQueue :=
    congrArg Hub.pendingCmdQueue hh
  have hn' : notFor s g'.pendingCmdQueue = notFor s g.pendingCmdQueue :=
    congrArg Hub.pendingCmdQueue hg
  have hlast (q : List PendingCmd) (x : PendingCmd) :
      notFor s (q ++ [x]) = notFor s q ++ (if x.sock = s then [] else [x]) := by
    unfold notFor
    rw [List.filter_append]
    by_cases hx : x.sock = s <;> simp [hx]
  have hown {x : PendingCmd} (hx : (if x.sock = s then [] else [x]) = []) : x.sock = s := by
    by_contra hne
    rw [if_neg hne] at hx
    cases hx
  rcases process_pending he with hq | ⟨usr, x, hacked, hsock, hq⟩ <;>
    rcases process_pending he' with hq' | ⟨usr', x', -, -, hq'⟩ <;> rw [hq, hq'] at hn' ⊢
  · exact hflush
  · rw [hlast, hn, List.append_right_eq_self] at hn'
    rw [ackAnswers_append, if_pos (hown hn'), List.append_nil, hflush]
  · rw [hlast, hn, List.self_eq_append_right] at hn'
    rw [ackAnswers_append, if_pos (hown hn'), List.append_nil, hflush]
  · rw [hlast, hlast, hn, List.append_cancel_left_eq] at hn'
    rw [ackAnswers_append, ackAnswers_append, hflush]
    by_cases hx : x.sock = s
    · rw [if_pos hx] at hn'
      rw [if_pos hx, if_pos (hown hn')]
    · have hx' : x'.sock ≠ s := fun hx' => by
        rw [if_pos hx'] at hn'
        exact hx (hown hn'.symm)
      rw [if_neg hx, if_neg hx'] at hn'
      cases hn'
      have hne : usr.sock ≠ some s := by
        rw [hsock]
        exact fun h => hx (Option.some.inj h)
      rw [if_neg hx, if_neg hx, Nat.zero_add, Nat.zero_add, (hack usr hacked hne).2]

theorem incomingData_sameBut (hh : SameBut s h h') (theirAddr : SockAddr) (bytes : List UInt8)
    (ha : SameAnswers s h h' env env' (.datagram theirAddr bytes)) :
    Both (SameBut s) (incomingData env theirAddr bytes h)
      (incomingData env' theirAddr bytes h') := by
  intro g g' hg hg'
  obtain ⟨h1, h1e, hg⟩ := bind_eq_ok.mp hg
  obtain ⟨h1', h1e', hg'⟩ := bind_eq_ok.mp hg'
  have hh1 : SameBut s h1 h1' := by
    refine process_sameBut hh theirAddr bytes (fun u hu usr husr hs => ?_) h1 h1' h1e h1e'
    refine (ha.1 usr ?_ hs).1
    rw [acknowledged, Option.mem_def.mp hu]
    exact husr
  exact sendPendingCmd_sameBut hh1 (ha.processed hh hh1 h1e h1e') g g' hg hg'

end Datagrams

section Turns

variable {s : SessionRef} {h h' : Hub} {env : Env}

theorem sendAll_sameBut (u : UserRef) (coords : Coordinates) (nicks : List Nick) :
    ∀ {k : ℕ} {h h' : Hub}, SameBut s h h' →
      Both (SameBut s) (sendAll env u coords nicks k h) (sendAll env u coords nicks k h') := by
  induction nicks with
  | nil => exact fun hh => .ok hh
  | cons nick rest ih =>
    intro k h h' hh
    have hget := hh.map (fun h => { h with nickUmap := (h.nickUmap.get nick).2 })
      fun _ _ _ _ => rfl
    obtain ⟨q, ps, o, rfl, hq, hp⟩ := hh.elim
    rw [sendAll, sendAll]
    by_cases hc : 0 < h.nickUmap.count nick
    · rw [if_pos hc, if_pos hc]
      refine .andThen fun buddy _ => .andThen fun buddyUser _ => ?_
      by_cases hr : buddyUser.udpReady = true
      · rw [if_neg (not_not.mpr hr), if_neg (not_not.mpr hr)]
        refine .andThen fun usr _ => ?_
        split_ifs
        · exact ih (hget.emit _)
        · exact .left rfl
      · rw [if_pos hr, if_pos hr]
        exact ih hget
    · rw [if_neg hc, if_neg hc]
      exact ih hh

theorem turn_sameBut (hh : SameBut s h h') (id : Int32) :
    Both (SameBut s) (turn env id h) (turn env id h') := by
  have hids := hh.map (fun h => h.lookUp id) fun _ _ _ _ => rfl
  obtain ⟨q, ps, o, rfl, hq, hp⟩ := hh.elim
  unfold turn
  dsimp only
  cases (h.idUmap.get id).1 with
  | none => exact .ok hids
  | some u =>
    refine .andThen fun usr _ => ?_
    cases usr.ready with
    | none => exact .ok hids
    | some c =>
      have hbroadcast : Both (SameBut s) (broadcast env u (usr.slot c) (h.lookUp id))
          (broadcast env u (usr.slot c)
            ({ h with sendQueue := q, pendingCmdQueue := ps, out := o }.lookUp id)) :=
        .andThen fun usr _ => sendAll_sameBut u _ _ hids
      refine .bind hbroadcast fun g g' hg => ?_
      obtain ⟨q', ps', o', rfl, -, -⟩ := hg.elim
      exact .andThen fun usr _ => .ok (hg.map (fun h => h.setUser u _) fun _ _ _ _ => rfl)

end Turns

/-- The handlers of the GPS data server. -/
theorem gps_sameBut {s : SessionRef} {h h' : Hub} {env env' : Env} (hh : SameBut s h h')
    {ev : Event} (hev : ofLoop ev = true) (ha : SameAnswers s h h' env env' ev) :
    Both (SameBut s) (h.dispatch env ev) (h'.dispatch env' ev) := by
  cases ev with
  | datagram theirAddr bytes => exact incomingData_sameBut hh theirAddr bytes ha
  | timeout => exact sendPendingCmd_sameBut hh ha.2
  | _ => cases hev

theorem put_sameBut {s : SessionRef} {h h' : Hub} {env : Env} (hh : SameBut s h h') (id : Int32) :
    Both (SameBut s) (h.dispatch env (.put id)) (h'.dispatch env (.put id)) :=
  .ok (hh.map (fun h => { h with uqueue := h.uqueue ++ [id] }) fun _ _ _ _ => rfl)

theorem pull_sameBut {s : SessionRef} {h h' : Hub} {env : Env} (hh : SameBut s h h') :
    Both (SameBut s) (h.dispatch env .pull) (h'.dispatch env .pull) := by
  have hqueue : h'.uqueue = h.uqueue := by
    obtain ⟨q, ps, o, rfl, -, -⟩ := hh.elim
    rfl
  unfold Hub.dispatch
  rw [hqueue]
  cases h.uqueue with
  | nil => exact .left rfl
  | cons id rest =>
    have hrest := hh.map (fun h => { h with uqueue := rest }) fun _ _ _ _ => rfl
    exact turn_sameBut hrest id

end Gpshub
