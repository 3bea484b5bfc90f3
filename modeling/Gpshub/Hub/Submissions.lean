import Gpshub.Hub.Carried
import Gpshub.Delivery.Hub

/-! What each step submits for one client, and what it does to the users of this client. -/
namespace Gpshub
open CommandServer CommandHandler GpsDataServer CoordsBroadcastThread UserIdGenerator Lib.Machine

/-- What a client and the server have to agree on. -/
structure Account where
  id : Int32
  nick : Nick
  sock : Option SocketRef
  token : Int32
  addrUdp : SockAddr
  udpReady : Bool

def User.account (u : User) : Account :=
  ⟨u.id, u.nick, u.sock, u.token, u.addrUdp, u.udpReady⟩

/-- The session and the accounts of its users are the same in `h` and `h'`. -/
structure Keeps (k : SessionRef) (h h' : Hub) : Prop where
  session : h'.sessions k = h.sessions k
  user : ∀ u a, a.sock = some k →
    ((h'.users u).map User.account = some a ↔ (h.users u).map User.account = some a)

/-- A package with the own id and nick, or the list of those that are registered. -/
def Lists (env : Env) (pkg : CmdPkg) (k : SessionRef) (h : Hub) (u : UserRef) (p : CmdPkg) : Prop :=
  (∃ usr usr', h.users u = some usr ∧ usr'.account = usr.account ∧ uidPkg env usr' = .ok p) ∨
    ∃ st h1, addAll env k u (addFields pkg.getData) ⟨[], 0, 0⟩ h = .ok (st, h1) ∧
      idsPkg env st.idsMap st.idsPkgLen = .ok p

/-- The session `k` asks for a nick. -/
def Event.Asks (k : SessionRef) : Event → Prop
  | .command s pkg => s = k ∧ pkg.getType = CmdPkg.REGISTER_NICK
  | _ => False

/-- What a step submits for the client of the session `k`, and why. -/
inductive Serves (h : Hub) (call : Event × Env) (k : SessionRef) (h' : Hub) :
    Multiset CmdPkg → Prop
  | nothing (hev : ¬call.1.Asks k) (hk : Keeps k h h') : Serves h call k h' 0
  | refused (pkg : CmdPkg) (status : UInt8) (p : CmdPkg) (hev : call.1 = .command k pkg)
      (hreg : pkg.getType = CmdPkg.REGISTER_NICK) (hnot : ¬Registers h pkg) (hs : status ≠ 1)
      (hp : registerFail call.2 status = .ok p) (hk : Keeps k h h') : Serves h call k h' {p}
  | welcomed (pkg : CmdPkg) (session : Session) (id : UInt32) (pkgOk pkgInit : CmdPkg)
      (q : SessionRef → List CmdPkg) (o : List Output) (hev : call.1 = .command k pkg)
      (hreg : pkg.getType = CmdPkg.REGISTER_NICK) (hs : h.sessions k = some session)
      (hok : registerOk call.2 id.toInt32 = .ok pkgOk)
      (hinit : initUdp call.2 call.2.rand = .ok pkgInit)
      (hh : h' = { registered call.2 pkg.getData id k session h with sendQueue := q, out := o }) :
    Serves h call k h' ({pkgOk} + {pkgInit})
  | listed (pkg : CmdPkg) (session : Session) (u : UserRef) (ps : Multiset CmdPkg)
      (hev : call.1 = .command k pkg) (hadd : pkg.getType = CmdPkg.ADD_BUDDIES)
      (hs : h.sessions k = some session) (hu : session.user = some u)
      (hps : ∀ p ∈ ps, Lists call.2 pkg k h u p) (hk : Keeps k h h') : Serves h call k h' ps
  | denied (u : UserRef) (usr : User) (p : CmdPkg) (hu : h.users u = some usr)
      (hsock : usr.sock = some k) (hp : udpInitAck call.2 0 = .ok p) (hk : Keeps k h h') :
    Serves h call k h' {p}
  | addressed (theirAddr : SockAddr) (bytes : List UInt8) (u : UserRef) (usr : User) (p : CmdPkg)
      (hev : call.1 = .datagram theirAddr bytes) (hlen : (bytes.take BUF_LEN).length = 8)
      (hid : h.idUmap.pointsTo (toint (bytes.take BUF_LEN) 0) = some u)
      (hu : h.users u = some usr) (hsock : usr.sock = some k)
      (htoken : toint (bytes.take BUF_LEN) 4 = usr.token)
      (hp : udpInitAck call.2 1 = .ok p) (hses : h'.sessions = h.sessions)
      (husers : h'.users = Function.update h.users u (some (usr.setAddrUdp theirAddr))) :
    Serves h call k h' {p}

namespace Keeps

variable {k s : SessionRef} {h h' : Hub}

theorem of_accounts (hs : h'.sessions k = h.sessions k)
    (hu : ∀ u, (h'.users u).map User.account = (h.users u).map User.account) : Keeps k h h' :=
  ⟨hs, fun u a _ => by rw [hu]⟩

theorem of_same (hs : h'.sessions = h.sessions) (hu : h'.users = h.users) : Keeps k h h' :=
  .of_accounts (by rw [hs]) fun u => by rw [hu]

theorem of_update {u : UserRef} {usr usr' : User} (hs : h'.sessions k = h.sessions k)
    (hu : h.users u = some usr) (ha : usr'.account = usr.account)
    (husers : h'.users = Function.update h.users u (some usr')) : Keeps k h h' := by
  apply of_accounts hs
  intro v
  rw [husers]
  by_cases hv : v = u
  · subst hv
    rw [Function.update_self, hu, Option.map_some, Option.map_some, ha]
  · rw [Function.update_of_ne hv]

theorem of_foreign {u : UserRef} {usr usr' : User} (hs : h'.sessions k = h.sessions k)
    (hu : h.users u = some usr) (hsock : usr.sock ≠ some k) (hsame : usr'.sock = usr.sock)
    (husers : h'.users = Function.update h.users u (some usr')) : Keeps k h h' := by
  refine ⟨hs, fun v a ha => ?_⟩
  rw [husers]
  by_cases hv : v = u
  · subst hv
    rw [Function.update_self, hu, Option.map_some, Option.map_some]
    apply iff_of_false
    · intro he
      cases he
      exact hsock (hsame ▸ ha)
    · intro he
      cases he
      exact hsock ha
  · rw [Function.update_of_ne hv]

theorem trans {a b c : Hub} (hab : Keeps k a b) (hbc : Keeps k b c) : Keeps k a c where
  session := hbc.session.trans hab.session
  user u x hx := (hbc.user u x hx).trans (hab.user u x hx)

theorem refl (h : Hub) : Keeps k h h := of_same rfl rfl

theorem of_others (hk : k ≠ s) (ho : Others s h h') : Keeps k h h' := by
  refine ⟨ho.sessions hk, fun u a ha => ?_⟩
  rw [Option.map_eq_some_iff, Option.map_eq_some_iff]
  refine exists_congr fun usr => ?_
  constructor
  · rintro ⟨hu, rfl⟩
    have hsock : usr.sock ≠ some s := fun he => hk (Option.some.inj (ha.symm.trans he))
    exact ⟨(ho.users hsock).mp hu, rfl⟩
  · rintro ⟨hu, rfl⟩
    have hsock : usr.sock ≠ some s := fun he => hk (Option.some.inj (ha.symm.trans he))
    exact ⟨(ho.users hsock).mpr hu, rfl⟩

theorem edit {user : Option UserRef} (he : Edit s user h h') : Keeps k h h' := by
  cases he with
  | send pkg answer he =>
    obtain ⟨q, o, rfl⟩ := send_eq_ok he
    exact of_same rfl rfl
  | buddies u usr usr' hu husr hb =>
    obtain ⟨b, rfl, -⟩ := hb
    have hacc : { usr with buddies := b }.account = usr.account := rfl
    exact of_update rfl husr hacc rfl

theorem edits {user : Option UserRef} (he : Edits s user h h') : Keeps k h h' :=
  effects_rule (R := Keeps k) .refl .trans edit he

end Keeps

section Commands

variable {env : Env} {h h' : Hub} {k : SessionRef}

theorem submits_setUser (h : Hub) (u : UserRef) (usr : User) : Submits k h (h.setUser u usr) 0 :=
  .of_same rfl rfl rfl

theorem submits_logIn (env : Env) (h : Hub) (nick : Nick) (id : UInt32) (session : Session) :
    Submits k h (logIn env nick id k session { h with current := id }) 0 :=
  .of_same rfl rfl rfl

theorem registerNick_serves {pkg : CmdPkg} (hown : Owns k h)
    (hreg : pkg.getType = CmdPkg.REGISTER_NICK) (he : registerNick env pkg k h = .ok h') :
    ∃ ps, Submits k h h' ps ∧ Serves h (.command k pkg, env) k h' ps := by
  rcases registerNick_eq_ok he with ⟨hnot, q, o, hh⟩ |
      ⟨hin, session, id, q, o, hg, hs, -, hz, -, hh⟩
  · have hkeep : Keeps k h h' := by
      rw [hh]
      exact .of_same rfl rfl
    unfold registerNick at he
    dsimp only at he
    split_ifs at he with htaken
    · obtain ⟨p, hp, he⟩ := bind_eq_ok.mp he
      exact ⟨{p}, send_submits hown he, .refused pkg 0 p rfl hreg hnot (by decide) hp hkeep⟩
    · have hfree : h.nickUmap.count pkg.getData = 0 := Nat.eq_zero_of_not_pos htaken
      cases hg : generate ULONG_MAX h.idUmap h.current with
      | none =>
        rw [hg] at he
        cases he
      | some r =>
        obtain ⟨id, next⟩ := r
        rw [hg] at he
        dsimp only at he
        split_ifs at he with hz
        · obtain ⟨p, hp, he⟩ := bind_eq_ok.mp he
          have hsub : Submits k h { h with current := next } 0 := .of_same rfl rfl rfl
          have hsend := send_submits (h := { h with current := next })
            ⟨hown.sock, hown.user, hown.fresh⟩ he
          refine ⟨{p}, ?_, .refused pkg 2 p rfl hreg hnot (by decide) hp hkeep⟩
          have hboth := hsub.trans hsend
          rwa [zero_add] at hboth
        · exact absurd ⟨hfree, id, next, hg, hz⟩ hnot
  · have hfree : ¬0 < h.nickUmap.count pkg.getData := by
      rw [hin.1]
      exact lt_irrefl 0
    unfold registerNick at he
    rw [hg] at he
    dsimp only at he
    rw [if_neg hfree, if_neg hz] at he
    obtain ⟨session', hs', he⟩ := bind_eq_ok.mp he
    cases hs.symm.trans (Hub.session_eq_ok.mp hs')
    obtain ⟨pOk, hpOk, he⟩ := bind_eq_ok.mp he
    obtain ⟨h1, h1e, he⟩ := bind_eq_ok.mp he
    obtain ⟨user, hu, he⟩ := bind_eq_ok.mp he
    obtain ⟨pInit, hpInit, he⟩ := bind_eq_ok.mp he
    have hown0 : Owns k { h with current := id } := ⟨hown.sock, hown.user, hown.fresh⟩
    have hownIn := hown0.logIn env pkg.getData id hs
    have hsend := send_submits hownIn h1e
    have hown1 := (act_others hownIn (.send pOk _ h1e)).2
    have hsock : user.sock = some k := by
      obtain ⟨q1, o1, rfl⟩ := send_eq_ok h1e
      have husr : some (registerUser env pkg.getData id session) = some user := by
        simpa [logIn, Hub.setUser, Hub.setSession] using Hub.deref_eq_ok.mp hu
      cases husr
      exact congrArg some (hown.sock hs)
    have hset := @Owns.setUser k h1 hown1 h.nextUser user (user.setToken env.rand)
      (Hub.deref_eq_ok.mp hu) hsock
    have hall := (((submits_logIn env h pkg.getData id session).trans hsend).trans
      (submits_setUser ..)).trans (send_submits hset he)
    rw [zero_add, add_zero] at hall
    exact ⟨_, hall, .welcomed pkg session id pOk pInit q o rfl hreg hs hpOk hpInit hh⟩

theorem addBuddy_serves {u : UserRef} {usr : User} {nick : Nick} {st st' : AddState}
    (hown : Owns k h) (husr : h.users u = some usr) (hsock : usr.sock = some k)
    (he : addBuddy env k u nick st h = .ok (st', h')) : Owns k h' ∧
      (∃ usr1, h'.users u = some usr1 ∧ usr1.account = usr.account) ∧
      ∃ ps, Submits k h h' ps ∧ ∀ p ∈ ps, ∃ usr', usr'.account = usr.account ∧
        uidPkg env usr' = .ok p := by
  obtain ⟨user, hu, he⟩ := bind_eq_ok.mp he
  cases husr.symm.trans (Hub.deref_eq_ok.mp hu)
  have hset := @Owns.setUser k h hown u usr (usr.insertBuddy nick) husr hsock
  have hself : (h.setUser u (usr.insertBuddy nick)).users u = some (usr.insertBuddy nick) :=
    Function.update_self ..
  dsimp only at he
  split_ifs at he with hc
  · rw [get_of_count hc] at he
    obtain ⟨buddy, -, he⟩ := bind_eq_ok.mp he
    obtain ⟨buddyUser, -, he⟩ := bind_eq_ok.mp he
    obtain ⟨p, hp, he⟩ := bind_eq_ok.mp he
    obtain ⟨h1, hsend, he⟩ := bind_eq_ok.mp he
    cases he
    have hsub := (submits_setUser h u (usr.insertBuddy nick)).trans (send_submits hset hsend)
    rw [zero_add] at hsub
    refine ⟨(act_others hset (.send p _ hsend)).2, ?_, {p}, hsub, fun p' hp' => ?_⟩
    · obtain ⟨q, o, rfl⟩ := send_eq_ok hsend
      exact ⟨_, hself, rfl⟩
    · rw [Multiset.mem_singleton] at hp'
      subst hp'
      exact ⟨usr.insertBuddy nick, rfl, hp⟩
  · cases he
    refine ⟨hset, ⟨_, hself, rfl⟩, 0, submits_setUser .., fun p hp => ?_⟩
    exact absurd hp (Multiset.notMem_zero p)

theorem addAll_serves {u : UserRef} (nicks : List Nick) : ∀ {usr : User} {st st' : AddState}
    {h h' : Hub}, Owns k h → h.users u = some usr → usr.sock = some k →
      addAll env k u nicks st h = .ok (st', h') →
      Owns k h' ∧ ∃ ps, Submits k h h' ps ∧ ∀ p ∈ ps, ∃ usr', usr'.account = usr.account ∧
        uidPkg env usr' = .ok p := by
  induction nicks with
  | nil =>
    intro usr st st' h h' hown husr hsock he
    cases he
    exact ⟨hown, 0, .refl h, fun p hp => absurd hp (Multiset.notMem_zero p)⟩
  | cons nick rest ih =>
    intro usr st st' h h' hown husr hsock he
    obtain ⟨⟨st1, h1⟩, h1e, he⟩ := bind_eq_ok.mp he
    obtain ⟨hown1, ⟨usr1, husr1, hacc⟩, ps, hsub, hps⟩ := addBuddy_serves hown husr hsock h1e
    have hsock1 : usr1.sock = some k := (congrArg Account.sock hacc).trans hsock
    obtain ⟨hown', qs, hsub', hqs⟩ := ih hown1 husr1 hsock1 he
    refine ⟨hown', ps + qs, hsub.trans hsub', fun p hp => ?_⟩
    rcases Multiset.mem_add.mp hp with hp | hp
    · exact hps p hp
    · obtain ⟨usr', hacc', hpkg⟩ := hqs p hp
      exact ⟨usr', hacc'.trans hacc, hpkg⟩

theorem addBuddies_serves {pkg : CmdPkg} (hwf : WellFormed h)
    (hadd : pkg.getType = CmdPkg.ADD_BUDDIES) (he : addBuddies env pkg k h = .ok h') :
    ∃ ps, Submits k h h' ps ∧ Serves h (.command k pkg, env) k h' ps := by
  obtain ⟨x, -, hed⟩ := addBuddies_edits he
  have hkeep : Keeps k h h' := .edits hed
  obtain ⟨session, hs, he⟩ := bind_eq_ok.mp he
  have hs : h.sessions k = some session := Hub.session_eq_ok.mp hs
  cases hu : session.user with
  | none =>
    rw [hu] at he
    cases he
    have hno : pkg.getType ≠ CmdPkg.REGISTER_NICK := by
      rw [hadd]
      decide
    exact ⟨0, .refl h, .nothing (fun ha => hno ha.2) hkeep⟩
  | some u =>
    rw [hu] at he
    obtain ⟨⟨st, h1⟩, h1e, he⟩ := bind_eq_ok.mp he
    obtain ⟨usr, husr, hsock, -⟩ := hwf.login hs hu
    obtain ⟨hown1, ps, hsub, hps⟩ := addAll_serves _ (.of_wellFormed hwf k) husr hsock h1e
    have hlists (p : CmdPkg) (hp : p ∈ ps) : Lists env pkg k h u p := by
      obtain ⟨usr', hacc, hpkg⟩ := hps p hp
      exact Or.inl ⟨usr, usr', husr, hacc, hpkg⟩
    dsimp only at he
    split_ifs at he
    · obtain ⟨p, hp, he⟩ := bind_eq_ok.mp he
      refine ⟨ps + {p}, hsub.trans (send_submits hown1 he), ?_⟩
      refine .listed pkg session u _ rfl hadd hs hu (fun p' hp' => ?_) hkeep
      rcases Multiset.mem_add.mp hp' with hp' | hp'
      · exact hlists p' hp'
      · rw [Multiset.mem_singleton] at hp'
        subst hp'
        exact Or.inr ⟨st, h1, h1e, hp⟩
    · cases he
      exact ⟨ps, hsub, .listed pkg session u ps rfl hadd hs hu hlists hkeep⟩

theorem removeAll_submits {u : UserRef} (nicks : List Nick) : ∀ {h h' : Hub},
    removeAll u nicks h = .ok h' → Submits k h h' 0 := by
  induction nicks with
  | nil =>
    intro h h' he
    cases he
    exact .refl h
  | cons nick rest ih =>
    intro h h' he
    obtain ⟨user, -, he⟩ := bind_eq_ok.mp he
    have hboth := (submits_setUser h u (user.eraseBuddy nick)).trans (ih he)
    rwa [zero_add] at hboth

theorem handle_serves {pkg : CmdPkg} (hwf : WellFormed h) (he : handle env pkg k h = .ok h') :
    ∃ ps, Submits k h h' ps ∧ Serves h (.command k pkg, env) k h' ps := by
  unfold handle at he
  split_ifs at he with hreg hadd hrem
  · exact registerNick_serves (.of_wellFormed hwf k) hreg he
  · exact addBuddies_serves hwf hadd he
  · obtain ⟨session, hs, hed⟩ := removeBuddies_edits he
    obtain ⟨x, hx, he⟩ := bind_eq_ok.mp he
    have hsub : Submits k h h' 0 := by
      cases hu : x.user with
      | none =>
        rw [hu] at he
        cases he
        exact .refl h
      | some u =>
        rw [hu] at he
        exact removeAll_submits _ he
    exact ⟨0, hsub, .nothing (fun ha => hreg ha.2) (.edits hed)⟩
  · cases he
    exact ⟨0, .refl h, .nothing (fun ha => hreg ha.2) (.refl h)⟩

end Commands

section Datagrams

variable {env : Env} {h h' : Hub} {u : UserRef} {theirAddr : SockAddr} {buf : List UInt8}

/-- The acknowledgement is for the socket of the user, and for no other. -/
theorem sendUdpInitAck_submits {status : UInt8} {usr : User} (hu : h.users u = some usr)
    (he : sendUdpInitAck env u status h = .ok h') :
    h'.users = h.users ∧ h'.sessions = h.sessions ∧
      ∃ sock ack, usr.sock = some sock ∧ udpInitAck env status = .ok ack ∧
        Submits sock h h' {ack} ∧ ∀ k, k ≠ sock → Submits k h h' 0 := by
  obtain ⟨ack, hack, he⟩ := bind_eq_ok.mp he
  obtain ⟨usr', hu', he⟩ := bind_eq_ok.mp he
  cases hu.symm.trans (Hub.deref_eq_ok.mp hu')
  obtain ⟨sock, hsock, he⟩ := bind_eq_ok.mp he
  have hsock : usr.sock = some sock := notNull_eq_ok.mp hsock
  cases ha : env.answer 0 with
  | all =>
    rw [ha] at he
    cases he
    exact ⟨rfl, rfl, sock, ack, hsock, hack, emit_submits .., fun k hk => emit_other hk ..⟩
  | part n =>
    rw [ha] at he
    cases he
    exact ⟨rfl, rfl, sock, ack, hsock, hack, emit_submits .., fun k hk => emit_other hk ..⟩
  | wouldBlock =>
    rw [ha] at he
    cases he
    exact ⟨rfl, rfl, sock, ack, hsock, hack, putOff_submits .., fun k hk => putOff_other hk ..⟩
  | error =>
    rw [ha] at he
    cases he

/-- What an init datagram does: only one with the token of the user sets its address. -/
inductive Answered (env : Env) (theirAddr : SockAddr) (buf : List UInt8) (h h' : Hub) : Prop
  | ignored (hid : h.idUmap.pointsTo (toint buf 0) = none) (hu : h'.users = h.users)
      (hs : ∀ k, Submits k h h' 0)
  | answered (u : UserRef) (usr : User) (sock : SocketRef) (status : UInt8) (ack : CmdPkg)
      (hid : h.idUmap.pointsTo (toint buf 0) = some u) (hu : h.users u = some usr)
      (hsock : usr.sock = some sock) (hack : udpInitAck env status = .ok ack)
      (hs : Submits sock h h' {ack}) (hother : ∀ k, k ≠ sock → Submits k h h' 0)
      (husers : status = 0 ∧ h'.users = h.users ∨
        status = 1 ∧ toint buf 4 = usr.token ∧
          h'.users = Function.update h.users u (some (usr.setAddrUdp theirAddr)))

theorem submits_lookUp (h : Hub) (id : Int32) (k : SessionRef) : Submits k h (h.lookUp id) 0 :=
  .of_same rfl rfl rfl

theorem initAddrUdp_answered (he : initAddrUdp env theirAddr buf h = .ok h') :
    h'.sessions = h.sessions ∧ Answered env theirAddr buf h h' := by
  have hid := SyncHashMap.pointsTo_of_get h.idUmap (toint buf 0)
  unfold initAddrUdp at he
  dsimp only at he
  cases hp : h.idUmap.pointsTo (toint buf 0) with
  | none =>
    rw [← hid, hp] at he
    cases he
    exact ⟨rfl, .ignored hp rfl (submits_lookUp h _)⟩
  | some u =>
    rw [← hid, hp] at he
    obtain ⟨usr, hu, he⟩ := bind_eq_ok.mp he
    have hu : h.users u = some usr := Hub.deref_eq_ok.mp hu
    -- a refusal goes to the socket of the user that is named
    have hdeny (he : sendUdpInitAck env u 0 (h.lookUp (toint buf 0)) = .ok h') :
        h'.sessions = h.sessions ∧ Answered env theirAddr buf h h' := by
      obtain ⟨husers, hses, sock, ack, hsock, hack, hs, hother⟩ :=
        sendUdpInitAck_submits (h := h.lookUp (toint buf 0)) hu he
      have hself := (submits_lookUp h (toint buf 0) sock).trans hs
      have hrest (k : SocketRef) (hk : k ≠ sock) : Submits k h h' (0 + 0) :=
        (submits_lookUp h (toint buf 0) k).trans (hother k hk)
      rw [zero_add] at hself
      exact ⟨hses, .answered u usr sock 0 ack hp hu hsock hack hself hrest (Or.inl ⟨rfl, husers⟩)⟩
    split at he
    · exact hdeny he
    · rename_i htoken
      obtain ⟨sock, hsock, he⟩ := bind_eq_ok.mp he
      split at he
      · exact hdeny he
      · have hset : ((h.lookUp (toint buf 0)).setUser u (usr.setAddrUdp theirAddr)).users u =
            some (usr.setAddrUdp theirAddr) := Function.update_self ..
        obtain ⟨husers, hses, sock', ack, hsock', hack, hs, hother⟩ :=
          sendUdpInitAck_submits hset he
        have hlook (k : SocketRef) : Submits k h
            ((h.lookUp (toint buf 0)).setUser u (usr.setAddrUdp theirAddr)) 0 :=
          .of_same rfl rfl rfl
        have hself := (hlook sock').trans hs
        have hrest (k : SocketRef) (hk : k ≠ sock') : Submits k h h' (0 + 0) :=
          (hlook k).trans (hother k hk)
        rw [zero_add] at hself
        exact ⟨hses, .answered u usr sock' 1 ack hp hu hsock' hack hself hrest
          (Or.inr ⟨rfl, not_not.mp htoken, husers⟩)⟩

theorem account_stored (usr : User) (c : Coordinates) :
    (usr.stored c).account = usr.account := by
  unfold User.stored
  dsimp only
  split_ifs <;> cases usr.empty <;> rfl

theorem coordinates_keeps (env : Env) {k : SessionRef} (hc : buf.length = 12 ∨ buf.length = 16)
    (he : processCoordinates theirAddr buf buf.length h = .ok h') :
    Submits k h h' 0 ∧ Keeps k h h' := by
  cases @processCoordinates_processed env h h' theirAddr buf hc he with
  | ignored hc' => exact absurd hc hc'
  | refused => exact ⟨.of_same rfl rfl rfl, .of_same rfl rfl⟩
  | stored _ u usr uq hid hu ha =>
    exact ⟨.of_same rfl rfl rfl, .of_update rfl hu (account_stored usr _) rfl⟩
  | unknown hi => omega
  | denied hi => omega
  | addressed hi => omega

theorem process_serves {k : SessionRef} {bytes : List UInt8}
    (he : process env theirAddr bytes h = .ok h') :
    ∃ ps, Submits k h h' ps ∧ Serves h (.datagram theirAddr bytes, env) k h' ps := by
  unfold process at he
  dsimp only at he
  split_ifs at he with hc hi
  · obtain ⟨hsub, hkeep⟩ := coordinates_keeps env (k := k) hc he
    exact ⟨0, hsub, .nothing id hkeep⟩
  · obtain ⟨hses, ha⟩ := initAddrUdp_answered he
    cases ha with
    | ignored hid hu hs => exact ⟨0, hs k, .nothing id (.of_same hses hu)⟩
    | answered u usr sock status ack hid hu hsock hack hs hother husers =>
      by_cases hk : k = sock
      · subst hk
        refine ⟨{ack}, hs, ?_⟩
        rcases husers with ⟨rfl, husers⟩ | ⟨rfl, htoken, husers⟩
        · exact .denied u usr ack hu hsock hack (.of_same hses husers)
        · exact .addressed theirAddr bytes u usr ack rfl hi hid hu hsock htoken hack hses husers
      · refine ⟨0, hother k hk, .nothing id ?_⟩
        rcases husers with ⟨-, husers⟩ | ⟨-, -, husers⟩
        · exact .of_same hses husers
        · have hforeign : usr.sock ≠ some k := fun he =>
            hk (Option.some.inj (he.symm.trans hsock))
          have hsame : (usr.setAddrUdp theirAddr).sock = usr.sock := rfl
          exact .of_foreign (congrFun hses k) hu hforeign hsame husers
  · cases he
    exact ⟨0, .refl h, .nothing id (.refl h)⟩

end Datagrams

theorem Serves.congr {h h1 h' : Hub} {ev : Event} {env : Env} {k : SessionRef}
    {ps : Multiset CmdPkg} (hu : h'.users = h1.users) (hs : h'.sessions = h1.sessions)
    (hev : ∀ pkg, ev ≠ .command k pkg) (hv : Serves h (ev, env) k h1 ps) :
    Serves h (ev, env) k h' ps := by
  have hkeep (hk : Keeps k h h1) : Keeps k h h' := hk.trans (.of_same hs hu)
  cases hv with
  | nothing ha hk => exact .nothing ha (hkeep hk)
  | refused pkg _ _ he => exact absurd he (hev pkg)
  | welcomed pkg _ _ _ _ _ _ he => exact absurd he (hev pkg)
  | listed pkg _ _ _ he => exact absurd he (hev pkg)
  | denied u usr p husr hsock hp hk => exact .denied u usr p husr hsock hp (hkeep hk)
  | addressed theirAddr bytes u usr p he hlen hid husr hsock htoken hp hses husers =>
    exact .addressed theirAddr bytes u usr p he hlen hid husr hsock htoken hp (hs.trans hses)
      (hu.trans husers)

theorem turn_wire {h h' : Hub} {env : Env} {id : Int32} {rest : List Int32}
    (hq : h.uqueue = id :: rest) (hs : h.step (.pull, env) = some h') (k : SessionRef) :
    h'.wire k = h.wire k := by
  have hnone : ((posts env h).map Mail.output).filterMap (Output.tcpTo k) = [] := by
    rw [List.filterMap_map, List.filterMap_eq_nil_iff]
    intro m hm
    unfold posts at hm
    split at hm
    · cases hm
    · obtain ⟨nick, -, hpost⟩ := List.mem_filterMap.mp hm
      obtain ⟨b, buddy, -, -, -, rfl⟩ := post_eq_some.mp hpost
      rfl
  unfold Hub.wire
  rw [pull_out hq hs, List.filterMap_append, hnone, List.append_nil]

/-- A step that does not close the session, and does not open it, loses nothing that is on the
way to the client and adds only what the client is told. -/
theorem step_serves {h h' : Hub} {call : Event × Env} {k : SessionRef} (hwf : WellFormed h)
    (hs : h.step call = some h') (hclose : call.1 ≠ .close k)
    (hopen : ∀ addr, call.1 = .accept addr → k ≠ h.nextSession) :
    ∃ ps, Submits k h h' ps ∧ Serves h call k h' ps := by
  obtain ⟨ev, env⟩ := call
  have he := Hub.step_eq_some.mp hs
  -- what is done for the session `s` of another client
  have hforeign (s : SessionRef) (hev : ev.client = some s) (hk : k ≠ s)
      (hsub : Submits k h h' 0) : ∃ ps, Submits k h h' ps ∧ Serves h (ev, env) k h' ps := by
    refine ⟨0, hsub, .nothing (fun ha => ?_) (.of_others hk (step_others hwf hev hs))⟩
    cases ev with
    | command t pkg =>
      cases hev
      exact hk ha.1.symm
    | accept | writable | close | datagram | timeout | put | pull => exact ha
  cases ev with
  | accept addr =>
    cases he
    have hk : k ≠ h.nextSession := hopen addr rfl
    exact ⟨0, .of_same rfl (Function.update_of_ne hk ..) rfl,
      .nothing id (.of_accounts (Function.update_of_ne hk ..) fun _ => rfl)⟩
  | command s pkg =>
    obtain ⟨session, -, he⟩ := bind_eq_ok.mp he
    by_cases hk : k = s
    · subst hk
      exact handle_serves hwf he
    · exact hforeign s rfl hk (acts_other hk (.of_wellFormed hwf s) (handle_acts he))
  | writable s =>
    by_cases hk : k = s
    · subst hk
      obtain ⟨q, o, hh⟩ := sendQueued_eq_ok he
      refine ⟨0, sendQueued_submits (.of_wellFormed hwf k) he, .nothing id ?_⟩
      rw [hh]
      exact .of_same rfl rfl
    · exact hforeign s rfl hk (sendQueued_other hk (.of_wellFormed hwf s) he)
  | close s =>
    have hk : k ≠ s := fun hk => hclose (hk ▸ rfl)
    refine hforeign s rfl hk ?_
    have ho := step_others hwf (s := s) rfl hs
    refine .of_same ?_ (ho.sendQueue hk) ho.pending
    obtain ⟨session, -, ⟨-, rfl⟩ | ⟨u, usr, -, -, rfl⟩⟩ := closeConnection_eq_ok he <;> rfl
  | datagram theirAddr bytes =>
    obtain ⟨h1, hp, he⟩ := bind_eq_ok.mp he
    obtain ⟨ps, hsub, hv⟩ := process_serves (k := k) hp
    have hboth := hsub.trans (sendPendingCmd_submits he)
    rw [add_zero] at hboth
    exact ⟨ps, hboth, hv.congr (sendPendingCmd_users he) (sendPendingCmd_frame he).1.sessions
      (fun _ he => by cases he)⟩
  | timeout =>
    exact ⟨0, sendPendingCmd_submits he,
      .nothing id (.of_same (sendPendingCmd_frame he).1.sessions (sendPendingCmd_users he))⟩
  | put id =>
    cases he
    exact ⟨0, .of_same rfl rfl rfl, .nothing (fun ha => ha) (.of_same rfl rfl)⟩
  | pull =>
    cases hq : h.uqueue with
    | nil =>
      simp only [Hub.dispatch, hq] at he
      cases he
    | cons id rest =>
      have hwire := turn_wire hq hs k
      simp only [Hub.dispatch, hq] at he
      obtain ⟨hf, -, hpend⟩ := turn_frame he
      refine ⟨0, .of_same hwire (congrFun (Delivery.turn_sendQueue he) k) hpend, .nothing (fun ha => ha) ?_⟩
      have hses : h'.sessions k = h.sessions k := congrFun hf.sessions k
      rcases turn_users he with husers | ⟨u, usr, hu, husers⟩
      · exact .of_same hf.sessions husers
      · have hacc : (usr.setReady none).account = usr.account := rfl
        exact .of_update hses hu hacc husers

/-- Nothing has been submitted for a session that is still to come. -/
def Unused (h : Hub) : Prop := ∀ k, h.nextSession ≤ k → h.carried k = 0

theorem session_of_command {h h' : Hub} {env : Env} {k : SessionRef} {pkg : CmdPkg}
    (hs : h.step (.command k pkg, env) = some h') : ∃ session, h.sessions k = some session := by
  obtain ⟨session, hses, -⟩ := bind_eq_ok.mp (Hub.step_eq_some.mp hs)
  exact ⟨session, Hub.session_eq_ok.mp hses⟩

theorem Unused.step {h h' : Hub} {call : Event × Env} (hwf : WellFormed h)
    (hs : h.step call = some h') (hu : Unused h) : Unused h' := by
  have hnext : h.nextSession ≤ h'.nextSession := by
    cases step_change hs with
    | accept => exact Nat.le_succ _
    | register | close | logOut => exact le_rfl
    | frame _ hin hclose hf hid hpend => exact hf.nextSession.ge
  intro k hk
  have hlt : ∀ session, h.sessions k ≠ some session := fun session hses =>
    absurd (hwf.session hses).2 (Nat.not_lt.mpr (hnext.trans hk))
  have hclose : call.1 ≠ .close k := by
    intro hev
    obtain ⟨ev, env⟩ := call
    cases hev
    obtain ⟨session, hses, -⟩ := closeConnection_eq_ok (Hub.step_eq_some.mp hs)
    exact hlt session hses
  have hopen (addr : SockAddr) (hev : call.1 = .accept addr) : k ≠ h.nextSession := by
    obtain ⟨ev, env⟩ := call
    cases hev
    cases Hub.step_eq_some.mp hs
    exact (Nat.lt_of_succ_le hk).ne'
  have hcommand (pkg : CmdPkg) : call.1 ≠ .command k pkg := by
    intro hev
    obtain ⟨ev, env⟩ := call
    cases hev
    obtain ⟨session, hses⟩ := session_of_command hs
    exact hlt session hses
  have hnobody {u : UserRef} {usr : User} (husr : h.users u = some usr) : usr.sock ≠ some k := by
    intro hsock
    obtain ⟨-, -, s, hs', hlt'⟩ := hwf.user husr
    cases hsock.symm.trans hs'
    exact absurd hlt' (Nat.not_lt.mpr (hnext.trans hk))
  obtain ⟨ps, hsub, hv⟩ := step_serves hwf hs hclose hopen
  rw [hsub.carried, hu k (hnext.trans hk), zero_add]
  cases hv with
  | nothing => rfl
  | refused pkg _ _ hev => exact absurd hev (hcommand pkg)
  | welcomed pkg _ _ _ _ _ _ hev => exact absurd hev (hcommand pkg)
  | listed pkg _ _ _ hev => exact absurd hev (hcommand pkg)
  | denied u usr p husr hsock => exact absurd hsock (hnobody husr)
  | addressed _ _ u usr _ _ _ _ husr hsock => exact absurd hsock (hnobody husr)

theorem Unused.of_reachable {h : Hub} (hr : Reachable Hub.step Hub.Booted h) : Unused h := by
  refine (reachable_of_inv (I := fun h => WellFormed h ∧ Unused h) (fun h hb => ?_) ?_ hr).2
  · subst hb
    exact ⟨.boot, fun _ _ => rfl⟩
  · exact fun h call h' hs hi => ⟨hi.1.step hs, hi.2.step hi.1 hs⟩

end Gpshub
