import Gpshub.Client.Handshake

/-! In every run, what a client knows of its user is true, and the server has its address. -/
namespace Gpshub
open CommandServer CommandHandler GpsDataServer Lib.Machine

/-- No user has the socket `k`. -/
def Nobody (k : SessionRef) (h : Hub) : Prop := ∀ u usr, h.users u = some usr → usr.sock ≠ some k

/-- The user `u` is the one that the session is logged in as, and has no other with its socket. -/
structure LoggedIn (k : SessionRef) (h : Hub) (u : UserRef) (usr : User) : Prop where
  session : ∃ session, h.sessions k = some session ∧ session.user = some u
  user : h.users u = some usr
  sock : usr.sock = some k
  only : ∀ v w, h.users v = some w → w.sock = some k → v = u

section Keeping

variable {k : SessionRef} {h h' : Hub} {u : UserRef} {usr : User}

theorem Keeps.nobody (hk : Keeps k h h') (hn : Nobody k h) : Nobody k h' := by
  intro u usr' hu' hsock
  have hacc : (h'.users u).map User.account = some usr'.account := by rw [hu', Option.map_some]
  obtain ⟨usr, hu, hsame⟩ := Option.map_eq_some_iff.mp ((hk.user u _ hsock).mp hacc)
  exact hn u usr hu ((congrArg Account.sock hsame).trans hsock)

theorem Keeps.loggedIn (hk : Keeps k h h') (hin : LoggedIn k h u usr) :
    ∃ usr', LoggedIn k h' u usr' ∧ usr'.account = usr.account := by
  have hacc : (h.users u).map User.account = some usr.account := by rw [hin.user, Option.map_some]
  obtain ⟨usr', hu', hsame⟩ := Option.map_eq_some_iff.mp ((hk.user u _ hin.sock).mpr hacc)
  refine ⟨usr', ⟨?_, hu', (congrArg Account.sock hsame).trans hin.sock, fun v w hw hwsock => ?_⟩,
    hsame⟩
  · rw [hk.session]
    exact hin.session
  · have hwacc : (h'.users v).map User.account = some w.account := by rw [hw, Option.map_some]
    obtain ⟨w0, hw0, hwsame⟩ := Option.map_eq_some_iff.mp ((hk.user v _ hwsock).mp hwacc)
    exact hin.only v w0 hw0 ((congrArg Account.sock hwsame).trans hwsock)

theorem Lists.plain {env : Env} {pkg p : CmdPkg} (hl : Lists env pkg k h u p) : Plain usr p := by
  have htype : p.getType = CmdPkg.BUDDIES_IDS := by
    rcases hl with ⟨-, usr', -, -, hp⟩ | ⟨st, h1, -, hp⟩
    · rw [uidPkg_eq] at hp
      exact idsPkg_type hp
    · exact idsPkg_type hp
  have hread := read_buddiesIds htype
  cases hb : CmdChannel.decodeBuddiesIds p.getLen (p.getBytes.drop 3) with
  | none =>
    rw [hb] at hread
    exact .broken hread
  | some b =>
    rw [hb] at hread
    exact .buddiesIds b hread

variable {call : Event × Env} {ps qs : Multiset CmdPkg}

/-- Before the registration, nothing is submitted but the answer to it. -/
theorem Nobody.serves (hn : Nobody k h)
    (hs : ∃ session, h.sessions k = some session ∧ session.user = none)
    (hv : Serves h call k h' ps) (hno : ¬call.1.Asks k) : Keeps k h h' ∧ ps = 0 := by
  cases hv with
  | nothing _ hk => exact ⟨hk, rfl⟩
  | refused pkg status p hev hreg =>
    rw [hev] at hno
    exact absurd ⟨rfl, hreg⟩ hno
  | welcomed pkg session id pkgOk pkgInit q o hev hreg =>
    rw [hev] at hno
    exact absurd ⟨rfl, hreg⟩ hno
  | listed pkg session u ps hev hadd hses hu =>
    obtain ⟨x, hx, hnone⟩ := hs
    cases hses.symm.trans hx
    cases hu.symm.trans hnone
  | denied u usr p hu hsock => exact absurd hsock (hn u usr hu)
  | addressed theirAddr bytes u usr p hev hlen hid hu hsock => exact absurd hsock (hn u usr hu)

/-- After it, the server only takes an address that the client has sent. -/
theorem Linked.serves {c : GpshubClient} {sent : List (SockAddr × List UInt8)}
    (hin : LoggedIn k h u usr) (hl : Linked c sent usr qs) (hv : Serves h call k h' ps)
    (hno : ¬call.1.Asks k)
    (hsent : ∀ theirAddr bytes, call.1 = .datagram theirAddr bytes → Net.Accepted k h bytes →
      (theirAddr, bytes) ∈ sent) :
    ∃ usr', LoggedIn k h' u usr' ∧ usr'.nick = usr.nick ∧ Linked c sent usr' (qs + ps) := by
  -- the account of the user stays, and the packages tell nothing new
  have hkeep (hk : Keeps k h h') (hplain : ∀ usr' : User, ∀ p ∈ ps, Plain usr' p) :
      ∃ usr', LoggedIn k h' u usr' ∧ usr'.nick = usr.nick ∧ Linked c sent usr' (qs + ps) := by
    obtain ⟨usr', hin', hacc⟩ := hk.loggedIn hin
    have hudp : usr'.udpReady = usr.udpReady := congrArg Account.udpReady hacc
    have htold : Told c usr' qs := hl.told.of_user (congrArg Account.id hacc)
      (congrArg Account.token hacc) fun hu => hudp.trans hu
    exact ⟨usr', hin', congrArg Account.nick hacc, htold.add (hplain usr'),
      hl.agrees.of_user hacc, hl.opens⟩
  cases hv with
  | nothing _ hk => exact hkeep hk fun _ p hp => absurd hp (Multiset.notMem_zero p)
  | refused pkg status p hev hreg =>
    rw [hev] at hno
    exact absurd ⟨rfl, hreg⟩ hno
  | welcomed pkg session id pkgOk pkgInit q o hev hreg =>
    rw [hev] at hno
    exact absurd ⟨rfl, hreg⟩ hno
  | listed pkg session v ps hev hadd hses hu hps hk =>
    exact hkeep hk fun _ p hp => (hps p hp).plain
  | denied v w p hw hsock hp hk =>
    refine hkeep hk fun _ q hq => ?_
    rw [Multiset.mem_singleton.mp hq]
    exact .denied (read_udpInitAck hp)
  | addressed theirAddr bytes v w p hev hlen hid hw hsock htoken hp hses husers =>
    cases hin.only v w hw hsock
    cases hin.user.symm.trans hw
    obtain ⟨ch, hch, haddr⟩ := hl.opens.sent _
      (hsent theirAddr bytes hev ⟨u, usr, hlen, hid, hw, hsock, htoken⟩)
    have hready : (usr.setAddrUdp theirAddr).udpReady = true := rfl
    refine ⟨usr.setAddrUdp theirAddr, ⟨?_, ?_, hsock, fun x y hy hysock => ?_⟩, rfl, ?_, ?_,
      hl.opens⟩
    · rw [hses]
      exact hin.session
    · rw [husers, Function.update_self]
    · by_contra hx
      rw [husers, Function.update_of_ne hx] at hy
      exact hx (hin.only x y hy hysock)
    · have htold : Told c (usr.setAddrUdp theirAddr) qs := hl.told.of_user rfl rfl fun _ => hready
      refine htold.add fun q hq => ?_
      rw [Multiset.mem_singleton.mp hq]
      exact .confirmed (read_udpInitAck hp) hready
    · exact ⟨hl.agrees.userid, hl.agrees.token, hl.agrees.uid, fun _ => ⟨ch, hch, haddr⟩,
        fun _ => hready⟩

theorem linked_registered {c : GpshubClient} {env : Env} {nick : Nick} {id : UInt32}
    {session : Session} {pkgOk pkgInit : CmdPkg} (hc : c.Idle)
    (hok : registerOk env id.toInt32 = .ok pkgOk) (hinit : initUdp env env.rand = .ok pkgInit) :
    Linked c [] ((registerUser env nick id session).setToken env.rand)
      ({pkgOk} + {pkgInit}) := by
  refine ⟨.intro {pkgOk} {pkgInit} 0 (add_zero _).symm (fun p hp => ?_) ?_ (fun p hp => ?_) ?_
    fun p hp => absurd hp (Multiset.notMem_zero p), ⟨?_, ?_, ?_, nofun, ?_⟩, ⟨fun _ => ?_, ?_, ?_⟩⟩
  · rw [Multiset.mem_singleton.mp hp]
    exact read_registerOk hok
  · rw [hc.userid, if_pos rfl, Multiset.card_singleton]
  · rw [Multiset.mem_singleton.mp hp]
    exact read_initUdp hinit
  · rw [hc.token, if_pos rfl, Multiset.card_singleton]
  · rw [hc.userid]
    exact nofun
  · rw [hc.token]
    exact nofun
  · rw [hc.gpsChannel]
    exact nofun
  · rw [hc.udpInitialized]
    exact nofun
  · exact ⟨hc.gpsChannel, hc.opened⟩
  · rw [hc.opened]
    exact Nat.zero_le 1
  · exact fun d hd => absurd hd List.not_mem_nil

theorem loggedIn_registered {env : Env} {nick : Nick} {id : UInt32} {session : Session}
    {q : SessionRef → List CmdPkg} {o : List Output} (hwf : WellFormed h)
    (hs : h.sessions k = some session) (hn : Nobody k h) :
    LoggedIn k { registered env nick id k session h with sendQueue := q, out := o } h.nextUser
      ((registerUser env nick id session).setToken env.rand) where
  session := ⟨{ session with user := some h.nextUser }, Function.update_self .., rfl⟩
  user := by
    show (registered env nick id k session h).users h.nextUser = _
    rw [registered_users, Function.update_self]
  sock := congrArg some (hwf.session hs).1
  only := by
    intro v w hw hsock
    by_contra hv
    change (registered env nick id k session h).users v = some w at hw
    rw [registered_users, Function.update_of_ne hv] at hw
    exact hn v w hw hsock

end Keeping

namespace Net

/-- How far the registration has come. -/
inductive Stage (k : SessionRef) (nick : Nick) (n : Net) : Prop
  | asking (hs : ∃ session, n.hub.sessions k = some session ∧ session.user = none)
      (hnone : Nobody k n.hub) (hcmds : n.cmds = [.registerNick nick]) (hc : n.client.Idle)
      (hsent : n.sent = []) (hun : unheard k n = 0)
  | refused (hs : ∃ session, n.hub.sessions k = some session ∧ session.user = none)
      (hnone : Nobody k n.hub) (hcmds : n.cmds = []) (hc : n.client.Idle) (hsent : n.sent = [])
      (hun : ∀ p ∈ unheard k n, ∃ status, status ≠ 1 ∧
        CmdChannel.read p = some (.registerNickAck status none))
  | welcomed (u : UserRef) (usr : User) (hin : LoggedIn k n.hub u usr)
      (hnick : usr.nick = (CmdPkg.registerNick nick).getData)
      (hcmds : ∀ pkg ∈ n.cmds, pkg.getType = CmdPkg.ADD_BUDDIES)
      (hl : Linked n.client n.sent usr (unheard k n))

structure Inv (k : SessionRef) (nick : Nick) (n : Net) : Prop where
  wellFormed : WellFormed n.hub
  heard : n.heard ≤ (n.hub.wire k).length
  stage : Stage k nick n

section Steps

variable {k : SessionRef} {nick : Nick} {n m : Net}

/-- What the session is given: the client is not logged in yet, or it stays linked to its user. -/
theorem Stage.world {h' : Hub} {call : Event × Env} (hi : Inv k nick n)
    (hs : n.hub.step call = some h') (hh : Honest k n (.world call)) :
    Inv k nick { n with hub := h' } := by
  obtain ⟨hwf, hheard, hst⟩ := hi
  obtain ⟨-, hclose, hcommand, hsent⟩ := hh
  have hno : ¬call.1.Asks k := by
    intro ha
    obtain ⟨ev, env⟩ := call
    cases ev with
    | command s pkg =>
      cases ha.1
      exact hcommand pkg rfl
    | accept | writable | close | datagram | timeout | put | pull => exact ha
  have hses : ∃ session, n.hub.sessions k = some session := by
    cases hst with
    | asking hs | refused hs => exact hs.imp fun _ h => h.1
    | welcomed u usr hin => exact hin.session.imp fun _ h => h.1
  have hopen (addr : SockAddr) (hev : call.1 = .accept addr) : k ≠ n.hub.nextSession := by
    obtain ⟨session, hses⟩ := hses
    exact (hwf.session hses).2.ne
  obtain ⟨ps, hsub, hv⟩ := step_serves hwf hs hclose hopen
  have hun := unheard_submits hheard hsub
  refine ⟨hwf.step hs, hheard.trans hsub.wire.length_le, ?_⟩
  cases hst with
  | asking hs hnone hcmds hc hnil hzero =>
    obtain ⟨hk, rfl⟩ := hnone.serves hs hv hno
    rw [add_zero, hzero] at hun
    exact .asking (by rw [hk.session]; exact hs) (hk.nobody hnone) hcmds hc hnil hun
  | refused hs hnone hcmds hc hnil hall =>
    obtain ⟨hk, rfl⟩ := hnone.serves hs hv hno
    rw [add_zero] at hun
    exact .refused (by rw [hk.session]; exact hs) (hk.nobody hnone) hcmds hc hnil
      (by rw [hun]; exact hall)
  | welcomed u usr hin hnick hcmds hl =>
    obtain ⟨usr', hin', hnick', hl'⟩ := hl.serves hin hv hno hsent
    exact .welcomed u usr' hin' (hnick'.trans hnick) hcmds (by rw [hun]; exact hl')

theorem Stage.serve {h' : Hub} {env : Env} {pkg : CmdPkg} {rest : List CmdPkg}
    (hi : Inv k nick n) (hcmds : n.cmds = pkg :: rest)
    (hs : n.hub.step (.command k pkg, env) = some h') :
    Inv k nick { n with hub := h', cmds := rest } := by
  obtain ⟨hwf, hheard, hst⟩ := hi
  obtain ⟨ps, hsub, hv⟩ := step_serves hwf hs (k := k) (fun h => by cases h) fun _ h => by cases h
  have hun : unheard k { n with hub := h', cmds := rest } = unheard k n + ps :=
    unheard_submits hheard hsub
  refine ⟨hwf.step hs, hheard.trans hsub.wire.length_le, ?_⟩
  cases hst with
  | asking hnone0 hnone hask hc hnil hzero =>
    rw [hcmds] at hask
    cases hask
    rw [hzero, zero_add] at hun
    cases hv with
    | nothing hno => exact absurd ⟨rfl, rfl⟩ hno
    | refused pkg status p hev hreg hnot hstatus hp hk =>
      refine .refused (by rw [hk.session]; exact hnone0) (hk.nobody hnone) rfl hc hnil ?_
      intro q hq
      rw [hun, Multiset.mem_singleton] at hq
      subst hq
      exact ⟨status, hstatus, read_registerFail hstatus hp⟩
    | welcomed pkg session id pkgOk pkgInit q o hev hreg hses hok hinit hh =>
      cases hev
      subst hh
      refine .welcomed n.hub.nextUser _ (loggedIn_registered hwf hses hnone) rfl
        (fun c hc => absurd hc List.not_mem_nil) ?_
      rw [hun]
      show Linked n.client n.sent _ _
      rw [hnil]
      exact linked_registered hc hok hinit
    | listed pkg session u ps hev hadd =>
      cases hev
      have hsame : CmdPkg.REGISTER_NICK = CmdPkg.ADD_BUDDIES := hadd
      exact absurd hsame (by decide)
    | denied u usr p hu hsock => exact absurd hsock (hnone u usr hu)
    | addressed _ _ u usr p hev => cases hev
  | refused hs hnone hask =>
    rw [hcmds] at hask
    cases hask
  | welcomed u usr hin hnick hadds hl =>
    have hadd : pkg.getType = CmdPkg.ADD_BUDDIES := hadds pkg (hcmds ▸ List.mem_cons_self)
    have hno : ¬Event.Asks k (Event.command k pkg) := by
      rintro ⟨-, hreg⟩
      rw [hadd] at hreg
      exact absurd hreg (by decide)
    obtain ⟨usr', hin', hnick', hl'⟩ := hl.serves hin hv hno (fun _ _ h => by cases h)
    refine .welcomed u usr' hin' (hnick'.trans hnick) (fun c hc => ?_) (by rw [hun]; exact hl')
    exact hadds c (hcmds ▸ List.mem_cons_of_mem pkg hc)

theorem Stage.hear {addr : SockAddr} {pkg : CmdPkg} (hi : Inv k nick n)
    (hp : (n.hub.wire k)[n.heard]? = some pkg) :
    Inv k nick { n with
      client := (n.client.hear addr pkg).1
      cmds := n.cmds ++ (n.client.hear addr pkg).2
      heard := n.heard + 1 } := by
  obtain ⟨hwf, hheard, hst⟩ := hi
  have hun := unheard_hear hp (n.client.hear addr pkg).1 (n.cmds ++ (n.client.hear addr pkg).2)
  refine ⟨hwf, Nat.succ_le_of_lt (List.getElem?_eq_some_iff.mp hp).1, ?_⟩
  cases hst with
  | asking hs hnone hcmds hc hnil hzero =>
    have hmem : pkg ∈ unheard k n := by
      rw [hun]
      exact Multiset.mem_add.mpr (Or.inl (Multiset.mem_singleton_self pkg))
    rw [hzero] at hmem
    exact absurd hmem (Multiset.notMem_zero pkg)
  | refused hs hnone hcmds hc hnil hall =>
    rw [hun] at hall
    obtain ⟨status, hstatus, hread⟩ := hall pkg
      (Multiset.mem_add.mpr (Or.inl (Multiset.mem_singleton_self pkg)))
    have he : n.client.hear addr pkg = ({ n.client with listening := false }, []) := by
      simp [GpshubClient.hear, hread, GpshubClient.handleCmdPkg, hstatus]
    rw [he, List.append_nil]
    refine .refused hs hnone hcmds ⟨hc.userid, hc.token, hc.gpsChannel, hc.udpInitialized,
      hc.opened⟩ hnil fun q hq => hall q (Multiset.mem_add.mpr (Or.inr hq))
  | welcomed u usr hin hnick hcmds hl =>
    rw [hun] at hl
    obtain ⟨hl', hadds⟩ : Linked (n.client.hear addr pkg).1 n.sent usr _ ∧
        ∀ q ∈ (n.client.hear addr pkg).2, q.getType = CmdPkg.ADD_BUDDIES := hl.hear
    refine .welcomed u usr hin hnick (fun c hc => ?_) hl'
    rcases List.mem_append.mp hc with hc | hc
    · exact hcmds c hc
    · exact hadds c hc

theorem Stage.initializeUdp {d : SockAddr × List UInt8} (hi : Inv k nick n)
    (hd : n.client.initializeUdp = some d) :
    Inv k nick { n with sent := n.sent ++ [d] } := by
  obtain ⟨hwf, hheard, hst⟩ := hi
  have hch : ∃ ch, n.client.gpsChannel = some ch ∧ d.1 = ch.addr := by
    unfold GpshubClient.initializeUdp at hd
    split_ifs at hd
    obtain ⟨ch, hch, hd⟩ := Option.bind_eq_some_iff.mp hd
    obtain ⟨t, -, hd⟩ := Option.bind_eq_some_iff.mp hd
    cases hd
    exact ⟨ch, hch, rfl⟩
  have hidle (hc : n.client.Idle) : False := by
    obtain ⟨ch, hsome, -⟩ := hch
    rw [hc.gpsChannel] at hsome
    cases hsome
  refine ⟨hwf, hheard, ?_⟩
  cases hst with
  | asking hs hnone hcmds hc => exact absurd (hidle hc) id
  | refused hs hnone hcmds hc => exact absurd (hidle hc) id
  | welcomed u usr hin hnick hcmds hl =>
    refine .welcomed u usr hin hnick hcmds ⟨hl.told, hl.agrees, hl.opens.never, hl.opens.once, ?_⟩
    intro e he
    rcases List.mem_append.mp he with he | he
    · exact hl.opens.sent e he
    · rw [List.mem_singleton.mp he]
      exact hch

theorem Inv.step {a : NetAction} (hs : n.step k a = some m) (hh : Honest k n a)
    (hi : Inv k nick n) : Inv k nick m := by
  cases a with
  | world call =>
    obtain ⟨h', hstep, rfl⟩ := Option.map_eq_some_iff.mp hs
    exact Stage.world hi hstep hh
  | serve env =>
    cases hcmds : n.cmds with
    | nil =>
      simp only [Net.step, hcmds] at hs
      cases hs
    | cons pkg rest =>
      simp only [Net.step, hcmds] at hs
      obtain ⟨h', hstep, rfl⟩ := Option.map_eq_some_iff.mp hs
      exact Stage.serve hi hcmds hstep
  | hear addr =>
    simp only [Net.step] at hs
    split_ifs at hs
    obtain ⟨pkg, hp, rfl⟩ := Option.map_eq_some_iff.mp hs
    exact Stage.hear hi hp
  | initializeUdp =>
    obtain ⟨d, hd, rfl⟩ := Option.map_eq_some_iff.mp hs
    exact Stage.initializeUdp hi hd

theorem Inv.connect {h : Hub} (hr : Reachable Hub.step Hub.Booted h) (nick buddies : Nick)
    (addr : SockAddr) : Inv h.nextSession nick (connect nick buddies addr h) := by
  have hwf := WellFormed.of_reachable hr
  have hzero : h.carried h.nextSession = 0 := (Unused.of_reachable hr) _ le_rfl
  have hnew : (incomingConnection addr h).carried h.nextSession ≤ h.carried h.nextSession := by
    refine add_le_add (add_le_add le_rfl ?_) le_rfl
    show ((Function.update h.sendQueue h.nextSession [] h.nextSession : List CmdPkg) :
      Multiset CmdPkg) ≤ _
    rw [Function.update_self]
    exact Multiset.zero_le _
  rw [hzero] at hnew
  refine ⟨hwf.accept addr, Nat.zero_le _, .asking ⟨_, Function.update_self .., rfl⟩ ?_ rfl
    ⟨rfl, rfl, rfl, rfl, rfl⟩ rfl (le_antisymm hnew (Multiset.zero_le _))⟩
  intro u usr hu hsock
  obtain ⟨-, -, s, hs, hlt⟩ := hwf.user hu
  cases hsock.symm.trans hs
  exact lt_irrefl _ hlt

end Steps

/-- The client registers as `a`, and sends its address until the server has it. -/
def dialling : List NetAction :=
  [.serve default, .hear default, .hear default, .initializeUdp,
    .world (.datagram default (intBytes 1 ++ intBytes 0), default), .hear default]

end Net
end Gpshub
