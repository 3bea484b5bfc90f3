import Gpshub.Client.Agreement

/-! A client that knows its id and its token gets its UDP address confirmed by one more datagram,
whatever was lost before. -/
namespace Gpshub
open CommandServer CommandHandler GpsDataServer Lib.Machine

section Datagram

variable {h : Hub} {u : UserRef} {usr : User} {k : SessionRef} {addr : SockAddr}

theorem flushLoop_all (q : List PendingCmd) : ∀ i, flushLoop (fun _ => .all) q i =
    .ok ([], q.map fun p => Output.tcp p.sock p.cmd p.cmd.getLen.toNat) := by
  induction q with
  | nil =>
    intro i
    rfl
  | cons p q ih =>
    intro i
    simp only [flushLoop, ih (i + 1)]
    rfl

theorem wire_flushed (q : List PendingCmd) :
    (q.map fun p => Output.tcp p.sock p.cmd p.cmd.getLen.toNat).filterMap (Output.tcpTo k) =
      (q.filter (·.sock = k)).map PendingCmd.cmd := by
  induction q with
  | nil => rfl
  | cons p q ih =>
    by_cases hp : p.sock = k
    · simp [Output.tcpTo, hp, ih]
    · simp [Output.tcpTo, hp, ih]

theorem sendPendingCmd_all (h : Hub) : sendPendingCmd default h = .ok { h with
    pendingCmdQueue := []
    out := h.out ++ h.pendingCmdQueue.map fun p => Output.tcp p.sock p.cmd p.cmd.getLen.toNat } := by
  unfold sendPendingCmd
  rw [show (default : Env).flush = fun _ => .all from rfl, flushLoop_all]
  rfl

theorem sendUdpInitAck_all {ack : CmdPkg} {status : UInt8} (hack : udpInitAck default status = .ok ack)
    (hu : h.users u = some usr) (hsock : usr.sock = some k) :
    sendUdpInitAck default u status h = .ok (h.emit (.tcp k ack ack.getLen.toNat)) := by
  have hderef : h.deref u = .ok usr := Hub.deref_eq_ok.mpr hu
  have hnull : notNull Abort.badSession usr.sock = .ok k := notNull_eq_ok.mpr hsock
  unfold sendUdpInitAck
  rw [hack, hderef]
  simp only [bind, Except.bind, hnull]
  rfl

/-- An address that comes from the right host with the right id and token is stored. -/
theorem initAddrUdp_good (env : Env) {buf : List UInt8}
    (hid : h.idUmap.pointsTo (toint buf 0) = some u) (hu : h.users u = some usr)
    (htoken : toint buf 4 = usr.token) (hsock : usr.sock = some k)
    (hip : ipEquals (h.sockets k).addr addr = true) :
    initAddrUdp env addr buf h = sendUdpInitAck env u 1
      ((h.lookUp (toint buf 0)).setUser u (usr.setAddrUdp addr)) := by
  have hpoints := SyncHashMap.pointsTo_of_get h.idUmap (toint buf 0)
  have hget : h.idUmap.get (toint buf 0) = (some u, (h.lookUp (toint buf 0)).idUmap) :=
    Prod.ext (hpoints.symm.trans hid) rfl
  have hderef : Hub.deref { h with idUmap := (h.lookUp (toint buf 0)).idUmap } u = .ok usr :=
    Hub.deref_eq_ok.mpr hu
  have hnull : notNull Abort.badSession usr.sock = .ok k := notNull_eq_ok.mpr hsock
  unfold initAddrUdp
  generalize toint buf 0 = id at hget hderef ⊢
  generalize toint buf 4 = token at htoken ⊢
  subst htoken
  simp only [hget, hderef, hnull, bind, Except.bind, ne_eq, not_true_eq_false, if_false, hip]
  rfl

/-- When all sends succeed, the acknowledgement of the address is sent, and after it those that
wait. -/
theorem step_initUdp (hid : h.idUmap.pointsTo usr.id = some u) (hu : h.users u = some usr)
    (hsock : usr.sock = some k) (hip : ipEquals (h.sockets k).addr addr = true) :
    ∃ ack h', CmdChannel.read ack = some (.initializeUdpAck 1) ∧
      h.step (.datagram addr (intBytes usr.id.toUInt32 ++ intBytes usr.token.toUInt32), default) =
        some h' ∧ h'.wire k = h.wire k ++ ack :: h.acks k := by
  obtain ⟨ack, hack⟩ : ∃ ack, udpInitAck default 1 = .ok ack := ⟨_, rfl⟩
  have hread : toint (intBytes usr.id.toUInt32 ++ intBytes usr.token.toUInt32) 0 = usr.id :=
    toint_intBytes [] _ usr.id
  have htoken : toint (intBytes usr.id.toUInt32 ++ intBytes usr.token.toUInt32) 4 = usr.token := by
    have hat := toint_intBytes (intBytes usr.id.toUInt32) [] usr.token
    rwa [List.append_nil] at hat
  have hlen : (intBytes usr.id.toUInt32 ++ intBytes usr.token.toUInt32).length = 8 := rfl
  generalize intBytes usr.id.toUInt32 ++ intBytes usr.token.toUInt32 = buf at hread htoken hlen ⊢
  rw [← hread] at hid
  have hprocess := initAddrUdp_good default hid hu htoken hsock hip
  have hset : ((h.lookUp (toint buf 0)).setUser u (usr.setAddrUdp addr)).users u =
      some (usr.setAddrUdp addr) := Function.update_self ..
  rw [sendUdpInitAck_all hack hset hsock] at hprocess
  have hshort : buf.take BUF_LEN = buf := List.take_of_length_le (by rw [hlen]; decide)
  have hnot : ¬(buf.length = 12 ∨ buf.length = 16) := by omega
  have hin : ∀ h', sendPendingCmd default (((h.lookUp (toint buf 0)).setUser u
      (usr.setAddrUdp addr)).emit (.tcp k ack ack.getLen.toNat)) = .ok h' →
      h.step (.datagram addr buf, default) = some h' := by
    intro h' hflush
    apply Hub.step_eq_some.mpr
    show GpsDataServer.incomingData default addr buf h = .ok h'
    simp only [GpsDataServer.incomingData, process, hshort, if_neg hnot, if_pos hlen, hprocess, bind, Except.bind]
    exact hflush
  refine ⟨ack, _, read_udpInitAck hack, hin _ (sendPendingCmd_all _), ?_⟩
  unfold Hub.wire Hub.acks
  simp only [Hub.emit, List.filterMap_append, wire_flushed, List.append_assoc]
  simp [Output.tcpTo, Hub.setUser, Hub.lookUp]

end Datagram

/-- Once the channel is open, a package only tells whether the address is confirmed. -/
theorem Linked.hear_open {c : GpshubClient} {sent : List (SockAddr × List UInt8)} {usr : User}
    {p : CmdPkg} {ps : Multiset CmdPkg} (addr : SockAddr) (hl : Linked c sent usr ({p} + ps))
    (hch : c.gpsChannel ≠ none) (hp : CmdChannel.read p ≠ none) :
    ∃ b, c.hear addr p = ({ c with udpInitialized := b }, []) ∧
      (c.udpInitialized = true ∨ CmdChannel.read p = some (.initializeUdpAck 1) → b = true) := by
  have hknown : ¬(c.userid = none ∨ c.token = none) := fun hno => hch (hl.opens.never hno).1
  obtain ⟨hid, htoken⟩ := not_or.mp hknown
  have hplain : Plain usr p := by
    obtain ⟨oks, inits, rest, hps, hoks, hok, hinits, hinit, hrest⟩ := hl.told
    rw [if_neg hid, Multiset.card_eq_zero] at hok
    rw [if_neg htoken, Multiset.card_eq_zero] at hinit
    rw [hok, hinit, zero_add, zero_add] at hps
    apply hrest
    rw [← hps]
    exact Multiset.mem_add.mpr (Or.inl (Multiset.mem_singleton_self p))
  cases hplain with
  | broken hnone => exact absurd hnone hp
  | buddiesIds b hb =>
    refine ⟨c.udpInitialized, hear_of_read hb rfl, ?_⟩
    simp [hb]
  | denied hd =>
    refine ⟨c.udpInitialized, hear_of_read hd (by simp [GpshubClient.handleCmdPkg]), ?_⟩
    simp [hd]
  | confirmed hd =>
    exact ⟨true, hear_of_read hd (by simp [GpshubClient.handleCmdPkg]), fun _ => rfl⟩

namespace Net

section Reading

theorem drop_eq_cons {α : Type*} {l : List α} {i : ℕ} {a : α} {rest : List α}
    (hl : l.drop i = a :: rest) : l[i]? = some a ∧ l.drop (i + 1) = rest := by
  constructor
  · rw [← List.head?_drop, hl, List.head?_cons]
  · rw [← List.tail_drop, hl, List.tail_cons]

variable {k : SessionRef} {nick : Nick} {n : Net} {ch : GpsChannel} {pkg : CmdPkg}

theorem Inv.loggedIn (hi : Inv k nick n) (hch : n.client.gpsChannel = some ch) :
    ∃ u usr, LoggedIn k n.hub u usr ∧ Linked n.client n.sent usr (unheard k n) := by
  have hidle (hc : n.client.Idle) : False := by
    rw [hc.gpsChannel] at hch
    cases hch
  cases hi.stage with
  | asking hs hnone hcmds hc => exact absurd hc hidle
  | refused hs hnone hcmds hc => exact absurd hc hidle
  | welcomed u usr hin hnick hcmds hl => exact ⟨u, usr, hin, hl⟩

theorem Inv.hear_open (hi : Inv k nick n) (hch : n.client.gpsChannel = some ch)
    (hlisten : n.client.listening = true) (hp : (n.hub.wire k)[n.heard]? = some pkg)
    (hread : CmdChannel.read pkg ≠ none) : ∃ b, Net.step k n (.hear default) = some
      { n with client := { n.client with udpInitialized := b }, heard := n.heard + 1 } ∧
        (n.client.udpInitialized = true ∨ CmdChannel.read pkg = some (.initializeUdpAck 1) →
          b = true) := by
  obtain ⟨u, usr, -, hl⟩ := hi.loggedIn hch
  rw [unheard_hear hp n.client n.cmds] at hl
  obtain ⟨b, hb, hready⟩ := hl.hear_open default (by simp [hch]) hread
  refine ⟨b, ?_, hready⟩
  simp only [Net.step, hlisten, if_true, hp, Option.map_some, hb, List.append_nil]

/-- When all that comes before the confirmation can be read, the client gets to it. -/
theorem Inv.hear_all {ack : CmdPkg} (hack : CmdChannel.read ack = some (.initializeUdpAck 1))
    {rest : List CmdPkg} (pkgs : List CmdPkg) : ∀ {n : Net}, Inv k nick n →
      n.client.gpsChannel = some ch → n.client.listening = true →
      (∀ pkg ∈ pkgs, CmdChannel.read pkg ≠ none) →
      (n.hub.wire k).drop n.heard = pkgs ++ ack :: rest →
      ∃ n', run (Net.step k) n (List.replicate (pkgs.length + 1) (.hear default)) = some n' ∧
        n'.client.gpsChannel = some ch ∧ n'.client.udpInitialized = true := by
  induction pkgs with
  | nil =>
    intro n hi hch hlisten _ hwire
    obtain ⟨hp, -⟩ := drop_eq_cons hwire
    obtain ⟨b, hstep, hready⟩ := hi.hear_open hch hlisten hp (by simp [hack])
    refine ⟨_, run_cons.mpr ⟨_, hstep, rfl⟩, hch, ?_⟩
    exact hready (Or.inr hack)
  | cons pkg pkgs ih =>
    intro n hi hch hlisten hread hwire
    obtain ⟨hp, hrest⟩ := drop_eq_cons hwire
    obtain ⟨b, hstep, -⟩ := hi.hear_open hch hlisten hp (hread pkg List.mem_cons_self)
    obtain ⟨n', hrun, hopen⟩ := ih (hi.step hstep trivial) hch hlisten
      (fun p hp => hread p (List.mem_cons_of_mem pkg hp)) hrest
    exact ⟨n', run_cons.mpr ⟨_, hstep, hrun⟩, hopen⟩

end Reading

/-- One more round: a datagram of the client that the server takes, after which the client reads
`m` packages. -/
def exchange (d : SockAddr × List UInt8) (m : ℕ) : List NetAction :=
  .initializeUdp :: .world (.datagram d.1 d.2, default) :: List.replicate m (.hear default)

section Exchange

variable {k : SessionRef} {nick : Nick} {n n' : Net} {ch : GpsChannel} {h' : Hub}
  {d : SockAddr × List UInt8}

/-- The datagram has the id and the token of the user, and so the server confirms its address. -/
theorem Inv.initializeUdp (hi : Inv k nick n) (hch : n.client.gpsChannel = some ch)
    (hwait : n.client.udpInitialized = false)
    (hip : ipEquals (n.hub.sockets k).addr ch.addr = true) :
    ∃ d ack h', n.client.initializeUdp = some d ∧
      CmdChannel.read ack = some (.initializeUdpAck 1) ∧
      n.hub.step (.datagram d.1 d.2, default) = some h' ∧
      h'.wire k = n.hub.wire k ++ ack :: n.hub.acks k := by
  obtain ⟨u, usr, hin, hl⟩ := hi.loggedIn hch
  have hknown : ¬(n.client.userid = none ∨ n.client.token = none) := by
    intro hno
    rw [(hl.opens.never hno).1] at hch
    cases hch
  obtain ⟨t, ht⟩ := Option.ne_none_iff_exists'.mp (not_or.mp hknown).2
  have hd : n.client.initializeUdp = some (ch.addr, ch.initUdp t) := by
    simp [GpshubClient.initializeUdp, hwait, hch, ht]
  have hbytes : ch.initUdp t = intBytes usr.id.toUInt32 ++ intBytes usr.token.toUInt32 := by
    rw [GpsChannel.initUdp, hl.agrees.uid ch hch, hl.agrees.token t ht]
  obtain ⟨session, hses, hsu⟩ := hin.session
  obtain ⟨usr', hu', -, hid⟩ := hi.wellFormed.login hses hsu
  cases hin.user.symm.trans hu'
  obtain ⟨ack, h', hack, hdatagram, hwire⟩ := step_initUdp hid hin.user hin.sock hip
  rw [← hbytes] at hdatagram
  exact ⟨_, ack, h', hd, hack, hdatagram, hwire⟩

theorem step_initializeUdp (hd : n.client.initializeUdp = some d) :
    step k n .initializeUdp = some { n with sent := n.sent ++ [d] } := by
  simp only [step, hd, Option.map_some]

theorem step_datagram (hstep : n.hub.step (.datagram d.1 d.2, default) = some h') :
    step k { n with sent := n.sent ++ [d] } (.world (.datagram d.1 d.2, default)) =
      some { n with hub := h', sent := n.sent ++ [d] } := by
  simp only [step, hstep, Option.map_some]

/-- A datagram of the client is taken: nobody but the client has sent it. -/
theorem honest_datagram : Honest k { n with sent := n.sent ++ [d] }
    (.world (.datagram d.1 d.2, default)) := by
  refine ⟨fun _ _ => ⟨nofun, nofun⟩, nofun, nofun, fun a bytes he _ => ?_⟩
  cases he
  exact List.mem_append_right _ (List.mem_singleton_self _)

theorem guarded_hear (m : ℕ) : ∀ n : Net, Guarded (step k) (Honest k) n
    (List.replicate m (.hear default)) := by
  induction m with
  | zero => exact fun _ => trivial
  | succ m ih => exact fun n n' _ => ⟨trivial, ih n'⟩

theorem guarded_exchange (hd : n.client.initializeUdp = some d) (m : ℕ) :
    Guarded (step k) (Honest k) n (exchange d m) := by
  intro n1 h1
  cases (step_initializeUdp hd).symm.trans h1
  exact ⟨trivial, fun n2 _ => ⟨honest_datagram, guarded_hear m n2⟩⟩

theorem Inv.run {as : List NetAction} (hrun : Lib.Machine.run (Net.step k) n as = some n')
    (hg : Guarded (Net.step k) (Honest k) n as) (hi : Inv k nick n) : Inv k nick n' := by
  have hall : Always (Net.step k) (Inv k nick) n as :=
    always_of_step (fun _ _ _ _ _ hh hs hi => hi.step hs hh) (always_true _ as) hg hi
  exact hall.last hrun

end Exchange

end Net

end Gpshub
