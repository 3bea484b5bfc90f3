import Gpshub.Client.GpshubClient
import Gpshub.Hub.Submissions

/-! A client and the server, with everybody else: registration, and the exchange of the UDP
address. -/
namespace Gpshub
open CommandServer CommandHandler GpsDataServer Lib.Machine

/-- No `Send` takes a part of its package only. -/
def Env.Whole (env : Env) : Prop := ∀ i n, env.answer i ≠ .part n ∧ env.flush i ≠ .part n

/-- The hub, one of its clients, and what is on the way from the one to the other. -/
structure Net where
  hub : Hub
  client : GpshubClient
  /-- The commands of the client that the server has not handled yet. -/
  cmds : List CmdPkg
  /-- How many packages the client has read. -/
  heard : ℕ
  /-- The datagrams of the client, with the addresses they come from. -/
  sent : List (SockAddr × List UInt8)

inductive NetAction
  /-- The server does something else than to handle a command of the client. -/
  | world (call : Event × Env)
  /-- The server handles the next command of the client. -/
  | serve (env : Env)
  /-- The client reads the next package; `addr` is for a socket that it then may open. -/
  | hear (addr : SockAddr)
  /-- `_initialize_udp` sends a datagram. -/
  | initializeUdp

namespace Net

/-- The client connects from `addr`, and asks for its nick. -/
def connect (nick buddies : Nick) (addr : SockAddr) (h : Hub) : Net where
  hub := incomingConnection addr h
  client := .start nick buddies
  cmds := [.registerNick nick]
  heard := 0
  sent := []

/-- `k` is the session of the client. `serve` hands its next command to the handler as it was
sent: how `incomingData` finds the commands in what it receives is left out. -/
def step (k : SessionRef) (n : Net) : NetAction → Option Net
  | .world call => (n.hub.step call).map fun hub => { n with hub }
  | .serve env =>
    match n.cmds with
    | [] => none
    | pkg :: rest => (n.hub.step (.command k pkg, env)).map fun hub => { n with hub, cmds := rest }
  | .hear addr =>
    if n.client.listening then
      (n.hub.wire k)[n.heard]?.map fun pkg =>
        let (client, cmds) := n.client.hear addr pkg
        { n with client, cmds := n.cmds ++ cmds, heard := n.heard + 1 }
    else none
  | .initializeUdp => n.client.initializeUdp.map fun d => { n with sent := n.sent ++ [d] }

/-- The datagram has the id and the token of a user of the session `k`. -/
def Accepted (k : SessionRef) (h : Hub) (bytes : List UInt8) : Prop :=
  ∃ u usr, (bytes.take BUF_LEN).length = 8 ∧
    h.idUmap.pointsTo (toint (bytes.take BUF_LEN) 0) = some u ∧ h.users u = some usr ∧
    usr.sock = some k ∧ toint (bytes.take BUF_LEN) 4 = usr.token

/-- The session `k` belongs to the client: nobody else uses or closes it, and only the client
knows the token. -/
def Honest (k : SessionRef) (n : Net) : NetAction → Prop
  | .world call => call.2.Whole ∧ call.1 ≠ .close k ∧ (∀ pkg, call.1 ≠ .command k pkg) ∧
      ∀ theirAddr bytes, call.1 = .datagram theirAddr bytes → Accepted k n.hub bytes →
        (theirAddr, bytes) ∈ n.sent
  | .serve env => env.Whole
  | .hear _ => True
  | .initializeUdp => True

def unheard (k : SessionRef) (n : Net) : Multiset CmdPkg :=
  onTheWay ((n.hub.wire k).drop n.heard) (n.hub.sendQueue k) (n.hub.acks k)

section Unheard

variable {k : SessionRef} {n : Net} {h' : Hub} {ps : Multiset CmdPkg} {pkg : CmdPkg}

theorem onTheWay_append (v w q a : List CmdPkg) :
    onTheWay (v ++ w) q a = v + onTheWay w q a := by
  unfold onTheWay
  rw [← Multiset.coe_add]
  abel

theorem unheard_submits (hle : n.heard ≤ (n.hub.wire k).length) (hs : Submits k n.hub h' ps) :
    unheard k { n with hub := h' } = unheard k n + ps := by
  obtain ⟨more, hmore⟩ := hs.wire
  have hsplit : (h'.wire k).drop n.heard = (n.hub.wire k).drop n.heard ++ more := by
    rw [← hmore, List.drop_append_of_le_length hle]
  have htake : h'.wire k = (n.hub.wire k).take n.heard ++ (h'.wire k).drop n.heard := by
    rw [hsplit, ← List.append_assoc, List.take_append_drop, hmore]
  have hold : n.hub.carried k = (n.hub.wire k).take n.heard + unheard k n := by
    unfold unheard
    rw [← onTheWay_append, List.take_append_drop]
    rfl
  have hnew : h'.carried k = (n.hub.wire k).take n.heard + unheard k { n with hub := h' } := by
    unfold unheard
    rw [← onTheWay_append, ← htake]
    rfl
  have hcarried := hs.carried
  rw [hold, hnew, add_assoc] at hcarried
  exact add_left_cancel hcarried

theorem unheard_hear (hp : (n.hub.wire k)[n.heard]? = some pkg) (client : GpshubClient)
    (cmds : List CmdPkg) :
    unheard k n = {pkg} + unheard k { n with client, cmds, heard := n.heard + 1 } := by
  obtain ⟨hlt, hget⟩ := List.getElem?_eq_some_iff.mp hp
  have hdrop : (n.hub.wire k).drop n.heard = [pkg] ++ (n.hub.wire k).drop (n.heard + 1) := by
    rw [List.drop_eq_getElem_cons hlt, hget]
    rfl
  unfold unheard
  rw [hdrop, onTheWay_append, Multiset.coe_singleton]

end Unheard

end Net

/-- The client knows nothing yet. -/
structure GpshubClient.Idle (c : GpshubClient) : Prop where
  userid : c.userid = none
  token : c.token = none
  gpsChannel : c.gpsChannel = none
  udpInitialized : c.udpInitialized = false
  opened : c.opened = 0

/-- What the client knows of its user is true, and the address the server has for the user is
that of the socket of the client. -/
structure Agrees (c : GpshubClient) (usr : User) : Prop where
  userid : ∀ id, c.userid = some id → id = usr.id.toUInt32
  token : ∀ t, c.token = some t → t = usr.token.toUInt32
  uid : ∀ ch, c.gpsChannel = some ch → ch.uid = usr.id.toUInt32
  addr : usr.udpReady = true → ∃ ch, c.gpsChannel = some ch ∧ usr.addrUdp = ch.addr
  ready : c.udpInitialized = true → usr.udpReady = true

/-- A channel is opened once, when both the id and the token have come. -/
structure Opens (c : GpshubClient) (sent : List (SockAddr × List UInt8)) : Prop where
  never : c.userid = none ∨ c.token = none → c.gpsChannel = none ∧ c.opened = 0
  once : c.opened ≤ 1
  sent : ∀ d ∈ sent, ∃ ch, c.gpsChannel = some ch ∧ d.1 = ch.addr

/-- A package that changes nothing, or that confirms the address of the user. -/
inductive Plain (usr : User) (p : CmdPkg) : Prop
  | broken (hp : CmdChannel.read p = none)
  | buddiesIds (b : UInt32 → Option Nick) (hp : CmdChannel.read p = some (.buddiesIds b))
  | denied (hp : CmdChannel.read p = some (.initializeUdpAck 0))
  | confirmed (hp : CmdChannel.read p = some (.initializeUdpAck 1)) (hu : usr.udpReady = true)

/-- What the client will be told: its id and its token, once each, unless it knows them. -/
inductive Told (c : GpshubClient) (usr : User) (ps : Multiset CmdPkg) : Prop
  | intro (oks inits rest : Multiset CmdPkg) (hps : ps = oks + inits + rest)
      (hoks : ∀ p ∈ oks, CmdChannel.read p = some (.registerNickAck 1 (some usr.id.toUInt32)))
      (hok : oks.card = if c.userid = none then 1 else 0)
      (hinits : ∀ p ∈ inits, CmdChannel.read p = some (.initializeUdp usr.token.toUInt32))
      (hinit : inits.card = if c.token = none then 1 else 0)
      (hrest : ∀ p ∈ rest, Plain usr p)

section Knowledge

variable {c : GpshubClient} {usr usr' : User} {ps qs : Multiset CmdPkg} {p : CmdPkg}

theorem Told.add (ht : Told c usr ps) (hq : ∀ p ∈ qs, Plain usr p) : Told c usr (ps + qs) := by
  obtain ⟨oks, inits, rest, rfl, hoks, hok, hinits, hinit, hrest⟩ := ht
  refine .intro oks inits (rest + qs) (add_assoc _ _ _) hoks hok hinits hinit fun p hp => ?_
  rcases Multiset.mem_add.mp hp with hp | hp
  · exact hrest p hp
  · exact hq p hp

theorem Told.of_user (ht : Told c usr ps) (hid : usr'.id = usr.id) (htoken : usr'.token = usr.token)
    (hready : usr.udpReady = true → usr'.udpReady = true) : Told c usr' ps := by
  obtain ⟨oks, inits, rest, hps, hoks, hok, hinits, hinit, hrest⟩ := ht
  rw [← hid] at hoks
  rw [← htoken] at hinits
  refine .intro oks inits rest hps hoks hok hinits hinit fun p hp => ?_
  cases hrest p hp with
  | broken hp => exact .broken hp
  | buddiesIds b hp => exact .buddiesIds b hp
  | denied hp => exact .denied hp
  | confirmed hp hu => exact .confirmed hp (hready hu)

theorem Agrees.of_user (ha : Agrees c usr) (hacc : usr'.account = usr.account) :
    Agrees c usr' := by
  have hid : usr'.id = usr.id := congrArg Account.id hacc
  have htoken : usr'.token = usr.token := congrArg Account.token hacc
  have hudp : usr'.udpReady = usr.udpReady := congrArg Account.udpReady hacc
  have haddr : usr'.addrUdp = usr.addrUdp := congrArg Account.addrUdp hacc
  constructor
  · rw [hid]
    exact ha.userid
  · rw [htoken]
    exact ha.token
  · rw [hid]
    exact ha.uid
  · rw [hudp, haddr]
    exact ha.addr
  · rw [hudp]
    exact ha.ready

/-- What holds between the packages that come, the client and its user. -/
structure Linked (c : GpshubClient) (sent : List (SockAddr × List UInt8)) (usr : User)
    (ps : Multiset CmdPkg) : Prop where
  told : Told c usr ps
  agrees : Agrees c usr
  opens : Opens c sent

variable {sent : List (SockAddr × List UInt8)} {addr : SockAddr}

/-- A client that ends its thread, or notes the confirmation of its address. -/
theorem Linked.of_known {c' : GpshubClient} (hl : Linked c sent usr ps)
    (hid : c'.userid = c.userid) (htoken : c'.token = c.token) (hch : c'.gpsChannel = c.gpsChannel)
    (hopened : c'.opened = c.opened) (hready : c'.udpInitialized = true → usr.udpReady = true) :
    Linked c' sent usr ps := by
  obtain ⟨⟨oks, inits, rest, hps, hoks, hok, hinits, hinit, hrest⟩, ha, ho⟩ := hl
  rw [← hid] at hok
  rw [← htoken] at hinit
  refine ⟨.intro oks inits rest hps hoks hok hinits hinit hrest, ⟨?_, ?_, ?_, ?_, hready⟩,
    ⟨?_, ?_, ?_⟩⟩
  · rw [hid]
    exact ha.userid
  · rw [htoken]
    exact ha.token
  · rw [hch]
    exact ha.uid
  · rw [hch]
    exact ha.addr
  · rw [hid, htoken, hch, hopened]
    exact ho.never
  · rw [hopened]
    exact ho.once
  · rw [hch]
    exact ho.sent

/-- The first of the two packages, or the second, with which the channel is opened. -/
theorem Opens.learn {c' : GpshubClient} (ho : Opens c sent)
    (hno : c.userid = none ∨ c.token = none)
    (hopen : c'.gpsChannel = none ∧ c'.opened = c.opened ∨
      c'.opened = c.opened + 1 ∧ c'.userid ≠ none ∧ c'.token ≠ none) : Opens c' sent := by
  obtain ⟨hch, hzero⟩ := ho.never hno
  have hnone (d : SockAddr × List UInt8) (hd : d ∈ sent) : False := by
    obtain ⟨ch, hsome, -⟩ := ho.sent d hd
    rw [hch] at hsome
    cases hsome
  constructor
  · intro hno'
    rcases hopen with ⟨hch', hopened⟩ | ⟨-, hid, htoken⟩
    · exact ⟨hch', hopened.trans hzero⟩
    · exact absurd hno' (not_or.mpr ⟨hid, htoken⟩)
  · rcases hopen with ⟨-, hopened⟩ | ⟨hopened, -⟩ <;> omega
  · exact fun d hd => absurd (hnone d hd) id

theorem Linked.not_ready (hl : Linked c sent usr ps) (hno : c.userid = none ∨ c.token = none) :
    usr.udpReady = false ∧ c.udpInitialized = false := by
  have hudp : usr.udpReady ≠ true := by
    intro hready
    obtain ⟨ch, hsome, -⟩ := hl.agrees.addr hready
    rw [(hl.opens.never hno).1] at hsome
    cases hsome
  exact ⟨Bool.eq_false_of_not_eq_true hudp,
    Bool.eq_false_of_not_eq_true fun hi => hudp (hl.agrees.ready hi)⟩

theorem hear_of_read {d : CmdChannel.Decoded} {r : GpshubClient × List CmdPkg}
    (hp : CmdChannel.read p = some d) (hd : c.handleCmdPkg addr d = some r) :
    c.hear addr p = r := by
  rw [GpshubClient.hear, hp, Option.bind_some, hd]

theorem Linked.hear_userid (hl : Linked c sent usr ({p} + ps)) (hid : c.userid = none)
    (hp : CmdChannel.read p = some (.registerNickAck 1 (some usr.id.toUInt32)))
    (ht : Told { c with userid := some usr.id.toUInt32 } usr ps) :
    Linked (c.hear addr p).1 sent usr ps ∧
      ∀ q ∈ (c.hear addr p).2, q.getType = CmdPkg.ADD_BUDDIES := by
  obtain ⟨hudp, hinit⟩ := hl.not_ready (Or.inl hid)
  obtain ⟨hch, -⟩ := hl.opens.never (Or.inl hid)
  have hcmds (q : CmdPkg) (hq : q ∈ [CmdPkg.addBuddies c.buddies]) :
      q.getType = CmdPkg.ADD_BUDDIES := by
    rw [List.mem_singleton.mp hq]
    rfl
  have hready : usr.udpReady ≠ true := by
    rw [hudp]
    decide
  cases htoken : c.token with
  | none =>
    have hd : c.handleCmdPkg addr (.registerNickAck 1 (some usr.id.toUInt32)) =
        some ({ c with userid := some usr.id.toUInt32 }, [.addBuddies c.buddies]) := by
      simp [GpshubClient.handleCmdPkg, htoken]
    rw [hear_of_read hp hd]
    refine ⟨⟨ht, ⟨fun id hs => (Option.some.inj hs).symm, hl.agrees.token, hl.agrees.uid,
      fun hu => absurd hu hready, hl.agrees.ready⟩, ?_⟩, hcmds⟩
    exact hl.opens.learn (Or.inl hid) (Or.inl ⟨hch, rfl⟩)
  | some t =>
    have hd : c.handleCmdPkg addr (.registerNickAck 1 (some usr.id.toUInt32)) =
        some ({ c with
          userid := some usr.id.toUInt32
          gpsChannel := some ⟨usr.id.toUInt32, addr⟩
          opened := c.opened + 1 }, [.addBuddies c.buddies]) := by
      simp [GpshubClient.handleCmdPkg, GpshubClient.connectGpsChannel, htoken]
    rw [hear_of_read hp hd]
    obtain ⟨oks, inits, rest, hps, hoks, hok, hinits, hcard, hrest⟩ := ht
    refine ⟨⟨.intro oks inits rest hps hoks hok hinits hcard hrest,
      ⟨fun id hs => (Option.some.inj hs).symm, hl.agrees.token, fun ch hs => ?_,
        fun hu => absurd hu hready, hl.agrees.ready⟩, ?_⟩, hcmds⟩
    · cases hs
      rfl
    · refine hl.opens.learn (Or.inl hid) (Or.inr ⟨rfl, by simp, ?_⟩)
      simp [htoken]

theorem Linked.hear_token (hl : Linked c sent usr ({p} + ps)) (htoken : c.token = none)
    (hp : CmdChannel.read p = some (.initializeUdp usr.token.toUInt32))
    (ht : Told { c with token := some usr.token.toUInt32 } usr ps) :
    Linked (c.hear addr p).1 sent usr ps ∧
      ∀ q ∈ (c.hear addr p).2, q.getType = CmdPkg.ADD_BUDDIES := by
  obtain ⟨hudp, hinit⟩ := hl.not_ready (Or.inr htoken)
  obtain ⟨hch, -⟩ := hl.opens.never (Or.inr htoken)
  have hready : usr.udpReady ≠ true := by
    rw [hudp]
    decide
  cases hid : c.userid with
  | none =>
    have hd : c.handleCmdPkg addr (.initializeUdp usr.token.toUInt32) =
        some ({ c with token := some usr.token.toUInt32 }, []) := by
      simp [GpshubClient.handleCmdPkg, hid]
    rw [hear_of_read hp hd]
    refine ⟨⟨ht, ⟨hl.agrees.userid, fun t hs => (Option.some.inj hs).symm, hl.agrees.uid,
      fun hu => absurd hu hready, hl.agrees.ready⟩, ?_⟩, fun q hq => absurd hq List.not_mem_nil⟩
    exact hl.opens.learn (Or.inr htoken) (Or.inl ⟨hch, rfl⟩)
  | some id =>
    have hd : c.handleCmdPkg addr (.initializeUdp usr.token.toUInt32) =
        some ({ c with
          token := some usr.token.toUInt32
          udpInitialized := false
          gpsChannel := some ⟨id, addr⟩
          opened := c.opened + 1 }, []) := by
      simp [GpshubClient.handleCmdPkg, GpshubClient.connectGpsChannel, hid]
    rw [hear_of_read hp hd]
    obtain ⟨oks, inits, rest, hps, hoks, hok, hinits, hcard, hrest⟩ := ht
    refine ⟨⟨.intro oks inits rest hps hoks hok hinits hcard hrest,
      ⟨hl.agrees.userid, fun t hs => (Option.some.inj hs).symm, fun ch hs => ?_,
        fun hu => absurd hu hready, nofun⟩, ?_⟩, fun q hq => absurd hq List.not_mem_nil⟩
    · cases hs
      exact hl.agrees.userid id hid
    · refine hl.opens.learn (Or.inr htoken) (Or.inr ⟨rfl, ?_, by simp⟩)
      simp [hid]

theorem Linked.hear_plain (hl : Linked c sent usr ({p} + ps)) (hp : Plain usr p)
    (ht : Told c usr ps) : Linked (c.hear addr p).1 sent usr ps ∧
      ∀ q ∈ (c.hear addr p).2, q.getType = CmdPkg.ADD_BUDDIES := by
  have hrest : Linked c sent usr ps := ⟨ht, hl.agrees, hl.opens⟩
  have hnil : ∀ q ∈ ([] : List CmdPkg), q.getType = CmdPkg.ADD_BUDDIES := by simp
  cases hp with
  | broken hp =>
    have he : c.hear addr p = ({ c with listening := false }, []) := by
      rw [GpshubClient.hear, hp, Option.bind_none]
    rw [he]
    exact ⟨hrest.of_known rfl rfl rfl rfl hl.agrees.ready, hnil⟩
  | buddiesIds b hp =>
    rw [hear_of_read hp (r := (c, [])) rfl]
    exact ⟨hrest, hnil⟩
  | denied hp =>
    have hd : c.handleCmdPkg addr (.initializeUdpAck 0) = some (c, []) := by
      simp [GpshubClient.handleCmdPkg]
    rw [hear_of_read hp hd]
    exact ⟨hrest, hnil⟩
  | confirmed hp hu =>
    have hd : c.handleCmdPkg addr (.initializeUdpAck 1) =
        some ({ c with udpInitialized := true }, []) := by
      simp [GpshubClient.handleCmdPkg]
    rw [hear_of_read hp hd]
    exact ⟨hrest.of_known rfl rfl rfl rfl fun _ => hu, hnil⟩

/-- Whatever comes next, the client stays linked to its user, and it only sends its list. -/
theorem Linked.hear (hl : Linked c sent usr ({p} + ps)) : Linked (c.hear addr p).1 sent usr ps ∧
    ∀ q ∈ (c.hear addr p).2, q.getType = CmdPkg.ADD_BUDDIES := by
  obtain ⟨oks, inits, rest, hps, hoks, hok, hinits, hinit, hrest⟩ := hl.told
  have hmem : p ∈ oks + inits + rest := hps ▸ Multiset.mem_add.mpr (Or.inl (Multiset.mem_singleton_self p))
  rw [Multiset.singleton_add] at hps
  rcases Multiset.mem_add.mp hmem with hmem | hmem
  · rcases Multiset.mem_add.mp hmem with hmem | hmem
    · obtain ⟨oks, rfl⟩ := Multiset.exists_cons_of_mem hmem
      rw [Multiset.cons_add, Multiset.cons_add, Multiset.cons_inj_right] at hps
      have hid : c.userid = none := by
        by_contra hne
        rw [if_neg hne, Multiset.card_cons] at hok
        omega
      rw [if_pos hid, Multiset.card_cons] at hok
      refine hl.hear_userid hid (hoks p hmem) (.intro oks inits rest hps
        (fun q hq => hoks q (Multiset.mem_cons_of_mem hq)) ?_ hinits hinit hrest)
      simpa using hok
    · obtain ⟨inits, rfl⟩ := Multiset.exists_cons_of_mem hmem
      rw [Multiset.add_cons, Multiset.cons_add, Multiset.cons_inj_right] at hps
      have htoken : c.token = none := by
        by_contra hne
        rw [if_neg hne, Multiset.card_cons] at hinit
        omega
      rw [if_pos htoken, Multiset.card_cons] at hinit
      refine hl.hear_token htoken (hinits p hmem) (.intro oks inits rest hps hoks hok
        (fun q hq => hinits q (Multiset.mem_cons_of_mem hq)) ?_ hrest)
      simpa using hinit
  · obtain ⟨rest, rfl⟩ := Multiset.exists_cons_of_mem hmem
    rw [Multiset.add_cons, Multiset.cons_inj_right] at hps
    exact hl.hear_plain (hrest p hmem) (.intro oks inits rest hps hoks hok hinits hinit
      fun q hq => hrest q (Multiset.mem_cons_of_mem hq))

end Knowledge
end Gpshub
