import Gpshub.Client.Agreement
import Gpshub.Hub.Relay

/-! The positions of a client: what `send_pos` sends, and what the GPS channels of the others read
when the server broadcasts it. -/
namespace Gpshub
open CommandHandler GpsDataServer CoordsBroadcastThread Lib.Machine

/-- The tuple that `send_pos` is given; a number that `htonl` does not take is an exception. -/
structure Position where
  longitude : UInt32
  latitude : UInt32
  altitude : Option UInt32
  deriving DecidableEq

namespace GpsChannel

/-- The datagram that `send_pos` sends. -/
def sendPos (c : GpsChannel) (pos : Position) : List UInt8 :=
  intBytes c.uid ++ intBytes pos.longitude ++ intBytes pos.latitude ++ pos.altitude.elim [] intBytes

/-- What `__decode_pkg` returns. -/
structure Decoded where
  uid : UInt32
  lon : UInt32
  lat : UInt32
  deriving DecidableEq

/-- `read`, when the datagram comes; `none` is `None`, or a `struct.error`. -/
def read (datagram : List UInt8) : Option Decoded := do
  let pkgBytes := datagram.take 4096
  let uid ← CmdChannel.unpackUInt pkgBytes 0
  let lon ← CmdChannel.unpackUInt pkgBytes 4
  let lat ← CmdChannel.unpackUInt pkgBytes 8
  return ⟨uid, lon, lat⟩

end GpsChannel

/-- The position as the server stores it. -/
def Position.coords (pos : Position) : Coordinates where
  longitude := pos.longitude.toInt32
  latitude := pos.latitude.toInt32
  altitude := (pos.altitude.getD 0).toInt32

theorem toint_bytes (pre post : List UInt8) (val : UInt32) :
    toint (pre ++ (intBytes val ++ post)) pre.length = val.toInt32 := by
  rw [toint, touint_intBytes]

theorem decode_sendPos (ch : GpsChannel) (pos : Position) :
    GpsPkg.decode (ch.sendPos pos) = some ⟨ch.uid.toInt32, pos.coords⟩ := by
  have hid : toint (ch.sendPos pos) 0 = ch.uid.toInt32 := by
    simp only [GpsChannel.sendPos, List.append_assoc]
    exact toint_bytes [] _ ch.uid
  have hlon : toint (ch.sendPos pos) 4 = pos.longitude.toInt32 := by
    simp only [GpsChannel.sendPos, List.append_assoc]
    exact toint_bytes (intBytes ch.uid) _ pos.longitude
  have hlat : toint (ch.sendPos pos) 8 = pos.latitude.toInt32 := by
    rw [GpsChannel.sendPos, List.append_assoc]
    exact toint_bytes (intBytes ch.uid ++ intBytes pos.longitude) _ pos.latitude
  rw [GpsPkg.decode, hid, hlon, hlat]
  cases halt : pos.altitude with
  | none =>
    have hlen : (ch.sendPos pos).length = 12 := by
      simp [GpsChannel.sendPos, halt]
    rw [if_pos (Or.inl hlen), altitude, hlen, if_neg (by decide), Position.coords, halt]
    rfl
  | some alt =>
    have hlen : (ch.sendPos pos).length = 16 := by
      simp [GpsChannel.sendPos, halt]
    have hbytes : toint (ch.sendPos pos) 12 = alt.toInt32 := by
      have hat := toint_bytes (intBytes ch.uid ++ intBytes pos.longitude ++ intBytes pos.latitude)
        [] alt
      rw [List.append_nil] at hat
      rw [GpsChannel.sendPos, halt]
      exact hat
    rw [if_pos (Or.inr hlen), altitude, hlen, if_pos rfl, hbytes, Position.coords, halt]
    rfl

/-- A buddy reads the longitude and the latitude; `read` does not look for an altitude. -/
theorem read_coordsPkg (id : Int32) (c : Coordinates) :
    GpsChannel.read (coordsPkg id c) =
      some ⟨id.toUInt32, c.longitude.toUInt32, c.latitude.toUInt32⟩ := by
  have hlen := coordsPkg_length id c
  have hbounds : 12 ≤ (coordsPkg id c).length ∧ (coordsPkg id c).length ≤ 4096 := by
    rw [hlen]
    split_ifs <;> decide
  have hid : touint (coordsPkg id c) 0 = id.toUInt32 := by
    unfold coordsPkg
    simp only [List.append_assoc]
    exact touint_intBytes [] _ id.toUInt32
  have hlon : touint (coordsPkg id c) 4 = c.longitude.toUInt32 := by
    unfold coordsPkg
    simp only [List.append_assoc]
    exact touint_intBytes (intBytes id.toUInt32) _ c.longitude.toUInt32
  have hlat : touint (coordsPkg id c) 8 = c.latitude.toUInt32 := by
    unfold coordsPkg
    rw [List.append_assoc]
    exact touint_intBytes (intBytes id.toUInt32 ++ intBytes c.longitude.toUInt32) _
      c.latitude.toUInt32
  have hunpack (i : ℕ) (hi : i + 4 ≤ 12) :
      CmdChannel.unpackUInt (coordsPkg id c) i = some (touint (coordsPkg id c) i) :=
    if_pos (hi.trans hbounds.1)
  simp only [GpsChannel.read, List.take_of_length_le hbounds.2, hunpack 0 (by decide),
    hunpack 4 (by decide), hunpack 8 (by decide), hid, hlon, hlat, Option.bind_eq_bind,
    Option.bind_some, Option.pure_def]

theorem read_relayed (id : Int32) (pos : Position) :
    GpsChannel.read (coordsPkg id pos.coords) =
      some ⟨id.toUInt32, pos.longitude, pos.latitude⟩ := by
  rw [read_coordsPkg]
  simp [Position.coords]

/-- The client and the hub, with the positions that `send_pos` has been given. -/
structure Posting where
  net : Net
  posted : List Position

inductive PostAction
  | net (a : NetAction)
  | sendPos (pos : Position)

namespace Posting

def step (k : SessionRef) (s : Posting) : PostAction → Option Posting
  | .net a => (s.net.step k a).map fun net => { s with net }
  | .sendPos pos =>
    if s.net.client.gpsChannel.isSome then some { s with posted := s.posted ++ [pos] } else none

/-- Where the datagrams come from that may be taken for positions of the client: from the address
of its channel comes what it has sent, and none comes from the address that a new user happens to
have. -/
def Unspoofed (k : SessionRef) (s : Posting) (theirAddr : SockAddr) (bytes : List UInt8) : Prop :=
  (bytes.take BUF_LEN).length ≠ 8 →
    (∀ ch, s.net.client.gpsChannel = some ch → socketEquals theirAddr ch.addr = true →
      ∃ pos ∈ s.posted, bytes = ch.sendPos pos) ∧
    ∀ u usr, LoggedIn k s.net.hub u usr → usr.udpReady = false →
      socketEquals theirAddr usr.addrUdp = false

def Honest (k : SessionRef) (s : Posting) : PostAction → Prop
  | .net a => Net.Honest k s.net a ∧ ∀ theirAddr bytes env,
      a = .world (.datagram theirAddr bytes, env) → Unspoofed k s theirAddr bytes
  | .sendPos _ => True

/-- The slot that is to be broadcast is not written to, and holds a position that the client has
sent. -/
def Own (posted : List Position) (usr : User) : Prop :=
  ∀ c, usr.ready = some c →
    c ≠ usr.empty ∧ usr.udpReady = true ∧ ∃ pos ∈ posted, usr.slot c = pos.coords

structure Inv (k : SessionRef) (nick : Nick) (s : Posting) : Prop where
  net : Net.Inv k nick s.net
  own : ∀ u usr, s.net.hub.users u = some usr → usr.sock = some k → Own s.posted usr

section Steps

variable {posted : List Position} {usr usr' : User} {h h' : Hub} {u : UserRef}
  {call : Event × Env} {k : SessionRef} {nick : Nick} {s s' : Posting}

theorem Own.more (ho : Own posted usr) (pos : Position) : Own (posted ++ [pos]) usr := by
  intro c hc
  obtain ⟨hne, hready, p, hp, hslot⟩ := ho c hc
  exact ⟨hne, hready, p, List.mem_append_left [pos] hp, hslot⟩

theorem udpReady_stored (usr : User) (c : Coordinates) :
    (usr.stored c).udpReady = usr.udpReady :=
  congrArg Account.udpReady (account_stored usr c)

theorem Own.stored (ho : Own posted usr) {pos : Position} (hpos : pos ∈ posted)
    (hready : usr.udpReady = true) : Own posted (usr.stored pos.coords) := by
  intro c hc
  rw [udpReady_stored, slot_stored]
  rcases ready_stored hc with ⟨rfl, hne⟩ | ⟨hc, hempty⟩
  · refine ⟨hne, hready, pos, hpos, ?_⟩
    rw [Function.update_self]
  · obtain ⟨hne, -, hslot⟩ := ho c hc
    rw [hempty, Function.update_of_ne hne]
    exact ⟨hne, hready, hslot⟩

theorem Own.moved (ho : Own posted usr) (hm : UserMoved h call u usr usr')
    (htaken : ∀ c, takenFrom h call.1 = some (u, c) →
      usr.udpReady = true ∧ ∃ pos ∈ posted, c = pos.coords) : Own posted usr' := by
  cases hm with
  | same | buddies => exact ho
  | address =>
    intro c hc
    obtain ⟨hne, -, hslot⟩ := ho c hc
    exact ⟨hne, rfl, hslot⟩
  | coordinates c hc =>
    obtain ⟨hready, pos, hpos, rfl⟩ := htaken c hc
    exact ho.stored hpos hready
  | reset =>
    intro c hc
    cases hc

theorem stage_user (hst : Net.Stage k nick s.net) (hu : s.net.hub.users u = some usr)
    (hsock : usr.sock = some k) : LoggedIn k s.net.hub u usr ∧ Agrees s.net.client usr := by
  cases hst with
  | asking hs hnone | refused hs hnone => exact absurd hsock (hnone u usr hu)
  | welcomed v w hin hnick hcmds hl =>
    cases hin.only u usr hu hsock
    cases hin.user.symm.trans hu
    exact ⟨hin, hl.agrees⟩

/-- What is taken for the user of the client is a position that the client has sent. -/
theorem taken_own {theirAddr : SockAddr} {bytes : List UInt8} {c : Coordinates}
    (hi : Inv k nick s) (hu : s.net.hub.users u = some usr) (hsock : usr.sock = some k)
    (hspoof : Unspoofed k s theirAddr bytes)
    (ht : takenFrom s.net.hub (.datagram theirAddr bytes) = some (u, c)) :
    usr.udpReady = true ∧ ∃ pos ∈ s.posted, c = pos.coords := by
  obtain ⟨hin, hagrees⟩ := stage_user hi.net.stage hu hsock
  obtain ⟨hlen, -, ⟨usr', hu', haddr⟩, -⟩ := takenFrom_eq_some ht
  cases hu.symm.trans hu'
  have hnot : (bytes.take BUF_LEN).length ≠ 8 := by omega
  obtain ⟨hsent, hjunk⟩ := hspoof hnot
  have hready : usr.udpReady = true := by
    by_contra hne
    have hfalse := hjunk u usr hin (Bool.eq_false_of_not_eq_true hne)
    rw [haddr] at hfalse
    cases hfalse
  obtain ⟨ch, hch, hsame⟩ := hagrees.addr hready
  rw [hsame] at haddr
  obtain ⟨pos, hpos, rfl⟩ := hsent ch hch haddr
  refine ⟨hready, pos, hpos, ?_⟩
  have hdecode := decode_of_taken hi.net.wellFormed ht hu
  have hshort : (ch.sendPos pos).take BUF_LEN = ch.sendPos pos := by
    apply List.take_of_length_le
    cases halt : pos.altitude <;> simp [GpsChannel.sendPos, halt, BUF_LEN]
  rw [hshort, decode_sendPos] at hdecode
  exact (GpsPkg.mk.inj (Option.some.inj hdecode)).2.symm

theorem own_step (hi : Inv k nick s) (hs : s.net.hub.step call = some h')
    (hspoof : ∀ theirAddr bytes, call.1 = .datagram theirAddr bytes →
      Unspoofed k s theirAddr bytes)
    (hu' : h'.users u = some usr') (hsock : usr'.sock = some k) : Own s.posted usr' := by
  rcases step_user hs hu' with ⟨usr, hu, hm⟩ | ⟨-, nick, id, session, rfl⟩
  · have hsame : usr.sock = some k := by
      have hident := congrArg (fun i => i.2.2) hm.ident_eq
      exact hident.symm.trans hsock
    apply (hi.own u usr hu hsame).moved hm
    intro c ht
    obtain ⟨theirAddr, bytes, hev⟩ := event_of_taken ht
    rw [hev] at ht
    exact taken_own hi hu hsame (hspoof theirAddr bytes hev) ht
  · intro c hc
    cases hc

theorem Inv.step {a : PostAction} (hs : s.step k a = some s') (hh : Honest k s a)
    (hi : Inv k nick s) : Inv k nick s' := by
  cases a with
  | net a =>
    obtain ⟨net, hnet, rfl⟩ := Option.map_eq_some_iff.mp hs
    refine ⟨hi.net.step hnet hh.1, fun u usr' hu' hsock => ?_⟩
    cases a with
    | world call =>
      obtain ⟨h', hstep, rfl⟩ := Option.map_eq_some_iff.mp hnet
      apply own_step hi hstep _ hu' hsock
      intro theirAddr bytes hev
      exact hh.2 theirAddr bytes call.2 (congrArg NetAction.world (Prod.ext hev rfl))
    | serve env =>
      simp only [Net.step] at hnet
      split at hnet
      · cases hnet
      · obtain ⟨h', hstep, rfl⟩ := Option.map_eq_some_iff.mp hnet
        apply own_step hi hstep _ hu' hsock
        intro theirAddr bytes hev
        cases hev
    | hear addr =>
      simp only [Net.step] at hnet
      split_ifs at hnet
      obtain ⟨pkg, -, rfl⟩ := Option.map_eq_some_iff.mp hnet
      exact hi.own u usr' hu' hsock
    | initializeUdp =>
      obtain ⟨d, -, rfl⟩ := Option.map_eq_some_iff.mp hnet
      exact hi.own u usr' hu' hsock
  | sendPos pos =>
    simp only [Posting.step] at hs
    split_ifs at hs
    cases hs
    exact ⟨hi.net, fun u usr hu hsock => (hi.own u usr hu hsock).more pos⟩

theorem Inv.connect {h : Hub} (hr : Reachable Hub.step Hub.Booted h) (nick buddies : Nick)
    (addr : SockAddr) : Inv h.nextSession nick ⟨.connect nick buddies addr h, []⟩ where
  net := .connect hr nick buddies addr
  own := by
    intro u usr hu hsock
    obtain ⟨-, -, x, hx, hlt⟩ := (WellFormed.of_reachable hr).user hu
    cases hsock.symm.trans hx
    exact absurd hlt (lt_irrefl _)

end Steps

theorem inv_of_run {h : Hub} (hr : Reachable Hub.step Hub.Booted h) {nick buddies : Nick}
    {addr : SockAddr} {as : List PostAction} {s : Posting}
    (hrun : run (step h.nextSession) ⟨.connect nick buddies addr h, []⟩ as = some s)
    (hg : Guarded (step h.nextSession) (Honest h.nextSession) ⟨.connect nick buddies addr h, []⟩ as) :
    Inv h.nextSession nick s := by
  have hall : Always (step h.nextSession) (Inv h.nextSession nick)
      ⟨.connect nick buddies addr h, []⟩ as :=
    always_of_step (fun _ _ _ _ _ hh hs hi => hi.step hs hh) (always_true _ as) hg
      (.connect hr nick buddies addr)
  exact hall.last hrun

/-- Whenever a position of the client is next to be broadcast, every buddy that the broadcast
reaches reads the id of the client's own channel, and the longitude and latitude of a position
that the client has sent. -/
theorem positions_authentic {h : Hub} (hr : Reachable Hub.step Hub.Booted h) {nick buddies : Nick}
    {addr : SockAddr} {as : List PostAction} {s : Posting}
    (hrun : run (step h.nextSession) ⟨.connect nick buddies addr h, []⟩ as = some s)
    (hg : Guarded (step h.nextSession) (Honest h.nextSession) ⟨.connect nick buddies addr h, []⟩ as)
    {u : UserRef} {usr : User} {c : Coordinates} (hin : LoggedIn h.nextSession s.net.hub u usr)
    (hb : broadcasting s.net.hub = some (u, usr, c)) (env : Env) :
    ∃ pos ∈ s.posted, ∃ ch, s.net.client.gpsChannel = some ch ∧
      (∀ m ∈ posts env s.net.hub, ∃ b theirAddr pkg, m = .position u b theirAddr pkg ∧
        GpsChannel.read pkg = some ⟨ch.uid, pos.longitude, pos.latitude⟩) ∧
      ∀ h', s.net.hub.step (.pull, env) = some h' →
        h'.out = s.net.hub.out ++ (posts env s.net.hub).map Mail.output := by
  have hi := inv_of_run hr hrun hg
  obtain ⟨id, sl, hq, -, hu, hready, rfl⟩ := broadcasting_eq_some.mp hb
  obtain ⟨-, hudp, pos, hpos, hslot⟩ := hi.own u usr hin.user hin.sock sl hready
  have hagrees := (stage_user hi.net.stage hin.user hin.sock).2
  obtain ⟨ch, hch, -⟩ := hagrees.addr hudp
  refine ⟨pos, hpos, ch, hch, fun m hm => ?_, fun h' hs => ?_⟩
  · simp only [posts, hb, List.mem_filterMap] at hm
    obtain ⟨nick, -, hpost⟩ := hm
    obtain ⟨b, buddy, -, -, -, rfl⟩ := post_eq_some.mp hpost
    refine ⟨b, buddy.addrUdp, _, rfl, ?_⟩
    rw [hslot, read_relayed, hagrees.uid ch hch]
  · obtain ⟨rest, hq⟩ := List.head?_eq_some_iff.mp hq
    exact pull_out hq hs

/-- A client that lists itself gives its address, and calls `send_pos`. -/
def dialled : List PostAction :=
  [.net (.serve default), .net (.hear default), .net (.hear default), .net .initializeUdp,
    .net (.world (.datagram default (intBytes 1 ++ intBytes 0), default)), .net (.hear default),
    .net (.serve default), .sendPos ⟨5, 6, none⟩]

/-- The position arrives. -/
def travelling : List PostAction :=
  dialled ++
    [.net (.world (.datagram default (GpsChannel.sendPos ⟨1, default⟩ ⟨5, 6, none⟩), default))]

private theorem honest_dialled :
    Guarded (step 0) (Honest 0) ⟨.connect [97] [97] default .boot, []⟩ dialled := by
  have hwhole : Env.Whole default := fun _ _ => ⟨nofun, nofun⟩
  have hother (s : Posting) (a : NetAction) (ha : Net.Honest 0 s.net a)
      (hw : ∀ call, a ≠ .world call) : Honest 0 s (.net a) :=
    ⟨ha, fun _ _ _ hev => absurd hev (hw _)⟩
  intro s1 h1
  refine ⟨hother _ _ hwhole nofun, fun s2 h2 => ⟨hother _ _ trivial nofun, fun s3 h3 =>
    ⟨hother _ _ trivial nofun, fun s4 h4 => ⟨hother _ _ trivial nofun, fun s5 h5 => ?_⟩⟩⟩⟩
  cases h1
  cases h2
  cases h3
  cases h4
  refine ⟨⟨⟨hwhole, nofun, nofun, fun a bytes he _ => ?_⟩, fun a bytes env he hlen => ?_⟩,
    fun s6 h6 => ⟨hother _ _ trivial nofun, fun s7 h7 => ⟨hother _ _ hwhole nofun, fun s8 h8 =>
      ⟨trivial, trivial⟩⟩⟩⟩
  · cases he
    exact List.mem_singleton.mpr rfl
  · cases he
    exact absurd rfl hlen

private theorem honest_travelling :
    Guarded (step 0) (Honest 0) ⟨.connect [97] [97] default .boot, []⟩ travelling := by
  apply honest_dialled.append
  intro s hr s' _
  have hrun : ∃ t, run (step 0) ⟨.connect [97] [97] default .boot, []⟩ dialled = some t ∧
      t.posted = [⟨5, 6, none⟩] ∧ t.net.client.gpsChannel = some ⟨1, default⟩ ∧
      (t.net.hub.sessions 0).bind Session.user = some 0 ∧
      (t.net.hub.users 0).map User.udpReady = some true :=
    ⟨_, rfl, rfl, by decide +kernel, by decide +kernel, by decide +kernel⟩
  obtain ⟨t, ht, hposted, hch, hses, hudp⟩ := hrun
  cases ht.symm.trans hr
  have hwhole : Env.Whole default := fun _ _ => ⟨nofun, nofun⟩
  refine ⟨⟨⟨hwhole, nofun, nofun, fun a bytes he hacc => ?_⟩, fun a bytes env he _ => ?_⟩, trivial⟩
  · cases he
    obtain ⟨u, usr, hlen, -⟩ := hacc
    exact absurd hlen (by decide)
  · cases he
    refine ⟨fun ch hsome _ => ⟨⟨5, 6, none⟩, ?_, ?_⟩, fun u usr hin hready => ?_⟩
    · rw [hposted]
      exact List.mem_singleton.mpr rfl
    · cases hch.symm.trans hsome
      rfl
    · obtain ⟨session, hsession, hu⟩ := hin.session
      rw [hsession, Option.bind_some, hu] at hses
      cases hses
      rw [hin.user, Option.map_some, hready] at hudp
      cases hudp

theorem positions_authentic_travelling : ∃ s,
    run (step 0) ⟨.connect [97] [97] default .boot, []⟩ travelling = some s ∧
      (posts default s.net.hub).length = 1 ∧ ∃ pos ∈ s.posted, ∃ ch,
        s.net.client.gpsChannel = some ch ∧ ∀ m ∈ posts default s.net.hub, ∃ b theirAddr pkg,
          m = .position 0 b theirAddr pkg ∧
            GpsChannel.read pkg = some ⟨ch.uid, pos.longitude, pos.latitude⟩ := by
  have hrun : ∃ s, run (step 0) ⟨.connect [97] [97] default .boot, []⟩ travelling = some s ∧
      (posts default s.net.hub).length = 1 ∧
      (broadcasting s.net.hub).map (fun b => (b.1, b.2.1.sock)) = some (0, some 0) :=
    ⟨_, rfl, by decide +kernel, by decide +kernel⟩
  obtain ⟨s, hrun, hlen, hb⟩ := hrun
  obtain ⟨⟨u, usr, c⟩, hb, hsame⟩ := Option.map_eq_some_iff.mp hb
  obtain ⟨rfl, hsock⟩ := Prod.mk.inj hsame
  have hboot : Reachable Hub.step Hub.Booted .boot := ⟨.boot, [], rfl, rfl⟩
  have hi := inv_of_run hboot hrun honest_travelling
  obtain ⟨id, sl, -, -, hu, -⟩ := broadcasting_eq_some.mp hb
  have hin := (stage_user hi.net.stage hu hsock).1
  obtain ⟨pos, hpos, ch, hch, hread, -⟩ :=
    positions_authentic hboot hrun honest_travelling hin hb default
  exact ⟨s, hrun, hlen, pos, hpos, ch, hch, hread⟩

end Posting
end Gpshub
