import Gpshub.Hub.Datagrams
import Gpshub.Threads.Step

/-! Everything the GPS thread and a broadcast thread can do in one step. -/
namespace Gpshub.Threads
open CommandServer CommandHandler GpsDataServer CoordsBroadcastThread

/-- A lookup in `id_umap`, with what it leaves behind. -/
def lookUp (h : Hub) (id : Int32) : Hub := { h with idUmap := (h.idUmap.get id).2 }

inductive GpsMoved (env : Env) (h : Hub) : GpsPc → GpsPc → Hub → List Note → Prop
  | coordNone (hm : h.idUmap.pointsTo i = none) :
    GpsMoved env h (.getCoord theirAddr i c) .flush (lookUp h i) []
  | coordFound (hm : h.idUmap.pointsTo i = some u) :
    GpsMoved env h (.getCoord theirAddr i c) (.coord theirAddr i c u .check) (lookUp h i) []
  | reject (hu : h.users u = some usr) (hne : socketEquals theirAddr usr.addrUdp = false) :
    GpsMoved env h (.coord theirAddr i c u .check) (.coord theirAddr i c u .warn) h []
  | allow (hu : h.users u = some usr) (heq : socketEquals theirAddr usr.addrUdp = true) :
    GpsMoved env h (.coord theirAddr i c u .check) (.coord theirAddr i c u .lon) h []
  | warn (hu : h.users u = some usr) :
    GpsMoved env h (.coord theirAddr i c u .warn) .flush h []
  | lon (hu : h.users u = some usr) :
    GpsMoved env h (.coord theirAddr i c u .lon) (.coord theirAddr i c u .lat)
      (h.setUser u (usr.setLongitude c.longitude)) []
  | lat (hu : h.users u = some usr) :
    GpsMoved env h (.coord theirAddr i c u .lat) (.coord theirAddr i c u .alt)
      (h.setUser u (usr.setLatitude c.latitude)) []
  | alt (hu : h.users u = some usr) :
    GpsMoved env h (.coord theirAddr i c u .alt) (.coord theirAddr i c u .ready)
      (h.setUser u (usr.setAltitude c.altitude)) []
  | skip (hu : h.users u = some usr) (hr : usr.ready ≠ none) :
    GpsMoved env h (.coord theirAddr i c u .ready) .flush h [.accepted u c false]
  | decide (hu : h.users u = some usr) (hr : usr.ready = none) :
    GpsMoved env h (.coord theirAddr i c u .ready) (.coord theirAddr i c u .set) h []
  | publish (hu : h.users u = some usr) :
    GpsMoved env h (.coord theirAddr i c u .set) (.coord theirAddr i c u .swap)
      (h.setUser u (usr.setReady (some usr.empty))) [.accepted u c true]
  | swap (hu : h.users u = some usr) :
    GpsMoved env h (.coord theirAddr i c u .swap) (.put i) (h.setUser u usr.swapEmpty) []
  | put : GpsMoved env h (.put i) .flush { h with uqueue := h.uqueue ++ [i] } []
  | initNone (hm : h.idUmap.pointsTo i = none) :
    GpsMoved env h (.getInit theirAddr i token) .flush (lookUp h i) []
  | initFound (hm : h.idUmap.pointsTo i = some u) :
    GpsMoved env h (.getInit theirAddr i token) (.init theirAddr token u .token)
      (lookUp h i) []
  | badToken (hu : h.users u = some usr) (hne : token ≠ usr.token) :
    GpsMoved env h (.init theirAddr token u .token) (.init theirAddr token u (.ack 0)) h []
  | goodToken (hu : h.users u = some usr) (heq : token = usr.token) :
    GpsMoved env h (.init theirAddr token u .token) (.init theirAddr token u .ip) h []
  | badIp (hu : h.users u = some usr) :
    GpsMoved env h (.init theirAddr token u .ip) (.init theirAddr token u (.ack 0)) h []
  | goodIp {sock : SocketRef} (hu : h.users u = some usr) (hs : usr.sock = some sock)
      (heq : ipEquals (h.sockets sock).addr theirAddr = true) :
    GpsMoved env h (.init theirAddr token u .ip) (.init theirAddr token u .set) h []
  | set (hu : h.users u = some usr) :
    GpsMoved env h (.init theirAddr token u .set) (.init theirAddr token u (.ack 1))
      (h.setUser u (usr.setAddrUdp theirAddr)) [.initAddr u theirAddr token]
  | ack (status : UInt8) (q : List PendingCmd) (o : List Output) (hu : h.users u = some usr) :
    GpsMoved env h (.init theirAddr token u (.ack status)) .flush
      { h with pendingCmdQueue := q, out := o } []
  | flush (q : List PendingCmd) (o : List Output) :
    GpsMoved env h .flush .idle { h with pendingCmdQueue := q, out := o } []

section Gps

variable {env : Env} {h h' : Hub} {pc pc' : GpsPc} {notes : List Note} {theirAddr : SockAddr}
  {id token : Int32} {c : Coordinates} {u : UserRef} {usr : User}

theorem sendUdpInitAck_eq_ok {status : UInt8} (he : sendUdpInitAck env u status h = .ok h') :
    ∃ q o, h' = { h with pendingCmdQueue := q, out := o } := by
  obtain ⟨usr, sock, -, -, ha⟩ := sendUdpInitAck_acked he
  cases ha with
  | sent => exact ⟨h.pendingCmdQueue, _, rfl⟩
  | putOff => exact ⟨_, h.out, rfl⟩

private theorem coordStep_moved {cpc : CoordPc} (hu : h.users u = some usr)
    (he : coordStep theirAddr id c u usr h cpc = (pc', h', notes)) :
    GpsMoved env h (.coord theirAddr id c u cpc) pc' h' notes := by
  cases cpc with
  | check =>
    simp only [coordStep, ite_not] at he
    split_ifs at he with heq
    · cases he
      exact .allow hu heq
    · cases he
      exact .reject hu (eq_false_of_ne_true heq)
  | warn => cases he; exact .warn hu
  | lon => cases he; exact .lon hu
  | lat => cases he; exact .lat hu
  | alt => cases he; exact .alt hu
  | ready =>
    simp only [coordStep] at he
    split_ifs at he with hr
    · cases he
      exact .decide hu hr
    · cases he
      exact .skip hu hr
  | set => cases he; exact .publish hu
  | swap => cases he; exact .swap hu

private theorem initStep_moved {ipc : InitPc} (hu : h.users u = some usr)
    (he : initStep env theirAddr token u usr h ipc = .ok (pc', h', notes)) :
    GpsMoved env h (.init theirAddr token u ipc) pc' h' notes := by
  cases ipc with
  | token =>
    simp only [initStep, ne_eq, ite_not] at he
    split_ifs at he with heq
    · cases he
      exact .goodToken hu heq
    · cases he
      exact .badToken hu heq
  | ip =>
    obtain ⟨sock, hs, he⟩ := bind_eq_ok.mp he
    rw [ite_not] at he
    split_ifs at he with heq
    · cases he
      exact .goodIp hu (notNull_eq_ok.mp hs) heq
    · cases he
      exact .badIp hu
  | set => cases he; exact .set hu
  | ack status =>
    obtain ⟨h1, h1e, he⟩ := bind_eq_ok.mp he
    obtain ⟨q, o, rfl⟩ := sendUdpInitAck_eq_ok h1e
    cases he
    exact .ack status q o hu

theorem gpsStep_moved (hi : pc ≠ .idle) (he : gpsStep env h pc = .ok (pc', h', notes)) :
    GpsMoved env h pc pc' h' notes := by
  cases pc with
  | idle => exact absurd rfl hi
  | getCoord theirAddr id c =>
    have hm := SyncHashMap.pointsTo_of_get h.idUmap id
    unfold gpsStep at he
    dsimp only at he
    split at he
    · rename_i hp
      cases he
      exact .coordNone (hm.trans hp)
    · rename_i u hp
      cases he
      exact .coordFound (hm.trans hp)
  | coord theirAddr id c u cpc =>
    obtain ⟨usr, hu, he⟩ := bind_eq_ok.mp he
    exact coordStep_moved (Hub.deref_eq_ok.mp hu) (Except.ok.inj he)
  | put id => cases he; exact .put
  | getInit theirAddr id token =>
    have hm := SyncHashMap.pointsTo_of_get h.idUmap id
    unfold gpsStep at he
    dsimp only at he
    split at he
    · rename_i hp
      cases he
      exact .initNone (hm.trans hp)
    · rename_i u hp
      cases he
      exact .initFound (hm.trans hp)
  | init theirAddr token u ipc =>
    obtain ⟨usr, hu, he⟩ := bind_eq_ok.mp he
    exact initStep_moved (Hub.deref_eq_ok.mp hu) he
  | flush =>
    obtain ⟨h1, h1e, he⟩ := bind_eq_ok.mp he
    obtain ⟨⟨kept, sent⟩, -, h1e⟩ := bind_eq_ok.mp h1e
    cases h1e
    cases he
    exact .flush _ _

end Gps

inductive ThreadMoved (env : Env) (h : Hub) : ThreadPc → ThreadPc → Hub → List Note → Prop
  | again : ThreadMoved env h .test .pull h []
  | leave : ThreadMoved env h .test .exited h []
  | pull {ids : List Int32} (hq : h.uqueue = i :: ids) :
    ThreadMoved env h .pull (.lookup i) { h with uqueue := ids } []
  | unknown (hm : h.idUmap.pointsTo i = none) :
    ThreadMoved env h (.lookup i) .test (lookUp h i) []
  | found (hm : h.idUmap.pointsTo i = some u) :
    ThreadMoved env h (.lookup i) (.turn i u .load) (lookUp h i) []
  | miss (hu : h.users u = some usr) (hr : usr.ready = none) :
    ThreadMoved env h (.turn i u .load) .test h []
  | load (hu : h.users u = some usr) (hr : usr.ready = some c) :
    ThreadMoved env h (.turn i u .load) (.turn i u (.copyLon c)) h []
  | copyLon (hu : h.users u = some usr) :
    ThreadMoved env h (.turn i u (.copyLon c))
      (.turn i u (.copyLat c (usr.slot c).longitude)) h []
  | copyLat (hu : h.users u = some usr) :
    ThreadMoved env h (.turn i u (.copyLat c lon))
      (.turn i u (.copyAlt c lon (usr.slot c).latitude)) h []
  | copyAlt (hu : h.users u = some usr) :
    ThreadMoved env h (.turn i u (.copyAlt c lon lat))
      (.turn i u (.call c ⟨lon, lat, (usr.slot c).altitude⟩)) h []
  | call (hu : h.users u = some usr) :
    ThreadMoved env h (.turn i u (.call c coords))
      (.turn i u (.each coords (iterate env usr.buddies))) h [.broadcast u coords]
  | last : ThreadMoved env h (.turn i u (.each coords [])) (.turn i u .reset) h []
  | taken (hc : 0 < h.nickUmap.count nick) :
    ThreadMoved env h (.turn i u (.each coords (nick :: rest)))
      (.turn i u (.get coords nick rest)) h []
  | free (hc : h.nickUmap.count nick = 0) :
    ThreadMoved env h (.turn i u (.each coords (nick :: rest)))
      (.turn i u (.each coords rest)) h []
  | get :
    ThreadMoved env h (.turn i u (.get coords nick rest))
      (.turn i u (.udpReady coords (h.nickUmap.get nick).1 rest))
      { h with nickUmap := (h.nickUmap.get nick).2 } []
  | notReady (hb : h.users b = some usr) (hr : usr.udpReady = false) :
    ThreadMoved env h (.turn i u (.udpReady coords (some b) rest))
      (.turn i u (.each coords rest)) h []
  | isReady (hb : h.users b = some usr) (hr : usr.udpReady = true) :
    ThreadMoved env h (.turn i u (.udpReady coords (some b) rest))
      (.turn i u (.pack coords b rest)) h []
  | pack (hu : h.users u = some usr) :
    ThreadMoved env h (.turn i u (.pack coords b rest))
      (.turn i u (.sendto coords b (coordsPkg usr.id coords) rest)) h []
  | sendto {buf : List UInt8} (hb : h.users b = some usr) :
    ThreadMoved env h (.turn i u (.sendto coords b buf rest))
      (.turn i u (.each coords rest)) (h.emit (.udp usr.addrUdp buf)) []
  | reset (hu : h.users u = some usr) :
    ThreadMoved env h (.turn i u .reset) .test (h.setUser u (usr.setReady none)) []

section Broadcast

variable {env : Env} {loop : Bool} {h h' : Hub} {pc pc' : ThreadPc} {notes : List Note}
  {id : Int32} {u : UserRef}

private theorem turnStep_moved {tpc : TurnPc} (he : turnStep env id u h tpc = .ok (pc', h', notes)) :
    ThreadMoved env h (.turn id u tpc) pc' h' notes := by
  cases tpc with
  | load =>
    obtain ⟨usr, hu, he⟩ := bind_eq_ok.mp he
    cases hr : usr.ready with
    | none =>
      rw [hr] at he
      cases he
      exact .miss (Hub.deref_eq_ok.mp hu) hr
    | some c =>
      rw [hr] at he
      cases he
      exact .load (Hub.deref_eq_ok.mp hu) hr
  | copyLon c =>
    obtain ⟨usr, hu, he⟩ := bind_eq_ok.mp he
    cases he
    exact .copyLon (Hub.deref_eq_ok.mp hu)
  | copyLat c lon =>
    obtain ⟨usr, hu, he⟩ := bind_eq_ok.mp he
    cases he
    exact .copyLat (Hub.deref_eq_ok.mp hu)
  | copyAlt c lon lat =>
    obtain ⟨usr, hu, he⟩ := bind_eq_ok.mp he
    cases he
    exact .copyAlt (Hub.deref_eq_ok.mp hu)
  | call c coords =>
    obtain ⟨usr, hu, he⟩ := bind_eq_ok.mp he
    cases he
    exact .call (Hub.deref_eq_ok.mp hu)
  | each coords nicks =>
    cases nicks with
    | nil => cases he; exact .last
    | cons nick rest =>
      simp only [turnStep] at he
      split_ifs at he with hc
      · cases he
        exact .taken hc
      · cases he
        exact .free (Nat.eq_zero_of_not_pos hc)
  | get coords nick rest => cases he; exact .get
  | udpReady coords ptr rest =>
    obtain ⟨b, hp, he⟩ := bind_eq_ok.mp he
    obtain ⟨usr, hb, he⟩ := bind_eq_ok.mp he
    rw [notNull_eq_ok.mp hp]
    rw [ite_not] at he
    split_ifs at he with hr
    · cases he
      exact .isReady (Hub.deref_eq_ok.mp hb) hr
    · cases he
      exact .notReady (Hub.deref_eq_ok.mp hb) (eq_false_of_ne_true hr)
  | pack coords b rest =>
    obtain ⟨usr, hu, he⟩ := bind_eq_ok.mp he
    cases he
    exact .pack (Hub.deref_eq_ok.mp hu)
  | sendto coords b buf rest =>
    obtain ⟨usr, hb, he⟩ := bind_eq_ok.mp he
    split_ifs at he
    · cases he
      exact .sendto (Hub.deref_eq_ok.mp hb)
  | reset =>
    obtain ⟨usr, hu, he⟩ := bind_eq_ok.mp he
    cases he
    exact .reset (Hub.deref_eq_ok.mp hu)

theorem threadStep_moved (hb : Thread.blocked ⟨loop, pc⟩ h = false)
    (he : threadStep env loop h pc = .ok (pc', h', notes)) :
    ThreadMoved env h pc pc' h' notes := by
  cases pc with
  | test =>
    unfold threadStep at he
    split_ifs at he
    · cases he
      exact .again
    · cases he
      exact .leave
  | pull =>
    unfold threadStep at he
    cases hq : h.uqueue with
    | nil => simp [Thread.blocked, hq] at hb
    | cons id ids =>
      rw [hq] at he
      cases he
      exact .pull hq
  | lookup id =>
    have hm := SyncHashMap.pointsTo_of_get h.idUmap id
    unfold threadStep at he
    dsimp only at he
    split at he
    · rename_i hp
      cases he
      exact .unknown (hm.trans hp)
    · rename_i u hp
      cases he
      exact .found (hm.trans hp)
  | turn id u tpc => exact turnStep_moved he
  | exited => simp [Thread.blocked] at hb

end Broadcast

end Gpshub.Threads
