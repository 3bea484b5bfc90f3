import Gpshub.Hub.Broadcast

/-! Where positions are sent: to the host that the TCP connection of the recipient comes from. -/
namespace Gpshub
open CommandServer CommandHandler GpsDataServer CoordsBroadcastThread Lib.Machine

/-- The address family and the IP, without the port. -/
def SockAddr.host (a : SockAddr) : UInt16 × (UInt32 ⊕ BitVec 128) :=
  (a.family, if a.family = AF_INET then .inl a.sinAddr else .inr a.sin6Addr)

theorem ipEquals_iff {a b : SockAddr} : ipEquals a b = true ↔ a.host = b.host := by
  unfold ipEquals SockAddr.host
  split_ifs with hf ha hb hb
  · simp [hf]
  · simp [hf]
  · simp [hf]
  · simp [hf]
  all_goals simp_all

def connectionOf : Event → Option SockAddr
  | .accept addr => some addr
  | _ => none

/-- The peers that connect during the events, in order. -/
def connections (calls : List (Event × Env)) : List SockAddr :=
  calls.filterMap fun call => connectionOf call.1

theorem connections_cons (call : Event × Env) (rest : List (Event × Env)) :
    connections (call :: rest) = (connectionOf call.1).toList ++ connections rest := by
  unfold connections
  rw [List.filterMap_cons]
  cases connectionOf call.1 <;> rfl

section Sockets

variable {h h' : Hub} {call : Event × Env}

theorem deleteSession_addr (s : SessionRef) (session : Session) (h : Hub) (k : SocketRef) :
    ((deleteSession s session h).sockets k).addr = (h.sockets k).addr := by
  unfold deleteSession
  by_cases hk : k = session.sock
  · subst hk
    simp
  · simp [Function.update_of_ne hk]

/-- A step lets the peer in that it accepts, and leaves the addresses of all others alone. -/
theorem sockets_step (hs : h.step call = some h') :
    h'.nextSession = h.nextSession + (connectionOf call.1).toList.length ∧
      (∀ k < h.nextSession, (h'.sockets k).addr = (h.sockets k).addr) ∧
      ∀ addr, connectionOf call.1 = some addr → (h'.sockets h.nextSession).addr = addr := by
  cases step_change hs with
  | accept addr hev =>
    rw [hev]
    refine ⟨rfl, fun k hk => ?_, fun a ha => ?_⟩
    · simp [incomingConnection, Function.update_of_ne hk.ne]
    · cases ha
      simp [incomingConnection]
  | register s pkg session id q o hev hin hses hnick hne hid =>
    rw [hev]
    exact ⟨rfl, fun _ _ => rfl, nofun⟩
  | close s session hev hses hu =>
    rw [hev]
    exact ⟨rfl, fun k _ => deleteSession_addr s session h k, nofun⟩
  | logOut s session u usr hev hses hu husr =>
    rw [hev]
    exact ⟨rfl, fun k _ => deleteSession_addr s session (loggedOut u usr h) k, nofun⟩
  | frame _ hin hclose hf hid hpend =>
    rw [hf.nextSession, hf.sockets]
    have hev : connectionOf call.1 = none := by
      obtain ⟨ev, env⟩ := call
      cases ev with
      | accept addr =>
        have hnext := hf.nextSession
        cases Hub.step_eq_some.mp hs
        exact absurd hnext (Nat.succ_ne_self _)
      | command | writable | close | datagram | timeout | put | pull => rfl
    rw [hev]
    exact ⟨rfl, fun _ _ => rfl, nofun⟩

theorem sockets_run (calls : List (Event × Env)) : ∀ {h h' : Hub},
    run Hub.step h calls = some h' →
      (∀ k < h.nextSession, (h'.sockets k).addr = (h.sockets k).addr) ∧
        ∀ k addr, (connections calls)[k]? = some addr →
          (h'.sockets (h.nextSession + k)).addr = addr := by
  induction calls with
  | nil =>
    intro h h' hr
    cases hr
    exact ⟨fun _ _ => rfl, nofun⟩
  | cons call rest ih =>
    intro h h' hr
    obtain ⟨h1, hs, hr⟩ := run_cons.mp hr
    obtain ⟨hnext, hold, hnew⟩ := sockets_step hs
    obtain ⟨ihold, ihnew⟩ := ih hr
    have hle : h.nextSession ≤ h1.nextSession := hnext ▸ Nat.le_add_right ..
    refine ⟨fun k hk => (ihold k (hk.trans_le hle)).trans (hold k hk), fun k addr hk => ?_⟩
    rw [connections_cons] at hk
    cases hc : connectionOf call.1 with
    | none =>
      rw [hc] at hk hnext
      have hlast := ihnew k addr hk
      rwa [hnext] at hlast
    | some peer =>
      rw [hc] at hk hnext
      cases k with
      | zero =>
        have hpeer : peer = addr := Option.some.inj hk
        rw [Nat.add_zero, ihold h.nextSession (hnext ▸ Nat.lt_succ_self _), hnew peer hc, hpeer]
      | succ k =>
        have hlast := ihnew k addr hk
        rw [hnext, Option.toList_some, List.length_singleton, Nat.add_assoc, Nat.add_comm 1] at hlast
        exact hlast

theorem nextSession_run (calls : List (Event × Env)) : ∀ {h h' : Hub},
    run Hub.step h calls = some h' →
      h'.nextSession = h.nextSession + (connections calls).length := by
  induction calls with
  | nil =>
    intro h h' hr
    cases hr
    rfl
  | cons call rest ih =>
    intro h h' hr
    obtain ⟨h1, hs, hr⟩ := run_cons.mp hr
    obtain ⟨hnext, -⟩ := sockets_step hs
    rw [ih hr, hnext, connections_cons, List.length_append, Nat.add_assoc]

end Sockets

/-- A user that has given its UDP address has given one of the host of its peer. -/
def Addressed (h : Hub) : Prop :=
  ∀ u usr, h.users u = some usr → usr.udpReady = true →
    ∃ sock, usr.sock = some sock ∧ usr.addrUdp.host = (h.sockets sock).addr.host

theorem Addressed.step {h h' : Hub} {call : Event × Env} (hs : h.step call = some h')
    (hwf : WellFormed h) (ha : Addressed h) : Addressed h' := by
  intro u usr' hu' hready
  rcases step_user hs hu' with ⟨usr, hu, hm⟩ | ⟨-, nick, id, session, rfl⟩
  · obtain ⟨-, -, k, hk, hlt⟩ := hwf.user hu
    have haddr : (h'.sockets k).addr = (h.sockets k).addr := (sockets_step hs).2.1 k hlt
    have hold (hr : usr.udpReady = true) : usr.addrUdp.host = (h'.sockets k).addr.host := by
      obtain ⟨sock, hsock, hhost⟩ := ha u usr hu hr
      cases hk.symm.trans hsock
      rw [haddr]
      exact hhost
    cases hm with
    | same | buddies | reset => exact ⟨k, hk, hold hready⟩
    | address theirAddr bytes sock hev hsock hip =>
      cases hk.symm.trans hsock
      refine ⟨k, hk, ?_⟩
      rw [haddr]
      exact (ipEquals_iff.mp hip).symm
    | coordinates c hc =>
      have hsame : (usr.stored c).sock = usr.sock ∧ (usr.stored c).udpReady = usr.udpReady ∧
          (usr.stored c).addrUdp = usr.addrUdp := by
        unfold User.stored
        dsimp only
        split_ifs <;> cases usr.empty <;> exact ⟨rfl, rfl, rfl⟩
      obtain ⟨hsock, hudp, haddrUdp⟩ := hsame
      rw [hudp] at hready
      exact ⟨k, hsock.trans hk, haddrUdp ▸ hold hready⟩
  · cases hready

/-- Every UDP address in use, and every position that is sent to a user, is of the host that
the TCP connection of the user comes from. -/
theorem positions_stay_at_peer {calls : List (Event × Env)} {h : Hub}
    (hr : run Hub.step .boot calls = some h) :
    (∀ u usr, h.users u = some usr → usr.udpReady = true →
      ∃ sock peer, usr.sock = some sock ∧ (connections calls)[sock]? = some peer ∧
        usr.addrUdp.host = peer.host) ∧
    ∀ env h', h.step (.pull, env) = some h' → ∃ mail : List Mail,
      h'.out = h.out ++ mail.map Mail.output ∧
      ∀ m ∈ mail, ∃ u b addr bytes buddy sock peer, m = .position u b addr bytes ∧
        h.users b = some buddy ∧ buddy.sock = some sock ∧
        (connections calls)[sock]? = some peer ∧ addr.host = peer.host := by
  obtain ⟨hwf, ha⟩ : WellFormed h ∧ Addressed h :=
    run_of_inv (I := fun h => WellFormed h ∧ Addressed h)
      (fun _ _ _ hs hi => ⟨hi.1.step hs, hi.2.step hs hi.1⟩) hr ⟨.boot, fun _ _ hu => nomatch hu⟩
  have hpeer (u : UserRef) (usr : User) (hu : h.users u = some usr) (hready : usr.udpReady = true) :
      ∃ sock peer, usr.sock = some sock ∧ (connections calls)[sock]? = some peer ∧
        usr.addrUdp.host = peer.host := by
    obtain ⟨sock, hsock, hhost⟩ := ha u usr hu hready
    obtain ⟨-, -, k, hk, hlt⟩ := hwf.user hu
    cases hsock.symm.trans hk
    have hlen : sock < (connections calls).length := by
      rwa [nextSession_run calls hr, show Hub.boot.nextSession = 0 from rfl, Nat.zero_add] at hlt
    refine ⟨sock, (connections calls)[sock], hsock, List.getElem?_eq_getElem hlen, ?_⟩
    have haddr := (sockets_run calls hr).2 sock _ (List.getElem?_eq_getElem hlen)
    rw [show Hub.boot.nextSession = 0 from rfl, Nat.zero_add] at haddr
    rw [hhost, haddr]
  refine ⟨hpeer, fun env h' hs => ?_⟩
  cases hq : h.uqueue with
  | nil =>
    have he := Hub.step_eq_some.mp hs
    simp only [Hub.dispatch, hq] at he
    cases he
  | cons id rest =>
    refine ⟨posts env h, pull_out hq hs, fun m hm => ?_⟩
    unfold posts at hm
    cases hb : broadcasting h with
    | none =>
      rw [hb] at hm
      cases hm
    | some p =>
      obtain ⟨u, usr, coords⟩ := p
      rw [hb] at hm
      obtain ⟨nick, -, hpost⟩ := List.mem_filterMap.mp hm
      obtain ⟨b, buddy, -, hbuddy, hready, rfl⟩ := post_eq_some.mp hpost
      obtain ⟨sock, peer, hsock, hconn, hhost⟩ := hpeer b buddy hbuddy hready
      exact ⟨u, b, _, _, buddy, sock, peer, rfl, hbuddy, hsock, hconn, hhost⟩

theorem positions_stay_at_peer_two : ∃ h, run Hub.step .boot sharing = some h ∧
    (h.users 1).map User.udpReady = some true ∧
    ∀ u usr, h.users u = some usr → usr.udpReady = true →
      ∃ sock peer, usr.sock = some sock ∧ (connections sharing)[sock]? = some peer ∧
        usr.addrUdp.host = peer.host :=
  ⟨_, rfl, by decide +kernel, (@positions_stay_at_peer sharing _ rfl).1⟩

end Gpshub
