import Gpshub.Threads.Pointers

/-! Which datagrams may move a user: those from the address that the user itself has given
with its token. -/
namespace Gpshub.Threads
open CommandServer CommandHandler Lib.Machine

variable {n : ℕ}

/-- `initAddrUdp` has stored the address for the user: the token in the datagram was the one
that `registerNick` had given to the user, and the IP was that of its TCP peer. -/
structure Initialised (s : System n) (u : UserRef) (addr : SockAddr) : Prop where
  token : ∃ token before after, s.hist = before ++ .initAddr u addr token :: after ∧
    .token u token ∈ before
  ip : ∀ usr ∈ s.hub.users u, ∀ k ∈ usr.sock, ipEquals (s.hub.sockets k).addr addr

/-- Points at which the datagram has passed the test of its source. -/
def CoordPc.passed : CoordPc → Bool
  | .check => false
  | .warn => false
  | _ => true

/-- Whenever the GPS thread writes to a slot of a user, the datagram comes from an address that
`initAddrUdp` has stored for that user. -/
def WritesAuthorised (s : System n) : Prop :=
  ∀ theirAddr i c u pc, s.gps = .coord theirAddr i c u pc → pc.passed →
    ∃ addr, socketEquals theirAddr addr ∧ Initialised s u addr

/-- `registerNick` has given the user its token. -/
def TokenSet (s : System n) (u : UserRef) : Prop := ∃ t, Note.token u t ∈ s.hist

def Note.gives (u : UserRef) : Note → Bool
  | .token v _ => v = u
  | _ => false

instance (s : System n) (u : UserRef) : Decidable (TokenSet s u) :=
  decidable_of_iff (∃ note ∈ s.hist, note.gives u) <| by
    constructor
    · rintro ⟨note, hm, hg⟩
      cases note with
      | token v t =>
        cases of_decide_eq_true hg
        exact ⟨t, hm⟩
      | accepted | broadcast | initAddr => cases hg
    · rintro ⟨t, hm⟩
      exact ⟨_, hm, decide_eq_true rfl⟩

/-- `processCoordinates` is about to compare the source with `addr_udp`. -/
def GpsPc.comparesAddr : GpsPc → Option (SockAddr × UserRef)
  | .coord theirAddr _ _ u .check => some (theirAddr, u)
  | _ => none

/-- `initAddrUdp` is about to compare the token. -/
def GpsPc.comparesToken : GpsPc → Option (SockAddr × Int32 × UserRef)
  | .init theirAddr token u .token => some (theirAddr, token, u)
  | _ => none

/-- No source equals the `addr_udp` of a user that has given no address, and no token from the
IP of a user equals its `token` before it has one. -/
def ComparesSet (s : System n) (a : Action n) : Prop :=
  a.isGps →
    (∀ p ∈ s.gps.comparesAddr, ∀ usr ∈ s.hub.users p.2,
      socketEquals p.1 usr.addrUdp → usr.udpReady) ∧
    ∀ p ∈ s.gps.comparesToken, ∀ usr ∈ s.hub.users p.2.2, p.2.1 = usr.token →
      ∀ k ∈ usr.sock, ipEquals (s.hub.sockets k).addr p.1 → TokenSet s p.2.2

instance (s : System n) (a : Action n) : Decidable (ComparesSet s a) :=
  inferInstanceAs (Decidable (_ → _ ∧ _))

structure Genuine (s : System n) : Prop where
  token : ∀ u, TokenSet s u → ∀ usr ∈ s.hub.users u, .token u usr.token ∈ s.hist
  ready : ∀ u, ∀ usr ∈ s.hub.users u, usr.udpReady → Initialised s u usr.addrUdp
  ip : ∀ a t u, s.gps = .init a t u .ip → ∀ usr ∈ s.hub.users u, ∀ k ∈ usr.sock,
    ipEquals (s.hub.sockets k).addr a → .token u t ∈ s.hist
  set : ∀ a t u, s.gps = .init a t u .set → .token u t ∈ s.hist ∧
    ∀ usr ∈ s.hub.users u, ∀ k ∈ usr.sock, ipEquals (s.hub.sockets k).addr a
  writes : WritesAuthorised s

/-- Notes are only added, and the peer of a user stays who it is. -/
structure Grows (s s' : System n) : Prop where
  hist : ∃ notes, s'.hist = s.hist ++ notes
  sock : ∀ u < s.hub.nextUser, ∀ usr' ∈ s'.hub.users u, ∀ k ∈ usr'.sock,
    ∃ usr ∈ s.hub.users u, k ∈ usr.sock ∧ (s'.hub.sockets k).addr = (s.hub.sockets k).addr

section Steps

variable {s s' : System n} {env : Env} {h h' : Hub} {notes : List Note} {u : UserRef}

theorem Grows.mem (hg : Grows s s') {note : Note} (hm : note ∈ s.hist) : note ∈ s'.hist := by
  obtain ⟨notes, he⟩ := hg.hist
  rw [he]
  exact List.mem_append_left _ hm

theorem Initialised.grow {addr : SockAddr} (hi : Initialised s u addr)
    (hu : u < s.hub.nextUser) (hg : Grows s s') : Initialised s' u addr where
  token := by
    obtain ⟨token, before, after, he, hm⟩ := hi.token
    obtain ⟨notes, he'⟩ := hg.hist
    exact ⟨token, before, after ++ notes, by rw [he', he, List.append_assoc]; rfl, hm⟩
  ip := by
    intro usr' hu' k hk
    obtain ⟨usr, husr, hks, haddr⟩ := hg.sock u hu usr' hu' k hk
    rw [haddr]
    exact hi.ip usr husr k hks

private theorem setUser_addr {usr new usr' : User} {r : UserRef}
    (hu' : (h.setUser u new).users r = some usr') (hu : h.users u = some usr)
    (hacc : account usr = account new)
    (hsame : new.udpReady = usr.udpReady ∧ new.addrUdp = usr.addrUdp) :
    ∃ usr, h.users r = some usr ∧ account usr = account usr' ∧
      usr'.udpReady = usr.udpReady ∧ usr'.addrUdp = usr.addrUdp := by
  change Function.update h.users u _ r = some usr' at hu'
  rcases Lib.of_update_some hu' with ⟨rfl, rfl⟩ | ⟨-, hu'⟩
  · exact ⟨usr, hu, hacc, hsame⟩
  · exact ⟨usr', hu', rfl, rfl, rfl⟩

private theorem setSlot_addr (usr : User) (c : Slot) (x : Coordinates) :
    account usr = account (usr.setSlot c x) ∧ (usr.setSlot c x).udpReady = usr.udpReady ∧
      (usr.setSlot c x).addrUdp = usr.addrUdp := by
  cases c <;> exact ⟨rfl, rfl, rfl⟩

theorem GpsMoved.addr {pc pc' : GpsPc} {usr' : User} (hm : GpsMoved env h pc pc' h' notes)
    (hu' : h'.users u = some usr') : ∃ usr, h.users u = some usr ∧ account usr = account usr' ∧
      (usr'.udpReady = usr.udpReady ∧ usr'.addrUdp = usr.addrUdp ∨
        ∃ t, pc = .init usr'.addrUdp t u .set ∧ notes = [.initAddr u usr'.addrUdp t]) := by
  cases hm with
  | lon hu | lat hu | alt hu =>
    obtain ⟨usr, hu, hacc, hsame⟩ := setUser_addr hu' hu (setSlot_addr ..).1 (setSlot_addr ..).2
    exact ⟨usr, hu, hacc, Or.inl hsame⟩
  | publish hu | swap hu =>
    obtain ⟨usr, hu, hacc, hsame⟩ := setUser_addr hu' hu rfl ⟨rfl, rfl⟩
    exact ⟨usr, hu, hacc, Or.inl hsame⟩
  | @set v usr a t hv =>
    change Function.update h.users v _ u = some usr' at hu'
    rcases Lib.of_update_some hu' with ⟨rfl, rfl⟩ | ⟨-, hu'⟩
    · exact ⟨usr, hv, rfl, Or.inr ⟨t, rfl, rfl⟩⟩
    · exact ⟨usr', hu', rfl, Or.inl ⟨rfl, rfl⟩⟩
  | coordNone | coordFound | reject | allow | warn | skip | decide | put | initNone | initFound
  | badToken | goodToken | badIp | goodIp | ack | flush =>
    exact ⟨usr', hu', rfl, Or.inl ⟨rfl, rfl⟩⟩

theorem ThreadMoved.addr {pc pc' : ThreadPc} {usr' : User}
    (hm : ThreadMoved env h pc pc' h' notes) (hu' : h'.users u = some usr') :
    ∃ usr, h.users u = some usr ∧ account usr = account usr' ∧
      usr'.udpReady = usr.udpReady ∧ usr'.addrUdp = usr.addrUdp := by
  cases hm with
  | reset hu => exact setUser_addr hu' hu rfl ⟨rfl, rfl⟩
  | again | leave | pull | unknown | found | miss | load | copyLon | copyLat | copyAlt | call
  | last | taken | free | get | notReady | isReady | pack | sendto =>
    exact ⟨usr', hu', rfl, rfl, rfl⟩

theorem GpsMoved.no_token {pc pc' : GpsPc} (hm : GpsMoved env h pc pc' h' notes) {t : Int32} :
    .token u t ∉ notes := by
  cases hm <;> simp

theorem ThreadMoved.no_token {pc pc' : ThreadPc} (hm : ThreadMoved env h pc pc' h' notes)
    {t : Int32} : .token u t ∉ notes := by
  cases hm <;> simp

theorem CmdMoved.sockets {pc pc' : CmdPc} (hm : CmdMoved env h pc pc' h' notes) (k : SocketRef) :
    (h'.sockets k).addr = (h.sockets k).addr := by
  cases hm with
  | aside ha => rw [ha.sockets]
  | @close s session hs =>
    change (Function.update h.sockets session.sock _ k).addr = _
    by_cases hk : k = session.sock
    · subst hk
      rw [Function.update_self]
    · rw [Function.update_of_ne hk]
  | create | putNick | putId | store | token | get | read | eraseId | eraseNick | delete => rfl

private theorem Grows.calm (hc : Calm s.hub s'.hub) (hh : s'.hist = s.hist ++ notes) :
    Grows s s' where
  hist := ⟨notes, hh⟩
  sock := by
    intro u _ usr' hu' k hk
    obtain ⟨usr, hu, ha⟩ := hc.before hu'
    rw [hc.sockets]
    exact ⟨usr, hu, (account_eq ha).2.2.1 ▸ hk, rfl⟩

private theorem Grows.cmd {pc : CmdPc} (hm : CmdMoved env s.hub s.cmd pc h' notes) :
    Grows s { s with cmd := pc, hub := h', hist := s.hist ++ notes } where
  hist := ⟨notes, rfl⟩
  sock := by
    intro u hlt usr' hu' k hk
    obtain ⟨usr, hu, hcore⟩ := hm.before hlt.ne hu'
    have hsock : usr.sock = usr'.sock :=
      show (core usr).sock = (core usr').sock from congrArg User.sock hcore
    exact ⟨usr, hu, hsock ▸ hk, hm.sockets k⟩

private theorem Grows.accept (hw : Consistent s.hub s.cmd) (addr : SockAddr) :
    Grows s { s with hub := incomingConnection addr s.hub } where
  hist := ⟨[], (List.append_nil _).symm⟩
  sock := by
    intro u _ usr hu k hk
    obtain ⟨-, -, x, hx, hlt⟩ := hw.user hu
    cases hx.symm.trans hk
    refine ⟨usr, hu, hk, ?_⟩
    change (Function.update s.hub.sockets s.hub.nextSession _ k).addr = _
    rw [Function.update_of_ne hlt.ne]

end Steps

namespace Genuine

variable {s s' : System n} {env : Env} {hub : Hub} {notes : List Note}

theorem boot : Genuine (System.boot n) where
  token _ _ _ hu := nomatch hu
  ready _ _ hu := nomatch hu
  ip _ _ _ he := nomatch he
  set _ _ _ he := nomatch he
  writes _ _ _ _ _ he := nomatch he

private theorem gps_step {pc : GpsPc} (h : Genuine s) (hw : Consistent s.hub s.cmd)
    (hb : Bounded s) (hg : ComparesSet s (.gps env)) (hm : GpsMoved env s.hub s.gps pc hub notes) :
    Genuine { s with gps := pc, hub, hist := s.hist ++ notes } := by
  have hgrow : Grows s { s with gps := pc, hub, hist := s.hist ++ notes } := .calm hm.calm rfl
  have hlt (u : UserRef) (hu : s.gps.user = some u) : u < s.hub.nextUser := hb.gps u hu
  obtain ⟨haddr, htoken⟩ := hg rfl
  constructor
  · intro u ⟨t, ht⟩ usr' hu'
    obtain ⟨usr, hu, hacc, -⟩ := hm.addr hu'
    have hset : TokenSet s u := ⟨t, (List.mem_append.mp ht).resolve_right hm.no_token⟩
    rw [← (account_eq hacc).2.2.2]
    exact hgrow.mem (h.token u hset usr hu)
  · intro u usr' hu' hready
    obtain ⟨usr, hu, hacc, hsame | ⟨t, hpc, hn⟩⟩ := hm.addr hu'
    · rw [hsame.2]
      exact (h.ready u usr hu (hsame.1 ▸ hready)).grow (hw.user hu).1 hgrow
    · obtain ⟨ht, hip⟩ := h.set _ _ _ hpc
      refine ⟨⟨t, s.hist, [], congrArg (s.hist ++ ·) hn, ht⟩, fun usr2 hu2 k hk => ?_⟩
      obtain ⟨usr3, hu3, hk3, ha3⟩ := hgrow.sock u (hlt u (by rw [hpc]; rfl)) usr2 hu2 k hk
      rw [ha3]
      exact hip usr3 hu3 k hk3
  · intro a t u he usr hu k hk hip
    change pc = _ at he
    generalize hgps : s.gps = g at hm htoken
    cases hm with
    | goodToken husr heq =>
      cases he
      cases husr.symm.trans hu
      have hset := htoken _ rfl usr hu heq k hk hip
      exact hgrow.mem (heq ▸ h.token u hset usr hu)
    | _ => cases he
  · intro a t u he
    change pc = _ at he
    generalize hgps : s.gps = g at hm
    cases hm with
    | goodIp husr hs heq =>
      cases he
      refine ⟨hgrow.mem (h.ip _ _ _ hgps _ husr _ hs heq), fun usr hu k hk => ?_⟩
      cases husr.symm.trans hu
      cases hs.symm.trans hk
      exact heq
    | _ => cases he
  · intro a i c u cpc he hp
    change pc = _ at he
    generalize hgps : s.gps = g at hm haddr
    have hold {cpc' : CoordPc} (hg : s.gps = .coord a i c u cpc') (hp' : cpc'.passed) :
        ∃ addr, socketEquals a addr ∧
          Initialised { s with gps := pc, hub, hist := s.hist ++ notes } u addr := by
      obtain ⟨addr, hsock, hi⟩ := h.writes a i c u cpc' hg hp'
      exact ⟨addr, hsock, hi.grow (hlt u (by rw [hg]; rfl)) hgrow⟩
    cases hm with
    | allow husr heq =>
      cases he
      have hready := haddr _ rfl _ husr heq
      exact ⟨_, heq, (h.ready u _ husr hready).grow (hlt u (by rw [hgps]; rfl)) hgrow⟩
    | lon | lat | alt | decide | publish =>
      cases he
      exact hold hgps rfl
    | coordFound | reject =>
      cases he
      cases hp
    | _ => cases he

private theorem other_step (h : Genuine s) (hb : Bounded s) (hgrow : Grows s s')
    (hgps : s'.gps = s.gps ∨ s'.gps.user = none)
    (htoken : ∀ u, TokenSet s' u → ∀ usr ∈ s'.hub.users u, .token u usr.token ∈ s'.hist)
    (husers : ∀ u, ∀ usr' ∈ s'.hub.users u, usr'.udpReady →
      u < s.hub.nextUser ∧ ∃ usr ∈ s.hub.users u, usr.udpReady ∧ usr'.addrUdp = usr.addrUdp) :
    Genuine s' := by
  have hlt {u : UserRef} (hu : s'.gps.user = some u) : s'.gps = s.gps ∧ u < s.hub.nextUser := by
    cases hgps with
    | inl he => exact ⟨he, hb.gps u (he ▸ hu)⟩
    | inr he => cases he.symm.trans hu
  constructor
  · exact htoken
  · intro u usr' hu' hready
    obtain ⟨hult, usr, hu, hold, haddr⟩ := husers u usr' hu' hready
    rw [haddr]
    exact (h.ready u usr hu hold).grow hult hgrow
  · intro a t u he usr' hu' k hk hip
    obtain ⟨hsame, hult⟩ := hlt (show s'.gps.user = some u by rw [he]; rfl)
    obtain ⟨usr, hu, hks, haddr⟩ := hgrow.sock u hult usr' hu' k hk
    rw [haddr] at hip
    exact hgrow.mem (h.ip a t u (hsame ▸ he) usr hu k hks hip)
  · intro a t u he
    obtain ⟨hsame, hult⟩ := hlt (show s'.gps.user = some u by rw [he]; rfl)
    obtain ⟨ht, hip⟩ := h.set a t u (hsame ▸ he)
    refine ⟨hgrow.mem ht, fun usr' hu' k hk => ?_⟩
    obtain ⟨usr, hu, hks, haddr⟩ := hgrow.sock u hult usr' hu' k hk
    rw [haddr]
    exact hip usr hu k hks
  · intro a i c u cpc he hp
    obtain ⟨hsame, hult⟩ := hlt (show s'.gps.user = some u by rw [he]; rfl)
    obtain ⟨addr, hsock, hi⟩ := h.writes a i c u cpc (hsame ▸ he) hp
    exact ⟨addr, hsock, hi.grow hult hgrow⟩

private theorem thread_step {j : Fin n} {pc : ThreadPc} (h : Genuine s)
    (hw : Consistent s.hub s.cmd) (hb : Bounded s)
    (hm : ThreadMoved env s.hub (s.threads j).pc pc hub notes) :
    Genuine { s with
      threads := Function.update s.threads j { s.threads j with pc }
      hub
      hist := s.hist ++ notes } := by
  have hgrow : Grows s { s with
      threads := Function.update s.threads j { s.threads j with pc }
      hub
      hist := s.hist ++ notes } := .calm hm.calm rfl
  refine h.other_step hb hgrow (Or.inl rfl) ?_ ?_
  · intro u ⟨t, ht⟩ usr' hu'
    obtain ⟨usr, hu, hacc, -⟩ := hm.addr hu'
    have hset : TokenSet s u := ⟨t, (List.mem_append.mp ht).resolve_right hm.no_token⟩
    rw [← (account_eq hacc).2.2.2]
    exact hgrow.mem (h.token u hset usr hu)
  · intro u usr' hu' hready
    obtain ⟨usr, hu, -, hr, ha⟩ := hm.addr hu'
    exact ⟨(hw.user hu).1, usr, hu, hr ▸ hready, ha⟩

private theorem cmd_token {pc : CmdPc} (h : Genuine s) (hb : Bounded s)
    (hm : CmdMoved env s.hub s.cmd pc hub notes) {u : UserRef} {t : Int32}
    (ht : .token u t ∈ s.hist ++ notes) {usr' : User} (hu' : hub.users u = some usr') :
    .token u usr'.token ∈ s.hist ++ notes := by
  have hold {usr : User} (hn : notes = []) (hu : s.hub.users u = some usr)
      (he : usr.token = usr'.token) : .token u usr'.token ∈ s.hist ++ notes := by
    rw [hn, List.append_nil] at ht ⊢
    exact he ▸ h.token u ⟨t, ht⟩ usr hu
  generalize s.cmd = c at hm
  cases hm with
  | aside ha =>
    obtain ⟨usr, hu, hacc⟩ := ha.toCalm.before hu'
    exact hold rfl hu (account_eq hacc).2.2.2
  | create =>
    have hlt : u < s.hub.nextUser := by
      rw [List.append_nil] at ht
      exact hb.hist _ ht
    exact hold rfl ((Function.update_of_ne hlt.ne ..).symm.trans hu') rfl
  | @token v vsr _ _ _ hv =>
    change Function.update s.hub.users v _ u = some usr' at hu'
    rcases Lib.of_update_some hu' with ⟨rfl, rfl⟩ | ⟨huv, hu'⟩
    · exact List.mem_append_right _ (List.mem_singleton.mpr rfl)
    · have hm : .token u t ∈ s.hist := by
        refine (List.mem_append.mp ht).resolve_right fun hn => huv ?_
        cases List.mem_singleton.mp hn
        rfl
      exact List.mem_append_left _ (h.token u ⟨t, hm⟩ usr' hu')
  | @delete _ v =>
    change Function.update s.hub.users v none u = some usr' at hu'
    obtain ⟨-, hu'⟩ := Lib.of_update_none hu'
    exact hold rfl hu' rfl
  | putNick | putId | store | get | read | eraseId | eraseNick | close => exact hold rfl hu' rfl

private theorem cmd_step {pc : CmdPc} (h : Genuine s) (hw : Consistent s.hub s.cmd)
    (hb : Bounded s) (hm : CmdMoved env s.hub s.cmd pc hub notes) :
    Genuine { s with cmd := pc, hub, hist := s.hist ++ notes } := by
  refine h.other_step hb (.cmd hm) (Or.inl rfl) (fun u ⟨t, ht⟩ usr hu => h.cmd_token hb hm ht hu) ?_
  intro u usr' hu' hready
  cases hm.users hu' with
  | inl hold =>
    obtain ⟨usr, hu, hcore⟩ := hold
    have hr : usr.udpReady = usr'.udpReady :=
      show (core usr).udpReady = (core usr').udpReady from congrArg User.udpReady hcore
    have ha : usr.addrUdp = usr'.addrUdp :=
      show (core usr).addrUdp = (core usr').addrUdp from congrArg User.addrUdp hcore
    exact ⟨(hw.user hu).1, usr, hu, hr ▸ hready, ha.symm⟩
  | inr hnew =>
    -- a user that has just been created has given no address
    obtain ⟨-, nick, i, session, rfl⟩ := hnew
    cases hready

private theorem same_step (h : Genuine s) (hw : Consistent s.hub s.cmd) (hb : Bounded s)
    (hgrow : Grows s s') (hhist : s'.hist = s.hist) (hu : s'.hub.users = s.hub.users)
    (hgps : s'.gps = s.gps ∨ s'.gps.user = none) : Genuine s' := by
  refine h.other_step hb hgrow hgps ?_ ?_
  · intro u hset usr husr
    unfold TokenSet at hset
    rw [hhist] at hset ⊢
    rw [hu] at husr
    exact h.token u hset usr husr
  · intro u usr husr hready
    rw [hu] at husr
    exact ⟨(hw.user husr).1, usr, husr, hready, rfl⟩

end Genuine

namespace System

variable {s s' : System n} {a : Action n}

theorem genuine_step (hs : s.step a = some s') (hsound : Sound s) (hg : ComparesSet s a)
    (h : Genuine s) : Genuine s' := by
  obtain ⟨hw, hb⟩ := hsound
  obtain ⟨-, hm⟩ := step_moved hs
  have hsame {t : System n} (hh : t.hist = s.hist) (hhub : t.hub = s.hub)
      (hgps : t.gps = s.gps ∨ t.gps.user = none) : Genuine t :=
    h.same_step hw hb (.calm (hhub ▸ .refl s.hub) (hh.trans (List.append_nil _).symm)) hh
      (congrArg Hub.users hhub) hgps
  cases hm with
  | gps env pc hub notes hi he => exact h.gps_step hw hb hg (gpsStep_moved hi he)
  | thread j env pc hub notes hbl he => exact h.thread_step hw hb (threadStep_moved hbl he)
  | cmd env pc hub notes he => exact h.cmd_step hw hb (cmdStep_moved he)
  | receive theirAddr bytes hi => exact hsame rfl rfl (Or.inr (received_user ..))
  | timeout hi => exact hsame rfl rfl (Or.inr rfl)
  | stop | command | close | fault => exact hsame rfl rfl (Or.inl rfl)
  | wake =>
    exact h.same_step hw hb (.calm (.traffic s.hub ..) (List.append_nil _).symm) rfl rfl
      (Or.inl rfl)
  | accept addr hi => exact h.same_step hw hb (.accept hw addr) rfl rfl (Or.inl rfl)
  | writable ses env q o hi =>
    exact h.same_step hw hb (.calm (Aside.sent s.hub q o).toCalm (List.append_nil _).symm) rfl rfl
      (Or.inl rfl)

end System

/-- In a run whose tests compare with nothing unset, every write to a slot is authorised. -/
theorem writes_authorised (as : List (Action n))
    (hg : Guarded System.step ComparesSet (System.boot n) as) :
    Always System.step WritesAuthorised (System.boot n) as := by
  have halways : Always System.step (fun s => System.Sound s ∧ Genuine s) (System.boot n) as :=
    always_of_step (H := fun _ => True)
      (fun s a s' _ _ hg hs h => ⟨System.sound_step hs h.1, System.genuine_step hs h.1 hg h.2⟩)
      (always_true _ _) hg ⟨System.sound_boot, .boot⟩
  exact halways.mono fun s h => h.2.writes

/-- A position from the address of the user, up to the first write. -/
def updating : List (Action 1) := login ++ position default 5 6 :: List.replicate 2 (.gps default)

theorem writes_authorised_updating : ∃ s, run System.step (System.boot 1) updating = some s ∧
    s.gps = .coord default 1 ⟨5, 6, 0⟩ 0 .lon ∧ WritesAuthorised s :=
  ⟨_, rfl, by decide, (writes_authorised updating (by decide)).last rfl⟩

/-- Where a `User` had been deleted before the new one was created in the same place. -/
def stranger : SockAddr := ⟨AF_INET, 4000, 0x0a000001, 0⟩

def leftoverAddr : List (Action 1) :=
  registration { (default : Env) with addrUdp := stranger } ++
    position stranger 5 6 :: List.replicate 2 (.gps default)

/-- Nobody has initialised an address, and a position is about to be written. -/
theorem writes_authorised_counterexample :
    (∃ s, run System.step (System.boot 1) leftoverAddr = some s ∧
      s.gps = .coord stranger 1 ⟨5, 6, 0⟩ 0 .lon ∧ s.hist = [.token 0 0]) ∧
    ¬∀ (n : ℕ) (as : List (Action n)), Always System.step WritesAuthorised (System.boot n) as := by
  obtain ⟨s, hr, hgps, hhist⟩ : ∃ s, run System.step (System.boot 1) leftoverAddr = some s ∧
      s.gps = .coord stranger 1 ⟨5, 6, 0⟩ 0 .lon ∧ s.hist = [.token 0 0] :=
    ⟨_, rfl, by decide, by decide⟩
  refine ⟨⟨s, hr, hgps, hhist⟩, fun hall => ?_⟩
  obtain ⟨addr, -, hi⟩ := (hall 1 leftoverAddr).last hr _ _ _ _ _ hgps rfl
  obtain ⟨token, before, after, he, -⟩ := hi.token
  have hm : Note.initAddr 0 addr token ∈ s.hist := by
    rw [he]
    exact List.mem_append_right _ List.mem_cons_self
  rw [hhist] at hm
  cases List.mem_singleton.mp hm

end Gpshub.Threads
