import Gpshub.Hub.Bystanders
import Gpshub.Server.Callbacks
import Gpshub.Server.StreamPrivacy

/-! What becomes of the other clients when one fails: a callback for it leaves them as they were,
and two runs that differ in what the kernel answers for it are the same to them. -/
namespace Gpshub
open Lib Machine

namespace CommandServer

/-- What `handle` sees of a package. -/
def packet (p : CmdPkg) : UInt8 × Nick := (p.getType, p.getData)

/-- Each package that `incomingData` hands over shows bytes of its own session, as in `Own`. -/
def OwnPackages : List RecvResult → Receiver → Prop
  | .data bytes :: rest, r => bytes = [] ∨
    (∀ len ∈ declared bytes r, 3 ≤ len ∨ 0 ∈ bytes.drop 3) ∧
      match receive bytes r with
      | .ok (r, _) => OwnPackages rest r
      | .error _ => True
  | _, _ => True

instance OwnPackages.decidable : ∀ (recvs : List RecvResult) (r : Receiver),
    Decidable (OwnPackages recvs r)
  | [], _ => isTrue trivial
  | .again :: _, _ => isTrue trivial
  | .error :: _, _ => isTrue trivial
  | .data bytes :: rest, r => by
    unfold OwnPackages
    have : Decidable (match receive bytes r with
      | .ok (r, _) => OwnPackages rest r
      | .error _ => True) := by
      split
      · exact OwnPackages.decidable rest _
      · infer_instance
    infer_instance

theorem receive_eq_ok {bytes : List UInt8} {r r' : Receiver} {cmd : Option CmdPkg}
    (hr : receive bytes r = .ok (r', cmd)) :
    ∃ taken, round bytes r = .ok (r', taken) ∧ cmd = taken.map Taken.cmd := by
  rw [receive_eq_round] at hr
  cases hround : round bytes r with
  | error e =>
    rw [hround] at hr
    cases hr
  | ok out =>
    rw [hround, map_ok] at hr
    cases hr
    exact ⟨out.2, rfl, rfl⟩

theorem receive_sound {bytes : List UInt8} {r r' : Receiver} {cmd : Option CmdPkg} {t e : ℕ}
    (h : r.Sound t e) (hr : receive bytes r = .ok (r', cmd)) : ∃ t e, r'.Sound t e := by
  obtain ⟨taken, hround, -⟩ := receive_eq_ok hr
  exact round_sound h hround

theorem incomingData_sound (recvs : List RecvResult) :
    ∀ {r r' : Receiver} {pkgs : List CmdPkg} {closed : Bool} {t e : ℕ}, r.Sound t e →
      incomingData recvs r = .ok (r', pkgs, closed) → ∃ t e, r'.Sound t e := by
  induction recvs with
  | nil =>
    intro r r' pkgs closed t e h he
    cases he
    exact ⟨t, e, h⟩
  | cons answer rest ih =>
    intro r r' pkgs closed t e h he
    cases answer with
    | again | error =>
      cases he
      exact ⟨t, e, h⟩
    | data bytes =>
      rw [incomingData] at he
      split at he
      · cases he
        exact ⟨t, e, h⟩
      · obtain ⟨⟨r1, cmd⟩, hr, he⟩ := bind_eq_ok.mp he
        obtain ⟨⟨r2, pkgs', closed'⟩, hrest, he⟩ := bind_eq_ok.mp he
        cases he
        obtain ⟨t1, e1, h1⟩ := receive_sound h hr
        exact ih h1 hrest

theorem receive_alike {bytes : List UInt8} {r r' q q' : Receiver} {cmd cmd' : Option CmdPkg}
    {t e : ℕ} (hc : CircularBuffer.Counts r.buf (CMDPKG_MAX * 2) t e)
    (ha : CircularBuffer.Alike (CMDPKG_MAX * 2) e r.buf r'.buf)
    (hl : r.cmdBuf.length = CMDPKG_MAX) (hl' : r'.cmdBuf.length = CMDPKG_MAX) (hb : bytes ≠ [])
    (hown : ∀ len ∈ declared bytes r, 3 ≤ len ∨ 0 ∈ bytes.drop 3)
    (hown' : ∀ len ∈ declared bytes r', 3 ≤ len ∨ 0 ∈ bytes.drop 3)
    (hr : receive bytes r = .ok (q, cmd)) (hr' : receive bytes r' = .ok (q', cmd')) :
    cmd'.toList.map packet = cmd.toList.map packet ∧
      ∃ t e, CircularBuffer.Counts q.buf (CMDPKG_MAX * 2) t e ∧
        CircularBuffer.Alike (CMDPKG_MAX * 2) e q.buf q'.buf := by
  obtain ⟨taken, hround, rfl⟩ := receive_eq_ok hr
  obtain ⟨taken', hround', rfl⟩ := receive_eq_ok hr'
  obtain ⟨hpackets, hbuf⟩ := round_alike hc ha hl hl' (List.length_pos_of_ne_nil hb) hown hown'
    hround hround'
  have hshown (taken : Option Taken) : (taken.map Taken.cmd).toList.map packet =
      (taken.map Taken.packet).toList := by
    cases taken <;> rfl
  refine ⟨?_, hbuf⟩
  rw [hshown, hshown, hpackets]

/-- Two calls for a session that receive the same bytes hand out the same packages, whatever is
left in `cmd_buf`, as long as each of them shows bytes of its own. -/
theorem incomingData_alike (recvs : List RecvResult) : ∀ {r r' q q' : Receiver} {t e : ℕ}
    {pkgs pkgs' : List CmdPkg} {closed closed' : Bool},
    CircularBuffer.Counts r.buf (CMDPKG_MAX * 2) t e →
    CircularBuffer.Alike (CMDPKG_MAX * 2) e r.buf r'.buf → r.cmdBuf.length = CMDPKG_MAX →
    r'.cmdBuf.length = CMDPKG_MAX → OwnPackages recvs r → OwnPackages recvs r' →
    incomingData recvs r = .ok (q, pkgs, closed) →
    incomingData recvs r' = .ok (q', pkgs', closed') →
    pkgs'.map packet = pkgs.map packet ∧ closed' = closed ∧
      ∃ t e, CircularBuffer.Counts q.buf (CMDPKG_MAX * 2) t e ∧
        CircularBuffer.Alike (CMDPKG_MAX * 2) e q.buf q'.buf := by
  induction recvs with
  | nil =>
    intro r r' q q' t e pkgs pkgs' closed closed' hc ha _ _ _ _ he he'
    cases he
    cases he'
    exact ⟨rfl, rfl, t, e, hc, ha⟩
  | cons answer rest ih =>
    intro r r' q q' t e pkgs pkgs' closed closed' hc ha hl hl' ho ho' he he'
    cases answer with
    | again | error =>
      cases he
      cases he'
      exact ⟨rfl, rfl, t, e, hc, ha⟩
    | data bytes =>
      rw [incomingData] at he he'
      by_cases hb : bytes = []
      · rw [if_pos hb] at he he'
        cases he
        cases he'
        exact ⟨rfl, rfl, t, e, hc, ha⟩
      · rw [if_neg hb] at he he'
        obtain ⟨⟨r1, cmd⟩, hr, he⟩ := bind_eq_ok.mp he
        obtain ⟨⟨r1', cmd'⟩, hr', he'⟩ := bind_eq_ok.mp he'
        obtain ⟨⟨r2, pkgs1, closed1⟩, hrest, he⟩ := bind_eq_ok.mp he
        obtain ⟨⟨r2', pkgs1', closed1'⟩, hrest', he'⟩ := bind_eq_ok.mp he'
        cases he
        cases he'
        obtain ⟨hown, hlater⟩ := ho.resolve_left hb
        obtain ⟨hown', hlater'⟩ := ho'.resolve_left hb
        rw [hr] at hlater
        rw [hr'] at hlater'
        obtain ⟨hpackets, t1, e1, hc1, ha1⟩ := receive_alike hc ha hl hl' hb hown hown' hr hr'
        obtain ⟨-, -, -, hlen⟩ := receive_sound ⟨hc, hl⟩ hr
        obtain ⟨-, -, -, hlen'⟩ := receive_sound ⟨hc.of_alike ha, hl'⟩ hr'
        obtain ⟨hpkgs, hclosed, hbuf⟩ := ih hc1 ha1 hlen hlen' hlater hlater' hrest hrest'
        refine ⟨?_, hclosed, hbuf⟩
        rw [List.map_append, List.map_append, hpackets, hpkgs]

end CommandServer

namespace Servers

open CommandServer

/-- What the session receives next comes to the same packages in both states, as long as these
show bytes of its own. -/
def SameReading (k : SessionRef) (c c' : Servers) : Prop :=
  ∀ recvs, OwnPackages recvs ⟨c.bufs k, c.cmdBuf⟩ → OwnPackages recvs ⟨c'.bufs k, c'.cmdBuf⟩ →
    Both (fun x y => y.2.1.map packet = x.2.1.map packet ∧ y.2.2 = x.2.2)
      (CommandServer.incomingData recvs ⟨c.bufs k, c.cmdBuf⟩)
      (CommandServer.incomingData recvs ⟨c'.bufs k, c'.cmdBuf⟩)

/-- A callback for one client that returns has left everything of the others as it was, whatever
its sends and receives have answered, and what it has left in `cmd_buf` does not change what they
are understood to say next. A callback of the GPS data server has left of all others what it would
have left with other answers to the sends for one client. -/
def Contained : Except Fault Servers → Action → Prop
  | .ok c, .handle a => ∀ ev s c', c.epl.events[c.i]? = some ev → ev.watched = .client s →
    c.next a = .ok c' → Others s c.hub c'.hub ∧ ∀ k, k ≠ s → c'.bufs k = c.bufs k ∧
      ((c.hub.sessions k).isSome → SameReading k c c')
  | .ok c, .gps call => GpsDataServer.ofLoop call.1 = true → ∀ s answer flush,
    SameAnswers s c.hub c.hub call.2 { call.2 with answer, flush } call.1 →
      Both (fun d d' => SameBut s d.hub d'.hub ∧ d'.bufs = d.bufs ∧ d'.cmdBuf = d.cmdBuf)
        (c.gps call) (c.gps (call.1, { call.2 with answer, flush }))
  | _, _ => True

/-- The invariant of the servers while they run. -/
structure Intact (c : Servers) : Prop where
  wellFormed : WellFormed c.hub
  cmdBuf : c.cmdBuf.length = CMDPKG_MAX
  counts : ∀ k, (c.hub.sessions k).isSome → ∃ t e,
    CircularBuffer.Counts (c.bufs k) (CMDPKG_MAX * 2) t e

def Running (r : Except Fault Servers) : Prop := ∀ c, r = .ok c → Intact c

section Invariant

variable {s : SessionRef} {c c' : Servers}

theorem wellFormed_run {h g : Hub} {calls : List (Event × Env)} (hwf : WellFormed h)
    (hr : run Hub.step h calls = some g) : WellFormed g :=
  run_of_inv (fun _ _ _ hs hwf => hwf.step hs) hr hwf

/-- The loop's own data is not part of it. -/
theorem Intact.looping (h : Intact c) (epl : Epoll EpollEvent) (n i : ℕ) :
    Intact { c with epl, n, i } :=
  ⟨h.wellFormed, h.cmdBuf, h.counts⟩

theorem Intact.accept (h : Intact c) (p : Peer) (epl : Epoll EpollEvent) : Intact { c with
    hub := incomingConnection p.addr c.hub
    bufs := Function.update c.bufs c.hub.nextSession (Receiver.new p.memory c.cmdBuf).buf
    epl } := by
  refine ⟨h.wellFormed.accept _, h.cmdBuf, fun k hses => ?_⟩
  dsimp only
  by_cases hk : k = c.hub.nextSession
  · subst hk
    have hring : CircularBuffer.Ring (Receiver.new p.memory c.cmdBuf).buf (CMDPKG_MAX * 2) [] 0 :=
      CircularBuffer.ring_new (by decide) (by decide) p.size
    rw [Function.update_self]
    exact ⟨0, 0, hring.counts (by decide)⟩
  · rw [Function.update_of_ne hk]
    have hsame : (incomingConnection p.addr c.hub).sessions k = c.hub.sessions k :=
      Function.update_of_ne hk ..
    refine h.counts k ?_
    rwa [← hsame]

theorem Intact.acceptAll (peers : List Peer) : ∀ {c : Servers}, Intact c →
    acceptAll peers c = .ok c' → Intact c' := by
  induction peers with
  | nil =>
    intro c h hc
    cases hc
    exact h
  | cons p rest ih =>
    intro c h hc
    rw [Servers.acceptAll] at hc
    dsimp only at hc
    split_ifs at hc
    exact ih (h.accept p _) hc

theorem received_sound {ev : EpollEvent} {a : Answers} {r r' : Receiver} {pkgs : List CmdPkg}
    {closed : Bool} {t e : ℕ} (h : r.Sound t e) (hr : received ev a r = .ok (r', pkgs, closed)) :
    ∃ t e, r'.Sound t e := by
  unfold received at hr
  split_ifs at hr
  · cases hr
    exact ⟨t, e, h⟩
  · exact incomingData_sound _ h hr
  · cases hr
    exact ⟨t, e, h⟩

theorem Intact.client {ev : EpollEvent} {a : Answers} (h : Intact c)
    (hw : ev.watched = .client s) (hc : callback ev a c = .ok c') : Intact c' := by
  obtain ⟨r, pkgs, closed, hr, hrun, hserved⟩ := client_served hw hc
  obtain ⟨t, e, hcounts⟩ := h.counts s (client_session hw hc)
  obtain ⟨t', e', hcounts', hlen⟩ := received_sound ⟨hcounts, h.cmdBuf⟩ hr
  refine ⟨wellFormed_run h.wellFormed hrun, hserved.cmdBuf ▸ hlen, fun k hses => ?_⟩
  rw [hserved.bufs]
  by_cases hk : k = s
  · subst hk
    rw [Function.update_self]
    exact ⟨t', e', hcounts'⟩
  · rw [Function.update_of_ne hk]
    refine h.counts k ?_
    rwa [← (run_others h.wellFormed calls_client hrun).sessions hk]

/-- Handlers that neither a connection nor the listening socket causes keep all sessions. -/
theorem sessions_of_step {h h' : Hub} {call : Event × Env} (hs : h.step call = some h')
    (hclient : call.1.client = none) (haccept : ∀ addr, call.1 ≠ .accept addr) :
    h'.sessions = h.sessions := by
  cases step_change hs with
  | accept addr hev => exact absurd hev (haccept addr)
  | register s pkg session id q o hev | close s session hev | logOut s session u usr hev =>
    rw [hev] at hclient
    cases hclient
  | frame _ _ _ hf => exact hf.sessions

theorem sessions_of_gps {h h' : Hub} {call : Event × Env} (hs : h.step call = some h')
    (hloop : GpsDataServer.ofLoop call.1 = true) : h'.sessions = h.sessions := by
  obtain ⟨ev, env⟩ := call
  cases ev with
  | datagram theirAddr bytes => exact sessions_of_step hs rfl fun _ h => by cases h
  | timeout => exact sessions_of_step hs rfl fun _ h => by cases h
  | _ => cases hloop

theorem sessions_of_other {call : Event × Env} {r : Except Fault Servers} {hub : Hub}
    (hs : step (.ok c) (.other call) = some r) (hh : c.hub.step call = some hub) :
    hub.sessions = c.hub.sessions := by
  obtain ⟨ev, env⟩ := call
  cases ev with
  | put id => exact sessions_of_step hh rfl fun _ h => by cases h
  | pull => exact sessions_of_step hh rfl fun _ h => by cases h
  | _ => cases hs

theorem Intact.dispatch {call : Event × Env} {hub : Hub} (h : Intact c)
    (hs : c.hub.step call = some hub) (hsessions : hub.sessions = c.hub.sessions) :
    Intact { c with hub } := by
  refine ⟨h.wellFormed.step hs, h.cmdBuf, fun k hses => h.counts k ?_⟩
  rwa [← hsessions]

theorem Intact.boot {cmdBuf : List UInt8} (hmem : cmdBuf.length = CMDPKG_MAX) :
    Intact (boot cmdBuf) :=
  ⟨.boot, hmem, fun _ => nofun⟩

theorem running_step {r r' : Except Fault Servers} {a : Action} (hs : step r a = some r')
    (hr : Running r) : Running r' := by
  intro c' hc'
  cases r with
  | error e => cases hs
  | ok c =>
    have h : Intact c := hr c rfl
    rw [hc'] at hs
    cases a with
    | wait evs =>
      simp only [step, Option.ite_none_right_eq_some, Option.some.injEq] at hs
      obtain ⟨-, hs⟩ := hs
      cases hs
      exact h.looping _ _ _
    | handle a =>
      simp only [step, Option.ite_none_right_eq_some, Option.some.injEq] at hs
      obtain ⟨-, hs⟩ := hs
      have hnext : Intact { c with i := c.i + 1 } := h.looping c.epl c.n (c.i + 1)
      unfold next at hs
      split at hs
      · rename_i ev hev
        cases hw : ev.watched with
        | listening =>
          unfold callback at hs
          rw [hw] at hs
          dsimp only at hs
          split_ifs at hs
          exact hnext.acceptAll _ hs
        | client s => exact hnext.client hw hs
      · cases hs
    | gps call =>
      simp only [step, Option.ite_none_right_eq_some, Option.some.injEq] at hs
      obtain ⟨hloop, hs⟩ := hs
      obtain ⟨hub, hh, rfl⟩ := gps_eq_ok hs
      exact h.dispatch hh (sessions_of_gps hh hloop)
    | other call =>
      obtain ⟨hub, hh, he⟩ := other_eq_some hs
      cases he
      exact h.dispatch hh (sessions_of_other hs hh)

theorem Intact.sameReading {k : SessionRef} (h : Intact c) (h' : Intact c')
    (hses : (c.hub.sessions k).isSome) (hbuf : c'.bufs k = c.bufs k) : SameReading k c c' := by
  intro recvs hown hown' x y hx hy
  obtain ⟨r, pkgs, closed⟩ := x
  obtain ⟨r', pkgs', closed'⟩ := y
  obtain ⟨t, e, hcounts⟩ := h.counts k hses
  have halike : CircularBuffer.Alike (CMDPKG_MAX * 2) e (c.bufs k) (c'.bufs k) := by
    rw [hbuf]
    exact ⟨rfl, rfl, fun _ _ _ => rfl⟩
  obtain ⟨hpkgs, hclosed, -⟩ :=
    incomingData_alike recvs hcounts halike h.cmdBuf h'.cmdBuf hown hown' hx hy
  exact ⟨hpkgs, hclosed⟩

theorem contained_of_running {r : Except Fault Servers} (a : Action) (hr : Running r) :
    Contained r a := by
  cases r with
  | error e => trivial
  | ok c =>
    have h : Intact c := hr c rfl
    cases a with
    | wait evs | other call => trivial
    | handle a =>
      intro ev s c' hev hw hc
      have hnext : Intact { c with i := c.i + 1 } := h.looping c.epl c.n (c.i + 1)
      unfold next at hc
      rw [hev] at hc
      have h' : Intact c' := hnext.client hw hc
      obtain ⟨r, pkgs, closed, -, hrun, hserved⟩ := client_served hw hc
      refine ⟨run_others h.wellFormed calls_client hrun, fun k hk => ?_⟩
      have hbuf : c'.bufs k = c.bufs k := by
        rw [hserved.bufs]
        exact Function.update_of_ne hk ..
      exact ⟨hbuf, fun hses => h.sameReading h' hses hbuf⟩
    | gps call =>
      intro hloop s answer flush hsame d d' hd hd'
      obtain ⟨hub, hs, rfl⟩ := gps_eq_ok hd
      obtain ⟨hub', hs', rfl⟩ := gps_eq_ok hd'
      refine ⟨?_, rfl, rfl⟩
      exact gps_sameBut (.refl s c.hub) hloop hsame hub hub' (Hub.step_eq_some.mp hs)
        (Hub.step_eq_some.mp hs')

end Invariant

/-- The event, without what it says about the socket of `s`. -/
def blur (s : SessionRef) (ev : EpollEvent) : EpollEvent :=
  if ev.watched = .client s then ⟨.client s, false, false, false⟩ else ev

def eplWithout (s : SessionRef) (e : Epoll EpollEvent) : Epoll EpollEvent :=
  { e with events := e.events.map (blur s) }

/-- What the kernel answers for one client while an event of its socket is handled: to the sends
of packages that wait, to the receives, and to the sends for the packages that are handled. -/
structure Outcomes where
  drain : ℕ → SendResult
  recvs : List RecvResult
  sends : ℕ → ℕ → SendResult

/-- What is different in a second run while an event of the command server is handled: what new
blocks of memory hold and, if the event is one of the client, what the kernel answers. -/
structure Difference where
  accepted : List Peer
  memory : ℕ → Leftovers
  outcomes : Option Outcomes

def Difference.apply (d : Difference) (a : Answers) : Answers where
  env := { a.env with answer := d.outcomes.elim a.env.answer Outcomes.drain }
  accepted := d.accepted
  recvs := d.outcomes.elim a.recvs Outcomes.recvs
  cmds i := { a.cmds i with
    answer := d.outcomes.elim (a.cmds i).answer fun o => o.sends i }.over (d.memory i)
  ctl := a.ctl

/-- One step of two runs that get the same from outside, but for what the kernel answers for one
client and what memory holds. An event of the client without flags, for which nothing is done,
stands for no event. -/
inductive Variant
  | wait (evs evs' : List EpollEvent)
  | handle (a : Answers) (d : Difference)
  | gps (call : Event × Env) (answer flush : ℕ → SendResult) (memory : Leftovers)
  | other (call : Event × Env) (memory : Leftovers)

namespace Variant

def first : Variant → Action
  | wait evs _ => .wait evs
  | handle a _ => .handle a
  | gps call _ _ _ => .gps call
  | other call _ => .other call

def second : Variant → Action
  | wait _ evs => .wait evs
  | handle a d => .handle (d.apply a)
  | gps call answer flush memory => .gps (call.1, { call.2 with answer, flush }.over memory)
  | other call memory => .other (call.1, call.2.over memory)

end Variant

/-- The packages that a callback for the session hands to `handle`, and whether it closes the
session. -/
def handed (ev : EpollEvent) (a : Answers) (r : Receiver) :
    Option (List (UInt8 × Nick) × Bool) :=
  (received ev a r).toOption.map fun x => (x.2.1.map packet, x.2.2)

/-- Who connects, and whether `epoll_ctl` succeeds for it. -/
def Peer.call (p : Peer) : SockAddr × Bool := (p.addr, p.ctl)

/-- The two steps differ in nothing but memory and what the kernel answers for the client of `s`,
and have the same packages of it handled and close its connection in both runs or in neither. -/
def Spares (s : SessionRef) : Except Fault Servers × Except Fault Servers → Variant → Prop
  | (.ok _, .ok _), .wait evs evs' => evs'.map (blur s) = evs.map (blur s)
  | (.ok c, .ok c'), .handle a d =>
    d.accepted.map Peer.call = a.accepted.map Peer.call ∧
      ∀ ev ∈ c.epl.events[c.i]?, ∀ ev' ∈ c'.epl.events[c'.i]?,
        if ev.watched = .client s then
          handed ev' (d.apply a) ⟨c'.bufs s, c'.cmdBuf⟩ = handed ev a ⟨c.bufs s, c.cmdBuf⟩
        else d.outcomes.isNone = true
  | (.ok c, .ok c'), .gps call answer flush _ =>
    SameAnswers s c.hub c'.hub call.2 { call.2 with answer, flush } call.1
  | _, _ => True

def Watched.session : Watched → Option SessionRef
  | .listening => none
  | .client s => some s

/-- What the step does for others than the client of `s` does not depend on what memory held:
their packages show bytes of their own, their lists of buddies repeat no registered name, and no
coordinates come from an address that a user only seems to have. -/
def Clear (s : SessionRef) : Except Fault Servers → Action → Prop
  | .ok c, .handle a => ∀ ev ∈ c.epl.events[c.i]?, ∀ k ∈ Watched.session ev.watched, k ≠ s →
    (ev.ended = false → ev.pollin = true → OwnPackages a.recvs ⟨c.bufs k, c.cmdBuf⟩) ∧
      ∀ x ∈ (received ev a ⟨c.bufs k, c.cmdBuf⟩).toOption,
        Guarded Hub.step (fun h call => Determined h call.1) c.hub (calls k ev a x.2.1 x.2.2)
  | .ok c, .gps call => Determined c.hub call.1
  | _, _ => True

instance (s : SessionRef) : (p : Except Fault Servers × Except Fault Servers) → (t : Variant) →
    Decidable (Spares s p t)
  | (.ok _, .ok _), .wait evs evs' =>
    inferInstanceAs (Decidable (evs'.map (blur s) = evs.map (blur s)))
  | (.ok c, .ok c'), .handle a d => inferInstanceAs (Decidable (
    d.accepted.map Peer.call = a.accepted.map Peer.call ∧
      ∀ ev ∈ c.epl.events[c.i]?, ∀ ev' ∈ c'.epl.events[c'.i]?,
        if ev.watched = .client s then
          handed ev' (d.apply a) ⟨c'.bufs s, c'.cmdBuf⟩ = handed ev a ⟨c.bufs s, c.cmdBuf⟩
        else d.outcomes.isNone = true))
  | (.ok c, .ok c'), .gps call answer flush _ => inferInstanceAs (Decidable
    (SameAnswers s c.hub c'.hub call.2 { call.2 with answer, flush } call.1))
  | (.ok _, .ok _), .other _ _ | (.error _, _), _ | (.ok _, .error _), _ => isTrue trivial

instance (s : SessionRef) : (r : Except Fault Servers) → (a : Action) → Decidable (Clear s r a)
  | .ok c, .handle a => inferInstanceAs (Decidable (
    ∀ ev ∈ c.epl.events[c.i]?, ∀ k ∈ Watched.session ev.watched, k ≠ s →
      (ev.ended = false → ev.pollin = true → OwnPackages a.recvs ⟨c.bufs k, c.cmdBuf⟩) ∧
        ∀ x ∈ (received ev a ⟨c.bufs k, c.cmdBuf⟩).toOption,
          Guarded Hub.step (fun h call => Determined h call.1) c.hub (calls k ev a x.2.1 x.2.2)))
  | .ok c, .gps call => inferInstanceAs (Decidable (Determined c.hub call.1))
  | .ok _, .wait _ | .ok _, .other _ | .error _, _ => isTrue trivial

/-- While both servers run, sessions, users, packages and acknowledgements are the same in both,
apart from what waits to be sent to the client of `s`, and so are the bytes that wait in the
buffers of the other sessions. -/
def Unaffected (s : SessionRef) (p : Except Fault Servers × Except Fault Servers) : Prop :=
  ∀ c c', p.1 = .ok c → p.2 = .ok c' → Agree s c.hub c'.hub ∧
    ∀ k, k ≠ s → (c.hub.sessions k).isSome → (c'.bufs k).unread = (c.bufs k).unread

/-- The relation between the two servers that every step preserves. -/
structure Shared (s : SessionRef) (c c' : Servers) : Prop where
  hub : Agree s c.hub c'.hub
  intact : Intact c ∧ Intact c'
  bufs : ∀ k, k ≠ s → (c.hub.sessions k).isSome → ∃ t e,
    CircularBuffer.Counts (c.bufs k) (CMDPKG_MAX * 2) t e ∧
      CircularBuffer.Alike (CMDPKG_MAX * 2) e (c.bufs k) (c'.bufs k)
  epl : eplWithout s c'.epl = eplWithout s c.epl
  n : c'.n = c.n
  i : c'.i = c.i

section Steps

variable {s : SessionRef} {c c' : Servers}

theorem received_alike {ev : EpollEvent} {a : Answers} {r r' q q' : Receiver} {t e : ℕ}
    {pkgs pkgs' : List CmdPkg} {closed closed' : Bool}
    (hc : CircularBuffer.Counts r.buf (CMDPKG_MAX * 2) t e)
    (ha : CircularBuffer.Alike (CMDPKG_MAX * 2) e r.buf r'.buf)
    (hl : r.cmdBuf.length = CMDPKG_MAX) (hl' : r'.cmdBuf.length = CMDPKG_MAX)
    (hown : ev.ended = false → ev.pollin = true →
      OwnPackages a.recvs r ∧ OwnPackages a.recvs r')
    (hr : received ev a r = .ok (q, pkgs, closed))
    (hr' : received ev a r' = .ok (q', pkgs', closed')) :
    pkgs'.map packet = pkgs.map packet ∧ closed' = closed ∧
      ∃ t e, CircularBuffer.Counts q.buf (CMDPKG_MAX * 2) t e ∧
        CircularBuffer.Alike (CMDPKG_MAX * 2) e q.buf q'.buf := by
  unfold received at hr hr'
  split_ifs at hr hr' with hended hpollin
  · cases hr
    cases hr'
    exact ⟨rfl, rfl, t, e, hc, ha⟩
  · obtain ⟨ho, ho'⟩ := hown (Bool.eq_false_of_not_eq_true hended) hpollin
    exact incomingData_alike _ hc ha hl hl' ho ho' hr hr'
  · cases hr
    cases hr'
    exact ⟨rfl, rfl, t, e, hc, ha⟩

theorem addEvent_without (ctl : Bool) (e : Epoll EpollEvent) :
    (eplWithout s e).addEvent ctl = (eplWithout s (e.addEvent ctl).1, (e.addEvent ctl).2) := by
  unfold Epoll.addEvent eplWithout
  dsimp only
  split_ifs <;> rfl

theorem removeEvent_without (ctl : Bool) (e : Epoll EpollEvent) :
    (eplWithout s e).removeEvent ctl =
      (eplWithout s (e.removeEvent ctl).1, (e.removeEvent ctl).2) := by
  unfold Epoll.removeEvent eplWithout
  dsimp only
  split_ifs <;> rfl

theorem served_without {k : SessionRef} {ctl ctl' : Bool} {r r' : Receiver} {closed : Bool}
    {c c' d d' : Servers} (hctl : ctl' = ctl) (he : eplWithout s c'.epl = eplWithout s c.epl)
    (h : Served k ctl r closed c d) (h' : Served k ctl' r' closed c' d') :
    eplWithout s d'.epl = eplWithout s d.epl := by
  have hepl := h.epl
  have hepl' := h'.epl
  cases closed with
  | false =>
    have hsame : c.epl = d.epl := congrArg Prod.fst hepl
    have hsame' : c'.epl = d'.epl := congrArg Prod.fst hepl'
    rw [← hsame, ← hsame']
    exact he
  | true =>
    have hremove := removeEvent_without (s := s) ctl c.epl
    have hremove' := removeEvent_without (s := s) ctl c'.epl
    rw [if_pos rfl] at hepl hepl'
    rw [hepl] at hremove
    rw [he, hremove, ← hctl, hepl'] at hremove'
    exact (congrArg Prod.fst hremove').symm

/-- A connection that is accepted in both runs. -/
theorem accept_shared {p p' : Peer} {epl epl' : Epoll EpollEvent}
    (hcall : Peer.call p' = Peer.call p) (h : Shared s c c')
    (hepl : eplWithout s epl' = eplWithout s epl) :
    Shared s
      { c with
        hub := incomingConnection p.addr c.hub
        bufs := Function.update c.bufs c.hub.nextSession (Receiver.new p.memory c.cmdBuf).buf
        epl }
      { c' with
        hub := incomingConnection p'.addr c'.hub
        bufs := Function.update c'.bufs c'.hub.nextSession (Receiver.new p'.memory c'.cmdBuf).buf
        epl := epl' } := by
  obtain ⟨haddr, -⟩ := Prod.mk.inj hcall
  obtain ⟨hi, hi'⟩ := h.intact
  have haccept (h : Hub) : h.step (.accept p.addr, default) =
      some (incomingConnection p.addr h) := rfl
  have hagree : Agree s (incomingConnection p.addr c.hub) (incomingConnection p.addr c'.hub) :=
    h.hub.call (.accept p.addr) hi.wellFormed hi'.wellFormed
      (fun m hm _ => .ok (incomingConnection_sameBut hm p.addr)) (fun _ _ h => by cases h)
      (haccept c.hub) (haccept c'.hub)
  refine ⟨haddr ▸ hagree, ⟨hi.accept p epl, hi'.accept p' epl'⟩, fun k hk hses => ?_, hepl, h.n,
    h.i⟩
  rw [h.hub.nextSession]
  dsimp only
  by_cases hks : k = c.hub.nextSession
  · subst hks
    have hring : CircularBuffer.Ring (Receiver.new p.memory c.cmdBuf).buf (CMDPKG_MAX * 2) [] 0 :=
      CircularBuffer.ring_new (by decide) (by decide) p.size
    rw [Function.update_self, Function.update_self]
    refine ⟨0, 0, hring.counts (by decide), rfl, p.size.trans p'.size.symm, ?_⟩
    exact fun k _ hk => absurd hk (Nat.not_lt_zero k)
  · rw [Function.update_of_ne hks, Function.update_of_ne hks]
    have hsame : (incomingConnection p.addr c.hub).sessions k = c.hub.sessions k :=
      Function.update_of_ne hks ..
    refine h.bufs k hk ?_
    rwa [← hsame]

theorem acceptAll_shared (peers : List Peer) : ∀ {peers' : List Peer} {c c' : Servers},
    peers'.map Peer.call = peers.map Peer.call → Shared s c c' →
      Both (Shared s) (acceptAll peers c) (acceptAll peers' c') := by
  induction peers with
  | nil =>
    intro peers' c c' hp h
    cases List.map_eq_nil_iff.mp hp
    exact .ok h
  | cons p rest ih =>
    intro peers' c c' hp h
    obtain ⟨p', rest', rfl, hcall, hrest⟩ := List.map_eq_cons_iff.mp hp
    obtain ⟨-, hctl⟩ := Prod.mk.inj hcall
    have hadd := addEvent_without (s := s) p.ctl c.epl
    have hadd' := addEvent_without (s := s) p.ctl c'.epl
    rw [h.epl, hadd] at hadd'
    obtain ⟨hepl, hadded⟩ := Prod.ext_iff.mp hadd'
    rw [acceptAll, acceptAll]
    dsimp only at hepl hadded ⊢
    rw [hctl, ← hadded]
    split_ifs
    · exact ih hrest (accept_shared hcall h hepl.symm)
    · exact .left rfl

section Calls

variable {k : SessionRef} {h h' g g' : Hub}

theorem commands_agree {cmds cmds' : ℕ → Env} (hrand : ∀ i, (cmds' i).rand = (cmds i).rand)
    (hans : k ≠ s → ∀ i, (cmds' i).answer = (cmds i).answer) (pkgs : List CmdPkg) :
    ∀ {pkgs' : List CmdPkg} {i : ℕ} {h h' g g' : Hub}, pkgs'.map packet = pkgs.map packet →
      Agree s h h' → WellFormed h → WellFormed h' →
      (k ≠ s → Guarded Hub.step (fun h call => Determined h call.1) h (commands k cmds pkgs i)) →
      run Hub.step h (commands k cmds pkgs i) = some g →
      run Hub.step h' (commands k cmds' pkgs' i) = some g' → Agree s g g' := by
  induction pkgs with
  | nil =>
    intro pkgs' i h h' g g' hp hh _ _ _ hr hr'
    cases List.map_eq_nil_iff.mp hp
    cases hr
    cases hr'
    exact hh
  | cons pkg rest ih =>
    intro pkgs' i h h' g g' hp hh hwf hwf' hd hr hr'
    obtain ⟨pkg', rest', rfl, hpkg, hrest⟩ := List.map_eq_cons_iff.mp hp
    obtain ⟨h1, hs, hr⟩ := run_cons.mp hr
    obtain ⟨h1', hs', hr'⟩ := run_cons.mp hr'
    have hh1 : Agree s h1 h1' := hh.command hwf hwf' (hrand i) (congrArg Prod.fst hpkg)
      (congrArg Prod.snd hpkg) (fun hk => ⟨hans hk i, (hd hk h1 hs).1⟩) hs hs'
    exact ih hrest hh1 (hwf.step hs) (hwf'.step hs') (fun hk => (hd hk h1 hs).2) hr hr'

theorem closing_agree {closed : Bool} (hh : Agree s h h') (hwf : WellFormed h)
    (hwf' : WellFormed h') (hr : run Hub.step h (closing k closed) = some g)
    (hr' : run Hub.step h' (closing k closed) = some g') : Agree s g g' := by
  cases closed with
  | false =>
    cases hr
    cases hr'
    exact hh
  | true =>
    obtain ⟨h1, hs, hr⟩ := run_cons.mp hr
    obtain ⟨h1', hs', hr'⟩ := run_cons.mp hr'
    cases hr
    cases hr'
    exact hh.call (.close k) hwf hwf' (fun m hm _ => closeConnection_sameBut hm) nofun hs hs'

/-- The packages that wait for a client other than the one of `s` are sent as in the other run;
those for the client of `s` may be sent at one time or another. -/
theorem drained_agree {out out' : Prop} [Decidable out] [Decidable out'] {env env' : Env}
    (hh : Agree s h h') (hwf : WellFormed h) (hwf' : WellFormed h')
    (hk : k ≠ s → (out' ↔ out) ∧ env'.answer = env.answer)
    (hr : run Hub.step h (if out then [(.writable k, env)] else []) = some g)
    (hr' : run Hub.step h' (if out' then [(.writable k, env')] else []) = some g') :
    Agree s g g' := by
  have hone {out : Prop} [Decidable out] {env : Env} {h g : Hub}
      (hr : run Hub.step h (if out then [(.writable k, env)] else []) = some g) :
      out ∧ h.step (.writable k, env) = some g ∨ ¬out ∧ g = h := by
    split_ifs at hr with ho
    · obtain ⟨h1, hs, hr⟩ := run_cons.mp hr
      cases hr
      exact Or.inl ⟨ho, hs⟩
    · cases hr
      exact Or.inr ⟨ho, rfl⟩
  by_cases hks : k = s
  · have hown {out : Prop} [Decidable out] {env : Env} {h g : Hub}
        (hr : run Hub.step h (if out then [(.writable k, env)] else []) = some g) :
        SameBut s h g := by
      rcases hone hr with ⟨-, hs⟩ | ⟨-, rfl⟩
      · obtain ⟨q, o, rfl⟩ := sendQueued_update (Hub.step_eq_some.mp hs)
        exact .intro (fun j hj => Function.update_of_ne (hks ▸ hj) ..) rfl
      · exact .refl s _
    exact (hown hr).agree.symm.trans (hh.trans (hown hr').agree)
  · obtain ⟨hiff, hans⟩ := hk hks
    rcases hone hr with ⟨ho, hs⟩ | ⟨ho, rfl⟩
    · obtain ⟨-, hs'⟩ := (hone hr').resolve_right fun hn => hn.1 (hiff.mpr ho)
      exact hh.call (.writable k) hwf hwf'
        (fun m hm _ => sendQueued_sameBut hm fun _ => hans) nofun hs hs'
    · obtain ⟨-, rfl⟩ := (hone hr').resolve_left fun hn => ho (hiff.mp hn.1)
      exact hh

/-- The handlers that a callback for a session runs. Those for the client of `s` are compared up
to what the kernel answers. -/
theorem calls_agree {ev ev' : EpollEvent} {a a' : Answers} {pkgs pkgs' : List CmdPkg}
    {closed : Bool} (hh : Agree s h h') (hwf : WellFormed h) (hwf' : WellFormed h')
    (hpkgs : pkgs'.map packet = pkgs.map packet) (hrand : ∀ i, (a'.cmds i).rand = (a.cmds i).rand)
    (hothers : k ≠ s → ev' = ev ∧ a'.env.answer = a.env.answer ∧
      (∀ i, (a'.cmds i).answer = (a.cmds i).answer) ∧
      Guarded Hub.step (fun h call => Determined h call.1) h (calls k ev a pkgs closed))
    (hr : run Hub.step h (calls k ev a pkgs closed) = some g)
    (hr' : run Hub.step h' (calls k ev' a' pkgs' closed) = some g') : Agree s g g' := by
  obtain ⟨m, hdrain, hr⟩ := run_append.mp hr
  obtain ⟨m', hdrain', hr'⟩ := run_append.mp hr'
  obtain ⟨l, hcommands, hclose⟩ := run_append.mp hr
  obtain ⟨l', hcommands', hclose'⟩ := run_append.mp hr'
  have hwfm := wellFormed_run hwf hdrain
  have hwfm' := wellFormed_run hwf' hdrain'
  have hm : Agree s m m' := drained_agree hh hwf hwf' (fun hks => by
    obtain ⟨rfl, hans, -⟩ := hothers hks
    exact ⟨Iff.rfl, hans⟩) hdrain hdrain'
  have hdet (hks : k ≠ s) : Guarded Hub.step (fun h call => Determined h call.1) m
      (commands k a.cmds pkgs 0) := by
    obtain ⟨-, -, -, hguarded⟩ := hothers hks
    exact (hguarded.of_append hdrain).left
  have hl : Agree s l l' := commands_agree hrand (fun hks => (hothers hks).2.2.1) pkgs hpkgs hm
    hwfm hwfm' hdet hcommands hcommands'
  exact closing_agree hl (wellFormed_run hwfm hcommands) (wellFormed_run hwfm' hcommands') hclose
    hclose'

end Calls

/-- Callbacks for one client in the two runs, which hand over the same packages and both close
the session or both do not. -/
theorem client_shared {k : SessionRef} {ev ev' : EpollEvent} {a a' : Answers} (h : Shared s c c')
    (hw : ev.watched = .client k) (hw' : ev'.watched = .client k) (hctl : a'.ctl = a.ctl)
    (hrand : ∀ i, (a'.cmds i).rand = (a.cmds i).rand)
    (hothers : k ≠ s → ev' = ev ∧ a'.recvs = a.recvs ∧ a'.env.answer = a.env.answer ∧
      (∀ i, (a'.cmds i).answer = (a.cmds i).answer) ∧
      (ev.ended = false → ev.pollin = true →
        OwnPackages a.recvs ⟨c.bufs k, c.cmdBuf⟩ ∧ OwnPackages a.recvs ⟨c'.bufs k, c'.cmdBuf⟩) ∧
      ∀ x ∈ (received ev a ⟨c.bufs k, c.cmdBuf⟩).toOption,
        Guarded Hub.step (fun h call => Determined h call.1) c.hub (calls k ev a x.2.1 x.2.2))
    (hown : k = s → handed ev' a' ⟨c'.bufs s, c'.cmdBuf⟩ = handed ev a ⟨c.bufs s, c.cmdBuf⟩) :
    Both (Shared s) (callback ev a c) (callback ev' a' c') := by
  intro d d' hd hd'
  obtain ⟨r, pkgs, closed, hr, hcalls, hserved⟩ := client_served hw hd
  obtain ⟨r', pkgs', closed', hr', hcalls', hserved'⟩ := client_served hw' hd'
  obtain ⟨hi, hi'⟩ := h.intact
  -- the same packages, and for another client the same bytes left
  obtain ⟨hpkgs, hclosed, hbuf⟩ : pkgs'.map packet = pkgs.map packet ∧ closed' = closed ∧
      (k ≠ s → ∃ t e, CircularBuffer.Counts r.buf (CMDPKG_MAX * 2) t e ∧
        CircularBuffer.Alike (CMDPKG_MAX * 2) e r.buf r'.buf) := by
    by_cases hks : k = s
    · subst hks
      have hsame := hown rfl
      simp only [handed, hr, hr', Except.toOption, Option.map_some, Option.some.injEq,
        Prod.mk.injEq] at hsame
      exact ⟨hsame.1, hsame.2, fun hne => absurd rfl hne⟩
    · obtain ⟨rfl, hrecvs, -, -, hshows, -⟩ := hothers hks
      have hsame : received ev' a' ⟨c'.bufs k, c'.cmdBuf⟩ =
          received ev' a ⟨c'.bufs k, c'.cmdBuf⟩ := by
        unfold received
        rw [hrecvs]
      rw [hsame] at hr'
      obtain ⟨t, e, hcounts, halike⟩ := h.bufs k hks (client_session hw hd)
      obtain ⟨hp, hcl, hbufs⟩ := received_alike hcounts halike hi.cmdBuf hi'.cmdBuf hshows hr hr'
      exact ⟨hp, hcl, fun _ => hbufs⟩
  subst hclosed
  have hhub : Agree s d.hub d'.hub := by
    refine calls_agree h.hub hi.wellFormed hi'.wellFormed hpkgs hrand (fun hks => ?_) hcalls hcalls'
    obtain ⟨hev, -, hdrain, hsends, -, hguarded⟩ := hothers hks
    exact ⟨hev, hdrain, hsends, hguarded _ (by rw [hr]; exact rfl)⟩
  refine ⟨hhub, ⟨hi.client hw hd, hi'.client hw' hd'⟩, fun j hj hses => ?_, ?_, ?_, ?_⟩
  · rw [hserved.bufs, hserved'.bufs]
    by_cases hjk : j = k
    · subst hjk
      rw [Function.update_self, Function.update_self]
      exact hbuf hj
    · rw [Function.update_of_ne hjk, Function.update_of_ne hjk]
      refine h.bufs j hj ?_
      rwa [← (run_others hi.wellFormed calls_client hcalls).sessions hjk]
  · exact served_without hctl h.epl hserved hserved'
  · rw [hserved'.n, hserved.n, h.n]
  · rw [hserved'.i, hserved.i, h.i]

theorem dispatch_shared {call call' : Event × Env} {hub hub' : Hub} (h : Shared s c c')
    (hagree : Agree s hub hub') (hsessions : hub.sessions = c.hub.sessions)
    (hsessions' : hub'.sessions = c'.hub.sessions) (hs : c.hub.step call = some hub)
    (hs' : c'.hub.step call' = some hub') : Shared s { c with hub } { c' with hub := hub' } := by
  obtain ⟨hi, hi'⟩ := h.intact
  refine ⟨hagree, ⟨hi.dispatch hs hsessions, hi'.dispatch hs' hsessions'⟩, fun k hk hses => ?_,
    h.epl, h.n, h.i⟩
  refine h.bufs k hk ?_
  rwa [← hsessions]

/-- What the remaining events of the two batches have in common. -/
theorem events_blur (h : Shared s c c') {ev ev' : EpollEvent} (hev : c.epl.events[c.i]? = some ev)
    (hev' : c'.epl.events[c'.i]? = some ev') : blur s ev' = blur s ev := by
  have hmap := congrArg (fun e => e.events[c.i]?) h.epl
  simp only [eplWithout, List.getElem?_map, hev, Option.map_some] at hmap
  rw [← h.i, hev'] at hmap
  exact Option.some.inj hmap

theorem wait_shared {evs evs' : List EpollEvent} {r r' : Except Fault Servers}
    (h : Shared s c c') (hevs : evs'.map (blur s) = evs.map (blur s))
    (hs : step (.ok c) (.wait evs) = some r) (hs' : step (.ok c') (.wait evs') = some r') :
    Both (Shared s) r r' := by
  simp only [step, Option.ite_none_right_eq_some, Option.some.injEq] at hs hs'
  obtain ⟨-, rfl⟩ := hs
  obtain ⟨-, rfl⟩ := hs'
  have hlen : evs'.length = evs.length := by
    simpa only [List.length_map] using congrArg List.length hevs
  have hepl : eplWithout s (c'.epl.wait evs') = eplWithout s (c.epl.wait evs) := by
    have hrest := congrArg (fun e => { e with events := evs.map (blur s) }) h.epl
    simpa only [eplWithout, Epoll.wait, hevs] using hrest
  obtain ⟨hi, hi'⟩ := h.intact
  exact .ok ⟨h.hub, ⟨hi.looping _ _ _, hi'.looping _ _ _⟩, h.bufs, hepl, hlen, rfl⟩

theorem blur_watched {ev ev' : EpollEvent} (hb : blur s ev' = blur s ev)
    (hw : ev.watched = .client s) : ev'.watched = .client s := by
  by_contra hw'
  unfold blur at hb
  rw [if_neg hw', if_pos hw] at hb
  exact hw' (congrArg EpollEvent.watched hb)

theorem blur_eq {ev ev' : EpollEvent} (hb : blur s ev' = blur s ev)
    (hw : ev.watched ≠ .client s) : ev' = ev := by
  have hw' : ev'.watched ≠ .client s := fun h => hw (blur_watched hb.symm h)
  unfold blur at hb
  rwa [if_neg hw', if_neg hw] at hb

theorem handle_shared {a : Answers} {diff : Difference} {r r' : Except Fault Servers}
    (h : Shared s c c') (hkept : Kept (.ok c) (.handle a))
    (hkept' : Kept (.ok c') (.handle (diff.apply a))) (hclear : Clear s (.ok c) (.handle a))
    (hclear' : Clear s (.ok c') (.handle (diff.apply a)))
    (hspares : Spares s (.ok c, .ok c') (.handle a diff)) (hs : step (.ok c) (.handle a) = some r)
    (hs' : step (.ok c') (.handle (diff.apply a)) = some r') : Both (Shared s) r r' := by
  simp only [step, Option.ite_none_right_eq_some, Option.some.injEq] at hs hs'
  obtain ⟨-, rfl⟩ := hs
  obtain ⟨-, rfl⟩ := hs'
  obtain ⟨ev, hev⟩ : ∃ ev, c.epl.events[c.i]? = some ev := ⟨_, List.getElem?_eq_getElem hkept⟩
  obtain ⟨ev', hev'⟩ : ∃ ev, c'.epl.events[c'.i]? = some ev := ⟨_, List.getElem?_eq_getElem hkept'⟩
  have hblur := events_blur h hev hev'
  obtain ⟨haccepted, hsame⟩ := hspares
  have hsame := hsame ev hev ev' hev'
  obtain ⟨hi, hi'⟩ := h.intact
  have hnext : Shared s { c with i := c.i + 1 } { c' with i := c'.i + 1 } :=
    ⟨h.hub, ⟨hi.looping _ _ _, hi'.looping _ _ _⟩, h.bufs, h.epl, h.n, congrArg (· + 1) h.i⟩
  unfold next
  rw [hev, hev']
  by_cases hw : ev.watched = .client s
  · rw [if_pos hw] at hsame
    exact client_shared hnext hw (blur_watched hblur hw) rfl (fun _ => rfl)
      (fun hne => absurd rfl hne) fun _ => hsame
  · rw [if_neg hw, Option.isNone_iff_eq_none] at hsame
    cases blur_eq hblur hw
    cases hwatched : ev.watched with
    | listening =>
      dsimp only [callback]
      rw [hwatched]
      dsimp only
      split_ifs
      · exact .left rfl
      · exact acceptAll_shared _ haccepted hnext
    | client k =>
      have hks : k ≠ s := fun hk => hw (hk ▸ hwatched)
      have hmem : k ∈ Watched.session ev.watched := by
        rw [hwatched]
        rfl
      have hrecvs : (diff.apply a).recvs = a.recvs := by rw [Difference.apply, hsame]; rfl
      obtain ⟨hshows, hdet⟩ := hclear ev hev k hmem hks
      obtain ⟨hshows', -⟩ := hclear' ev hev' k hmem hks
      refine client_shared hnext hwatched hwatched rfl (fun _ => rfl) (fun _ => ⟨rfl, hrecvs, ?_,
        fun i => ?_, fun hended hpollin => ⟨hshows hended hpollin, ?_⟩, hdet⟩)
        fun hk => absurd hk hks
      · rw [Difference.apply, hsame]
        rfl
      · rw [Difference.apply, hsame]
        rfl
      · rw [← hrecvs]
        exact hshows' hended hpollin

theorem gps_shared {call : Event × Env} {answer flush : ℕ → SendResult} {memory : Leftovers}
    {r r' : Except Fault Servers} (h : Shared s c c') (hclear : Clear s (.ok c) (.gps call))
    (hclear' : Clear s (.ok c') (.gps call))
    (hspares : Spares s (.ok c, .ok c') (.gps call answer flush memory))
    (hs : step (.ok c) (.gps call) = some r)
    (hs' : step (.ok c') (.gps (call.1, { call.2 with answer, flush }.over memory)) = some r') :
    Both (Shared s) r r' := by
  simp only [step, Option.ite_none_right_eq_some, Option.some.injEq] at hs hs'
  obtain ⟨hloop, rfl⟩ := hs
  obtain ⟨-, rfl⟩ := hs'
  intro d d' hd hd'
  obtain ⟨hub, hhub, rfl⟩ := gps_eq_ok hd
  obtain ⟨hub', hhub', rfl⟩ := gps_eq_ok hd'
  have hsessions : hub.sessions = c.hub.sessions := sessions_of_gps hhub hloop
  have hsessions' : hub'.sessions = c'.hub.sessions := sessions_of_gps hhub' hloop
  obtain ⟨ev, env⟩ := call
  obtain ⟨hi, hi'⟩ := h.intact
  have hagree : Agree s hub hub' := by
    refine h.hub.call ev hi.wellFormed hi'.wellFormed
      (fun m hm hpending => gps_sameBut hm hloop ?_)
      (fun _ _ _ => ⟨hclear, hclear'⟩) hhub hhub'
    unfold SameAnswers
    rw [hpending]
    exact hspares
  exact dispatch_shared h hagree hsessions hsessions' hhub hhub'

theorem other_shared {call : Event × Env} {memory : Leftovers} {r r' : Except Fault Servers}
    (h : Shared s c c') (hs : step (.ok c) (.other call) = some r)
    (hs' : step (.ok c') (.other (call.1, call.2.over memory)) = some r') :
    Both (Shared s) r r' := by
  obtain ⟨hub, hhub, rfl⟩ := other_eq_some hs
  obtain ⟨hub', hhub', rfl⟩ := other_eq_some hs'
  have hsessions : hub.sessions = c.hub.sessions := sessions_of_other hs hhub
  have hsessions' : hub'.sessions = c'.hub.sessions := sessions_of_other hs' hhub'
  obtain ⟨hi, hi'⟩ := h.intact
  obtain ⟨ev, env⟩ := call
  have hhub' : c'.hub.step (ev, env.over memory) = some hub' := hhub'
  have hagree (hsame : ∀ m, SameBut s c.hub m →
        Both (SameBut s) (c.hub.dispatch env ev) (m.dispatch env ev))
      (hsender : ∀ theirAddr bytes, ev = .datagram theirAddr bytes →
        Determined c.hub ev ∧ Determined c'.hub ev)
      (hd : Determined c.hub ev) : Agree s hub hub' := by
    refine h.hub.step (l := env.leftovers) hi.wellFormed hi'.wellFormed ?_ hsender (Or.inr hd) hhub
      hhub'
    exact fun m hm _ => hsame m hm
  refine .ok ?_
  cases ev with
  | put id =>
    exact dispatch_shared h (hagree (fun m hm => put_sameBut hm id) nofun trivial) hsessions
      hsessions' hhub hhub'
  | pull =>
    exact dispatch_shared h (hagree (fun m hm => pull_sameBut hm) nofun trivial) hsessions
      hsessions' hhub hhub'
  | _ => cases hs

theorem variant_step {p p' : Except Fault Servers × Except Fault Servers} {t : Variant}
    (hs : both step Variant.first Variant.second p t = some p')
    (hkept : Kept p.1 t.first) (hkept' : Kept p.2 t.second) (hclear : Clear s p.1 t.first)
    (hclear' : Clear s p.2 t.second) (hspares : Spares s p t) (h : Both (Shared s) p.1 p.2) :
    Both (Shared s) p'.1 p'.2 := by
  obtain ⟨r, r'⟩ := p
  obtain ⟨hs, hs'⟩ := both_eq_some.mp hs
  cases r with
  | error e => cases hs
  | ok c =>
    cases r' with
    | error e => cases hs'
    | ok c' =>
      have hshared : Shared s c c' := h c c' rfl rfl
      cases t with
      | wait evs evs' => exact wait_shared hshared hspares hs hs'
      | handle a d => exact handle_shared hshared hkept hkept' hclear hclear' hspares hs hs'
      | gps call answer flush memory => exact gps_shared hshared hclear hclear' hspares hs hs'
      | other call memory => exact other_shared hshared hs hs'

theorem shared_boot {cmdBuf cmdBuf' : List UInt8} (hmem : cmdBuf.length = CMDPKG_MAX)
    (hmem' : cmdBuf'.length = CMDPKG_MAX) : Shared s (boot cmdBuf) (boot cmdBuf') :=
  ⟨.refl s _, ⟨.boot hmem, .boot hmem'⟩, fun _ _ => nofun, rfl, rfl, rfl⟩

theorem Shared.unaffected {p : Except Fault Servers × Except Fault Servers}
    (h : Both (Shared s) p.1 p.2) : Unaffected s p := by
  intro c c' hc hc'
  have hshared := h c c' hc hc'
  refine ⟨hshared.hub, fun k hk hses => ?_⟩
  obtain ⟨t, e, hcounts, halike⟩ := hshared.bufs k hk hses
  exact hcounts.unread_alike halike

end Steps

def fault : Except Fault Servers → Option Fault
  | .ok _ => none
  | .error e => some e

def peer (byte : UInt8) : Peer :=
  ⟨default, List.replicate 1024 byte, List.length_replicate, true⟩

/-- Nothing is accepted or received, and all sends succeed. -/
def quiet : Answers := ⟨default, [], [], fun _ => default, true⟩

/-- The `REGISTER_NICK` of a client that calls itself `a`. -/
def registering : List UInt8 := [1, 0, 4, 97]

/-- Two clients connect; the first registers and its connection breaks down, in the second run
only after part of its command, and the answers have to wait. The second client adds the first
one, and a datagram makes the GPS data server answer the first one. -/
def twoFail : List Variant :=
  [.wait [⟨.listening, true, false, false⟩] [⟨.listening, true, false, false⟩],
    .handle { quiet with accepted := [peer 0, peer 0] } ⟨[peer 1, peer 1], fun _ => filled, none⟩,
    .wait [⟨.client 0, true, false, false⟩, ⟨.client 1, true, false, false⟩]
      [⟨.client 0, true, true, false⟩, ⟨.client 1, true, false, false⟩],
    .handle { quiet with recvs := [.data registering, .error] } ⟨[], fun _ => filled,
      some ⟨fun _ => .all, [.data [1], .data [0, 4, 97], .again], fun _ _ => .wouldBlock⟩⟩,
    .handle { quiet with recvs := [.data [1, 0, 4, 98], .data [2, 0, 4, 97]] }
      ⟨[], fun _ => filled, none⟩,
    .gps (.datagram default (intBytes 1 ++ intBytes 0), default) (fun _ => .wouldBlock)
      (fun _ => .wouldBlock) filled]

/-- A client registers and is gone before the answer is sent. -/
def gone : List Action :=
  [.wait [⟨.listening, true, false, false⟩], .handle { quiet with accepted := [peer 0] },
    .wait [⟨.client 0, true, false, false⟩],
    .handle { quiet with
      recvs := [.data registering]
      cmds := fun _ => { (default : Env) with answer := fun _ => .error } }]

end Servers
end Gpshub
