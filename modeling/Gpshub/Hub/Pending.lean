import Gpshub.Hub.WellFormed

/-! The acknowledgements that wait to be sent, and the sockets they wait for. -/
namespace Gpshub
open CommandServer CommandHandler GpsDataServer CoordsBroadcastThread Lib.Machine

/-- The socket belongs to an open session and has not been deleted. -/
def LiveSock (h : Hub) (sock : SocketRef) : Prop :=
  (∃ s session, h.sessions s = some session ∧ session.sock = sock) ∧
    (h.sockets sock).deleted = false

def PendingLive (h : Hub) : Prop := ∀ pcmd ∈ h.pendingCmdQueue, LiveSock h pcmd.sock

/-- When the event makes `sendPendingCmd` go through the queue, all sockets there are live. -/
def FlushesLive (h : Hub) (call : Event × Env) : Prop :=
  match call.1 with
  | .datagram theirAddr bytes =>
    ∀ h', process call.2 theirAddr bytes h = .ok h' → PendingLive h'
  | .timeout => PendingLive h
  | _ => True

/-- The datagram is an init datagram whose acknowledgement is put off until the kernel takes
more for `sock`, the socket of the user it names. -/
def AckBlocks (env : Env) (h : Hub) (bytes : List UInt8) (sock : SocketRef) : Prop :=
  (bytes.take BUF_LEN).length = 8 ∧ env.answer 0 = .wouldBlock ∧
    ∃ u usr, h.idUmap.map (toint (bytes.take BUF_LEN) 0) = some (some u) ∧
      h.users u = some usr ∧ usr.sock = some sock

/-- No session is closed while an acknowledgement waits for its socket, and none is put off
for a socket that is deleted already. -/
def WaitsForLive (h : Hub) (call : Event × Env) : Prop :=
  (∀ s session, call.1 = .close s → h.sessions s = some session →
    ∀ pcmd ∈ h.pendingCmdQueue, pcmd.sock ≠ session.sock) ∧
  ∀ theirAddr bytes sock, call.1 = .datagram theirAddr bytes → AckBlocks call.2 h bytes sock →
    (h.sockets sock).deleted = false

section Queue

variable {env : Env} {h h' : Hub}

theorem Acked.pending {sock : SocketRef} (ha : Acked env sock h h') :
    (env.answer 0 ≠ .wouldBlock ∧ h'.pendingCmdQueue = h.pendingCmdQueue) ∨
      ∃ ack, env.answer 0 = .wouldBlock ∧
        h'.pendingCmdQueue = h.pendingCmdQueue ++ [⟨ack, sock⟩] := by
  cases ha with
  | sent ack n hn =>
    refine Or.inl ⟨fun hb => ?_, rfl⟩
    rw [hb] at hn
    rcases hn with ⟨hn, -⟩ | hn <;> cases hn
  | putOff ack ha => exact Or.inr ⟨ack, ha, rfl⟩

theorem Processed.pending {theirAddr : SockAddr} {bytes : List UInt8}
    (hp : Processed env theirAddr (bytes.take BUF_LEN) h h') :
    h'.pendingCmdQueue = h.pendingCmdQueue ∧ (∀ sock, ¬AckBlocks env h bytes sock) ∨
      ∃ ack sock, AckBlocks env h bytes sock ∧
        h'.pendingCmdQueue = h.pendingCmdQueue ++ [⟨ack, sock⟩] := by
  -- what follows from an acknowledgement, whatever the state it is sent in
  have hacked {u : UserRef} {usr : User} {sock : SocketRef} {h1 : Hub}
      (hi : (bytes.take BUF_LEN).length = 8)
      (hid : h.idUmap.pointsTo (toint (bytes.take BUF_LEN) 0) = some u)
      (hu : h.users u = some usr) (hsock : usr.sock = some sock)
      (ha : Acked env sock h1 h') (hq : h1.pendingCmdQueue = h.pendingCmdQueue) :
      h'.pendingCmdQueue = h.pendingCmdQueue ∧ (∀ sock, ¬AckBlocks env h bytes sock) ∨
        ∃ ack sock, AckBlocks env h bytes sock ∧
          h'.pendingCmdQueue = h.pendingCmdQueue ++ [⟨ack, sock⟩] := by
    rw [← hq]
    rcases ha.pending with ⟨hb, hq'⟩ | ⟨ack, hb, hq'⟩
    · exact Or.inl ⟨hq', fun sock hblocks => hb hblocks.2.1⟩
    · exact Or.inr ⟨ack, sock, ⟨hi, hb, u, usr, SyncHashMap.pointsTo_eq_some.mp hid, hu, hsock⟩,
        hq'⟩
  cases hp with
  | ignored hc hi => exact Or.inl ⟨rfl, fun sock hb => hi hb.1⟩
  | refused hc | stored hc =>
    refine Or.inl ⟨rfl, fun sock hb => ?_⟩
    have hi := hb.1
    omega
  | unknown hi hid =>
    refine Or.inl ⟨rfl, ?_⟩
    rintro sock ⟨-, -, u, usr, hmap, -⟩
    rw [SyncHashMap.pointsTo_eq_some.mpr hmap] at hid
    cases hid
  | denied hi u usr sock hid hu hsock ha => exact hacked hi hid hu hsock ha rfl
  | addressed hi u usr sock hid hu hsock hip ha => exact hacked hi hid hu hsock ha rfl

theorem flushLoop_sublist {flush : ℕ → SendResult} (q : List PendingCmd) :
    ∀ {i : ℕ} {kept : List PendingCmd} {sent : List Output},
      flushLoop flush q i = .ok (kept, sent) → kept.Sublist q := by
  induction q with
  | nil =>
    intro i kept sent he
    cases he
    exact .refl _
  | cons pcmd rest ih =>
    intro i kept sent he
    rw [flushLoop] at he
    cases hf : flush i with
    | all =>
      rw [hf] at he
      obtain ⟨⟨k, o⟩, hk, he⟩ := bind_eq_ok.mp he
      cases he
      exact (ih hk).cons _
    | part n =>
      rw [hf] at he
      obtain ⟨⟨k, o⟩, hk, he⟩ := bind_eq_ok.mp he
      cases he
      exact (ih hk).cons _
    | wouldBlock =>
      rw [hf] at he
      obtain ⟨⟨k, o⟩, hk, he⟩ := bind_eq_ok.mp he
      cases he
      exact (ih hk).cons_cons _
    | error =>
      rw [hf] at he
      cases he

theorem sendPendingCmd_sublist (he : sendPendingCmd env h = .ok h') :
    h'.pendingCmdQueue.Sublist h.pendingCmdQueue := by
  obtain ⟨⟨kept, sent⟩, hk, he⟩ := bind_eq_ok.mp he
  cases he
  exact flushLoop_sublist _ hk

end Queue

section Live

variable {h h' : Hub}

theorem liveSock_iff (hwf : WellFormed h) {sock : SocketRef} :
    LiveSock h sock ↔ sock < h.nextSession ∧ (h.sockets sock).deleted = false := by
  constructor
  · rintro ⟨⟨s, session, hs, rfl⟩, hd⟩
    rw [(hwf.session hs).1] at hd ⊢
    exact ⟨(hwf.session hs).2, hd⟩
  · rintro ⟨hlt, hd⟩
    obtain ⟨session, hs⟩ := (hwf.socket hlt).mp hd
    exact ⟨⟨sock, session, hs, (hwf.session hs).1⟩, hd⟩

theorem Frame.liveSock_iff (hf : Frame h h') (sock : SocketRef) :
    LiveSock h' sock ↔ LiveSock h sock := by
  unfold LiveSock
  rw [hf.sessions, hf.sockets]

theorem PendingLive.of_sublist (hp : PendingLive h) (hf : Frame h h')
    (hq : h'.pendingCmdQueue.Sublist h.pendingCmdQueue) : PendingLive h' :=
  fun pcmd hm => (hf.liveSock_iff _).mpr (hp pcmd (hq.subset hm))

/-- Before a datagram's flush all is live exactly if its acknowledgement is. -/
theorem pendingLive_process {env : Env} {theirAddr : SockAddr} {bytes : List UInt8}
    (hwf : WellFormed h) (hp : PendingLive h) (he : process env theirAddr bytes h = .ok h') :
    PendingLive h' ↔ ∀ sock, AckBlocks env h bytes sock → (h.sockets sock).deleted = false := by
  have hf := (process_processed he).frame.1
  have hlive {sock : SocketRef} (hb : AckBlocks env h bytes sock) :
      LiveSock h sock ↔ (h.sockets sock).deleted = false := by
    obtain ⟨-, -, u, usr, -, husr, hsock⟩ := hb
    obtain ⟨-, -, s, hs, hlt⟩ := hwf.user husr
    cases hsock.symm.trans hs
    rw [liveSock_iff hwf]
    exact and_iff_right hlt
  rcases (process_processed he).pending with ⟨hq, hno⟩ | ⟨ack, sock, hb, hq⟩
  · exact iff_of_true (hp.of_sublist hf (by rw [hq])) fun sock hb => absurd hb (hno sock)
  · constructor
    · intro hp' sock' hb'
      have hsame : sock' = sock := by
        obtain ⟨-, -, u, usr, hu, husr, hsock⟩ := hb
        obtain ⟨-, -, u', usr', hu', husr', hsock'⟩ := hb'
        cases hu.symm.trans hu'
        cases husr.symm.trans husr'
        exact Option.some.inj (hsock'.symm.trans hsock)
      subst hsame
      have hl := hp' ⟨ack, sock'⟩ (by rw [hq]; simp)
      exact (hlive hb).mp ((hf.liveSock_iff _).mp hl)
    · intro hd pcmd hm
      rw [hf.liveSock_iff]
      rw [hq, List.mem_append, List.mem_singleton] at hm
      rcases hm with hm | rfl
      · exact hp pcmd hm
      · exact (hlive hb).mpr (hd sock hb)

/-- Closing a session leaves all waiting acknowledgements live exactly if none waits for its
socket. -/
theorem pendingLive_delete (hwf : WellFormed h) (hwf' : WellFormed h') (hp : PendingLive h)
    {session : Session} (hq : h'.pendingCmdQueue = h.pendingCmdQueue)
    (hnext : h'.nextSession = h.nextSession)
    (hsock : h'.sockets = Function.update h.sockets session.sock
      { h.sockets session.sock with deleted := true }) :
    PendingLive h' ↔ ∀ pcmd ∈ h.pendingCmdQueue, pcmd.sock ≠ session.sock := by
  unfold PendingLive
  rw [hq]
  refine forall₂_congr fun pcmd hm => ?_
  have hl := (liveSock_iff hwf).mp (hp pcmd hm)
  rw [liveSock_iff hwf', hnext, hsock]
  by_cases he : pcmd.sock = session.sock
  · rw [he]
    simp
  · rw [Function.update_of_ne he]
    exact iff_of_true hl he

private theorem waitsForLive_of_other {call : Event × Env} (hclose : ∀ s, call.1 ≠ .close s)
    (hfl : ¬call.1.Flushes) : WaitsForLive h call := by
  refine ⟨fun s _ hev => absurd hev (hclose s), fun theirAddr bytes _ hev => ?_⟩
  rw [hev] at hfl
  exact absurd trivial hfl

private theorem pendingLive_other {call : Event × Env} (hs : Hub.step h call = some h')
    (hwf : WellFormed h) (hp : PendingLive h) (hfl : ¬call.1.Flushes) :
    PendingLive h' ↔ WaitsForLive h call := by
  have hwf' := hwf.step hs
  have hkept (hn : h.nextSession ≤ h'.nextSession) (hq : h'.pendingCmdQueue = h.pendingCmdQueue)
      (hsock : ∀ s < h.nextSession, h'.sockets s = h.sockets s) : PendingLive h' := by
    intro pcmd hm
    rw [hq] at hm
    obtain ⟨hlt, hd⟩ := (liveSock_iff hwf).mp (hp pcmd hm)
    exact (liveSock_iff hwf').mpr ⟨hlt.trans_le hn, by rw [hsock _ hlt, hd]⟩
  have hclosed {s : SessionRef} {session : Session} (hev : call.1 = .close s)
      (hses : h.sessions s = some session) : WaitsForLive h call ↔
        ∀ pcmd ∈ h.pendingCmdQueue, pcmd.sock ≠ session.sock := by
    constructor
    · intro hw
      exact hw.1 s session hev hses
    · intro hw
      refine ⟨fun t x hev' hx => ?_, fun _ _ _ hev' => absurd (hev.symm.trans hev') nofun⟩
      cases hev.symm.trans hev'
      cases hses.symm.trans hx
      exact hw
  cases step_change hs with
  | accept addr hev =>
    refine iff_of_true (hkept (Nat.le_succ _) rfl fun s hlt => ?_)
      (waitsForLive_of_other (by simp [hev]) hfl)
    exact Function.update_of_ne hlt.ne ..
  | register s pkg session id q o hev hin hses hnick hne hid =>
    exact iff_of_true (hkept le_rfl rfl fun _ _ => rfl)
      (waitsForLive_of_other (by simp [hev]) hfl)
  | close s session hev hses hu =>
    rw [hclosed hev hses]
    exact pendingLive_delete hwf hwf' hp rfl rfl rfl
  | logOut s session u usr hev hses hu husr =>
    rw [hclosed hev hses]
    exact pendingLive_delete hwf hwf' hp rfl rfl rfl
  | frame _ hin hclose hf hid hpend =>
    refine iff_of_true (hp.of_sublist hf (by rw [hpend hfl])) (waitsForLive_of_other hclose hfl)

/-- One step leaves all waiting acknowledgements live, and sends none to a deleted socket,
exactly if it lets none wait for a deleted socket. -/
theorem pendingLive_step {call : Event × Env} (hs : Hub.step h call = some h')
    (hwf : WellFormed h) (hp : PendingLive h) :
    PendingLive h' ∧ FlushesLive h call ↔ WaitsForLive h call := by
  obtain ⟨ev, env⟩ := call
  have he := Hub.step_eq_some.mp hs
  have hother := pendingLive_other hs hwf hp
  cases ev with
  | datagram theirAddr bytes =>
    obtain ⟨h1, hp1, he⟩ := bind_eq_ok.mp he
    have hiff := pendingLive_process hwf hp hp1
    constructor
    · rintro ⟨-, hfl⟩
      refine ⟨nofun, fun a b sock hev hb => ?_⟩
      cases hev
      exact hiff.mp (hfl h1 hp1) sock hb
    · rintro ⟨-, hw⟩
      have hl1 := hiff.mpr fun sock hb => hw theirAddr bytes sock rfl hb
      refine ⟨hl1.of_sublist (sendPendingCmd_frame he).1 (sendPendingCmd_sublist he), ?_⟩
      intro h2 hp2
      cases hp1.symm.trans hp2
      exact hl1
  | timeout =>
    have hl := hp.of_sublist (sendPendingCmd_frame he).1 (sendPendingCmd_sublist he)
    exact iff_of_true ⟨hl, hp⟩ ⟨nofun, nofun⟩
  | accept | command | writable | close | put | pull =>
    exact (and_iff_left trivial).trans (hother id)

end Live

/-- Along a run no acknowledgement outlives the socket it waits for, and none is sent to a
deleted one, exactly if no session is closed while an acknowledgement waits for its socket
and none is put off for a socket that is deleted already. -/
theorem pending_live_iff (calls : List (Event × Env)) :
    Always Hub.step PendingLive Hub.boot calls ∧ Guarded Hub.step FlushesLive Hub.boot calls ↔
      Guarded Hub.step WaitsForLive Hub.boot calls :=
  always_and_guarded_iff (fun _ _ _ => WellFormed.step) (fun _ _ _ => pendingLive_step) .boot
    (fun _ hm => absurd hm List.not_mem_nil)

/-- The token of the user is 0, and the kernel takes nothing for its socket when the init
datagram comes; then the peer hangs up and the GPS data server times out. -/
def hangsUpEarly : List (Event × Env) :=
  [(.accept default, default), (.command 0 (.registerNick [97]), default),
    (.datagram default (intBytes 1 ++ intBytes 0),
      { (default : Env) with answer := fun _ => .wouldBlock, flush := fun _ => .wouldBlock }),
    (.close 0, default)]

/-- The acknowledgement is still on the queue, and its socket deleted. -/
theorem pending_live_counterexample : (∃ h ack, run Hub.step Hub.boot hangsUpEarly = some h ∧
      h.pendingCmdQueue = [⟨ack, 0⟩] ∧ (h.sockets 0).deleted = true) ∧
    ¬∀ calls, Always Hub.step PendingLive Hub.boot calls ∧
      Guarded Hub.step FlushesLive Hub.boot calls := by
  obtain ⟨h, ack, hr, hq, hd⟩ : ∃ h ack, run Hub.step Hub.boot hangsUpEarly = some h ∧
      h.pendingCmdQueue = [⟨ack, 0⟩] ∧ (h.sockets 0).deleted = true := ⟨_, _, rfl, rfl, rfl⟩
  refine ⟨⟨h, ack, hr, hq, hd⟩, fun hall => ?_⟩
  have hl := (hall hangsUpEarly).1.last hr ⟨ack, 0⟩ (by rw [hq]; exact List.mem_singleton_self _)
  rw [hl.2] at hd
  cases hd

end Gpshub
