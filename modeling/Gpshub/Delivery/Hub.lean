import Gpshub.Delivery.Conservation
import Gpshub.Hub.Broadcast
import Gpshub.Hub.Clients

/-! The handlers of the hub, seen from the queues: each is a run of the machine in which every
`send(2)` is a step of its own. -/
namespace Gpshub.Delivery
open Lib.Machine CommandServer CommandHandler GpsDataServer CoordsBroadcastThread

def Packet.entry (p : Packet) : PendingCmd := ⟨p.pkg, p.client⟩

/-- What a socket was given, and how many bytes of it the socket took. -/
def parcel (x : Packet × ℕ) : SocketRef × CmdPkg × ℕ := (x.1.client, x.1.pkg, x.2)

def parcelOf : Output → Option (SocketRef × CmdPkg × ℕ)
  | .tcp sock pkg n => some (sock, pkg, n)
  | .udp _ _ => none

/-- Between two handlers `o` has the queues of the hub, and its sockets took what was sent. -/
structure Shows (h : Hub) (o : Outgoing) : Prop where
  sendQueue : ∀ k, (o.sendQueue k).map Packet.pkg = h.sendQueue k
  pending : o.pendingCmdQueue.map Packet.entry = h.pendingCmdQueue
  taken : o.taken.map parcel = h.out.filterMap parcelOf
  cmd : o.cmd = .idle
  gps : o.gps = .idle
  running : o.failed = false
  sound : o.Sound

/-- What leads from `h` to `h'` is a run of the machine of the queues. -/
def Delivers (h h' : Hub) : Prop :=
  ∀ o, Shows h o → ∃ as o', run Outgoing.step o as = some o' ∧ Shows h' o'

/-- A session that is still to come has nothing in its queue. -/
def Fresh (h : Hub) : Prop := ∀ k, h.nextSession ≤ k → h.sendQueue k = []

namespace Delivers

variable {h h' : Hub}

theorem trans {a b c : Hub} (hab : Delivers a b) (hbc : Delivers b c) : Delivers a c := by
  intro o ho
  obtain ⟨as, o1, has, ho1⟩ := hab o ho
  obtain ⟨bs, o2, hbs, ho2⟩ := hbc o1 ho1
  exact ⟨as ++ bs, o2, run_append.mpr ⟨o1, has, hbs⟩, ho2⟩

theorem of_same (hq : h'.sendQueue = h.sendQueue) (hp : h'.pendingCmdQueue = h.pendingCmdQueue)
    (ho : h'.out.filterMap parcelOf = h.out.filterMap parcelOf) : Delivers h h' := by
  intro o hs
  refine ⟨[], o, rfl, fun k => ?_, ?_, ?_, hs.cmd, hs.gps, hs.running, hs.sound⟩
  · rw [hq]
    exact hs.sendQueue k
  · rw [hp]
    exact hs.pending
  · rw [ho]
    exact hs.taken

theorem refl (h : Hub) : Delivers h h := of_same rfl rfl rfl

theorem of_step {a : Action}
    (hstep : ∀ o, Shows h o → ∃ o', Outgoing.step o a = some o' ∧ Shows h' o') :
    Delivers h h' := by
  intro o ho
  obtain ⟨o', hs, ho'⟩ := hstep o ho
  exact ⟨[a], o', run_cons.mpr ⟨o', hs, rfl⟩, ho'⟩

end Delivers

section Sends

variable {h : Hub} {o : Outgoing}

theorem Shows.submit_taken (ho : Shows h o) {p : Packet} (hnum : p.num = o.submitted.length)
    {answer : SendResult} {n : ℕ} (hn : answer = .all ∧ n = p.len ∨ answer = .part n) :
    Shows (h.emit (.tcp p.client p.pkg n)) (o.submit p answer) := by
  have hsound := ho.sound.submit answer hnum
  have htaken : (o.taken ++ [(p, n)]).map parcel =
      (h.out ++ [Output.tcp p.client p.pkg n]).filterMap parcelOf := by
    rw [List.map_append, List.filterMap_append, ho.taken]
    rfl
  rcases hn with ⟨rfl, rfl⟩ | rfl
  · exact ⟨ho.sendQueue, ho.pending, htaken, ho.cmd, ho.gps, ho.running, hsound⟩
  · exact ⟨ho.sendQueue, ho.pending, htaken, ho.cmd, ho.gps, ho.running, hsound⟩

theorem Shows.submit_queued (ho : Shows h o) {p : Packet} (hnum : p.num = o.submitted.length)
    (hvia : p.via = .send) :
    Shows { h with sendQueue :=
      Function.update h.sendQueue p.client (h.sendQueue p.client ++ [p.pkg]) }
      (o.submit p .wouldBlock) := by
  have hsound := ho.sound.submit .wouldBlock hnum
  have he : o.submit p .wouldBlock = { o with
      submitted := o.submitted ++ [p]
      sendQueue := Function.update o.sendQueue p.client (o.sendQueue p.client ++ [p]) } := by
    unfold Outgoing.submit Outgoing.enqueue
    rw [hvia]
  rw [he] at hsound ⊢
  refine ⟨fun k => ?_, ho.pending, ho.taken, ho.cmd, ho.gps, ho.running, hsound⟩
  change (Function.update o.sendQueue p.client _ k).map Packet.pkg =
    Function.update h.sendQueue p.client _ k
  by_cases hk : k = p.client
  · subst hk
    rw [Function.update_self, Function.update_self, List.map_append, ho.sendQueue]
    rfl
  · rw [Function.update_of_ne hk, Function.update_of_ne hk]
    exact ho.sendQueue k

theorem Shows.submit_pending (ho : Shows h o) {p : Packet} (hnum : p.num = o.submitted.length)
    (hvia : p.via = .ack) :
    Shows { h with pendingCmdQueue := h.pendingCmdQueue ++ [p.entry] }
      (o.submit p .wouldBlock) := by
  have hsound := ho.sound.submit .wouldBlock hnum
  have he : o.submit p .wouldBlock = { o with
      submitted := o.submitted ++ [p]
      pendingCmdQueue := o.pendingCmdQueue ++ [p] } := by
    unfold Outgoing.submit Outgoing.enqueue
    rw [hvia]
  rw [he] at hsound ⊢
  refine ⟨ho.sendQueue, ?_, ho.taken, ho.cmd, ho.gps, ho.running, hsound⟩
  change (o.pendingCmdQueue ++ [p]).map Packet.entry = h.pendingCmdQueue ++ [p.entry]
  rw [List.map_append, ho.pending]
  rfl

end Sends

section CommandServer

variable {env : Env} {h h' : Hub} {s : SessionRef}

theorem send_delivers {pkg : CmdPkg} {answer : SendResult} (hown : Owns s h)
    (he : send h s pkg answer = .ok h') : Delivers h h' := by
  obtain ⟨session, hs, he⟩ := bind_eq_ok.mp he
  have hsock : session.sock = s := hown.sock (Hub.session_eq_ok.mp hs)
  apply Delivers.of_step (a := .send s pkg answer)
  intro o ho
  have hstep : o.step (.send s pkg answer) = some (o.send s pkg answer) := by
    simp [Outgoing.step, ho.running, ho.cmd]
  refine ⟨_, hstep, ?_⟩
  cases answer with
  | all =>
    cases he
    rw [hsock]
    exact ho.submit_taken (p := o.next s .send pkg) rfl (Or.inl ⟨rfl, rfl⟩)
  | part n =>
    cases he
    rw [hsock]
    exact ho.submit_taken (p := o.next s .send pkg) rfl (Or.inr rfl)
  | wouldBlock =>
    cases he
    exact ho.submit_queued (p := o.next s .send pkg) rfl rfl
  | error => cases he

theorem acts_deliver (hown : Owns s h) (ha : Acts s h h') : Delivers h h' := by
  refine (effects_rule (R := fun h h' => Owns s h → Delivers h h' ∧ Owns s h') ?_ ?_ ?_ ha hown).1
  · exact fun h ho => ⟨.refl h, ho⟩
  · intro a b c hab hbc ho
    obtain ⟨hb, hob⟩ := hab ho
    obtain ⟨hc, hoc⟩ := hbc hob
    exact ⟨hb.trans hc, hoc⟩
  · intro a b hact ho
    refine ⟨?_, (act_others ho hact).2⟩
    cases hact with
    | send pkg answer he => exact send_delivers ho he
    | buddies | current | logIn | token => exact .of_same rfl rfl rfl

theorem drain_delivers {answer : ℕ → SendResult} (ps : List CmdPkg) :
    ∀ {i : ℕ} {h : Hub}, drain answer s s ps i h = .ok h' → ∀ o : Outgoing, o.cmd = .drain s →
      Shows { h with sendQueue := Function.update h.sendQueue s ps } { o with cmd := .idle } →
      ∃ as o', run Outgoing.step o as = some o' ∧ Shows h' o' := by
  induction ps with
  | nil =>
    intro i h he o hpc ho
    cases he
    have hq : o.sendQueue s = [] := by
      have hmap := ho.sendQueue s
      simpa using hmap
    have hrun : o.failed = false := ho.running
    have hstep : o.step (.drain .all) = some { o with cmd := .idle } := by
      simp [Outgoing.step, hrun, hpc, Outgoing.drainStep, hq]
    exact ⟨[.drain .all], _, run_cons.mpr ⟨_, hstep, rfl⟩, ho⟩
  | cons p rest ih =>
    intro i h he o hpc ho
    have hrun : o.failed = false := ho.running
    obtain ⟨q, qs, hq, hqp, hqs⟩ : ∃ q qs, o.sendQueue s = q :: qs ∧ q.pkg = p ∧
        qs.map Packet.pkg = rest := by
      have hmap := ho.sendQueue s
      simp only [Function.update_self] at hmap
      exact List.map_eq_cons_iff.mp hmap
    have hclient : q.client = s := by
      have hmem : q ∈ o.sendQueue s := by rw [hq]; exact List.mem_cons_self
      exact (Outgoing.isFor_iff.mp (ho.sound.sendQueue s q hmem)).1
    -- after the socket has taken `n` bytes of the front
    have hnext (n : ℕ) : Shows { h.emit (.tcp s p n) with
        sendQueue := Function.update (h.emit (.tcp s p n)).sendQueue s rest }
        { (o.take q n).pop s qs with cmd := .idle } := by
      have hsound : Outgoing.Sound o := ⟨ho.sound.nums, ho.sound.sendQueue, ho.sound.pending⟩
      have hpop := hsound.moved (.pop s q qs n (.part n) hpc hq (Or.inr rfl))
      refine ⟨fun k => ?_, ho.pending, ?_, rfl, ho.gps, ho.running,
        ⟨hpop.nums, hpop.sendQueue, hpop.pending⟩⟩
      · change (Function.update o.sendQueue s qs k).map Packet.pkg =
          Function.update h.sendQueue s rest k
        have hold := ho.sendQueue k
        by_cases hk : k = s
        · subst hk
          rw [Function.update_self, Function.update_self, hqs]
        · simp only [Function.update_of_ne hk] at hold ⊢
          exact hold
      · change (o.taken ++ [(q, n)]).map parcel = (h.out ++ [Output.tcp s p n]).filterMap parcelOf
        have hold : o.taken.map parcel = h.out.filterMap parcelOf := ho.taken
        rw [List.map_append, List.filterMap_append, hold, ← hclient, ← hqp]
        rfl
    rw [drain] at he
    cases ha : answer i with
    | all =>
      rw [ha] at he
      have hstep : o.step (.drain .all) = some ((o.take q q.len).pop s qs) := by
        simp [Outgoing.step, hrun, hpc, Outgoing.drainStep, hq]
      have hlen : q.len = p.getLen.toNat := by rw [← hqp]; rfl
      obtain ⟨as, o', has, ho'⟩ := ih he ((o.take q q.len).pop s qs) hpc (hlen ▸ hnext q.len)
      exact ⟨.drain .all :: as, o', run_cons.mpr ⟨_, hstep, has⟩, ho'⟩
    | part n =>
      rw [ha] at he
      have hstep : o.step (.drain (.part n)) = some ((o.take q n).pop s qs) := by
        simp [Outgoing.step, hrun, hpc, Outgoing.drainStep, hq]
      obtain ⟨as, o', has, ho'⟩ := ih he ((o.take q n).pop s qs) hpc (hnext n)
      exact ⟨.drain (.part n) :: as, o', run_cons.mpr ⟨_, hstep, has⟩, ho'⟩
    | wouldBlock =>
      rw [ha] at he
      cases he
      have hstep : o.step (.drain .wouldBlock) = some { o with cmd := .idle } := by
        simp [Outgoing.step, hrun, hpc, Outgoing.drainStep, hq]
      exact ⟨[.drain .wouldBlock], _, run_cons.mpr ⟨_, hstep, rfl⟩, ho⟩
    | error =>
      rw [ha] at he
      cases he

theorem sendQueued_delivers (hown : Owns s h) (he : sendQueued env s h = .ok h') :
    Delivers h h' := by
  obtain ⟨session, hs, he⟩ := bind_eq_ok.mp he
  have hsock : session.sock = s := hown.sock (Hub.session_eq_ok.mp hs)
  rw [hsock] at he
  intro o ho
  have hstep : o.step (.writable s) = some { o with cmd := .drain s } := by
    simp [Outgoing.step, ho.running, ho.cmd]
  have hin : Shows { h with sendQueue := Function.update h.sendQueue s (h.sendQueue s) }
      { { o with cmd := .drain s } with cmd := .idle } := by
    rw [Function.update_eq_self]
    exact ⟨ho.sendQueue, ho.pending, ho.taken, rfl, ho.gps, ho.running,
      ⟨ho.sound.nums, ho.sound.sendQueue, ho.sound.pending⟩⟩
  obtain ⟨as, o', has, ho'⟩ := drain_delivers _ he { o with cmd := .drain s } rfl hin
  exact ⟨.writable s :: as, o', run_cons.mpr ⟨_, hstep, has⟩, ho'⟩

end CommandServer

section GpsDataServer

variable {env : Env} {h h' : Hub}

theorem acked_delivers {sock : SocketRef} (ha : Acked env sock h h') : Delivers h h' := by
  -- one step of the machine, whatever the kernel has answered
  have hack (ack : CmdPkg) {o : Outgoing} (ho : Shows h o) :
      o.step (.ack sock ack (env.answer 0)) = some (o.sendUdpInitAck sock ack (env.answer 0)) := by
    simp [Outgoing.step, ho.running, ho.gps]
  cases ha with
  | sent ack n hn =>
    exact .of_step fun o ho =>
      ⟨_, hack ack ho, ho.submit_taken (p := o.next sock .ack ack) rfl hn⟩
  | putOff ack hb =>
    refine .of_step fun o ho => ⟨_, hack ack ho, ?_⟩
    rw [hb]
    exact ho.submit_pending (p := o.next sock .ack ack) rfl rfl

theorem processed_delivers {theirAddr : SockAddr} {buf : List UInt8}
    (hp : Processed env theirAddr buf h h') : Delivers h h' := by
  have hlook : Delivers h (h.lookUp (toint buf 0)) := .of_same rfl rfl rfl
  cases hp with
  | ignored | refused | unknown | stored => exact .of_same rfl rfl rfl
  | denied hi u usr sock hid hu hsock ha => exact hlook.trans (acked_delivers ha)
  | addressed hi u usr sock hid hu hsock hip ha =>
    have hset : Delivers h
        ((h.lookUp (toint buf 0)).setUser u (usr.setAddrUdp theirAddr)) := .of_same rfl rfl rfl
    exact hset.trans (acked_delivers ha)

/-- The loop of `sendPendingCmd`, with the thread in it; the entries `kept` so far stay. -/
theorem flush_delivers {flush : ℕ → SendResult} (q : List PendingCmd) :
    ∀ {i : ℕ} {rest : List PendingCmd} {sent : List Output},
      flushLoop flush q i = .ok (rest, sent) →
      ∀ (h : Hub) (o : Outgoing) (kept : List PendingCmd), o.gps = .flush kept.length →
        Shows { h with pendingCmdQueue := kept ++ q } { o with gps := .idle } →
        ∃ as o', run Outgoing.step o as = some o' ∧
          Shows { h with pendingCmdQueue := kept ++ rest, out := h.out ++ sent } o' := by
  induction q with
  | nil =>
    intro i rest sent he h o kept hpc ho
    cases he
    have hrun : o.failed = false := ho.running
    have hnone : o.pendingCmdQueue[kept.length]? = none := by
      have hmap : o.pendingCmdQueue.map Packet.entry = kept ++ [] := ho.pending
      have hlen := congrArg List.length hmap
      rw [List.length_map, List.append_nil] at hlen
      exact List.getElem?_eq_none hlen.le
    have hstep : o.step (.flush .all) = some { o with gps := .idle } := by
      simp [Outgoing.step, hrun, hpc, Outgoing.flushStep, hnone]
    refine ⟨[.flush .all], _, run_cons.mpr ⟨_, hstep, rfl⟩, ?_⟩
    rw [List.append_nil h.out]
    exact ho
  | cons e q ih =>
    intro i rest sent he h o kept hpc ho
    have hrun : o.failed = false := ho.running
    have hmap : o.pendingCmdQueue.map Packet.entry = kept ++ e :: q := ho.pending
    have hsome : (o.pendingCmdQueue.map Packet.entry)[kept.length]? = some e := by
      rw [hmap, List.getElem?_append_right le_rfl, Nat.sub_self]
      rfl
    rw [List.getElem?_map] at hsome
    obtain ⟨p, hp, hpe⟩ := Option.map_eq_some_iff.mp hsome
    -- after the socket has taken `n` bytes of the entry
    have hnext (n : ℕ) : Shows { h.emit (.tcp e.sock e.cmd n) with pendingCmdQueue := kept ++ q }
        { (o.take p n).erase kept.length with gps := .idle } := by
      have hsound : Outgoing.Sound o := ⟨ho.sound.nums, ho.sound.sendQueue, ho.sound.pending⟩
      have herase := hsound.moved (.erase kept.length p n (.part n) hpc hp (Or.inr rfl))
      refine ⟨ho.sendQueue, ?_, ?_, ho.cmd, rfl, ho.running,
        ⟨herase.nums, herase.sendQueue, herase.pending⟩⟩
      · change (o.pendingCmdQueue.eraseIdx kept.length).map Packet.entry = kept ++ q
        rw [← List.eraseIdx_map, hmap, List.eraseIdx_append_of_length_le le_rfl, Nat.sub_self]
        rfl
      · change (o.taken ++ [(p, n)]).map parcel =
          (h.out ++ [Output.tcp e.sock e.cmd n]).filterMap parcelOf
        have hold : o.taken.map parcel = h.out.filterMap parcelOf := ho.taken
        rw [List.map_append, List.filterMap_append, hold, ← hpe]
        rfl
    rw [flushLoop] at he
    cases ha : flush i with
    | all =>
      rw [ha] at he
      obtain ⟨⟨rest', sent'⟩, hrest, he⟩ := bind_eq_ok.mp he
      cases he
      have hstep : o.step (.flush .all) = some ((o.take p p.len).erase kept.length) := by
        simp [Outgoing.step, hrun, hpc, Outgoing.flushStep, hp]
      have hlen : e.cmd.getLen.toNat = p.len := by rw [← hpe]; rfl
      obtain ⟨as, o', has, ho'⟩ := ih hrest _ ((o.take p p.len).erase kept.length) kept hpc
        (hnext p.len)
      refine ⟨.flush .all :: as, o', run_cons.mpr ⟨_, hstep, has⟩, ?_⟩
      rw [List.append_cons, hlen]
      exact ho'
    | part n =>
      rw [ha] at he
      obtain ⟨⟨rest', sent'⟩, hrest, he⟩ := bind_eq_ok.mp he
      cases he
      have hstep : o.step (.flush (.part n)) = some ((o.take p n).erase kept.length) := by
        simp [Outgoing.step, hrun, hpc, Outgoing.flushStep, hp]
      obtain ⟨as, o', has, ho'⟩ := ih hrest _ ((o.take p n).erase kept.length) kept hpc (hnext n)
      refine ⟨.flush (.part n) :: as, o', run_cons.mpr ⟨_, hstep, has⟩, ?_⟩
      rw [List.append_cons]
      exact ho'
    | wouldBlock =>
      rw [ha] at he
      obtain ⟨⟨rest', sent'⟩, hrest, he⟩ := bind_eq_ok.mp he
      cases he
      have hstep : o.step (.flush .wouldBlock) =
          some { o with gps := .flush (kept.length + 1) } := by
        simp [Outgoing.step, hrun, hpc, Outgoing.flushStep, hp]
      have hpass : Shows { h with pendingCmdQueue := (kept ++ [e]) ++ q }
          { { o with gps := .flush (kept.length + 1) } with gps := .idle } := by
        rw [← List.append_cons]
        exact ho
      obtain ⟨as, o', has, ho'⟩ := ih hrest h { o with gps := .flush (kept.length + 1) }
        (kept ++ [e]) (by simp) hpass
      refine ⟨.flush .wouldBlock :: as, o', run_cons.mpr ⟨_, hstep, has⟩, ?_⟩
      rw [List.append_cons]
      exact ho'
    | error =>
      rw [ha] at he
      cases he

theorem sendPendingCmd_delivers (he : sendPendingCmd env h = .ok h') : Delivers h h' := by
  obtain ⟨⟨rest, sent⟩, hl, he⟩ := bind_eq_ok.mp he
  cases he
  intro o ho
  have hstep : o.step .sendPending = some { o with gps := .flush 0 } := by
    simp [Outgoing.step, ho.running, ho.gps]
  have hin : Shows { h with pendingCmdQueue := [] ++ h.pendingCmdQueue }
      { { o with gps := .flush 0 } with gps := .idle } :=
    ⟨ho.sendQueue, ho.pending, ho.taken, ho.cmd, rfl, ho.running,
      ⟨ho.sound.nums, ho.sound.sendQueue, ho.sound.pending⟩⟩
  obtain ⟨as, o', has, ho'⟩ := flush_delivers _ hl h { o with gps := .flush 0 } [] rfl hin
  exact ⟨.sendPending :: as, o', run_cons.mpr ⟨_, hstep, has⟩, ho'⟩

end GpsDataServer

section Steps

variable {h h' : Hub}

theorem turn_sendQueue {env : Env} {id : Int32} (he : turn env id h = .ok h') :
    h'.sendQueue = h.sendQueue := by
  unfold turn at he
  generalize h.idUmap.get id = p at he
  obtain ⟨ptr, m⟩ := p
  cases ptr with
  | none =>
    cases he
    rfl
  | some u =>
    obtain ⟨usr, husr, he⟩ := bind_eq_ok.mp he
    have husr : h.users u = some usr := Hub.deref_eq_ok.mp husr
    cases hc : usr.ready with
    | none =>
      rw [hc] at he
      cases he
      rfl
    | some c =>
      rw [hc] at he
      obtain ⟨h1, hall, he⟩ := bind_eq_ok.mp he
      obtain ⟨usr', -, hall⟩ := bind_eq_ok.mp hall
      obtain ⟨usr1, -, he⟩ := bind_eq_ok.mp he
      cases he
      have hsent := sendAll_eq_ok (h := { h with idUmap := m }) (o := h.out) husr _ hall
      rw [hsent]
      rfl

theorem processed_sendQueue {env : Env} {theirAddr : SockAddr} {buf : List UInt8}
    (hp : Processed env theirAddr buf h h') : h'.sendQueue = h.sendQueue := by
  cases hp with
  | ignored | refused | unknown | stored => rfl
  | denied hi u usr sock hid hu hsock ha => cases ha <;> rfl
  | addressed hi u usr sock hid hu hsock hip ha => cases ha <;> rfl

theorem posts_parcelOf (env : Env) (h : Hub) :
    ((posts env h).map Mail.output).filterMap parcelOf = [] := by
  rw [List.filterMap_map, List.filterMap_eq_nil_iff]
  intro m hm
  unfold posts at hm
  split at hm
  · cases hm
  · obtain ⟨nick, -, hpost⟩ := List.mem_filterMap.mp hm
    obtain ⟨b, buddy, -, -, -, rfl⟩ := post_eq_some.mp hpost
    rfl

theorem step_delivers {call : Event × Env} (hwf : WellFormed h) (hfresh : Fresh h)
    (hs : h.step call = some h') (hopen : ∀ s, call.1 ≠ .close s) : Delivers h h' := by
  obtain ⟨ev, env⟩ := call
  have he := Hub.step_eq_some.mp hs
  cases ev with
  | accept addr =>
    cases he
    apply Delivers.of_same
    · change Function.update h.sendQueue h.nextSession [] = h.sendQueue
      rw [← hfresh h.nextSession le_rfl, Function.update_eq_self]
    · rfl
    · rfl
  | command s pkg =>
    obtain ⟨session, -, he⟩ := bind_eq_ok.mp he
    exact acts_deliver (.of_wellFormed hwf s) (handle_acts he)
  | writable s => exact sendQueued_delivers (.of_wellFormed hwf s) he
  | close s => exact absurd rfl (hopen s)
  | datagram theirAddr bytes =>
    obtain ⟨h1, hp, he⟩ := bind_eq_ok.mp he
    exact (processed_delivers (process_processed hp)).trans (sendPendingCmd_delivers he)
  | timeout => exact sendPendingCmd_delivers he
  | put id =>
    cases he
    exact .of_same rfl rfl rfl
  | pull =>
    cases hq : h.uqueue with
    | nil =>
      simp only [Hub.dispatch, hq] at he
      cases he
    | cons id rest =>
      have hout := pull_out hq hs
      simp only [Hub.dispatch, hq] at he
      have hpend := (turn_frame he).2.2
      have hqueue := turn_sendQueue he
      refine .of_same hqueue hpend ?_
      rw [hout, List.filterMap_append, posts_parcelOf, List.append_nil]

theorem fresh_step {call : Event × Env} (hwf : WellFormed h) (hs : h.step call = some h')
    (hopen : ∀ s, call.1 ≠ .close s) (hfresh : Fresh h) : Fresh h' := by
  have hnext : h.nextSession ≤ h'.nextSession := by
    cases step_change hs with
    | accept addr hev => exact Nat.le_succ _
    | register | close | logOut => exact le_rfl
    | frame _ hin hclose hf hid hpend => exact hf.nextSession.ge
  intro k hk
  have hk : h.nextSession ≤ k := hnext.trans hk
  obtain ⟨ev, env⟩ := call
  have he := Hub.step_eq_some.mp hs
  have hother (s : SessionRef) (hclient : ev.client = some s) (hses : ∃ x, h.sessions s = some x) :
      h'.sendQueue k = h.sendQueue k := by
    obtain ⟨session, hses⟩ := hses
    have hlt : s < h.nextSession := (hwf.session hses).2
    exact (step_others hwf hclient hs).sendQueue (hlt.trans_le hk).ne'
  have hsame : h'.sendQueue k = h.sendQueue k := by
    cases ev with
    | accept addr =>
      cases he
      change Function.update h.sendQueue h.nextSession [] k = h.sendQueue k
      rw [← hfresh h.nextSession le_rfl, Function.update_eq_self]
    | command s pkg =>
      obtain ⟨session, hses, -⟩ := bind_eq_ok.mp he
      exact hother s rfl ⟨session, Hub.session_eq_ok.mp hses⟩
    | writable s =>
      obtain ⟨session, hses, -⟩ := bind_eq_ok.mp he
      exact hother s rfl ⟨session, Hub.session_eq_ok.mp hses⟩
    | close s => exact absurd rfl (hopen s)
    | datagram theirAddr bytes =>
      obtain ⟨h1, hp, he⟩ := bind_eq_ok.mp he
      obtain ⟨⟨rest, sent⟩, -, he⟩ := bind_eq_ok.mp he
      cases he
      change h1.sendQueue k = h.sendQueue k
      rw [processed_sendQueue (process_processed hp)]
    | timeout =>
      obtain ⟨⟨rest, sent⟩, -, he⟩ := bind_eq_ok.mp he
      cases he
      rfl
    | put id =>
      cases he
      rfl
    | pull =>
      cases hq : h.uqueue with
      | nil =>
        simp only [Hub.dispatch, hq] at he
        cases he
      | cons id rest =>
        simp only [Hub.dispatch, hq] at he
        rw [turn_sendQueue he]
  rw [hsame]
  exact hfresh k hk

end Steps

/-- The queues of the hub in a run without a `close` are queues that the machine reaches: what
holds of them in all its runs holds of the hub. -/
theorem hub_delivers {calls : List (Event × Env)} {h : Hub} (hr : run Hub.step .boot calls = some h)
    (hopen : ∀ call ∈ calls, ∀ s, call.1 ≠ .close s) :
    ∃ as o, run Outgoing.step .boot as = some o ∧ Shows h o := by
  have hboot : Shows .boot .boot := ⟨fun _ => rfl, rfl, rfl, rfl, rfl, rfl, .boot⟩
  have hfresh : Fresh .boot := fun _ _ => rfl
  have hsim := run_simulated (R := fun h o => (WellFormed h ∧ Fresh h) ∧ Shows h o)
    (W := fun call : Event × Env => ∀ s, call.1 ≠ .close s) (f := Outgoing.step) ?_ hr hopen
    ⟨⟨.boot, hfresh⟩, hboot⟩
  · obtain ⟨as, o, has, -, ho⟩ := hsim
    exact ⟨as, o, has, ho⟩
  · rintro h call h' o hcall hs ⟨⟨hwf, hf⟩, ho⟩
    obtain ⟨as, o', has, ho'⟩ := step_delivers hwf hf hs hcall o ho
    exact ⟨as, o', has, ⟨hwf.step hs, fresh_step hwf hs hcall hf⟩, ho'⟩

end Gpshub.Delivery
