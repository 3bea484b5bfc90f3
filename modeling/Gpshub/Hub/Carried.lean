import Gpshub.Hub.Chronicle
import Gpshub.Hub.Clients
import Gpshub.Hub.Broadcast
import Mathlib.Algebra.Order.Group.Multiset
import Mathlib.Tactic.Abel

/-! The packages that a client has been sent or is going to be sent, and what a step adds to
them. -/
namespace Gpshub
open CommandServer CommandHandler GpsDataServer CoordsBroadcastThread Lib.Machine

/-- The acknowledgements that wait for the socket. -/
def Hub.acks (h : Hub) (k : SocketRef) : List CmdPkg :=
  (h.pendingCmdQueue.filter (·.sock = k)).map PendingCmd.cmd

/-- All that was handed to the socket, in order. -/
def Hub.wire (h : Hub) (k : SocketRef) : List CmdPkg := h.out.filterMap (Output.tcpTo k)

/-- What was sent and what waits in the two queues. -/
def onTheWay (wire queue acks : List CmdPkg) : Multiset CmdPkg :=
  (wire : Multiset CmdPkg) + queue + acks

/-- All that was submitted for the session, and not dropped. -/
def Hub.carried (h : Hub) (k : SessionRef) : Multiset CmdPkg :=
  onTheWay (h.wire k) (h.sendQueue k) (h.acks k)

section OnTheWay

variable (w q a : List CmdPkg) (p : CmdPkg)

theorem onTheWay_sent : onTheWay (w ++ [p]) q a = onTheWay w q a + {p} := by
  unfold onTheWay
  rw [← Multiset.coe_add, Multiset.coe_singleton]
  abel

theorem onTheWay_queued : onTheWay w (q ++ [p]) a = onTheWay w q a + {p} := by
  unfold onTheWay
  rw [← Multiset.coe_add, Multiset.coe_singleton]
  abel

theorem onTheWay_putOff : onTheWay w q (a ++ [p]) = onTheWay w q a + {p} := by
  unfold onTheWay
  rw [← Multiset.coe_add, Multiset.coe_singleton]
  abel

theorem onTheWay_pop : onTheWay (w ++ [p]) q a = onTheWay w (p :: q) a := by
  rw [onTheWay_sent]
  unfold onTheWay
  rw [← Multiset.cons_coe, ← Multiset.singleton_add]
  abel

theorem onTheWay_flush (b : List CmdPkg) :
    onTheWay (w ++ [p]) q (a ++ b) = onTheWay w q (a ++ p :: b) := by
  rw [onTheWay_sent]
  unfold onTheWay
  rw [← Multiset.coe_add, ← Multiset.coe_add, ← Multiset.cons_coe, ← Multiset.singleton_add]
  abel

end OnTheWay

/-- Between `h` and `h'` the packages `ps` were submitted for `k`, and none was lost. -/
structure Submits (k : SessionRef) (h h' : Hub) (ps : Multiset CmdPkg) : Prop where
  wire : h.wire k <+: h'.wire k
  carried : h'.carried k = h.carried k + ps

namespace Submits

variable {k : SessionRef} {h h' : Hub} {ps qs : Multiset CmdPkg}

theorem trans {a b c : Hub} (hab : Submits k a b ps) (hbc : Submits k b c qs) :
    Submits k a c (ps + qs) where
  wire := hab.wire.trans hbc.wire
  carried := by rw [hbc.carried, hab.carried, add_assoc]

theorem of_same (hw : h'.wire k = h.wire k) (hq : h'.sendQueue k = h.sendQueue k)
    (hp : h'.pendingCmdQueue = h.pendingCmdQueue) : Submits k h h' 0 where
  wire := by rw [hw]
  carried := by
    unfold Hub.carried Hub.acks
    rw [hw, hq, hp, add_zero]

theorem refl (h : Hub) : Submits k h h 0 := of_same rfl rfl rfl

end Submits

section Sends

variable {k s : SessionRef} {h h' : Hub} {p : CmdPkg}

theorem wire_emit (h : Hub) (o : Output) :
    (h.emit o).wire k = h.wire k ++ (Output.tcpTo k o).toList := by
  unfold Hub.wire Hub.emit
  rw [List.filterMap_append]
  cases ho : Output.tcpTo k o <;> simp [ho]

theorem tcpTo_self (p : CmdPkg) (n : ℕ) : Output.tcpTo k (.tcp k p n) = some p := if_pos rfl

theorem tcpTo_other (hk : k ≠ s) (p : CmdPkg) (n : ℕ) : Output.tcpTo k (.tcp s p n) = none :=
  if_neg hk.symm

theorem emit_submits (h : Hub) (p : CmdPkg) (n : ℕ) : Submits k h (h.emit (.tcp k p n)) {p} where
  wire := by
    rw [wire_emit]
    exact List.prefix_append _ _
  carried := by
    unfold Hub.carried
    rw [wire_emit, tcpTo_self]
    exact onTheWay_sent ..

theorem emit_other (hk : k ≠ s) (h : Hub) (p : CmdPkg) (n : ℕ) :
    Submits k h (h.emit (.tcp s p n)) 0 := by
  have hw := wire_emit (k := k) h (.tcp s p n)
  rw [tcpTo_other hk, Option.toList_none, List.append_nil] at hw
  exact .of_same hw rfl rfl

theorem enqueue_submits (h : Hub) (p : CmdPkg) : Submits k h
    { h with sendQueue := Function.update h.sendQueue k (h.sendQueue k ++ [p]) } {p} where
  wire := List.prefix_refl _
  carried := by
    change onTheWay (h.wire k) (Function.update h.sendQueue k (h.sendQueue k ++ [p]) k) (h.acks k) =
      onTheWay (h.wire k) (h.sendQueue k) (h.acks k) + {p}
    rw [Function.update_self]
    exact onTheWay_queued ..

theorem acks_append (h : Hub) (p : CmdPkg) (s k : SocketRef) :
    Hub.acks { h with pendingCmdQueue := h.pendingCmdQueue ++ [{ cmd := p, sock := s }] } k =
      h.acks k ++ if s = k then [p] else [] := by
  unfold Hub.acks
  rw [List.filter_append, List.map_append]
  by_cases hk : s = k <;> simp [hk]

theorem putOff_submits (h : Hub) (p : CmdPkg) : Submits k h
    { h with pendingCmdQueue := h.pendingCmdQueue ++ [{ cmd := p, sock := k }] } {p} where
  wire := List.prefix_refl _
  carried := by
    unfold Hub.carried
    rw [acks_append, if_pos rfl]
    exact onTheWay_putOff ..

theorem putOff_other (hk : k ≠ s) (h : Hub) (p : CmdPkg) : Submits k h
    { h with pendingCmdQueue := h.pendingCmdQueue ++ [{ cmd := p, sock := s }] } 0 where
  wire := List.prefix_refl _
  carried := by
    unfold Hub.carried
    rw [acks_append, if_neg hk.symm, List.append_nil, add_zero]
    rfl

theorem send_submits {answer : SendResult} (hown : Owns k h)
    (he : send h k p answer = .ok h') : Submits k h h' {p} := by
  obtain ⟨session, hs, he⟩ := bind_eq_ok.mp he
  have hsock : session.sock = k := hown.sock (Hub.session_eq_ok.mp hs)
  cases answer with
  | all =>
    cases he
    rw [hsock]
    exact emit_submits h p _
  | part n =>
    cases he
    rw [hsock]
    exact emit_submits h p n
  | wouldBlock =>
    cases he
    exact enqueue_submits h p
  | error => cases he

theorem send_other {answer : SendResult} (hk : k ≠ s) (hown : Owns s h)
    (he : send h s p answer = .ok h') : Submits k h h' 0 := by
  obtain ⟨session, hs, he⟩ := bind_eq_ok.mp he
  have hsock : session.sock = s := hown.sock (Hub.session_eq_ok.mp hs)
  cases answer with
  | all =>
    cases he
    rw [hsock]
    exact emit_other hk h p _
  | part n =>
    cases he
    rw [hsock]
    exact emit_other hk h p n
  | wouldBlock =>
    cases he
    exact .of_same rfl (Function.update_of_ne hk ..) rfl
  | error => cases he

theorem act_other (hk : k ≠ s) (hown : Owns s h) (ha : Act s h h') : Submits k h h' 0 := by
  cases ha with
  | send pkg answer he => exact send_other hk hown he
  | buddies | current | logIn | token => exact .of_same rfl rfl rfl

theorem acts_other (hk : k ≠ s) (hown : Owns s h) (ha : Acts s h h') : Submits k h h' 0 := by
  have hrule := effects_rule
    (R := fun h h' => Owns s h → Submits k h h' 0 ∧ Owns s h') ?_ ?_ ?_ ha hown
  · exact hrule.1
  · exact fun h hown => ⟨.refl h, hown⟩
  · intro a b c hab hbc hown
    obtain ⟨hsab, hown⟩ := hab hown
    obtain ⟨hsbc, hown⟩ := hbc hown
    exact ⟨hsab.trans hsbc, hown⟩
  · exact fun ha hown => ⟨act_other hk hown ha, (act_others hown ha).2⟩

theorem drain_submits {answer : ℕ → SendResult} (ps : List CmdPkg) :
    ∀ {i : ℕ} {h h' : Hub}, drain answer k k ps i h = .ok h' →
      Submits k { h with sendQueue := Function.update h.sendQueue k ps } h' 0 := by
  induction ps with
  | nil =>
    intro i h h' he
    cases he
    exact .refl _
  | cons p ps ih =>
    intro i h h' he
    -- `p` has been taken by the socket
    have hpop (n : ℕ) : Submits k { h with sendQueue := Function.update h.sendQueue k (p :: ps) }
        { h.emit (.tcp k p n) with sendQueue := Function.update h.sendQueue k ps } 0 := by
      refine ⟨(emit_submits h p n).wire, ?_⟩
      have hw : (h.emit (.tcp k p n)).wire k = h.wire k ++ [p] := by
        rw [wire_emit, tcpTo_self]
        rfl
      change onTheWay ((h.emit (.tcp k p n)).wire k) (Function.update h.sendQueue k ps k)
          (h.acks k) =
        onTheWay (h.wire k) (Function.update h.sendQueue k (p :: ps) k) (h.acks k) + 0
      rw [hw, Function.update_self, Function.update_self, add_zero]
      exact onTheWay_pop ..
    rw [drain] at he
    cases ha : answer i with
    | all =>
      rw [ha] at he
      exact (hpop _).trans (ih he)
    | part n =>
      rw [ha] at he
      exact (hpop n).trans (ih he)
    | wouldBlock =>
      rw [ha] at he
      cases he
      exact .refl _
    | error =>
      rw [ha] at he
      cases he

theorem sendQueued_submits {env : Env} (hown : Owns k h) (he : sendQueued env k h = .ok h') :
    Submits k h h' 0 := by
  obtain ⟨session, hs, he⟩ := bind_eq_ok.mp he
  rw [hown.sock (Hub.session_eq_ok.mp hs)] at he
  have hdrain := drain_submits _ he
  rwa [Function.update_eq_self] at hdrain

theorem drain_other {answer : ℕ → SendResult} (hk : k ≠ s) (ps : List CmdPkg) :
    ∀ {i : ℕ} {h h' : Hub}, drain answer s s ps i h = .ok h' → Submits k h h' 0 := by
  induction ps with
  | nil =>
    intro i h h' he
    cases he
    exact .of_same rfl (Function.update_of_ne hk ..) rfl
  | cons p ps ih =>
    intro i h h' he
    rw [drain] at he
    cases ha : answer i with
    | all =>
      rw [ha] at he
      exact (emit_other hk h p _).trans (ih he)
    | part n =>
      rw [ha] at he
      exact (emit_other hk h p n).trans (ih he)
    | wouldBlock =>
      rw [ha] at he
      cases he
      exact .of_same rfl (Function.update_of_ne hk ..) rfl
    | error =>
      rw [ha] at he
      cases he

theorem sendQueued_other {env : Env} (hk : k ≠ s) (hown : Owns s h)
    (he : sendQueued env s h = .ok h') : Submits k h h' 0 := by
  obtain ⟨session, hs, he⟩ := bind_eq_ok.mp he
  rw [hown.sock (Hub.session_eq_ok.mp hs)] at he
  exact drain_other hk _ he

theorem flush_submits {flush : ℕ → SendResult} (q : List PendingCmd) :
    ∀ {i : ℕ} {rest : List PendingCmd} {sent : List Output},
      flushLoop flush q i = .ok (rest, sent) → ∀ (h : Hub) (kept : List PendingCmd),
        Submits k { h with pendingCmdQueue := kept ++ q }
          { h with pendingCmdQueue := kept ++ rest, out := h.out ++ sent } 0 := by
  induction q with
  | nil =>
    intro i rest sent he h kept
    cases he
    rw [List.append_nil h.out]
    exact .refl _
  | cons e q ih =>
    intro i rest sent he h kept
    -- after the socket has taken the entry
    have hpop (n : ℕ) : Submits k { h with pendingCmdQueue := kept ++ e :: q }
        { h.emit (.tcp e.sock e.cmd n) with pendingCmdQueue := kept ++ q } 0 := by
      by_cases hk : e.sock = k
      · refine ⟨hk ▸ (emit_submits h e.cmd n).wire, ?_⟩
        have hw : (h.emit (.tcp e.sock e.cmd n)).wire k = h.wire k ++ [e.cmd] := by
          rw [wire_emit, hk, tcpTo_self]
          rfl
        have hacks (l r : List PendingCmd) :
            ((l ++ r).filter (·.sock = k)).map PendingCmd.cmd =
              (l.filter (·.sock = k)).map PendingCmd.cmd ++
                (r.filter (·.sock = k)).map PendingCmd.cmd := by
          rw [List.filter_append, List.map_append]
        change onTheWay ((h.emit (.tcp e.sock e.cmd n)).wire k) (h.sendQueue k)
            (((kept ++ q).filter (·.sock = k)).map PendingCmd.cmd) =
          onTheWay (h.wire k) (h.sendQueue k)
            (((kept ++ e :: q).filter (·.sock = k)).map PendingCmd.cmd) + 0
        rw [hw, hacks, hacks, List.filter_cons_of_pos (by simpa using hk), List.map_cons, add_zero]
        exact onTheWay_flush ..
      · have hother := emit_other (Ne.symm hk) h e.cmd n
        have hacks : ((kept ++ e :: q).filter (·.sock = k)).map PendingCmd.cmd =
            ((kept ++ q).filter (·.sock = k)).map PendingCmd.cmd := by
          rw [List.filter_append, List.filter_append,
            List.filter_cons_of_neg (by simpa using hk)]
        have hw : (h.emit (.tcp e.sock e.cmd n)).wire k = h.wire k := by
          rw [wire_emit, tcpTo_other (Ne.symm hk), Option.toList_none, List.append_nil]
        refine ⟨hother.wire, ?_⟩
        change onTheWay ((h.emit (.tcp e.sock e.cmd n)).wire k) (h.sendQueue k)
            (((kept ++ q).filter (·.sock = k)).map PendingCmd.cmd) =
          onTheWay (h.wire k) (h.sendQueue k)
            (((kept ++ e :: q).filter (·.sock = k)).map PendingCmd.cmd) + 0
        rw [hw, hacks, add_zero]
    rw [flushLoop] at he
    cases ha : flush i with
    | all =>
      rw [ha] at he
      obtain ⟨⟨rest', sent'⟩, hrest, he⟩ := bind_eq_ok.mp he
      cases he
      have hih := ih hrest (h.emit (.tcp e.sock e.cmd e.cmd.getLen.toNat)) kept
      rw [List.append_cons h.out]
      exact (hpop _).trans hih
    | part n =>
      rw [ha] at he
      obtain ⟨⟨rest', sent'⟩, hrest, he⟩ := bind_eq_ok.mp he
      cases he
      have hih := ih hrest (h.emit (.tcp e.sock e.cmd n)) kept
      rw [List.append_cons h.out]
      exact (hpop n).trans hih
    | wouldBlock =>
      rw [ha] at he
      obtain ⟨⟨rest', sent'⟩, hrest, he⟩ := bind_eq_ok.mp he
      cases he
      have hih := ih hrest h (kept ++ [e])
      rw [← List.append_cons, ← List.append_cons] at hih
      exact hih
    | error =>
      rw [ha] at he
      cases he

theorem sendPendingCmd_submits {env : Env} (he : sendPendingCmd env h = .ok h') :
    Submits k h h' 0 := by
  obtain ⟨⟨rest, sent⟩, hl, he⟩ := bind_eq_ok.mp he
  cases he
  exact flush_submits _ hl h []

end Sends
end Gpshub
