import Gpshub.Hub.Acts
import Gpshub.Hub.Broadcast

/-! The mail of a history is all that was sent: only a broadcast sends datagrams. -/
namespace Gpshub
open CommandServer CommandHandler GpsDataServer CoordsBroadcastThread Lib.Machine

/-- Between `h` and `h'` only packages were sent. -/
def OverTcp (h h' : Hub) : Prop :=
  ∃ sent, h'.out = h.out ++ sent ∧ ∀ x ∈ sent, x.mail.isSome = true

namespace OverTcp

theorem of_out {h h' : Hub} (ho : h'.out = h.out) : OverTcp h h' :=
  ⟨[], by rw [ho, List.append_nil], nofun⟩

theorem trans {a b c : Hub} (hab : OverTcp a b) (hbc : OverTcp b c) : OverTcp a c := by
  obtain ⟨x, hx, hxt⟩ := hab
  obtain ⟨y, hy, hyt⟩ := hbc
  refine ⟨x ++ y, by rw [hy, hx, List.append_assoc], fun o ho => ?_⟩
  rcases List.mem_append.mp ho with ho | ho
  · exact hxt o ho
  · exact hyt o ho

theorem emit (h : Hub) (sock : SocketRef) (pkg : CmdPkg) (n : ℕ) :
    OverTcp h (h.emit (.tcp sock pkg n)) :=
  ⟨[.tcp sock pkg n], rfl, fun o ho => by rw [List.mem_singleton.mp ho]; rfl⟩

theorem mail_output {h h' : Hub} (ht : OverTcp h h') :
    h'.out = h.out ++ ((h'.out.drop h.out.length).filterMap Output.mail).map Mail.output := by
  obtain ⟨sent, hs, hall⟩ := ht
  have hmail : (sent.filterMap Output.mail).map Mail.output = sent := by
    clear hs
    induction sent with
    | nil => rfl
    | cons o sent ih =>
      have ho := hall o List.mem_cons_self
      have hrest := ih fun x hx => hall x (List.mem_cons_of_mem o hx)
      cases o with
      | tcp sock pkg n =>
        simp only [List.filterMap_cons, Output.mail, List.map_cons, hrest]
        rfl
      | udp addr bytes => cases ho
  rw [hs, List.drop_left, hmail]

end OverTcp

section Handlers

variable {env : Env} {h h' : Hub} {s : SessionRef} {u : UserRef}

theorem send_overTcp {pkg : CmdPkg} {answer : SendResult} (he : send h s pkg answer = .ok h') :
    OverTcp h h' := by
  obtain ⟨session, -, he⟩ := bind_eq_ok.mp he
  cases answer with
  | all | part =>
    cases he
    exact .emit ..
  | wouldBlock =>
    cases he
    exact .of_out rfl
  | error => cases he

theorem drain_overTcp {answer : ℕ → SendResult} {sock : SocketRef} (q : List CmdPkg) :
    ∀ {i : ℕ} {h h' : Hub}, drain answer s sock q i h = .ok h' → OverTcp h h' := by
  induction q with
  | nil =>
    intro i h h' he
    cases he
    exact .of_out rfl
  | cons pkg rest ih =>
    intro i h h' he
    rw [drain] at he
    cases ha : answer i with
    | all | part =>
      rw [ha] at he
      exact (OverTcp.emit ..).trans (ih he)
    | wouldBlock =>
      rw [ha] at he
      cases he
      exact .of_out rfl
    | error =>
      rw [ha] at he
      cases he

theorem acts_overTcp (ha : Acts s h h') : OverTcp h h' := by
  refine effects_rule (R := OverTcp) (fun _ => .of_out rfl) .trans (fun {a b} hact => ?_) ha
  cases hact with
  | send pkg answer he => exact send_overTcp he
  | buddies | current | logIn | token => exact .of_out rfl

theorem Acked.overTcp {sock : SocketRef} (ha : Acked env sock h h') : OverTcp h h' := by
  cases ha with
  | sent => exact .emit ..
  | putOff => exact .of_out rfl

theorem Processed.overTcp {theirAddr : SockAddr} {buf : List UInt8}
    (hp : Processed env theirAddr buf h h') : OverTcp h h' := by
  cases hp with
  | ignored | refused | unknown | stored => exact .of_out rfl
  | denied hi u usr sock hid hu hsock ha => exact ha.overTcp
  | addressed hi u usr sock hid hu hsock hip ha => exact ha.overTcp

theorem flushLoop_mail {flush : ℕ → SendResult} (q : List PendingCmd) :
    ∀ {i : ℕ} {kept : List PendingCmd} {sent : List Output},
      flushLoop flush q i = .ok (kept, sent) → ∀ x ∈ sent, x.mail.isSome = true := by
  induction q with
  | nil =>
    intro i kept sent he
    cases he
    exact nofun
  | cons e rest ih =>
    intro i kept sent he
    rw [flushLoop] at he
    cases ha : flush i with
    | all | part =>
      rw [ha] at he
      obtain ⟨⟨kept', sent'⟩, hrest, he⟩ := bind_eq_ok.mp he
      cases he
      intro x hx
      rcases List.mem_cons.mp hx with rfl | hx
      · rfl
      · exact ih hrest x hx
    | wouldBlock =>
      rw [ha] at he
      obtain ⟨⟨kept', sent'⟩, hrest, he⟩ := bind_eq_ok.mp he
      cases he
      exact ih hrest
    | error =>
      rw [ha] at he
      cases he

theorem sendPendingCmd_overTcp (he : sendPendingCmd env h = .ok h') : OverTcp h h' := by
  obtain ⟨⟨kept, sent⟩, hl, he⟩ := bind_eq_ok.mp he
  cases he
  exact ⟨sent, rfl, flushLoop_mail _ hl⟩

end Handlers

theorem step_overTcp {h h' : Hub} {call : Event × Env} (hs : h.step call = some h')
    (hpull : call.1 ≠ .pull) : OverTcp h h' := by
  obtain ⟨ev, env⟩ := call
  have he := Hub.step_eq_some.mp hs
  cases ev with
  | accept addr =>
    cases he
    exact .of_out rfl
  | command s pkg =>
    obtain ⟨session, -, he⟩ := bind_eq_ok.mp he
    exact acts_overTcp (handle_acts he)
  | writable s =>
    obtain ⟨session, -, he⟩ := bind_eq_ok.mp he
    exact drain_overTcp _ he
  | close s =>
    obtain ⟨session, -, ⟨-, rfl⟩ | ⟨v, usr, -, -, rfl⟩⟩ := closeConnection_eq_ok he
    · exact .of_out rfl
    · exact .of_out rfl
  | datagram theirAddr bytes =>
    obtain ⟨h1, hp, he⟩ := bind_eq_ok.mp he
    exact (process_processed hp).overTcp.trans (sendPendingCmd_overTcp he)
  | timeout => exact sendPendingCmd_overTcp he
  | put id =>
    cases he
    exact .of_out rfl
  | pull => exact absurd rfl hpull

/-- What the event has sent is exactly the mail that is recorded for it. -/
theorem step_out {h h' : Hub} {call : Event × Env} (hs : h.step call = some h') :
    h'.out = h.out ++ (mailed h h' call).map Mail.output := by
  obtain ⟨ev, env⟩ := call
  by_cases hpull : ev = .pull
  · subst hpull
    cases hq : h.uqueue with
    | nil =>
      have he := Hub.step_eq_some.mp hs
      simp only [Hub.dispatch, hq] at he
      cases he
    | cons id rest => exact pull_out hq hs
  · rw [mailed_of_ne_pull hpull]
    exact (step_overTcp hs hpull).mail_output

theorem Chronicle.out_eq_mail {s : Chronicle} {calls : List (Event × Env)}
    (hr : run Chronicle.step .boot calls = some s) : s.hub.out = s.mail.map Mail.output := by
  refine run_of_inv (I := fun s => s.hub.out = s.mail.map Mail.output) ?_ hr rfl
  intro s call s' hs hi
  obtain ⟨h', hh, rfl⟩ := Chronicle.step_eq_some.mp hs
  change h'.out = (s.mail ++ mailed s.hub h' call).map Mail.output
  rw [step_out hh, hi, List.map_append]

end Gpshub
