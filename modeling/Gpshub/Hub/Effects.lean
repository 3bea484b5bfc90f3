import Gpshub.Hub.Edits
import Gpshub.Hub.Datagrams

/-! What one step of the hub can change: it lets somebody in, logs somebody in, closes a
session, or leaves all logins as they are. -/
namespace Gpshub
open CommandServer CommandHandler GpsDataServer CoordsBroadcastThread Lib.Machine

/-- Nobody connected, logged in, logged out or left between `h` and `h'`. -/
structure Frame (h h' : Hub) : Prop where
  nickUmap : h'.nickUmap = h.nickUmap
  users : ∀ r, (h'.users r).map User.ident = (h.users r).map User.ident
  sockets : h'.sockets = h.sockets
  sessions : h'.sessions = h.sessions
  nextUser : h'.nextUser = h.nextUser
  nextSession : h'.nextSession = h.nextSession

/-- Besides, no id was looked up and no acknowledgement put off. -/
structure Quiet (h h' : Hub) : Prop extends Frame h h' where
  idUmap : h'.idUmap = h.idUmap
  pending : h'.pendingCmdQueue = h.pendingCmdQueue

/-- The event makes the GPS data server go through its pending commands. -/
def Event.Flushes : Event → Prop
  | .datagram _ _ => True
  | .timeout => True
  | _ => False

namespace Frame

variable {h h' : Hub} {r : UserRef}

theorem refl (h : Hub) : Frame h h := ⟨rfl, fun _ => rfl, rfl, rfl, rfl, rfl⟩

theorem trans {a b c : Hub} (hab : Frame a b) (hbc : Frame b c) : Frame a c where
  nickUmap := hbc.nickUmap.trans hab.nickUmap
  users r := (hbc.users r).trans (hab.users r)
  sockets := hbc.sockets.trans hab.sockets
  sessions := hbc.sessions.trans hab.sessions
  nextUser := hbc.nextUser.trans hab.nextUser
  nextSession := hbc.nextSession.trans hab.nextSession

theorem user_of_some (hf : Frame h h') {u : User} (hu : h.users r = some u) :
    ∃ u', h'.users r = some u' ∧ u'.ident = u.ident := by
  have hr := hf.users r
  rw [hu] at hr
  exact Option.map_eq_some_iff.mp hr

theorem some_of_user (hf : Frame h h') {u' : User} (hu : h'.users r = some u') :
    ∃ u, h.users r = some u ∧ u.ident = u'.ident := by
  have hr := hf.users r
  rw [hu] at hr
  exact Option.map_eq_some_iff.mp hr.symm

end Frame

namespace Quiet

theorem refl (h : Hub) : Quiet h h := ⟨.refl h, rfl, rfl⟩

theorem trans {a b c : Hub} (hab : Quiet a b) (hbc : Quiet b c) : Quiet a c :=
  ⟨hab.toFrame.trans hbc.toFrame, hbc.idUmap.trans hab.idUmap, hbc.pending.trans hab.pending⟩

theorem setUser {h : Hub} {r : UserRef} {u u' : User} (hu : h.users r = some u)
    (hi : u'.ident = u.ident) : Quiet h (h.setUser r u') := by
  refine ⟨⟨rfl, fun q => ?_, rfl, rfl, rfl, rfl⟩, rfl, rfl⟩
  by_cases hq : q = r
  · subst hq
    simp [Hub.setUser, hu, hi]
  · simp [Hub.setUser, hq]

theorem sent {h h' : Hub} (hq : Quiet h h') (c : UInt32) (uq : List Int32)
    (q : SessionRef → List CmdPkg) (o : List Output) :
    Quiet h { h' with current := c, uqueue := uq, sendQueue := q, out := o } :=
  ⟨⟨hq.nickUmap, hq.users, hq.sockets, hq.sessions, hq.nextUser, hq.nextSession⟩,
    hq.idUmap, hq.pending⟩

end Quiet

theorem SameButBuddies.ident {usr usr' : User} (hb : SameButBuddies usr usr') :
    usr'.ident = usr.ident := by
  obtain ⟨b, rfl, -⟩ := hb
  rfl

theorem Edit.quiet {s : SessionRef} {user : Option UserRef} {h h' : Hub}
    (he : Edit s user h h') : Quiet h h' := by
  cases he with
  | send pkg answer he =>
    obtain ⟨q, o, rfl⟩ := send_eq_ok he
    exact (Quiet.refl h).sent _ _ q o
  | buddies u usr usr' hu husr hb => exact .setUser husr hb.ident

theorem Edits.quiet {s : SessionRef} {user : Option UserRef} {h h' : Hub}
    (he : Edits s user h h') : Quiet h h' :=
  effects_rule (R := Quiet) .refl .trans Edit.quiet he

theorem frame_lookUp (h : Hub) (id : Int32) : Frame h (h.lookUp id) :=
  ⟨rfl, fun _ => rfl, rfl, rfl, rfl, rfl⟩

theorem Acked.frame {env : Env} {sock : SocketRef} {h h' : Hub} (ha : Acked env sock h h') :
    Frame h h' ∧ h'.idUmap = h.idUmap := by
  cases ha with
  | sent | putOff => exact ⟨⟨rfl, fun _ => rfl, rfl, rfl, rfl, rfl⟩, rfl⟩

/-- The id map after an event that looks up `id?`. -/
def lookedUpIn (m : IdUserMap) : Option Int32 → IdUserMap
  | none => m
  | some id => (m.get id).2

theorem Processed.frame {env : Env} {theirAddr : SockAddr} {bytes : List UInt8} {h h' : Hub}
    (hp : Processed env theirAddr (bytes.take BUF_LEN) h h') :
    Frame h h' ∧ h'.idUmap = lookedUpIn h.idUmap (lookedUp bytes) := by
  generalize hbuf : bytes.take BUF_LEN = buf at hp
  have hl := frame_lookUp h (toint buf 0)
  have hlooks (hn : buf.length = 12 ∨ buf.length = 16 ∨ buf.length = 8) :
      lookedUp bytes = some (toint buf 0) := by
    subst hbuf
    exact if_pos hn
  cases hp with
  | ignored hc hi =>
    have hnone : lookedUp bytes = none := by
      subst hbuf
      exact if_neg (by tauto)
    exact ⟨.refl h, by rw [hnone]; rfl⟩
  | refused hc => exact ⟨hl, by rw [hlooks (by tauto)]; rfl⟩
  | stored hc u usr uq hid hu ha =>
    have hset : Quiet (h.lookUp (toint buf 0)) ((h.lookUp (toint buf 0)).setUser u
        (usr.stored ⟨toint buf 4, toint buf 8, altitude buf buf.length⟩)) :=
      .setUser hu (ident_stored usr _)
    exact ⟨hl.trans (hset.sent _ uq _ _).toFrame, by rw [hlooks (by tauto)]; rfl⟩
  | unknown hi hid => exact ⟨hl, by rw [hlooks (by tauto)]; rfl⟩
  | denied hi u usr sock hid hu hsock ha =>
    obtain ⟨hf, hm⟩ := ha.frame
    exact ⟨hl.trans hf, by rw [hlooks (by tauto), hm]; rfl⟩
  | addressed hi u usr sock hid hu hsock hip ha =>
    obtain ⟨hf, hm⟩ := ha.frame
    have hset : Quiet (h.lookUp (toint buf 0))
        ((h.lookUp (toint buf 0)).setUser u (usr.setAddrUdp theirAddr)) := .setUser hu rfl
    exact ⟨(hl.trans hset.toFrame).trans hf, by rw [hlooks (by tauto), hm]; rfl⟩

theorem sendPendingCmd_frame {env : Env} {h h' : Hub} (he : sendPendingCmd env h = .ok h') :
    Frame h h' ∧ h'.idUmap = h.idUmap := by
  obtain ⟨⟨kept, sent⟩, -, he⟩ := bind_eq_ok.mp he
  cases he
  exact ⟨⟨rfl, fun _ => rfl, rfl, rfl, rfl, rfl⟩, rfl⟩

theorem sendAll_quiet {env : Env} {u : UserRef} {coords : Coordinates} (nicks : List Nick) :
    ∀ {k : ℕ} {h h' : Hub}, sendAll env u coords nicks k h = .ok h' → Quiet h h' := by
  induction nicks with
  | nil =>
    intro k h h' he
    cases he
    exact .refl h
  | cons nick rest ih =>
    intro k h h' he
    rw [sendAll] at he
    split at he
    · rename_i hc
      obtain ⟨p, hp⟩ := SyncHashMap.count_pos.mp hc
      rw [SyncHashMap.get_of_some hp] at he
      obtain ⟨buddy, -, he⟩ := bind_eq_ok.mp he
      obtain ⟨buddyUser, -, he⟩ := bind_eq_ok.mp he
      split at he
      · exact ih he
      · obtain ⟨usr, -, he⟩ := bind_eq_ok.mp he
        split at he
        · exact ((Quiet.refl h).sent _ _ _ _).trans (ih he)
        · cases he
    · exact ih he

theorem turn_frame {env : Env} {id : Int32} {h h' : Hub} (he : turn env id h = .ok h') :
    Frame h h' ∧ h'.idUmap = (h.idUmap.get id).2 ∧ h'.pendingCmdQueue = h.pendingCmdQueue := by
  have hl := frame_lookUp h id
  unfold turn at he
  unfold Hub.lookUp at hl
  generalize h.idUmap.get id = p at he hl
  obtain ⟨ptr, m⟩ := p
  cases ptr with
  | none =>
    cases he
    exact ⟨hl, rfl, rfl⟩
  | some u =>
    obtain ⟨usr, husr, he⟩ := bind_eq_ok.mp he
    cases hc : usr.ready with
    | none =>
      rw [hc] at he
      cases he
      exact ⟨hl, rfl, rfl⟩
    | some c =>
      rw [hc] at he
      obtain ⟨h1, hb, he⟩ := bind_eq_ok.mp he
      obtain ⟨usr', -, hb⟩ := bind_eq_ok.mp hb
      obtain ⟨usr1, husr1, he⟩ := bind_eq_ok.mp he
      cases he
      have hset : Quiet h1 (h1.setUser u (usr1.setReady none)) :=
        .setUser (Hub.deref_eq_ok.mp husr1) rfl
      have hq := (sendAll_quiet _ hb).trans hset
      exact ⟨hl.trans hq.toFrame, hq.idUmap, hq.pending⟩

/-- The maps and the heap after the user of a session has quit. -/
def loggedOut (u : UserRef) (usr : User) (h : Hub) : Hub :=
  { h with
    idUmap := h.idUmap.erase usr.id
    nickUmap := h.nickUmap.erase usr.nick
    users := Function.update h.users u none }

theorem closeConnection_eq_ok {s : SessionRef} {h h' : Hub}
    (he : closeConnection s h = .ok h') :
    ∃ session, h.sessions s = some session ∧
      (session.user = none ∧ h' = deleteSession s session h ∨
        ∃ u usr, session.user = some u ∧ h.users u = some usr ∧
          h' = deleteSession s session (loggedOut u usr h)) := by
  obtain ⟨session, hs, he⟩ := bind_eq_ok.mp he
  refine ⟨session, Hub.session_eq_ok.mp hs, ?_⟩
  cases hu : session.user with
  | none =>
    rw [hu] at he
    cases he
    exact Or.inl ⟨rfl, rfl⟩
  | some u =>
    rw [hu] at he
    obtain ⟨h1, hq, he⟩ := bind_eq_ok.mp he
    obtain ⟨usr, husr, hq⟩ := bind_eq_ok.mp hq
    cases hq
    cases he
    exact Or.inr ⟨u, usr, rfl, Hub.deref_eq_ok.mp husr, rfl⟩

/-- The event is a `REGISTER_NICK` that will log a user in. -/
def LogsIn (h : Hub) : Event → Prop
  | .command _ pkg => pkg.getType = CmdPkg.REGISTER_NICK ∧ Registers h pkg
  | _ => False

/-- The ways a step changes who is connected and logged in. -/
inductive Change (h : Hub) (call : Event × Env) : Hub → Prop
  | accept (addr : SockAddr) (hev : call.1 = .accept addr) :
    Change h call (incomingConnection addr h)
  | register (s : SessionRef) (pkg : CmdPkg) (session : Session) (id : UInt32)
      (q : SessionRef → List CmdPkg) (o : List Output)
      (hev : call.1 = .command s pkg) (hin : LogsIn h call.1)
      (hs : h.sessions s = some session) (hnick : h.nickUmap.map pkg.getData = none)
      (hne : id ≠ 0) (hid : h.idUmap.map id.toInt32 = none) :
    Change h call
      { registered call.2 pkg.getData id s session h with sendQueue := q, out := o }
  | close (s : SessionRef) (session : Session) (hev : call.1 = .close s)
      (hs : h.sessions s = some session) (hu : session.user = none) :
    Change h call (deleteSession s session h)
  | logOut (s : SessionRef) (session : Session) (u : UserRef) (usr : User)
      (hev : call.1 = .close s) (hs : h.sessions s = some session)
      (hu : session.user = some u) (husr : h.users u = some usr) :
    Change h call (deleteSession s session (loggedOut u usr h))
  | frame (h' : Hub) (hin : ¬LogsIn h call.1) (hclose : ∀ s, call.1 ≠ .close s)
      (hf : Frame h h') (hid : h'.idUmap = lookedUpIn h.idUmap (h.looksUp call.1))
      (hpend : ¬call.1.Flushes → h'.pendingCmdQueue = h.pendingCmdQueue) :
    Change h call h'

private theorem change_quiet {h h' : Hub} {call : Event × Env} (hin : ¬LogsIn h call.1)
    (hclose : ∀ s, call.1 ≠ .close s) (hlook : h.looksUp call.1 = none) (hq : Quiet h h') :
    Change h call h' :=
  .frame h' hin hclose hq.toFrame (by rw [hlook]; exact hq.idUmap) fun _ => hq.pending

private theorem command_change {h h' : Hub} {env : Env} {s : SessionRef} {pkg : CmdPkg}
    (he : handle env pkg s h = .ok h') : Change h (.command s pkg, env) h' := by
  unfold handle at he
  split_ifs at he with hreg hadd hrem
  · rcases registerNick_eq_ok he with ⟨hnot, q, o, rfl⟩ |
      ⟨hin, session, id, q, o, -, hs, hnick, hne, hid, rfl⟩
    · exact change_quiet (fun hin => hnot hin.2) (fun _ h => by cases h) rfl
        ((Quiet.refl h).sent _ _ _ _)
    · exact .register s pkg session id q o rfl ⟨hreg, hin⟩ hs hnick hne hid
  · obtain ⟨session, -, hed⟩ := addBuddies_edits he
    exact change_quiet (fun hin => hreg hin.1) (fun _ h => by cases h) rfl hed.quiet
  · obtain ⟨session, -, hed⟩ := removeBuddies_edits he
    exact change_quiet (fun hin => hreg hin.1) (fun _ h => by cases h) rfl hed.quiet
  · cases he
    exact change_quiet (fun hin => hreg hin.1) (fun _ h => by cases h) rfl (.refl h)

theorem step_change {h h' : Hub} {call : Event × Env} (hs : Hub.step h call = some h') :
    Change h call h' := by
  obtain ⟨ev, env⟩ := call
  have he := Hub.step_eq_some.mp hs
  cases ev with
  | accept addr =>
    cases he
    exact .accept addr rfl
  | command s pkg =>
    obtain ⟨session, -, he⟩ := bind_eq_ok.mp he
    exact command_change he
  | writable s =>
    obtain ⟨q, o, rfl⟩ := sendQueued_eq_ok he
    exact change_quiet id (fun _ h => by cases h) rfl ((Quiet.refl h).sent _ _ _ _)
  | close s =>
    obtain ⟨session, hses, ⟨hu, rfl⟩ | ⟨u, usr, hu, husr, rfl⟩⟩ := closeConnection_eq_ok he
    · exact .close s session rfl hses hu
    · exact .logOut s session u usr rfl hses hu husr
  | datagram theirAddr bytes =>
    obtain ⟨h1, hp, he⟩ := bind_eq_ok.mp he
    obtain ⟨hf, hid⟩ := (process_processed hp).frame
    obtain ⟨hf', hid'⟩ := sendPendingCmd_frame he
    exact .frame h' id (fun _ h => by cases h) (hf.trans hf') (hid'.trans hid)
      fun hfl => absurd trivial hfl
  | timeout =>
    obtain ⟨hf, hid⟩ := sendPendingCmd_frame he
    exact .frame h' id (fun _ h => by cases h) hf hid fun hfl => absurd trivial hfl
  | put id =>
    cases he
    exact change_quiet (fun h => h) (fun _ h => by cases h) rfl ((Quiet.refl h).sent _ _ _ _)
  | pull =>
    cases hq : h.uqueue with
    | nil =>
      simp only [Hub.dispatch, hq] at he
      cases he
    | cons id rest =>
      simp only [Hub.dispatch, hq] at he
      obtain ⟨hf, hid, hpend⟩ := turn_frame he
      have hlook : h.looksUp .pull = some id := by simp [Hub.looksUp, hq]
      exact .frame h' (fun h => h) (fun _ h => by cases h)
        (((Quiet.refl h).sent _ _ _ _).toFrame.trans hf) (by rw [hlook]; exact hid) fun _ => hpend

theorem nextUser_le_step {h h' : Hub} {call : Event × Env} (hs : h.step call = some h') :
    h.nextUser ≤ h'.nextUser := by
  cases step_change hs with
  | accept | close | logOut => exact le_refl _
  | register => exact Nat.le_succ _
  | frame _ hin hclose hf hid hpend => exact hf.nextUser.ge

end Gpshub
