import Gpshub.Threads.GpsHandlers

/-! The command thread alone: its steps compute the commands, and what closes a session. -/
namespace Gpshub.Threads
open Lib CommandServer CommandHandler UserIdGenerator

/-- A step of the command thread, without the notes. -/
def cmdMove (env : Env) (g : CmdPc × Hub) : Except Abort (CmdPc × Hub) := do
  let r ← cmdStep env g.2 g.1
  return (r.1, r.2.1)

section Commands

variable {env : Env} {h : Hub} {s : SessionRef} {session : Session} {u : UserRef} {usr : User}
  {nick : Nick} {id : UInt32}

theorem cmdMove_ok {r : CmdPc × Hub × List Note} (pc : CmdPc) (hstep : cmdStep env h pc = .ok r) :
    cmdMove env (pc, h) = .ok (r.1, r.2.1) := by
  simp only [cmdMove, hstep]
  rfl

theorem cmdMove_error {e : Abort} (pc : CmdPc) (hstep : cmdStep env h pc = .error e) :
    cmdMove env (pc, h) = .error e := by
  simp only [cmdMove, hstep]
  rfl

/-- The `k`-th send of a handler is a step that sees only its own answer. -/
def answering (env : Env) (k : ℕ) : Env := { env with answer := fun _ => env.answer k }

theorem regFail_alone (status : UInt8) :
    Computes cmdMove Reported (.regFail s status, h)
      (registerFail env status >>= fun pkg => send h s pkg (env.answer 0))
      (fun h => (.idle, h)) := by
  apply Computes.call env
  simp only [cmdMove, cmdStep, bind_assoc, pure_bind]

theorem generateLoop_alone {id next : UInt32} (rounds : ℕ) : ∀ {n : UInt32} {h : Hub},
    generateLoop ULONG_MAX h.idUmap rounds n h.current = some (id, next) →
      Ends cmdMove (.regGen s nick n, h) (.ok (if id = 0 then .regFail s 2 else .regNew s nick id,
        { h with current := next })) := by
  induction rounds with
  | zero =>
    intro n h he
    cases he
  | succ rounds ih =>
    intro n h he
    rw [generateLoop] at he
    by_cases hn : n.toNat ≤ ULONG_MAX
    · rw [if_pos hn] at he
      dsimp only at he
      by_cases hfree : isFree h.idUmap (h.current + 1)
      · rw [if_pos hfree] at he
        cases he
        have hstep : cmdStep default h (.regGen s nick n) =
            .ok (.regNew s nick (h.current + 1), { h with current := h.current + 1 }, []) := by
          rw [cmdStep, if_pos hn]
          exact if_pos hfree
        have hne : h.current + 1 ≠ 0 := UInt32.pos_iff_ne_zero.mp hfree.2
        rw [if_neg hne]
        exact .next (cmdMove_ok _ hstep) (.here _)
      · rw [if_neg hfree] at he
        have hstep : cmdStep default h (.regGen s nick n) =
            .ok (.regGen s nick (n + 1), { h with current := h.current + 1 }, []) := by
          rw [cmdStep, if_pos hn]
          exact if_neg hfree
        exact .next (cmdMove_ok _ hstep) (ih he)
    · rw [if_neg hn] at he
      cases he
      have hstep : cmdStep default h (.regGen s nick n) = .ok (.regFail s 2, h, []) := by
        rw [cmdStep, if_neg hn]
      exact .next (cmdMove_ok _ hstep) (.here _)

/-- The end of `registerNick`, after the user has been put into the maps. -/
def acknowledge (env : Env) (s : SessionRef) (id : UInt32) (u : UserRef) (h : Hub) :
    Except Abort Hub :=
  registerOk env id.toInt32 >>= fun pkgOk => send h s pkgOk (env.answer 0) >>= fun h =>
    h.deref u >>= fun usr => initUdp env env.rand >>= fun pkgInit =>
      send (h.setUser u (usr.setToken env.rand)) s pkgInit (env.answer 1)

theorem acknowledge_alone :
    Computes cmdMove Reported (.reg s nick id u .ack, h) (acknowledge env s id u h)
      (fun h => (.idle, h)) := by
  have hok : Computes cmdMove Reported (.reg s nick id u .ack, h)
      (registerOk env id.toInt32 >>= fun pkgOk => send h s pkgOk (env.answer 0))
      (fun h => (.reg s nick id u .token, h)) := by
    apply Computes.call env
    simp only [cmdMove, cmdStep, regStep, bind_assoc, pure_bind]
  unfold acknowledge
  rw [← bind_assoc]
  apply hok.bind
  intro h _
  apply Computes.read env
  · intro e he
    apply cmdMove_error
    rw [cmdStep, regStep, he]
    rfl
  intro usr hu
  have htoken : cmdStep env h (.reg s nick id u .token) = .ok (.reg s nick id u (.init env.rand),
      h.setUser u (usr.setToken env.rand), [.token u env.rand]) := by
    rw [cmdStep, regStep, hu]
    rfl
  apply Computes.step env (cmdMove_ok _ htoken)
  apply Computes.call (answering env 1)
  simp only [cmdMove, cmdStep, regStep, bind_assoc, pure_bind]
  rfl

theorem regStore (hs : h.session s = .ok session) :
    cmdStep env h (.reg s nick id u .store) =
      .ok (.reg s nick id u .ack, h.setSession s { session with user := some u }, []) := by
  rw [cmdStep, regStep, hs]
  rfl

theorem logIn_alone (hs : h.session s = .ok session) :
    Computes cmdMove Reported (.regNew s nick id, h)
      (acknowledge env s id h.nextUser (logIn env nick id s session h)) (fun h => (.idle, h)) := by
  have hnew : cmdStep env h (.regNew s nick id) = .ok (.reg s nick id h.nextUser .putNick,
      { h.setUser h.nextUser (registerUser env nick id session) with nextUser := h.nextUser + 1 },
      []) := by
    rw [cmdStep, hs]
    rfl
  apply Computes.step env (cmdMove_ok _ hnew)
  apply Computes.step env (cmdMove_ok _ rfl)
  apply Computes.step env (cmdMove_ok _ rfl)
  apply Computes.step env (cmdMove_ok _ (regStore (by exact hs)))
  exact acknowledge_alone

theorem registerNick_alone (pkg : CmdPkg) :
    Computes cmdMove Reported (.regCount s pkg.getData, h) (registerNick env pkg s h)
      (fun h => (.idle, h)) := by
  unfold registerNick
  dsimp only
  by_cases hc : 0 < h.nickUmap.count pkg.getData
  · rw [if_pos hc]
    have hcount : cmdStep env h (.regCount s pkg.getData) = .ok (.regFail s 0, h, []) := if_pos hc
    apply Computes.step env (cmdMove_ok _ hcount)
    exact regFail_alone 0
  · rw [if_neg hc]
    have hcount : cmdStep env h (.regCount s pkg.getData) =
        .ok (.regGen s pkg.getData 0, h, []) := if_neg hc
    apply Computes.step env (cmdMove_ok _ hcount)
    cases hg : generate ULONG_MAX h.idUmap h.current with
    | none => exact .excluded fun hne => hne rfl
    | some r =>
      obtain ⟨id, current⟩ := r
      apply Computes.after (generateLoop_alone _ hg)
      dsimp only
      by_cases hz : id = 0
      · rw [if_pos hz, if_pos hz]
        exact regFail_alone 2
      · rw [if_neg hz, if_neg hz]
        apply Computes.read env
        · intro e he
          apply cmdMove_error
          rw [cmdStep, he]
          rfl
        intro session hs
        exact logIn_alone hs

/-! The scan of `addBuddies`; the steps do not count what was sent. -/

def uncounted (st : AddState) : AddState := { st with sent := 0 }

def listed (st : AddState) (id : Int32) (nick : Nick) : AddState where
  idsMap := insertId id nick st.idsMap
  idsPkgLen := st.idsPkgLen + (nick.length + 1)
  sent := st.sent + 1

/-- What `addBuddies` does for a name that is registered; `usr` has it among its buddies. -/
def notifyBuddy (env : Env) (s : SessionRef) (usr : User) (nick : Nick) (st : AddState)
    (ptr : Option UserRef) (h : Hub) : Except Abort (AddState × Hub) :=
  notNull .badUser ptr >>= fun buddy => h.deref buddy >>= fun buddyUser =>
    uidPkg env usr >>= fun pkgUid => send h s pkgUid (env.answer st.sent) >>= fun h =>
      pure (listed st buddyUser.id nick, h)

theorem addBuddy_eq (nick : Nick) (st : AddState) : addBuddy env s u nick st h =
    h.deref u >>= fun usr => if 0 < h.nickUmap.count nick then
      notifyBuddy env s (usr.insertBuddy nick) nick st (h.nickUmap.get nick).1
        (lookUpNick (h.setUser u (usr.insertBuddy nick)) nick)
    else pure (st, h.setUser u (usr.insertBuddy nick)) := by
  unfold addBuddy notifyBuddy
  rfl

theorem notifyBuddy_alone (nick : Nick) (rest : List Nick) (st : AddState) (ptr : Option UserRef)
    (hu : h.deref u = .ok usr) :
    Computes cmdMove Reported (.add s u (uncounted st) (.buddy ptr nick rest), h)
      (notifyBuddy env s usr nick st ptr h)
      (fun r => (.add s u (uncounted r.1) (.each rest), r.2)) := by
  unfold notifyBuddy
  apply Computes.read env
  · intro e he
    apply cmdMove_error
    rw [cmdStep, addStep, he]
    rfl
  intro buddy hptr
  apply Computes.read env
  · intro e he
    apply cmdMove_error
    rw [cmdStep, addStep, hptr]
    change (h.deref buddy >>= _) = _
    rw [he]
    rfl
  intro buddyUser hb
  have hbuddy : cmdStep env h (.add s u (uncounted st) (.buddy ptr nick rest)) =
      .ok (.add s u (uncounted (listed st buddyUser.id nick)) (.notify rest), h, []) := by
    rw [cmdStep, addStep, hptr]
    change (h.deref buddy >>= _) = _
    rw [hb]
    rfl
  apply Computes.step env (cmdMove_ok _ hbuddy)
  have hsend : Computes cmdMove Reported
      (.add s u (uncounted (listed st buddyUser.id nick)) (.notify rest), h)
      (uidPkg env usr >>= fun pkgUid => send h s pkgUid (env.answer st.sent))
      (fun h => (.add s u (uncounted (listed st buddyUser.id nick)) (.each rest), h)) := by
    apply Computes.call (answering env st.sent)
    simp only [cmdMove, cmdStep, addStep, hu, bind_assoc, pure_bind]
    rfl
  rw [← bind_assoc]
  apply hsend.bind
  intro h _
  exact .done rfl

theorem addBuddy_alone (nick : Nick) (rest : List Nick) (st : AddState) :
    Computes cmdMove Reported (.add s u (uncounted st) (.each (nick :: rest)), h)
      (addBuddy env s u nick st h) (fun r => (.add s u (uncounted r.1) (.each rest), r.2)) := by
  rw [addBuddy_eq]
  apply Computes.read env
  · intro e he
    apply cmdMove_error
    rw [cmdStep, addStep, he]
    rfl
  intro usr hu
  have heach : cmdStep env h (.add s u (uncounted st) (.each (nick :: rest))) =
      .ok (.add s u (uncounted st) (.count nick rest), h.setUser u (usr.insertBuddy nick), []) := by
    rw [cmdStep, addStep, hu]
    rfl
  apply Computes.step env (cmdMove_ok _ heach)
  by_cases hc : 0 < h.nickUmap.count nick
  · rw [if_pos hc]
    have hcount : cmdStep env (h.setUser u (usr.insertBuddy nick))
        (.add s u (uncounted st) (.count nick rest)) =
        .ok (.add s u (uncounted st) (.get nick rest), h.setUser u (usr.insertBuddy nick), []) :=
      if_pos hc
    apply Computes.step env (cmdMove_ok _ hcount)
    apply Computes.step env (cmdMove_ok (.add s u (uncounted st) (.get nick rest)) rfl)
    exact notifyBuddy_alone nick rest st _ deref_setUser
  · rw [if_neg hc]
    have hcount : cmdStep env (h.setUser u (usr.insertBuddy nick))
        (.add s u (uncounted st) (.count nick rest)) =
        .ok (.add s u (uncounted st) (.each rest), h.setUser u (usr.insertBuddy nick), []) :=
      if_neg hc
    apply Computes.step env (cmdMove_ok _ hcount)
    exact .done rfl

theorem addAll_alone (nicks : List Nick) : ∀ (st : AddState) {h : Hub},
    Computes cmdMove Reported (.add s u (uncounted st) (.each nicks), h)
      (addAll env s u nicks st h) (fun r => (.add s u (uncounted r.1) (.each []), r.2)) := by
  induction nicks with
  | nil =>
    intro st h
    exact .done rfl
  | cons nick rest ih =>
    intro st h
    apply (addBuddy_alone nick rest st).bind
    intro r _
    exact ih r.1

theorem addBuddies_alone (pkg : CmdPkg) (hs : h.session s = .ok session)
    (hu : session.user = some u) :
    Computes cmdMove Reported (.add s u ⟨[], 0, 0⟩ (.each (addFields pkg.getData)), h)
      (addBuddies env pkg s h) (fun h => (.idle, h)) := by
  have hadd : addBuddies env pkg s h = addAll env s u (addFields pkg.getData) ⟨[], 0, 0⟩ h >>=
      fun r => if 0 < r.1.idsPkgLen then
        idsPkg env r.1.idsMap r.1.idsPkgLen >>= fun pkgIds =>
          send r.2 s pkgIds (env.answer r.1.sent)
      else pure r.2 := by
    unfold addBuddies
    rw [hs]
    dsimp only [bind, Except.bind]
    rw [hu]
  rw [hadd]
  apply (addAll_alone _ ⟨[], 0, 0⟩).bind
  intro r _
  by_cases hlen : 0 < r.1.idsPkgLen
  · rw [if_pos hlen]
    apply Computes.call (answering env r.1.sent)
    have hlast : cmdStep (answering env r.1.sent) r.2 (.add s u (uncounted r.1) (.each [])) =
        (do
          let pkgIds ← idsPkg env r.1.idsMap r.1.idsPkgLen
          let h ← send r.2 s pkgIds (env.answer r.1.sent)
          return (.idle, h, [])) := if_pos hlen
    simp only [cmdMove, hlast, bind_assoc, pure_bind]
  · rw [if_neg hlen]
    have hlast : cmdStep env r.2 (.add s u (uncounted r.1) (.each [])) = .ok (.idle, r.2, []) :=
      if_neg hlen
    apply Computes.step env (cmdMove_ok _ hlast)
    exact .done rfl

theorem removeAll_alone (nicks : List Nick) : ∀ {h : Hub},
    Computes cmdMove Reported (.rem u nicks, h) (removeAll u nicks h) (fun h => (.idle, h)) := by
  induction nicks with
  | nil =>
    intro h
    apply Computes.step default (cmdMove_ok _ rfl)
    exact .done rfl
  | cons nick rest ih =>
    intro h
    apply Computes.read default
    · intro e he
      apply cmdMove_error
      rw [cmdStep, he]
      rfl
    intro usr hu
    have hstep : cmdStep default h (.rem u (nick :: rest)) =
        .ok (.rem u rest, h.setUser u (usr.eraseBuddy nick), []) := by
      rw [cmdStep, hu]
      rfl
    apply Computes.step default (cmdMove_ok _ hstep)
    exact ih

theorem handle_alone (pkg : CmdPkg) (hs : h.session s = .ok session) :
    Computes cmdMove Reported (handled pkg s session, h) (handle env pkg s h)
      (fun h => (.idle, h)) := by
  unfold handled handle
  by_cases hreg : pkg.getType = CmdPkg.REGISTER_NICK
  · rw [if_pos hreg, if_pos hreg]
    exact registerNick_alone pkg
  · rw [if_neg hreg, if_neg hreg]
    have hnone (hu : session.user = none) : addBuddies env pkg s h = .ok h ∧
        removeBuddies pkg s h = .ok h := by
      unfold addBuddies removeBuddies
      rw [hs]
      dsimp only [bind, Except.bind]
      rw [hu]
      exact ⟨rfl, rfl⟩
    cases hu : session.user with
    | none =>
      rw [(hnone hu).1, (hnone hu).2]
      split_ifs
      · exact .done rfl
      · exact .done rfl
      · exact .done rfl
    | some u =>
      split_ifs
      · exact addBuddies_alone pkg hs hu
      · have hrem : removeBuddies pkg s h = removeAll u (removeFields pkg.getData) h := by
          unfold removeBuddies
          rw [hs]
          dsimp only [bind, Except.bind]
          rw [hu]
        rw [hrem]
        exact removeAll_alone _
      · exact .done rfl

theorem deleteSession_alone (hs : h.session s = .ok session) :
    Computes cmdMove Reported (.closeEnd s, h) (.ok (deleteSession s session h))
      (fun h => (.idle, h)) := by
  have hstep : cmdStep default h (.closeEnd s) = .ok (.idle, deleteSession s session h, []) := by
    rw [cmdStep, hs]
    rfl
  apply Computes.step default (cmdMove_ok _ hstep)
  exact .done rfl

theorem closeConnection_alone (hs : h.session s = .ok session) :
    Computes cmdMove Reported (closing s session, h) (closeConnection s h)
      (fun h => (.idle, h)) := by
  unfold closing closeConnection
  rw [hs]
  dsimp only [bind, Except.bind]
  cases hu : session.user with
  | none => exact deleteSession_alone hs
  | some u =>
    have hquit : Computes cmdMove Reported (.quitRead s u, h) (quit u h)
        (fun h => (.closeEnd s, h)) := by
      apply Computes.read default
      · intro e he
        apply cmdMove_error
        rw [cmdStep, he]
        rfl
      intro usr hu
      have hread : cmdStep default h (.quitRead s u) =
          .ok (.quit s u usr.id usr.nick .eraseId, h, []) := by
        rw [cmdStep, hu]
        rfl
      apply Computes.step default (cmdMove_ok _ hread)
      apply Computes.step default (cmdMove_ok _ rfl)
      apply Computes.step default (cmdMove_ok _ rfl)
      apply Computes.step default (cmdMove_ok _ rfl)
      exact .done rfl
    apply hquit.bind
    intro h' hq
    have hsame : h'.sessions = h.sessions := by
      obtain ⟨usr, -, hq⟩ := bind_eq_ok.mp hq
      cases hq
      rfl
    apply deleteSession_alone
    rw [Hub.session_eq_ok, hsame]
    exact Hub.session_eq_ok.mp hs

end Commands

end Gpshub.Threads
