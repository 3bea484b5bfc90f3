import Gpshub.Hub.Reply
import Mathlib.Data.List.TakeWhile

/-! Which of the nicks that can be registered can be named in `ADD_BUDDIES` and
`REMOVE_BUDDIES`. -/
namespace Gpshub
open CommandServer CommandHandler Lib.Machine Lib.Fields

section Packages

variable {data : Nick}

theorem CmdPkg.zero_not_mem_getData (p : CmdPkg) : 0 ∉ p.getData := by
  intro hmem
  have hne := List.mem_takeWhile_imp hmem
  simp at hne

theorem takeWhile_data (hd : 0 ∉ data) : (data ++ [0]).takeWhile (· ≠ 0) = data := by
  rw [List.takeWhile_append_of_pos]
  · simp
  · intro b hb
    exact decide_eq_true fun h0 => hd (h0 ▸ hb)

theorem CmdPkg.getData_addBuddies (hd : 0 ∉ data) : (CmdPkg.addBuddies data).getData = data :=
  takeWhile_data hd

theorem CmdPkg.getData_removeBuddies (hd : 0 ∉ data) :
    (CmdPkg.removeBuddies data).getData = data :=
  takeWhile_data hd

end Packages

/-- There is an `ADD_BUDDIES` after which the user of the session has gained exactly the buddy
`nick`, and then a `REMOVE_BUDDIES` after which it has lost exactly this one. -/
def Nameable (env : Env) (s : SessionRef) (u : UserRef) (usr : User) (h : Hub) (nick : Nick) :
    Prop :=
  ∃ data h1 usr1, h.step (.command s (.addBuddies data), env) = some h1 ∧
    h1.users u = some usr1 ∧
    (∀ n, n ∈ usr1.buddies.set ↔ n ∈ usr.buddies.set ∨ n = nick) ∧
    ∃ data' h2 usr2, h1.step (.command s (.removeBuddies data'), env) = some h2 ∧
      h2.users u = some usr2 ∧ ∀ n, n ∈ usr2.buddies.set ↔ n ∈ usr1.buddies.set ∧ n ≠ nick

section Steps

variable {env : Env} {h h' : Hub} {s : SessionRef} {session : Session} {u : UserRef} {usr : User}

theorem step_addBuddies (hs : h.sessions s = some session) (data : Nick) :
    h.step (.command s (.addBuddies data), env) = some h' ↔
      addBuddies env (.addBuddies data) s h = .ok h' := by
  rw [Hub.step_eq_some]
  show (h.session s >>= fun _ => handle env (.addBuddies data) s h) = .ok h' ↔ _
  rw [Hub.session_eq_ok.mpr hs, ok_bind]
  rfl

theorem step_removeBuddies (hs : h.sessions s = some session) (data : Nick) :
    h.step (.command s (.removeBuddies data), env) = some h' ↔
      removeBuddies (.removeBuddies data) s h = .ok h' := by
  rw [Hub.step_eq_some]
  show (h.session s >>= fun _ => handle env (.removeBuddies data) s h) = .ok h' ↔ _
  rw [Hub.session_eq_ok.mpr hs, ok_bind]
  rfl

theorem buddies_added (hs : h.sessions s = some session) (hu : session.user = some u)
    (husr : h.users u = some usr) {data : Nick}
    (hstep : h.step (.command s (.addBuddies data), env) = some h') :
    ∃ usr', h'.users u = some usr' ∧ h'.sessions s = some session ∧
      ∀ n, n ∈ usr'.buddies.set ↔
        n ∈ usr.buddies.set ∨ n ∈ addFields (CmdPkg.addBuddies data).getData := by
  rw [step_addBuddies hs] at hstep
  obtain ⟨session', -, hed⟩ := addBuddies_edits hstep
  refine ⟨_, ?_, by rw [hed.quiet.sessions, hs], fun n => mem_insertBuddies _⟩
  rw [addBuddies_users hs hu husr hstep]
  exact Function.update_self ..

theorem buddies_removed (env : Env) (hs : h.sessions s = some session) (hu : session.user = some u)
    (husr : h.users u = some usr) (data : Nick) :
    ∃ h' usr', h.step (.command s (.removeBuddies data), env) = some h' ∧
      h'.users u = some usr' ∧ ∀ n, n ∈ usr'.buddies.set ↔
        n ∈ usr.buddies.set ∧ ¬IsField COMMA (CmdPkg.removeBuddies data).getData n := by
  have he := removeBuddies_eq (.removeBuddies data) hs hu husr
  refine ⟨_, _, (step_removeBuddies hs data).mpr he, Function.update_self .., fun n => ?_⟩
  rw [mem_eraseBuddies, removeFields_eq, mem_splitOn]

/-- A nick that can be removed has no comma, and one that can be added is not empty. -/
theorem Nameable.proper (hs : h.sessions s = some session) (hu : session.user = some u)
    (husr : h.users u = some usr) {nick : Nick} (hn : Nameable env s u usr h nick) :
    COMMA ∉ nick ∧ (nick ≠ [] ∨ [] ∈ usr.buddies.set) := by
  obtain ⟨data, h1, usr1, hadd, husr1, hset1, data', h2, usr2, hrem, husr2, hset2⟩ := hn
  obtain ⟨usr1', husr1', hs1, hadded⟩ := buddies_added hs hu husr hadd
  cases husr1.symm.trans husr1'
  obtain ⟨h2', usr2', hrem', husr2', hremoved⟩ := buddies_removed env hs1 hu husr1 data'
  cases hrem.symm.trans hrem'
  cases husr2.symm.trans husr2'
  have hhas : nick ∈ usr1.buddies.set := (hset1 nick).mpr (Or.inr rfl)
  constructor
  · have hgone : nick ∉ usr2.buddies.set := fun hmem => ((hset2 nick).mp hmem).2 rfl
    rw [hremoved] at hgone
    have hfield : IsField COMMA (CmdPkg.removeBuddies data').getData nick := by
      by_contra hfield
      exact hgone ⟨hhas, hfield⟩
    exact hfield.1
  · rcases (hadded nick).mp hhas with hB | hfield
    · by_cases hnil : nick = []
      · exact Or.inr (hnil ▸ hB)
      · exact Or.inl hnil
    · rw [addFields_eq] at hfield
      exact Or.inl (ne_nil_of_mem_addNames hfield)

theorem nameable_of (hsend : env.Sends) (hv : Serving h) (hs : h.sessions s = some session)
    (hu : session.user = some u) (husr : h.users u = some usr) {nick : Nick}
    (hlen : nick.length ≤ 508) (hzero : 0 ∉ nick) (hcomma : COMMA ∉ nick)
    (hne : nick ≠ [] ∨ [] ∈ usr.buddies.set) : Nameable env s u usr h nick := by
  have hdata := CmdPkg.getData_addBuddies hzero
  have hdata' := CmdPkg.getData_removeBuddies hzero
  have hlen' : (CmdPkg.addBuddies nick).getData.length ≤ 508 := by
    rw [hdata]
    exact hlen
  obtain ⟨h1, he⟩ := addBuddies_ok hsend hv hs hu husr hlen'
  have hadd := (step_addBuddies hs nick).mpr he
  obtain ⟨usr1, husr1, hs1, hadded⟩ := buddies_added hs hu husr hadd
  obtain ⟨h2, usr2, hrem, husr2, hremoved⟩ := buddies_removed env hs1 hu husr1 nick
  refine ⟨nick, h1, usr1, hadd, husr1, fun n => ?_, nick, h2, usr2, hrem, husr2, fun n => ?_⟩
  · rw [hadded, hdata, addFields_eq, List.splitOn_eq_singleton hcomma]
    by_cases hnil : nick = []
    · subst hnil
      have hB : [] ∈ usr.buddies.set := hne.resolve_left fun hnil => hnil rfl
      simp only [addNames, if_true, List.not_mem_nil, or_false]
      exact (or_iff_left_of_imp fun heq => heq ▸ hB).symm
    · simp [addNames, hnil]
  · rw [hremoved, hdata', isField_of_not_mem hcomma]

end Steps

/-- What a command has given the server, so also a nick that it has registered, can be named by the
users that are logged in then exactly if it has no comma and is not empty, or is empty and one of
their buddies already. -/
theorem nameable_iff {calls : List (Event × Env)} {h h1 : Hub}
    (hr : run Hub.step .boot calls = some h) (hshort : ∀ call ∈ calls, call.1.Short)
    {k : SessionRef} {pkg : CmdPkg} {env1 : Env} (hlen : pkg.getData.length ≤ 508)
    (hreg : h.step (.command k pkg, env1) = some h1)
    {s : SessionRef} {session : Session} {u : UserRef} {usr : User}
    (hs : h1.sessions s = some session) (hu : session.user = some u)
    (husr : h1.users u = some usr) {env : Env} (hsend : env.Sends) :
    Nameable env s u usr h1 pkg.getData ↔
      COMMA ∉ pkg.getData ∧ (pkg.getData ≠ [] ∨ [] ∈ usr.buddies.set) := by
  refine ⟨fun hn => hn.proper hs hu husr, fun ⟨hcomma, hne⟩ => ?_⟩
  have hshort1 : (Event.command k pkg).Short := hlen
  have hv : Serving h1 := (Serving.of_run hr hshort).step hshort1 hreg
  exact nameable_of hsend hv hs hu husr hlen pkg.zero_not_mem_getData hcomma hne

/-- The user `a` is there, and somebody else has connected. -/
def secondPeer : List (Event × Env) := loneUser ++ [(.accept default, default)]

/-- When `b` registers, `a` can name it. -/
theorem nameable_iff_two : ∃ h h1 usr, run Hub.step .boot secondPeer = some h ∧
    h.step (.command 1 (.registerNick [98]), default) = some h1 ∧ h1.users 0 = some usr ∧
      Nameable default 0 0 usr h1 [98] := by
  have hrun : ∃ h h1 usr, run Hub.step .boot secondPeer = some h ∧
      h.step (.command 1 (.registerNick [98]), default) = some h1 ∧
      h1.sessions 0 = some ⟨0, some 0⟩ ∧ h1.users 0 = some usr := ⟨_, _, _, rfl, rfl, rfl, rfl⟩
  obtain ⟨h, h1, usr, hr, hreg, hs, husr⟩ := hrun
  have hshort : ∀ call ∈ secondPeer, call.1.Short := by
    simp [secondPeer, loneUser, Event.Short]
    decide
  have hsends : (default : Env).Sends :=
    ⟨fun _ he => (by cases he), fun _ he => (by cases he)⟩
  have hiff := @nameable_iff secondPeer h h1 hr hshort 1 (.registerNick [98]) default (by decide)
    hreg 0 _ 0 usr hs rfl husr default hsends
  exact ⟨h, h1, usr, hr, hreg, husr, hiff.mpr ⟨by decide, Or.inl (by decide)⟩⟩

/-- The nick `a,b` can be registered, but `a` cannot name it. -/
theorem nameable_counterexample : ∃ h h1 usr, run Hub.step .boot secondPeer = some h ∧
    LogsIn h (.command 1 (.registerNick [97, 44, 98])) ∧
      h.step (.command 1 (.registerNick [97, 44, 98]), default) = some h1 ∧
      h1.users 0 = some usr ∧ ∀ env, ¬Nameable env 0 0 usr h1 [97, 44, 98] := by
  have hrun : ∃ h h1 usr, run Hub.step .boot secondPeer = some h ∧
      LogsIn h (.command 1 (.registerNick [97, 44, 98])) ∧
      h.step (.command 1 (.registerNick [97, 44, 98]), default) = some h1 ∧
      h1.users 0 = some usr ∧ h1.sessions 0 = some ⟨0, some 0⟩ :=
    ⟨_, _, _, rfl, ⟨rfl, by decide +kernel, 2, 2, rfl, by decide⟩, rfl, rfl, rfl⟩
  obtain ⟨h, h1, usr, hr, hin, hreg, husr, hs⟩ := hrun
  refine ⟨h, h1, usr, hr, hin, hreg, husr, fun env hn => ?_⟩
  obtain ⟨hcomma, -⟩ := hn.proper hs rfl husr
  exact hcomma (by decide)

end Gpshub
