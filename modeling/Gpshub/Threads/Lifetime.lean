import Gpshub.Threads.Faults

/-! How long a user lives: no thread uses a user that is missing or deleted as long as `quit`
does not come between two steps of another thread. -/
namespace Gpshub.Threads
open CommandServer CommandHandler Lib.Machine

variable {n : ℕ}

structure Safe (s : System n) : Prop where
  /-- No missing or deleted user has been used. -/
  fault : s.fault ≠ some .badUser
  /-- A nick is taken only while a user has it. -/
  taken : ∀ nick, 0 < s.hub.nickUmap.count nick → ∃ u usr,
    s.hub.nickUmap.map nick = some (some u) ∧ s.hub.users u = some usr ∧ usr.nick = nick
  /-- When `quit` deletes the user, its nick is free. -/
  freed : ∀ x u id nick, s.cmd = .quit x u id nick .delete → s.hub.nickUmap.count nick = 0

/-- A thread besides the command thread has a pointer to the user that it still uses. -/
def Holds (s : System n) (u : UserRef) : Prop :=
  s.gps.user = some u ∨ ∃ j, (s.threads j).pc.user = some u ∨
    (s.threads j).pc.fetched = some (some u)

instance (s : System n) (u : UserRef) : Decidable (Holds s u) :=
  inferInstanceAs (Decidable (_ ∨ _))

/-- The nick that the thread has counted and is about to get. -/
def ThreadPc.counted : ThreadPc → Option Nick
  | .turn _ _ (.get _ nick _) => some nick
  | _ => none

/-- The nick that the command thread is about to erase. -/
def CmdPc.erases : CmdPc → Option Nick
  | .quit _ _ _ nick .eraseNick => some nick
  | _ => none

/-- `quit` deletes no user that another thread holds, and erases no nick between the `count`
and the `get` of a broadcast thread. -/
def QuitsAlone (s : System n) (a : Action n) : Prop :=
  a.isCmd → (∀ p ∈ s.cmd.deletes, ¬Holds s p.2) ∧
    ∀ nick ∈ s.cmd.erases, ∀ j, (s.threads j).pc.counted ≠ some nick

instance (s : System n) (a : Action n) : Decidable (QuitsAlone s a) :=
  inferInstanceAs (Decidable (_ → _ ∧ _))

structure Alive (s : System n) : Prop where
  gps : ∀ u, s.gps.user = some u → Live s.hub u
  threads : ∀ j u, (s.threads j).pc.user = some u → Live s.hub u
  fetched : ∀ j ptr, (s.threads j).pc.fetched = some ptr → LivePtr s.hub ptr
  counted : ∀ j nick, (s.threads j).pc.counted = some nick → 0 < s.hub.nickUmap.count nick
  cmd : ∀ ptr, s.cmd.fetched = some ptr → LivePtr s.hub ptr
  /-- No lookup has left a `NULL` in `nick_umap`. -/
  nicks : ∀ nick, s.hub.nickUmap.map nick ≠ some none
  freed : ∀ p ∈ s.cmd.deletes, s.hub.nickUmap.count p.1 = 0
  fault : s.fault ≠ some .badUser

section Steps

variable {s s' : System n} {env : Env} {h h' hub : Hub} {notes : List Note} {u : UserRef}

theorem LivePtr.calm {ptr : Option UserRef} (hl : LivePtr h ptr) (hc : Calm h h') :
    LivePtr h' ptr := by
  obtain ⟨b, hb, hl⟩ := hl
  exact ⟨b, hb, hl.calm hc⟩

theorem GpsMoved.nickUmap {pc pc' : GpsPc} (hm : GpsMoved env h pc pc' h' notes) :
    h'.nickUmap = h.nickUmap := by
  cases hm <;> rfl

private theorem get_of_count (hnicks : ∀ nick, h.nickUmap.map nick ≠ some none) {nick : Nick}
    (hc : 0 < h.nickUmap.count nick) :
    ∃ b, h.nickUmap.pointsTo nick = some b ∧ h.nickUmap.get nick = (some b, h.nickUmap) := by
  obtain ⟨p, hp⟩ := SyncHashMap.count_pos.mp hc
  cases p with
  | none => exact absurd hp (hnicks nick)
  | some b => exact ⟨b, SyncHashMap.pointsTo_eq_some.mpr hp, SyncHashMap.get_of_some hp⟩

/-- What a broadcast thread does to `nick_umap` and to what it has got from there. -/
theorem ThreadMoved.nicks {pc pc' : ThreadPc} {cpc : CmdPc}
    (hm : ThreadMoved env h pc pc' h' notes) (hw : Consistent h cpc)
    (hnicks : ∀ nick, h.nickUmap.map nick ≠ some none)
    (hcounted : ∀ nick, pc.counted = some nick → 0 < h.nickUmap.count nick)
    (hfetched : ∀ ptr, pc.fetched = some ptr → LivePtr h ptr) :
    h'.nickUmap = h.nickUmap ∧ (∀ nick, pc'.counted = some nick → 0 < h.nickUmap.count nick) ∧
      ∀ ptr, pc'.fetched = some ptr → LivePtr h ptr := by
  cases hm with
  | get =>
    obtain ⟨b, hb, hget⟩ := get_of_count hnicks (hcounted _ rfl)
    refine ⟨congrArg Prod.snd hget, nofun, fun ptr hp => ?_⟩
    obtain ⟨usr, hu, -⟩ := hw.nick hb
    cases hp
    exact ⟨b, congrArg Prod.fst hget, usr, hu⟩
  | taken hc =>
    refine ⟨rfl, fun nick hn => ?_, nofun⟩
    cases hn
    exact hc
  | isReady hb =>
    refine ⟨rfl, nofun, fun ptr hp => ?_⟩
    cases hp
    exact ⟨_, rfl, _, hb⟩
  | pack =>
    refine ⟨rfl, nofun, fun ptr hp => ?_⟩
    cases hp
    exact hfetched _ rfl
  | again | leave | pull | unknown | found | miss | load | copyLon | copyLat | copyAlt | call
  | last | free | notReady | sendto | reset => exact ⟨rfl, nofun, nofun⟩

theorem CmdMoved.live {pc pc' : CmdPc} (hm : CmdMoved env h pc pc' h' notes) (hl : Live h u)
    (hd : ∀ p ∈ pc.deletes, p.2 ≠ u) : Live h' u := by
  obtain ⟨usr, hu⟩ := hl
  have hset {v : UserRef} {new : User} : Live (h.setUser v new) u := by
    by_cases huv : u = v
    · subst huv
      exact ⟨new, Function.update_self ..⟩
    · exact ⟨usr, (Function.update_of_ne huv ..).trans hu⟩
  cases hm with
  | aside ha => exact Live.calm ⟨usr, hu⟩ ha.toCalm
  | create | token => exact hset
  | delete => exact ⟨usr, (Function.update_of_ne (hd _ rfl).symm ..).trans hu⟩
  | putNick | putId | store | get | read | eraseId | eraseNick | close => exact ⟨usr, hu⟩

theorem CmdMoved.count {pc pc' : CmdPc} {nick : Nick} (hm : CmdMoved env h pc pc' h' notes)
    (hc : 0 < h.nickUmap.count nick) (he : pc.erases ≠ some nick) :
    0 < h'.nickUmap.count nick := by
  obtain ⟨p, hp⟩ := SyncHashMap.count_pos.mp hc
  cases hm with
  | aside ha => exact ha.keys nick hc
  | @putNick _ k _ v =>
    by_cases hk : nick = k
    · subst hk
      exact SyncHashMap.count_pos.mpr ⟨some v, Function.update_self ..⟩
    · exact SyncHashMap.count_pos.mpr ⟨p, (Function.update_of_ne hk ..).trans hp⟩
  | get => exact SyncHashMap.count_pos.mpr ⟨p, SyncHashMap.map_get_of_some hp⟩
  | @eraseNick _ _ _ k =>
    have hk : nick ≠ k := fun hk => he (congrArg some hk.symm)
    exact SyncHashMap.count_pos.mpr ⟨p, (Function.update_of_ne hk ..).trans hp⟩
  | create | putId | store | token | read | eraseId | delete | close => exact hc

/-- What the command thread does to `nick_umap` and to what it has got from there. -/
theorem CmdMoved.nicks {pc pc' : CmdPc} (hm : CmdMoved env h pc pc' h' notes)
    (hw : Consistent h pc) (hnicks : ∀ nick, h.nickUmap.map nick ≠ some none) :
    (∀ nick, h'.nickUmap.map nick ≠ some none) ∧
      (∀ ptr, pc'.fetched = some ptr → LivePtr h' ptr) ∧
      ∀ p ∈ pc'.deletes, h'.nickUmap.count p.1 = 0 := by
  cases hm with
  | aside ha hpc hok hp =>
    obtain ⟨hfetched, -, hdeletes⟩ := hp
    rw [hfetched, hdeletes, ha.nickUmap]
    exact ⟨hnicks, nofun, nofun⟩
  | @putNick _ k _ v =>
    refine ⟨fun nick => ?_, nofun, nofun⟩
    change Function.update h.nickUmap.map k _ nick ≠ some none
    by_cases hk : nick = k
    · subst hk
      rw [Function.update_self]
      nofun
    · rw [Function.update_of_ne hk]
      exact hnicks nick
  | get =>
    obtain ⟨b, hb, hget⟩ := get_of_count hnicks hw.locals.2
    refine ⟨?_, fun ptr hp => ?_, nofun⟩
    · rw [congrArg Prod.snd hget]
      exact hnicks
    · obtain ⟨usr, hu, -⟩ := hw.nick hb
      cases hp
      exact ⟨b, congrArg Prod.fst hget, usr, hu⟩
  | @eraseNick _ _ _ k =>
    refine ⟨fun nick => ?_, nofun, fun p hd => ?_⟩
    · change Function.update h.nickUmap.map k none nick ≠ some none
      by_cases hk : nick = k
      · subst hk
        rw [Function.update_self]
        nofun
      · rw [Function.update_of_ne hk]
        exact hnicks nick
    · cases hd
      exact SyncHashMap.count_eq_zero.mpr (Function.update_self ..)
  | create | putId | store | token | read | eraseId | delete | close => exact ⟨hnicks, nofun, nofun⟩

end Steps

namespace Alive

variable {s s' : System n} {env : Env} {hub : Hub} {notes : List Note}

theorem boot : Alive (System.boot n) where
  gps _ hu := nomatch hu
  threads _ _ hu := nomatch hu
  fetched _ _ hp := nomatch hp
  counted _ _ hn := nomatch hn
  cmd _ hp := nomatch hp
  nicks _ := nofun
  freed _ hp := nomatch hp
  fault := nofun

private theorem live_of_map {pc : CmdPc} (hw : Consistent s.hub pc) {i : Int32} {u : UserRef}
    (hm : s.hub.idUmap.pointsTo i = some u) : Live s.hub u := by
  obtain ⟨usr, hu, -⟩ := hw.id hm
  exact ⟨usr, hu⟩

private theorem gps_step {pc : GpsPc} (h : Alive s) (hw : Consistent s.hub s.cmd)
    (hm : GpsMoved env s.hub s.gps pc hub notes) :
    Alive { s with gps := pc, hub, hist := s.hist ++ notes } := by
  have hc := hm.calm
  have hn : hub.nickUmap = s.hub.nickUmap := hm.nickUmap
  constructor
  · intro u hu
    exact ((hm.user hu).elim (h.gps u) fun ⟨i, hi⟩ => live_of_map hw hi).calm hc
  · exact fun j u hu => (h.threads j u hu).calm hc
  · exact fun j ptr hp => (h.fetched j ptr hp).calm hc
  · exact fun j nick hj => hn ▸ h.counted j nick hj
  · exact fun ptr hp => (h.cmd ptr hp).calm hc
  · exact fun nick => hn ▸ h.nicks nick
  · exact fun p hp => hn ▸ h.freed p hp
  · exact h.fault

private theorem thread_step {j : Fin n} {pc : ThreadPc} (h : Alive s)
    (hw : Consistent s.hub s.cmd) (hm : ThreadMoved env s.hub (s.threads j).pc pc hub notes) :
    Alive { s with
      threads := Function.update s.threads j { s.threads j with pc }
      hub
      hist := s.hist ++ notes } := by
  have hc := hm.calm
  obtain ⟨hn, hcounted, hfetched⟩ := hm.nicks hw h.nicks (h.counted j) (h.fetched j)
  have hpc (k : Fin n) : (Function.update s.threads j { s.threads j with pc } k).pc = pc ∨
      (Function.update s.threads j { s.threads j with pc } k).pc = (s.threads k).pc := by
    rw [System.moved_pc]
    split_ifs
    · exact Or.inl rfl
    · exact Or.inr rfl
  constructor
  · exact fun u hu => (h.gps u hu).calm hc
  · intro k u hu
    cases hpc k with
    | inl he =>
      have hu' : pc.user = some u := he ▸ hu
      exact ((hm.user hu').elim (h.threads j u) fun ⟨i, hi⟩ => live_of_map hw hi).calm hc
    | inr he => exact (h.threads k u (he ▸ hu)).calm hc
  · intro k ptr hp
    cases hpc k with
    | inl he => exact (hfetched ptr (he ▸ hp)).calm hc
    | inr he => exact (h.fetched k ptr (he ▸ hp)).calm hc
  · intro k nick hk
    change 0 < hub.nickUmap.count nick
    rw [hn]
    cases hpc k with
    | inl he => exact hcounted nick (he ▸ hk)
    | inr he => exact h.counted k nick (he ▸ hk)
  · exact fun ptr hp => (h.cmd ptr hp).calm hc
  · exact fun nick => hn ▸ h.nicks nick
  · exact fun p hp => hn ▸ h.freed p hp
  · exact h.fault

private theorem cmd_step {pc : CmdPc} (h : Alive s) (hw : Consistent s.hub s.cmd)
    (hg : QuitsAlone s (.cmd env)) (hm : CmdMoved env s.hub s.cmd pc hub notes) :
    Alive { s with cmd := pc, hub, hist := s.hist ++ notes } := by
  obtain ⟨hdeletes, herases⟩ := hg rfl
  obtain ⟨hnicks, hfetched, hfreed⟩ := hm.nicks hw h.nicks
  have hlive {u : UserRef} (hl : Live s.hub u) (hu : Holds s u) : Live hub u :=
    hm.live hl fun p hp he => hdeletes p hp (he ▸ hu)
  constructor
  · exact fun u hu => hlive (h.gps u hu) (Or.inl hu)
  · exact fun j u hu => hlive (h.threads j u hu) (Or.inr ⟨j, Or.inl hu⟩)
  · intro j ptr hp
    obtain ⟨b, rfl, hb⟩ := h.fetched j ptr hp
    exact ⟨b, rfl, hlive hb (Or.inr ⟨j, Or.inr hp⟩)⟩
  · intro j nick hj
    exact hm.count (h.counted j nick hj) fun he => herases nick he j hj
  · exact hfetched
  · exact hnicks
  · exact hfreed
  · exact h.fault

private theorem other_step (h : Alive s) (husers : s'.hub.users = s.hub.users)
    (hn : s'.hub.nickUmap = s.hub.nickUmap) (hgps : s'.gps = s.gps ∨ s'.gps.user = none)
    (hthreads : ∀ j, (s'.threads j).pc = (s.threads j).pc)
    (hcmd : s'.cmd = s.cmd ∨ s'.cmd.Plain) (hf : s'.fault ≠ some .badUser) : Alive s' := by
  have hlive {u : UserRef} (hl : Live s.hub u) : Live s'.hub u := by
    unfold Live
    rw [husers]
    exact hl
  have hptr {ptr : Option UserRef} (hl : LivePtr s.hub ptr) : LivePtr s'.hub ptr := by
    obtain ⟨b, hb, hl⟩ := hl
    exact ⟨b, hb, hlive hl⟩
  constructor
  · intro u hu
    cases hgps with
    | inl he => exact hlive (h.gps u (he ▸ hu))
    | inr he => cases he.symm.trans hu
  · intro j u hu
    rw [hthreads] at hu
    exact hlive (h.threads j u hu)
  · intro j ptr hp
    rw [hthreads] at hp
    exact hptr (h.fetched j ptr hp)
  · intro j nick hj
    rw [hthreads] at hj
    rw [hn]
    exact h.counted j nick hj
  · intro ptr hp
    cases hcmd with
    | inl he => exact hptr (h.cmd ptr (he ▸ hp))
    | inr he => cases he.1.symm.trans hp
  · exact fun nick => hn ▸ h.nicks nick
  · intro p hp
    cases hcmd with
    | inl he => exact hn ▸ h.freed p (he ▸ hp)
    | inr he => cases he.2.2.symm.trans hp
  · exact hf

private theorem no_fault (h : Alive s) (hw : Consistent s.hub s.cmd) {a : Action n} {e : Abort}
    (he : s.Faults e a) : e ≠ .badUser := by
  rintro rfl
  cases a with
  | gps env => exact (gpsStep_usesLive h.gps).ne he
  | thread j env => exact (threadStep_usesLive (h.threads j) (h.fetched j)).ne he
  | writable ses env => exact (usesLive_sendQueued ses).ne he
  | cmd env => exact (cmdStep_usesLive hw h.cmd).ne he
  | datagram | timeout | stop | wake | accept | command | close => exact he

theorem safe (h : Alive s) (hw : Consistent s.hub s.cmd) : Safe s where
  fault := h.fault
  taken := by
    intro nick hc
    obtain ⟨u, hu, -⟩ := get_of_count h.nicks hc
    obtain ⟨usr, husr, hnick⟩ := hw.nick hu
    exact ⟨u, usr, SyncHashMap.pointsTo_eq_some.mp hu, husr, hnick⟩
  freed := by
    intro x u id nick he
    exact h.freed (nick, u) (by rw [he]; rfl)

end Alive

namespace System

variable {s s' : System n} {a : Action n}

theorem alive_step (hs : s.step a = some s') (hw : Consistent s.hub s.cmd) (hg : QuitsAlone s a)
    (h : Alive s) : Alive s' := by
  obtain ⟨-, hm⟩ := step_moved hs
  cases hm with
  | gps env pc hub notes hi he => exact h.gps_step hw (gpsStep_moved hi he)
  | thread j env pc hub notes hbl he => exact h.thread_step hw (threadStep_moved hbl he)
  | cmd env pc hub notes he => exact h.cmd_step hw hg (cmdStep_moved he)
  | receive theirAddr bytes hi =>
    exact h.other_step rfl rfl (Or.inr (received_user ..)) (fun _ => rfl) (Or.inl rfl) h.fault
  | timeout hi => exact h.other_step rfl rfl (Or.inr rfl) (fun _ => rfl) (Or.inl rfl) h.fault
  | stop j =>
    exact h.other_step rfl rfl (Or.inl rfl) (stop_pc s j) (Or.inl rfl) h.fault
  | wake | accept | writable =>
    exact h.other_step rfl rfl (Or.inl rfl) (fun _ => rfl) (Or.inl rfl) h.fault
  | command ses pkg session hi hses =>
    exact h.other_step rfl rfl (Or.inl rfl) (fun _ => rfl) (Or.inr (handled_plain ..)) h.fault
  | close ses session hi hses =>
    exact h.other_step rfl rfl (Or.inl rfl) (fun _ => rfl) (Or.inr (closing_plain ..)) h.fault
  | fault _ e he =>
    refine h.other_step rfl rfl (Or.inl rfl) (fun _ => rfl) (Or.inl rfl) fun hf => ?_
    exact h.no_fault hw he (Option.some.inj hf)

end System

/-- In a run whose calls of `quit` come between no two steps of another thread that need the
user or its nick, no thread uses a missing or deleted user, and a nick is free after `quit`. -/
theorem users_outlive_uses (as : List (Action n))
    (hg : Guarded System.step QuitsAlone (System.boot n) as) :
    Always System.step Safe (System.boot n) as := by
  have halways : Always System.step (fun s => Consistent s.hub s.cmd ∧ Alive s) (System.boot n)
      as :=
    always_of_step (H := fun _ => True)
      (fun s a s' _ _ hg hs h =>
        ⟨System.consistent_step hs h.1, System.alive_step hs h.1 hg h.2⟩)
      (always_true _ _) hg ⟨.boot, .boot⟩
  exact halways.mono fun s h => h.2.safe h.1

/-- The peer hangs up; `quit` has only to delete the user. -/
def leaving : List (Action 1) := login ++ .close 0 :: List.replicate 3 (.cmd default)

theorem users_outlive_uses_leaving : ∃ s, run System.step (System.boot 1) leaving = some s ∧
    s.cmd.deletes = some ([97], 0) ∧ Safe s :=
  ⟨_, rfl, by decide, (users_outlive_uses leaving (by decide)).last rfl⟩

/-- The peer hangs up between `id_umap->get` and the next line of `processCoordinates`. -/
def hangsUpMidway : List (Action 1) :=
  login ++ [position default 5 6, .gps default, .close 0] ++ List.replicate 4 (.cmd default) ++
    [.gps default]

/-- User 1 registers as buddy of user 0, and hangs up when a broadcast for user 0 has counted
its nick; the broadcast then gets the nick, `quit` ends, and the broadcast uses what it got. -/
def buddyLeaves : List (Action 1) :=
  login ++ [.accept default, .command 1 (.registerNick [98])] ++ List.replicate 9 (.cmd default) ++
    .command 0 ⟨CmdPkg.ADD_BUDDIES :: shortBytes 4 ++ [98, 0]⟩ :: List.replicate 6 (.cmd default) ++
    position default 5 6 :: List.replicate 10 (.gps default) ++
    List.replicate 9 (.thread 0 default) ++ .close 1 :: List.replicate 3 (.cmd default) ++
    [.thread 0 default, .cmd default, .cmd default, .thread 0 default]

/-- In the first run a deleted user is used; in the second the nick of a user that has quit
stays taken, and `NULL` is used. -/
theorem users_outlive_uses_counterexample :
    (∃ s, run System.step (System.boot 1) hangsUpMidway = some s ∧ s.fault = some .badUser) ∧
    (∃ s, run System.step (System.boot 1) buddyLeaves = some s ∧ s.cmd.deletes = none ∧
      s.hub.users 1 = none ∧ s.hub.nickUmap.map [98] = some none ∧ s.fault = some .badUser) ∧
    ¬∀ (n : ℕ) (as : List (Action n)), Always System.step Safe (System.boot n) as := by
  obtain ⟨s, hr, hf⟩ : ∃ s, run System.step (System.boot 1) hangsUpMidway = some s ∧
      s.fault = some .badUser := ⟨_, rfl, by decide⟩
  refine ⟨⟨s, hr, hf⟩, ⟨_, rfl, by decide, by decide, by decide, by decide⟩, fun hall => ?_⟩
  exact ((hall 1 hangsUpMidway).last hr).fault hf

end Gpshub.Threads
