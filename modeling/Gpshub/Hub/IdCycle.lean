import Gpshub.Hub.Chronicle

/-! Which ids are handed out: the first free one after the last, and none when all are taken. -/
namespace Gpshub
open CommandServer CommandHandler GpsDataServer CoordsBroadcastThread UserIdGenerator Lib.Machine

/-- The event registers a user under `id`. -/
def HandsOut (h : Hub) (ev : Event) (id : UInt32) : Prop :=
  LogsIn h ev ∧ ∃ next, generate ULONG_MAX h.idUmap h.current = some (id, next)

section Current

variable {h h' : Hub} {env : Env}

theorem Edits.current {s : SessionRef} {user : Option UserRef} (he : Edits s user h h') :
    h'.current = h.current := by
  apply effects_rule (R := fun h h' => h'.current = h.current) ?_ ?_ ?_ he
  · exact fun h => rfl
  · exact fun hab hbc => hbc.trans hab
  · intro a b hab
    cases hab with
    | send pkg answer hsend =>
      obtain ⟨q, o, rfl⟩ := send_eq_ok hsend
      rfl
    | buddies => rfl

theorem Acked.current {sock : SocketRef} (ha : Acked env sock h h') :
    h'.current = h.current := by
  cases ha with
  | sent | putOff => rfl

theorem Processed.current {theirAddr : SockAddr} {buf : List UInt8}
    (hp : Processed env theirAddr buf h h') : h'.current = h.current := by
  cases hp with
  | ignored | refused | stored | unknown => rfl
  | denied hi u usr sock hid hu hsock ha => exact ha.current
  | addressed hi u usr sock hid hu hsock hip ha => exact ha.current

theorem sendPendingCmd_current (he : sendPendingCmd env h = .ok h') :
    h'.current = h.current := by
  obtain ⟨⟨kept, sent⟩, -, he⟩ := bind_eq_ok.mp he
  cases he
  rfl

theorem turn_current {id : Int32} (he : turn env id h = .ok h') : h'.current = h.current := by
  unfold turn at he
  generalize h.idUmap.get id = p at he
  obtain ⟨ptr, m⟩ := p
  cases ptr with
  | none =>
    cases he
    rfl
  | some u =>
    obtain ⟨usr, husr, he⟩ := bind_eq_ok.mp he
    cases hc : usr.ready with
    | none =>
      rw [hc] at he
      cases he
      rfl
    | some c =>
      rw [hc] at he
      obtain ⟨h1, hb, he⟩ := bind_eq_ok.mp he
      obtain ⟨usr', husr', hb⟩ := bind_eq_ok.mp hb
      obtain ⟨usr1, -, he⟩ := bind_eq_ok.mp he
      cases he
      have hsent := sendAll_eq_ok (h := { h with idUmap := m }) (o := h.out)
        (Hub.deref_eq_ok.mp husr') _ hb
      rw [hsent]
      rfl

/-- The generator moves only to hand out the id it moves to, which is then taken. -/
theorem step_current {call : Event × Env} (hs : h.step call = some h') :
    h'.current = h.current ∨ HandsOut h call.1 h'.current ∧ ¬isFree h'.idUmap h'.current := by
  obtain ⟨ev, env⟩ := call
  have he := Hub.step_eq_some.mp hs
  cases ev with
  | accept addr =>
    cases he
    exact Or.inl rfl
  | command s pkg =>
    obtain ⟨session, -, he⟩ := bind_eq_ok.mp he
    unfold handle at he
    split_ifs at he with hreg
    · rcases registerNick_eq_ok he with ⟨-, q, o, rfl⟩ |
        ⟨hin, session, id, q, o, hgen, -, -, -, -, rfl⟩
      · exact Or.inl rfl
      · refine Or.inr ⟨⟨⟨hreg, hin⟩, id, hgen⟩, fun hfree => ?_⟩
        have hkey := (isFree_iff.mp hfree).2
        change Function.update h.idUmap.map id.toInt32 _ id.toInt32 = none at hkey
        rw [Function.update_self] at hkey
        cases hkey
    · obtain ⟨session, -, hed⟩ := addBuddies_edits he
      exact Or.inl hed.current
    · obtain ⟨session, -, hed⟩ := removeBuddies_edits he
      exact Or.inl hed.current
    · cases he
      exact Or.inl rfl
  | writable s =>
    obtain ⟨q, o, rfl⟩ := sendQueued_eq_ok he
    exact Or.inl rfl
  | close s =>
    obtain ⟨session, -, ⟨-, rfl⟩ | ⟨u, usr, -, -, rfl⟩⟩ := closeConnection_eq_ok he
    · exact Or.inl rfl
    · exact Or.inl rfl
  | datagram theirAddr bytes =>
    obtain ⟨h1, hp, he⟩ := bind_eq_ok.mp he
    have h1c := (process_processed hp).current
    exact Or.inl ((sendPendingCmd_current he).trans h1c)
  | timeout => exact Or.inl (sendPendingCmd_current he)
  | put id =>
    cases he
    exact Or.inl rfl
  | pull =>
    cases hq : h.uqueue with
    | nil =>
      simp only [Hub.dispatch, hq] at he
      cases he
    | cons id rest =>
      simp only [Hub.dispatch, hq] at he
      have hturn := turn_current he
      exact Or.inl hturn

theorem HandsOut.first {ev : Event} {id : UInt32} (ho : HandsOut h ev id) :
    ∃ k, Lib.Rotor.FirstAfter nextId (isFree h.idUmap) h.current k id := by
  obtain ⟨-, next, hgen⟩ := ho
  exact (first_of_generate (by decide) hgen).2

theorem HandsOut.current_eq {call : Event × Env} {id : UInt32} (ho : HandsOut h call.1 id)
    (hs : h.step call = some h') : h'.current = id := by
  obtain ⟨ev, env⟩ := call
  obtain ⟨hin, next, hgen⟩ := ho
  cases ev with
  | command s pkg =>
    have he := Hub.step_eq_some.mp hs
    obtain ⟨session, -, he⟩ := bind_eq_ok.mp he
    unfold handle at he
    rw [if_pos hin.1] at he
    rcases registerNick_eq_ok he with ⟨hnot, -⟩ | ⟨-, session, id', q, o, hgen', -, -, -, -, rfl⟩
    · exact absurd hin.2 hnot
    · rw [hgen] at hgen'
      cases hgen'
      rfl
  | _ => exact hin.elim

end Current

/-- While some id is left `generate` returns the first free one after the last; and an id is
handed out a second time only if each other one was taken at some time in between. -/
theorem ids_fresh_cyclic {ulongMax : ℕ} (hmax : 2 ^ 32 - 1 ≤ ulongMax) :
    (∀ idUmap current, IdLeft idUmap →
      ∃ id, generate ulongMax idUmap current = some (id, id) ∧
        ∃ k, Lib.Rotor.FirstAfter nextId (isFree idUmap) current k id) ∧
    ∀ {h h1 h2 : Hub} {call calls} {ev : Event} {id}, h.step call = some h1 →
      HandsOut h call.1 id → run Hub.step h1 calls = some h2 → HandsOut h2 ev id →
      ∀ other : UInt32, other ≠ 0 → other ≠ id →
        ¬Always Hub.step (fun h => h.idUmap.map other.toInt32 = none) h1 calls := by
  constructor
  · intro idUmap current hleft
    obtain ⟨id, hgen, k, -, hfirst⟩ := generate_of_idLeft hmax hleft current
    exact ⟨id, hgen, k, hfirst⟩
  · intro h h1 h2 call calls ev id hs hout hr hout' other hne hother habsent
    have hcur : h1.current = id := hout.current_eq hs
    obtain ⟨k, hback⟩ := hout'.first
    rw [← hcur] at hback hother
    obtain ⟨i, -, -, hi⟩ := exists_iterate_nextId h1.current other
    have hstep : ∀ h c h', Hub.step h c = some h' → h'.current = h.current ∨
        (∃ k, Lib.Rotor.FirstAfter nextId (isFree h.idUmap) h.current k h'.current) ∧
          ¬isFree h'.idUmap h'.current := by
      intro h c h' hs
      rcases step_current hs with hsame | ⟨hmoved, htaken⟩
      · exact Or.inl hsame
      · exact Or.inr ⟨hmoved.first, htaken⟩
    have hnot := Lib.Rotor.not_always_free Hub.current (fun h => isFree h.idUmap) hstep hr hback
      ⟨i, hi⟩ hother.symm
    apply hnot
    exact habsent.mono fun h hn => isFree_iff.mpr ⟨hne, hn⟩

/-- A session and a single id that is left; the generator is one before it. -/
def oneLeft : Hub :=
  { incomingConnection default Hub.boot with
    idUmap := ⟨fun i => if i = 5 then none else some none⟩
    current := 4 }

/-- The user of the session leaves, and another peer connects. -/
def leaves : List (Event × Env) := [(.close 0, default), (.accept default, default)]

theorem ids_fresh_cyclic_one_left : ∃ h1 h2,
    oneLeft.step (.command 0 (.registerNick [97]), default) = some h1 ∧
      run Hub.step h1 leaves = some h2 ∧ HandsOut h2 (.command 1 (.registerNick [97])) 5 ∧
      ¬Always Hub.step (fun h => h.idUmap.map 7 = none) h1 leaves := by
  obtain ⟨h1, hs⟩ : ∃ h1, oneLeft.step (.command 0 (.registerNick [97]), default) = some h1 :=
    ⟨_, rfl⟩
  obtain ⟨h2, hr⟩ : ∃ h2, run Hub.step h1 leaves = some h2 := by
    cases hs
    exact ⟨_, rfl⟩
  have hin : HandsOut oneLeft (.command 0 (.registerNick [97])) 5 :=
    ⟨⟨rfl, rfl, 5, 5, rfl, by decide⟩, 5, rfl⟩
  have hkey : ∀ i, h2.idUmap.map i = none ↔ i = 5 := by
    intro i
    cases hs
    cases hr
    change Function.update (Function.update oneLeft.idUmap.map 5 (some (some 0))) 5 none i = none ↔
      i = 5
    rw [Function.update_idem]
    by_cases hi : i = 5
    · subst hi
      simp
    · simp [hi, oneLeft]
  have hleft : IdLeft h2.idUmap := ⟨5, by decide, (hkey 5).mpr rfl⟩
  obtain ⟨id, hgen, k, -, hfirst⟩ :=
    generate_of_idLeft (by decide : 2 ^ 32 - 1 ≤ ULONG_MAX) hleft h2.current
  have hid : id = 5 := by
    have hkey5 := (hkey _).mp (isFree_iff.mp hfirst.free_k).2
    exact congrArg Int32.toUInt32 hkey5
  rw [hid] at hgen
  have hnick : h2.nickUmap.count [97] = 0 := by
    cases hs
    cases hr
    rfl
  have hout : HandsOut h2 (.command 1 (.registerNick [97])) 5 :=
    ⟨⟨rfl, hnick, 5, 5, hgen, by decide⟩, 5, hgen⟩
  exact ⟨h1, h2, hs, hr, hout, (ids_fresh_cyclic (by decide : 2 ^ 32 - 1 ≤ ULONG_MAX)).2 hs hin
    hr hout 7 (by decide) (by decide)⟩

/-- `generate` returns, and says that all ids are taken. -/
def ReportsExhaustion (ulongMax : ℕ) (idUmap : IdUserMap) (current : UInt32) : Prop :=
  ∃ rounds next, generateLoop ulongMax idUmap rounds 0 current = some (0, next)

/-- When all ids are taken `generate` does not return, and so `registerNick` answers nothing. -/
theorem exhaustion_not_reported {ulongMax : ℕ} (hmax : 2 ^ 32 - 1 ≤ ulongMax)
    {idUmap : IdUserMap} (hfull : ∀ id : UInt32, id ≠ 0 → 0 < idUmap.count id.toInt32)
    (current : UInt32) :
    ¬ReportsExhaustion ulongMax idUmap current ∧
      (∀ rounds n, generateLoop ulongMax idUmap rounds n current = none) ∧
      ∀ env pkg s h, h.idUmap = idUmap → h.nickUmap.count pkg.getData = 0 →
        registerNick env pkg s h = .error .diverges := by
  have hnone : ¬IdLeft idUmap := by
    intro hleft
    obtain ⟨id, hne, hkey⟩ := hleft
    have hcount := SyncHashMap.count_eq_zero.mpr hkey
    have hpos := hfull id hne
    omega
  have hloop := fun rounds n => generateLoop_of_not_idLeft hmax hnone rounds n current
  refine ⟨?_, hloop, ?_⟩
  · intro hreports
    obtain ⟨rounds, next, hr⟩ := hreports
    rw [hloop] at hr
    cases hr
  · intro env pkg s h hid hnick
    have hgen : generate ULONG_MAX h.idUmap h.current = none := by
      rw [hid]
      exact generateLoop_of_not_idLeft (by decide) hnone _ _ _
    unfold registerNick
    rw [if_neg (by omega), hgen]
    rfl

/-- Each key has been inserted by looking it up. -/
def noneLeft : IdUserMap := ⟨fun _ => some none⟩

theorem noneLeft_full : ∀ id : UInt32, id ≠ 0 → 0 < noneLeft.count id.toInt32 :=
  fun _ _ => Nat.one_pos

theorem exhaustion_not_reported_none_left : ¬ReportsExhaustion ULONG_MAX noneLeft 0 ∧
    registerNick default (.registerNick [97]) 0 { Hub.boot with idUmap := noneLeft } =
      .error .diverges := by
  obtain ⟨hnot, -, hdiv⟩ := exhaustion_not_reported
    (by decide : 2 ^ 32 - 1 ≤ ULONG_MAX) noneLeft_full 0
  exact ⟨hnot, hdiv default _ 0 _ rfl rfl⟩

theorem exhaustion_not_reported_counterexample :
    ¬∀ idUmap : IdUserMap, (∀ id : UInt32, id ≠ 0 → 0 < idUmap.count id.toInt32) →
      ∀ current, ReportsExhaustion ULONG_MAX idUmap current := by
  intro hall
  obtain ⟨rounds, next, hr⟩ := hall noneLeft noneLeft_full 0
  have hnone : ¬IdLeft noneLeft := by
    intro hleft
    obtain ⟨id, -, hkey⟩ := hleft
    cases hkey
  rw [generateLoop_of_not_idLeft (by decide) hnone] at hr
  cases hr

end Gpshub
