import Gpshub.Hub.Broadcast

/-! Who is told the id of whom: the `BUDDIES_IDS` packages of `addBuddies`. -/
namespace Gpshub
open CommandServer CommandHandler GpsDataServer CoordsBroadcastThread Lib.Machine

/-- A `BUDDIES_IDS` that lists the id with the nick. -/
def Tells (pkg : CmdPkg) (id : Int32) (nick : Nick) : Prop :=
  pkg.getType = CmdPkg.BUDDIES_IDS ∧ ∃ (entries : List (Int32 × Nick)) (rest : List UInt8),
    pkg.bytes.drop 3 = entries.flatMap idEntry ++ rest ∧ (id, nick) ∈ entries

/-- One round of the loop over `ids_map`: the entry goes right behind what is there. -/
theorem writeEntry_eq_ok {p p1 p2 : CmdPkg} {offset : ℕ} {id : Int32} {nick : Nick}
    (h1 : p.setInt offset id = .ok p1) (h2 : p1.setBytes (offset + 4) (nick ++ [0]) = .ok p2) :
    p2.bytes.take (3 + (offset + 4 + (nick.length + 1))) =
      p.bytes.take (3 + offset) ++ idEntry (id, nick) := by
  obtain ⟨hlen1, hp1⟩ := CmdPkg.setInt_eq_ok h1
  obtain ⟨-, hp2⟩ := CmdPkg.setBytes_eq_ok h2
  have hpre : (p.bytes.take (3 + offset) ++ intBytes id.toUInt32).length = 3 + (offset + 4) := by
    simp only [List.length_append, List.length_take, intBytes_length]
    omega
  have htake : p1.bytes.take (3 + (offset + 4)) =
      p.bytes.take (3 + offset) ++ intBytes id.toUInt32 := by
    rw [hp1]
    exact List.take_left' hpre
  rw [hp2, htake]
  have hall : (p.bytes.take (3 + offset) ++ intBytes id.toUInt32 ++ (nick ++ [0])).length =
      3 + (offset + 4 + (nick.length + 1)) := by
    rw [List.length_append, hpre]
    simp only [List.length_append, List.length_singleton]
    omega
  rw [List.take_left' hall, List.append_assoc]
  rfl

theorem writeIds_eq_ok (ids : List (Int32 × Nick)) :
    ∀ {offset : ℕ} {p q : CmdPkg}, writeIds ids offset p = .ok q →
      ∃ rest, q.bytes = p.bytes.take (3 + offset) ++ ids.flatMap idEntry ++ rest := by
  induction ids with
  | nil =>
    intro offset p q he
    cases he
    exact ⟨p.bytes.drop (3 + offset), by simp⟩
  | cons e ids ih =>
    intro offset p q he
    obtain ⟨id, nick⟩ := e
    obtain ⟨p1, h1, he⟩ := bind_eq_ok.mp he
    obtain ⟨p2, h2, he⟩ := bind_eq_ok.mp he
    obtain ⟨rest, hq⟩ := ih he
    rw [writeEntry_eq_ok h1 h2] at hq
    refine ⟨rest, ?_⟩
    rw [hq, List.flatMap_cons]
    simp only [List.append_assoc]

theorem idsPkg_tells {env : Env} {ids : List (Int32 × Nick)} {len : ℕ} {pkg : CmdPkg}
    (he : idsPkg env ids len = .ok pkg) {id : Int32} {nick : Nick} (hm : (id, nick) ∈ ids) :
    Tells pkg id nick := by
  obtain ⟨p, hp, he⟩ := bind_eq_ok.mp he
  obtain ⟨htype, hlen⟩ := CmdPkg.new_eq_ok hp
  obtain ⟨rest, hq⟩ := writeIds_eq_ok ids he
  have hthree : (p.bytes.take 3).length = 3 := by
    rw [List.length_take]
    omega
  refine ⟨?_, ids, rest, ?_, hm⟩
  · rw [← htype]
    unfold CmdPkg.getType
    rw [hq, List.append_assoc, byteAt_append_left (by rw [Nat.add_zero, hthree]; decide),
      byteAt_take (by decide)]
  · rw [hq, List.append_assoc]
    exact List.drop_left' hthree

theorem mem_insertId_self (id : Int32) (nick : Nick) (ids : List (Int32 × Nick)) :
    (id, nick) ∈ insertId id nick ids := by
  induction ids with
  | nil => exact List.mem_singleton.mpr rfl
  | cons e ids ih =>
    rw [insertId]
    split_ifs
    · exact List.mem_cons_self
    · exact List.mem_cons_self
    · exact List.mem_cons_of_mem _ ih

theorem mem_insertId {id : Int32} {nick : Nick} {e : Int32 × Nick} {ids : List (Int32 × Nick)}
    (hm : e ∈ ids) (hid : e.1 = id → e.2 = nick) : e ∈ insertId id nick ids := by
  induction ids with
  | nil => cases hm
  | cons e' ids ih =>
    rw [insertId]
    split_ifs with hlt heq
    · exact List.mem_cons_of_mem _ hm
    · rcases List.mem_cons.mp hm with rfl | hm
      · rw [heq, ← hid heq.symm]
        exact List.mem_cons_self
      · exact List.mem_cons_of_mem _ hm
    · rcases List.mem_cons.mp hm with rfl | hm
      · exact List.mem_cons_self
      · exact List.mem_cons_of_mem _ (ih hm)

theorem of_mem_insertId {id : Int32} {nick : Nick} {e : Int32 × Nick} {ids : List (Int32 × Nick)}
    (hm : e ∈ insertId id nick ids) : e = (id, nick) ∨ e ∈ ids := by
  induction ids with
  | nil => exact Or.inl (List.mem_singleton.mp hm)
  | cons e' ids ih =>
    rw [insertId] at hm
    split_ifs at hm
    · exact List.mem_cons.mp hm
    · exact (List.mem_cons.mp hm).imp_right (List.mem_cons_of_mem _)
    · rcases List.mem_cons.mp hm with rfl | hm
      · exact Or.inr List.mem_cons_self
      · exact (ih hm).imp_right (List.mem_cons_of_mem _)

/-- A user with this id is registered under this nick. -/
def Names (h : Hub) (e : Int32 × Nick) : Prop :=
  ∃ b usr, h.nickUmap.pointsTo e.2 = some b ∧ h.users b = some usr ∧ usr.id = e.1

theorem Names.nick_eq {h : Hub} (hwf : WellFormed h) {id : Int32} {nick nick' : Nick}
    (hn : Names h (id, nick)) (hn' : Names h (id, nick')) : nick = nick' := by
  obtain ⟨b, usr, hb, hu, rfl⟩ := hn
  obtain ⟨b', usr', hb', hu', hid⟩ := hn'
  obtain ⟨i, ht, hl⟩ := hwf.directory.name hb
  obtain ⟨i', ht', hl'⟩ := hwf.directory.name hb'
  cases (WellFormed.tag_of_user hu).symm.trans ht
  cases (WellFormed.tag_of_user hu').symm.trans ht'
  rw [hid] at hl'
  cases hl.symm.trans hl'
  exact congrArg Prod.snd (Option.some.inj (ht.symm.trans ht'))

theorem Names.id_eq {h : Hub} {e e' : Int32 × Nick} (hn : Names h e) (hn' : Names h e')
    (heq : e.2 = e'.2) : e.1 = e'.1 := by
  obtain ⟨b, usr, hb, husr, hid⟩ := hn
  obtain ⟨b', usr', hb', husr', hid'⟩ := hn'
  rw [heq] at hb
  cases hb.symm.trans hb'
  cases husr.symm.trans husr'
  exact hid.symm.trans hid'

theorem Frame.names_iff {h h' : Hub} (hf : Frame h h') (e : Int32 × Nick) :
    Names h' e ↔ Names h e := by
  unfold Names
  rw [hf.nickUmap]
  constructor
  · rintro ⟨b, usr', hb, hu', hid⟩
    obtain ⟨usr, hu, hi⟩ := hf.some_of_user hu'
    exact ⟨b, usr, hb, hu, (congrArg Prod.fst hi).trans hid⟩
  · rintro ⟨b, usr, hb, hu, hid⟩
    obtain ⟨usr', hu', hi⟩ := hf.user_of_some hu
    exact ⟨b, usr', hb, hu', (congrArg Prod.fst hi).trans hid⟩

section Collect

variable {env : Env} {s : SessionRef} {u : UserRef}

/-- Every id collected so far is that of a registered user. -/
structure Collected (h : Hub) (st : AddState) : Prop where
  names : ∀ e ∈ st.idsMap, Names h e
  some_len : st.idsMap ≠ [] → 0 < st.idsPkgLen

theorem addBuddy_eq_ok {nick : Nick} {st st' : AddState} {h h' : Hub}
    (he : addBuddy env s u nick st h = .ok (st', h')) :
    (¬0 < h.nickUmap.count nick ∧ st' = st) ∨
      0 < h.nickUmap.count nick ∧ ∃ id, Names h (id, nick) ∧ st' = {
        idsMap := insertId id nick st.idsMap
        idsPkgLen := st.idsPkgLen + (nick.length + 1)
        sent := st.sent + 1 } := by
  obtain ⟨user, hu, he⟩ := bind_eq_ok.mp he
  have hset : Quiet h (h.setUser u (user.insertBuddy nick)) :=
    .setUser (Hub.deref_eq_ok.mp hu) rfl
  dsimp only at he
  split_ifs at he with hcount
  · obtain ⟨p, hp⟩ := SyncHashMap.count_pos.mp hcount
    rw [SyncHashMap.get_of_some hp] at he
    obtain ⟨b, hb, he⟩ := bind_eq_ok.mp he
    obtain ⟨buddy, hbuddy, he⟩ := bind_eq_ok.mp he
    obtain ⟨pkgUid, -, he⟩ := bind_eq_ok.mp he
    obtain ⟨h1, -, he⟩ := bind_eq_ok.mp he
    cases he
    have hpoints := SyncHashMap.pointsTo_eq_some.mpr (hp.trans (congrArg some (notNull_eq_ok.mp hb)))
    have hnames : Names h (buddy.id, nick) :=
      (hset.toFrame.names_iff _).mp ⟨b, buddy, hpoints, Hub.deref_eq_ok.mp hbuddy, rfl⟩
    exact Or.inr ⟨hcount, buddy.id, hnames, rfl⟩
  · cases he
    exact Or.inl ⟨hcount, rfl⟩

theorem addBuddy_collects {nick : Nick} {st st' : AddState} {h h' : Hub} (hwf : WellFormed h)
    (he : addBuddy env s u nick st h = .ok (st', h')) (hc : Collected h st) :
    Collected h st' ∧ (∀ e ∈ st.idsMap, e ∈ st'.idsMap) ∧
      ∀ id, Names h (id, nick) → (id, nick) ∈ st'.idsMap := by
  rcases addBuddy_eq_ok he with ⟨hcount, rfl⟩ | ⟨-, newId, hnew, rfl⟩
  · refine ⟨hc, fun e hm => hm, fun id hn => ?_⟩
    obtain ⟨b, usr, hb, -, -⟩ := hn
    have hmap := SyncHashMap.pointsTo_eq_some.mp hb
    exact absurd (SyncHashMap.count_pos.mpr ⟨_, hmap⟩) hcount
  · refine ⟨⟨fun e hm => ?_, fun _ => by simp only; omega⟩, fun e hm => ?_, fun id hn => ?_⟩
    · rcases of_mem_insertId hm with rfl | hm
      · exact hnew
      · exact hc.names e hm
    · apply mem_insertId hm
      intro hid
      have hold : Names h (newId, e.2) := hid ▸ hc.names e hm
      exact hold.nick_eq hwf hnew
    · have hid : id = newId := hn.id_eq hnew rfl
      rw [hid]
      exact mem_insertId_self ..

theorem addAll_collects (nicks : List Nick) :
    ∀ {st st' : AddState} {h h' : Hub}, WellFormed h → addAll env s u nicks st h = .ok (st', h') →
      Collected h st → Collected h st' ∧ (∀ e ∈ st.idsMap, e ∈ st'.idsMap) ∧
        ∀ nick ∈ nicks, ∀ id, Names h (id, nick) → (id, nick) ∈ st'.idsMap := by
  induction nicks with
  | nil =>
    intro st st' h h' hwf he hc
    cases he
    exact ⟨hc, fun e hm => hm, nofun⟩
  | cons nick rest ih =>
    intro st st' h h' hwf he hc
    obtain ⟨⟨st1, h1⟩, h1e, he⟩ := bind_eq_ok.mp he
    obtain ⟨hc1, hkeep, hadd⟩ := addBuddy_collects hwf h1e hc
    have hq := (addBuddy_edits h1e).quiet
    have hf := hq.toFrame
    have hc1' : Collected h1 st1 :=
      ⟨fun e hm => (hf.names_iff e).mpr (hc1.names e hm), hc1.some_len⟩
    have hid : h1.idUmap = lookedUpIn h.idUmap none := hq.idUmap
    obtain ⟨hc2, hkeep', hadd'⟩ := ih (hwf.frame hf hid) he hc1'
    refine ⟨⟨fun e hm => (hf.names_iff e).mp (hc2.names e hm), hc2.some_len⟩,
      fun e hm => hkeep' e (hkeep e hm), fun n hn id hnames => ?_⟩
    rcases List.mem_cons.mp hn with rfl | hn
    · exact hkeep' _ (hadd id hnames)
    · exact hadd' n hn id ((hf.names_iff _).mpr hnames)

end Collect

theorem send_handed {h h' : Hub} {s : SessionRef} {session : Session} {p : CmdPkg}
    {answer : SendResult} (hs : h.sessions s = some session) (he : send h s p answer = .ok h') :
    p ∈ handed h' s session.sock := by
  obtain ⟨session', hs', he⟩ := bind_eq_ok.mp he
  cases hs.symm.trans (Hub.session_eq_ok.mp hs')
  unfold handed
  cases answer with
  | all | part =>
    cases he
    have hlast (o : Output) : o ∈ h.out ++ [o] :=
      List.mem_append_right _ (List.mem_singleton.mpr rfl)
    refine List.mem_append_right _ (List.mem_filterMap.mpr ⟨_, hlast _, ?_⟩)
    simp [Output.tcpTo]
  | wouldBlock =>
    cases he
    refine List.mem_append_left _ ?_
    simp
  | error => cases he

/-- The user that sends an `ADD_BUDDIES` is told the id of every registered user it lists. -/
theorem addBuddies_tells {env : Env} {h h' : Hub} {s : SessionRef} {session : Session}
    {pkg : CmdPkg} {b : UserRef} (hwf : WellFormed h) (hs : h.sessions s = some session)
    (hb : session.user = some b) (he : addBuddies env pkg s h = .ok h') {id : Int32} {nick : Nick}
    (hn : Names h (id, nick)) (hmem : nick ∈ addFields pkg.getData) :
    ∃ p ∈ handed h' s session.sock, Tells p id nick := by
  obtain ⟨session', hs', he⟩ := bind_eq_ok.mp he
  cases hs.symm.trans (Hub.session_eq_ok.mp hs')
  rw [hb] at he
  obtain ⟨⟨st, h1⟩, hall, he⟩ := bind_eq_ok.mp he
  have hq := (addAll_edits _ hall).quiet
  obtain ⟨hc, -, hadd⟩ := addAll_collects _ hwf hall ⟨nofun, fun hne => absurd rfl hne⟩
  have hin := hadd nick hmem id hn
  dsimp only at he
  rw [if_pos (hc.some_len (List.ne_nil_of_mem hin))] at he
  obtain ⟨p, hp, he⟩ := bind_eq_ok.mp he
  have hs1 : h1.sessions s = some session := by rw [hq.sessions, hs]
  exact ⟨p, send_handed hs1 he, idsPkg_tells hp hin⟩

end Gpshub
