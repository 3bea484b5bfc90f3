import Gpshub.Hub.BuddiesIds
import Gpshub.Hub.Exceptions
import Gpshub.Hub.Listing
import Mathlib.Data.List.Dedup
import Mathlib.Algebra.Order.BigOperators.Group.List

/-! The loop of `addBuddies` in a run of the hub: which ids it gathers, what length it adds up
for them, and the packages that are made of them. -/
namespace Gpshub
open CommandServer CommandHandler Lib.Machine Lib.Fields

/-- The space that the nicks of some entries take up. -/
def nicksLen (nicks : List Nick) : ℕ := (nicks.map fun nick => nick.length + 1).sum

theorem nicksLen_le_of_sublist {nicks more : List Nick} (hs : nicks.Sublist more) :
    nicksLen nicks ≤ nicksLen more :=
  (hs.map _).sum_le_sum fun _ _ => Nat.zero_le _

theorem length_le_nicksLen (nicks : List Nick) : nicks.length ≤ nicksLen nicks := by
  have hlen : (nicks.map fun nick => nick.length + 1).length = nicks.length := List.length_map _
  rw [nicksLen, ← hlen]
  apply List.length_le_sum_of_one_le
  intro n hn
  obtain ⟨nick, -, rfl⟩ := List.mem_map.mp hn
  exact Nat.le_add_left 1 _

theorem nicksLen_dedup_eq {nicks : List Nick} :
    nicksLen nicks.dedup = nicksLen nicks ↔ nicks.Nodup := by
  constructor
  · intro heq
    induction nicks with
    | nil => exact List.nodup_nil
    | cons nick rest ih =>
      have hle : nicksLen rest.dedup ≤ nicksLen rest :=
        nicksLen_le_of_sublist (List.dedup_sublist rest)
      have hcons (nicks : List Nick) :
          nicksLen (nick :: nicks) = nick.length + 1 + nicksLen nicks := by
        simp [nicksLen]
      by_cases hm : nick ∈ rest
      · rw [List.dedup_cons_of_mem hm, hcons] at heq
        omega
      · rw [List.dedup_cons_of_notMem hm, hcons, hcons] at heq
        exact List.nodup_cons.mpr ⟨hm, ih (by omega)⟩
  · intro hnodup
    rw [List.dedup_eq_self.mpr hnodup]

theorem idEntries_length (ids : List (Int32 × Nick)) :
    (ids.flatMap idEntry).length = nicksLen (ids.map Prod.snd) + 4 * ids.length := by
  induction ids with
  | nil => rfl
  | cons e ids ih =>
    simp only [List.flatMap_cons, List.length_append, ih, idEntry, intBytes_length, nicksLen,
      List.map_cons, List.sum_cons, List.length_cons, List.length_nil]
    omega

/-- The loop over `ids_map` stays inside a package that has room for the entries. -/
theorem writeIds_ok (ids : List (Int32 × Nick)) : ∀ {offset : ℕ} {p : CmdPkg},
    3 + offset + (ids.flatMap idEntry).length ≤ p.bytes.length →
      ∃ q, writeIds ids offset p = .ok q ∧ q.bytes.length = p.bytes.length := by
  induction ids with
  | nil => exact fun {offset p} _ => ⟨p, rfl, rfl⟩
  | cons e ids ih =>
    intro offset p hroom
    obtain ⟨id, nick⟩ := e
    simp only [List.flatMap_cons, List.length_append, idEntry, intBytes_length,
      List.length_singleton] at hroom
    have hid : 3 + offset + 4 ≤ p.bytes.length := by omega
    obtain ⟨p1, hp1, hlen1⟩ := CmdPkg.setInt_ok id hid
    have hnick : 3 + (offset + 4) + (nick ++ [0]).length ≤ p1.bytes.length := by
      rw [List.length_append, List.length_singleton, hlen1]
      omega
    obtain ⟨p2, hp2, hlen2⟩ := CmdPkg.setBytes_ok hnick
    have hrest : 3 + (offset + 4 + (nick.length + 1)) + (ids.flatMap idEntry).length ≤
        p2.bytes.length := by
      rw [hlen2, hlen1]
      omega
    obtain ⟨q, hq, hlen⟩ := ih hrest
    refine ⟨q, ?_, by rw [hlen, hlen2, hlen1]⟩
    rw [writeIds, hp1, ok_bind]
    dsimp only
    rw [hp2, ok_bind, hq]

/-- `idsPkg` returns a package of the length it has been given, with room left if that is more
than the entries take up. -/
theorem idsPkg_ok (env : Env) {ids : List (Int32 × Nick)} {len : ℕ} (hroom : nicksLen (ids.map Prod.snd) ≤ len)
    (hlen : len + 3 + 4 * ids.length < 2 ^ 16) :
    ∃ p, idsPkg env ids len = .ok p ∧ p.getType = CmdPkg.BUDDIES_IDS ∧
      p.getLen.toNat = len + 3 + 4 * ids.length ∧
        ∃ rest, rest.length + nicksLen (ids.map Prod.snd) = len + 1 ∧
          p.bytes.drop 3 = ids.flatMap idEntry ++ rest := by
  have hnat : (UInt16.ofNat (len + 3 + 4 * ids.length)).toNat = len + 3 + 4 * ids.length := by
    rw [UInt16.toNat_ofNat']
    exact Nat.mod_eq_of_lt hlen
  have hthree : 3 ≤ (UInt16.ofNat (len + 3 + 4 * ids.length)).toNat := by omega
  obtain ⟨p, hp, hplen, hget⟩ := CmdPkg.new_ok env.junk CmdPkg.BUDDIES_IDS hthree
  have hentries := idEntries_length ids
  have hfits : 3 + 0 + (ids.flatMap idEntry).length ≤ p.bytes.length := by omega
  obtain ⟨q, hq, hqlen⟩ := writeIds_ok ids hfits
  obtain ⟨rest, hbytes⟩ := writeIds_eq_ok ids hq
  have hhead : (p.bytes.take 3).length = 3 := by
    rw [List.length_take]
    omega
  have htake : q.bytes.take 3 = p.bytes.take 3 := by
    rw [hbytes, List.append_assoc]
    exact List.take_left' hhead
  obtain ⟨htype, hqget⟩ := CmdPkg.header_congr htake
  refine ⟨q, ?_, ?_, ?_, rest, ?_, ?_⟩
  · rw [idsPkg, hp, ok_bind, hq]
  · rw [htype, (CmdPkg.new_eq_ok hp).1]
  · rw [hqget, hget, hnat]
  · rw [hbytes] at hqlen
    simp only [List.length_append, Nat.add_zero, hhead] at hqlen
    omega
  · rw [hbytes, List.append_assoc]
    exact List.drop_left' hhead

/-- The package with the user's own id is that of a list with the user alone. -/
theorem uidPkg_eq (env : Env) (usr : User) :
    uidPkg env usr = idsPkg env [(usr.id, usr.nick)] (usr.nick.length + 1) := by
  have hlen : 3 + 4 + (usr.nick.length + 1) = usr.nick.length + 1 + 3 + 4 * 1 := by omega
  have hwrite (p : CmdPkg) : (do
      let p ← p.setInt 0 usr.id
      p.setBytes 4 (usr.nick ++ [0])) = writeIds [(usr.id, usr.nick)] 0 p := by
    rw [writeIds]
    cases p.setInt 0 usr.id with
    | error e => rfl
    | ok p1 =>
      show p1.setBytes 4 (usr.nick ++ [0]) = p1.setBytes 4 (usr.nick ++ [0]) >>= .ok
      cases p1.setBytes 4 (usr.nick ++ [0]) <;> rfl
  unfold uidPkg idsPkg
  dsimp only
  rw [hlen]
  exact congrArg _ (funext hwrite)

theorem uidPkg_ok (env : Env) {usr : User} (hlen : usr.nick.length + 8 < 2 ^ 16) :
    ∃ p, uidPkg env usr = .ok p ∧
      p.getLen.toNat = 3 + (idEntry (usr.id, usr.nick)).length := by
  have hroom : nicksLen ([(usr.id, usr.nick)].map Prod.snd) ≤ usr.nick.length + 1 := by
    simp [nicksLen]
  have hfits : usr.nick.length + 1 + 3 + 4 * [(usr.id, usr.nick)].length < 2 ^ 16 := by
    rw [List.length_singleton]
    omega
  obtain ⟨p, hp, -, hget, -⟩ := idsPkg_ok env hroom hfits
  refine ⟨p, by rw [uidPkg_eq, hp], ?_⟩
  rw [hget, idEntry]
  simp only [List.length_singleton, List.length_append, intBytes_length]
  omega

/-- The names that are in `nick_umap`. -/
def listed (h : Hub) (nicks : List Nick) : List Nick :=
  nicks.filter fun nick => 0 < h.nickUmap.count nick

section Loop

variable {env : Env} {s : SessionRef} {u : UserRef} {h h' : Hub}

/-- What `addBuddies` needs to get through its loop. -/
structure CanAdd (s : SessionRef) (u : UserRef) (h : Hub) : Prop where
  session : ∃ session, h.sessions s = some session
  user : ∃ usr, h.users u = some usr ∧ usr.nick.length + 8 < 2 ^ 16
  nicks : ∀ nick, 0 < h.nickUmap.count nick →
    ∃ b buddy, h.nickUmap.map nick = some (some b) ∧ h.users b = some buddy

theorem CanAdd.frame (hc : CanAdd s u h) (hf : Frame h h') : CanAdd s u h' where
  session := by
    rw [hf.sessions]
    exact hc.session
  user := by
    obtain ⟨usr, husr, hlen⟩ := hc.user
    obtain ⟨usr', husr', hi⟩ := hf.user_of_some husr
    simp only [User.ident, Prod.mk.injEq] at hi
    refine ⟨usr', husr', ?_⟩
    rw [hi.2.1]
    exact hlen
  nicks nick hcount := by
    rw [hf.nickUmap] at hcount ⊢
    obtain ⟨b, buddy, hb, hbuddy⟩ := hc.nicks nick hcount
    obtain ⟨buddy', hbuddy', -⟩ := hf.user_of_some hbuddy
    exact ⟨b, buddy', hb, hbuddy'⟩

/-- `send` to a session that is there is left by no other exception than a `SocketException`. -/
theorem send_ok_or (p : CmdPkg) (answer : SendResult) {session : Session}
    (hs : h.sessions s = some session) :
    (∃ h', send h s p answer = .ok h') ∨ send h s p answer = .error .socketException := by
  rw [send, Hub.session_eq_ok.mpr hs, ok_bind]
  cases answer with
  | all | part | wouldBlock => exact Or.inl ⟨_, rfl⟩
  | error => exact Or.inr rfl

theorem addBuddy_unknown {usr : User} {nick : Nick} (husr : h.users u = some usr)
    (hcount : ¬0 < h.nickUmap.count nick) (st : AddState) :
    addBuddy env s u nick st h = .ok (st, h.setUser u (usr.insertBuddy nick)) := by
  rw [addBuddy, Hub.deref_eq_ok.mpr husr, ok_bind]
  exact if_neg hcount

theorem addAll_unknown (nicks : List Nick) : ∀ {usr : User} {h : Hub}, h.users u = some usr →
    (∀ nick ∈ nicks, ¬0 < h.nickUmap.count nick) → ∀ st : AddState,
      addAll env s u nicks st h = .ok (st, h.setUser u (nicks.foldl User.insertBuddy usr)) := by
  induction nicks with
  | nil =>
    intro usr h husr _ st
    rw [addAll, Hub.setUser, List.foldl_nil, Function.update_eq_self_iff.mpr husr.symm]
  | cons nick rest ih =>
    intro usr h husr hcount st
    have hself : (h.setUser u (usr.insertBuddy nick)).users u = some (usr.insertBuddy nick) :=
      Function.update_self ..
    have hrest := ih hself (fun n hn => hcount n (List.mem_cons_of_mem nick hn)) st
    rw [addAll, addBuddy_unknown husr (hcount nick List.mem_cons_self), ok_bind]
    dsimp only
    rw [hrest]
    simp only [Hub.setUser, Function.update_idem, List.foldl_cons]

theorem addBuddy_known {h1 : Hub} {usr : User} {nick : Nick} {b : UserRef} {buddy : User}
    (husr : h.users u = some usr) (hh1 : h.setUser u (usr.insertBuddy nick) = h1)
    (hb : h1.nickUmap.map nick = some (some b)) (hbuddy : h1.users b = some buddy)
    (st : AddState) :
    addBuddy env s u nick st h = (do
      let pkgUid ← uidPkg env (usr.insertBuddy nick)
      let h ← send h1 s pkgUid (env.answer st.sent)
      return ({
        idsMap := insertId buddy.id nick st.idsMap
        idsPkgLen := st.idsPkgLen + (nick.length + 1)
        sent := st.sent + 1 }, h)) := by
  have hcount : 0 < h1.nickUmap.count nick := SyncHashMap.count_pos.mpr ⟨_, hb⟩
  rw [addBuddy, Hub.deref_eq_ok.mpr husr, ok_bind]
  dsimp only
  rw [hh1, if_pos hcount, SyncHashMap.get_of_some hb]
  show (h1.deref b >>= _) = _
  rw [Hub.deref_eq_ok.mpr hbuddy, ok_bind]

/-- The entry of a name in `nick_umap` points to a user, also after the name has become a
buddy. -/
theorem CanAdd.known (hc : CanAdd s u h) {usr : User} {nick : Nick}
    (husr : h.users u = some usr) (hcount : 0 < h.nickUmap.count nick) :
    ∃ b buddy, h.nickUmap.map nick = some (some b) ∧
      (h.setUser u (usr.insertBuddy nick)).users b = some buddy ∧ Names h (buddy.id, nick) := by
  obtain ⟨b, buddy, hb, hbuddy⟩ := hc.nicks nick hcount
  have hpoints : h.nickUmap.pointsTo nick = some b := SyncHashMap.pointsTo_eq_some.mpr hb
  by_cases hbu : b = u
  · subst hbu
    cases husr.symm.trans hbuddy
    exact ⟨b, _, hb, Function.update_self .., b, usr, hpoints, husr, rfl⟩
  · exact ⟨b, buddy, hb, (Function.update_of_ne hbu ..).trans hbuddy, b, buddy, hpoints, hbuddy, rfl⟩

theorem addBuddy_ok_or (hc : CanAdd s u h) (nick : Nick) (st : AddState) :
    (∃ r, addBuddy env s u nick st h = .ok r) ∨
      addBuddy env s u nick st h = .error .socketException := by
  obtain ⟨session, hs⟩ := hc.session
  obtain ⟨usr, husr, hlen⟩ := hc.user
  by_cases hcount : 0 < h.nickUmap.count nick
  · obtain ⟨b, buddy, hb, hbuddy, -⟩ := hc.known husr hcount
    have huid : ∃ p, uidPkg env (usr.insertBuddy nick) = .ok p ∧ _ := uidPkg_ok env hlen
    obtain ⟨p, hp, -⟩ := huid
    have hs1 : (h.setUser u (usr.insertBuddy nick)).sessions s = some session := hs
    rw [addBuddy_known husr rfl hb hbuddy, hp, ok_bind]
    rcases send_ok_or p (env.answer st.sent) hs1 with ⟨h1, h1e⟩ | he
    · rw [h1e]
      exact Or.inl ⟨_, rfl⟩
    · rw [he]
      exact Or.inr rfl
  · rw [addBuddy_unknown husr hcount]
    exact Or.inl ⟨_, rfl⟩

theorem addAll_ok_or (nicks : List Nick) : ∀ {st : AddState} {h : Hub}, CanAdd s u h →
    (∃ r, addAll env s u nicks st h = .ok r) ∨
      addAll env s u nicks st h = .error .socketException := by
  induction nicks with
  | nil => exact fun {st h} _ => Or.inl ⟨(st, h), rfl⟩
  | cons nick rest ih =>
    intro st h hc
    rw [addAll]
    rcases addBuddy_ok_or hc nick st with ⟨⟨st1, h1⟩, he⟩ | he
    · rw [he, ok_bind]
      exact ih (hc.frame (addBuddy_edits he).quiet.toFrame)
    · rw [he]
      exact Or.inr rfl

end Loop

theorem fst_of_mem_insertId {id k : Int32} {nick : Nick} {ids : List (Int32 × Nick)}
    (hk : k ∈ (insertId id nick ids).map Prod.fst) : k = id ∨ k ∈ ids.map Prod.fst := by
  obtain ⟨e, he, rfl⟩ := List.mem_map.mp hk
  rcases of_mem_insertId he with rfl | he
  · exact Or.inl rfl
  · exact Or.inr (List.mem_map_of_mem he)

theorem sorted_insertId {id : Int32} {nick : Nick} {ids : List (Int32 × Nick)}
    (hs : (ids.map Prod.fst).Pairwise (· < ·)) :
    ((insertId id nick ids).map Prod.fst).Pairwise (· < ·) := by
  induction ids with
  | nil => exact List.pairwise_singleton _ _
  | cons e ids ih =>
    rw [List.map_cons, List.pairwise_cons] at hs
    obtain ⟨hfirst, hrest⟩ := hs
    rw [insertId]
    split_ifs with hlt heq
    · simp only [List.map_cons, List.pairwise_cons, List.mem_cons, forall_eq_or_imp]
      exact ⟨⟨hlt, fun k hk => Int32.lt_trans hlt (hfirst k hk)⟩, hfirst, hrest⟩
    · rw [List.map_cons, List.pairwise_cons, heq]
      exact ⟨hfirst, hrest⟩
    · rw [List.map_cons, List.pairwise_cons]
      refine ⟨fun k hk => ?_, ih hrest⟩
      rcases fst_of_mem_insertId hk with rfl | hk
      · exact Int32.lt_of_le_of_ne (Int32.not_lt.mp hlt) (Ne.symm heq)
      · exact hfirst k hk

theorem Names.mem_listed {h : Hub} {id : Int32} {nick : Nick} (hn : Names h (id, nick))
    {nicks : List Nick} : nick ∈ listed h nicks ↔ nick ∈ nicks := by
  obtain ⟨b, usr, hb, -, -⟩ := hn
  have hcount : 0 < h.nickUmap.count nick :=
    SyncHashMap.count_pos.mpr ⟨_, SyncHashMap.pointsTo_eq_some.mp hb⟩
  rw [listed, List.mem_filter]
  exact and_iff_left (decide_eq_true hcount)

theorem listed_append (h : Hub) (nicks more : List Nick) :
    listed h (nicks ++ more) = listed h nicks ++ listed h more :=
  List.filter_append nicks more

theorem Frame.listed_eq {h h' : Hub} (hf : Frame h h') (nicks : List Nick) :
    listed h' nicks = listed h nicks := by
  rw [listed, hf.nickUmap, listed]

/-- The local variables after the loop has gone through names of which `nicks` are in
`nick_umap`. -/
structure Gathered (h : Hub) (nicks : List Nick) (st : AddState) : Prop where
  sorted : (st.idsMap.map Prod.fst).Pairwise (· < ·)
  mem : ∀ e, e ∈ st.idsMap ↔ e.2 ∈ nicks ∧ Names h e
  len : st.idsPkgLen = nicksLen nicks

namespace Gathered

variable {env : Env} {s : SessionRef} {u : UserRef} {h h' : Hub} {nicks : List Nick}
  {st st' : AddState}

theorem start (h : Hub) : Gathered h [] ⟨[], 0, 0⟩ where
  sorted := List.Pairwise.nil
  mem e := by simp
  len := rfl

theorem frame_iff (hf : Frame h h') : Gathered h' nicks st ↔ Gathered h nicks st := by
  constructor
  · rintro ⟨hsorted, hmem, hlen⟩
    exact ⟨hsorted, fun e => by rw [← hf.names_iff, hmem e], hlen⟩
  · rintro ⟨hsorted, hmem, hlen⟩
    exact ⟨hsorted, fun e => by rw [hf.names_iff, hmem e], hlen⟩

theorem known (hg : Gathered h nicks st) (hwf : WellFormed h) {id : Int32} {nick : Nick}
    (hn : Names h (id, nick)) (sent : ℕ) : Gathered h (nicks ++ [nick])
      ⟨insertId id nick st.idsMap, st.idsPkgLen + (nick.length + 1), sent⟩ where
  sorted := sorted_insertId hg.sorted
  mem e := by
    rw [List.mem_append, List.mem_singleton]
    constructor
    · intro he
      rcases of_mem_insertId he with rfl | he
      · exact ⟨Or.inr rfl, hn⟩
      · obtain ⟨hmem, hnames⟩ := (hg.mem e).mp he
        exact ⟨Or.inl hmem, hnames⟩
    · rintro ⟨hmem, hnames⟩
      rcases hmem with hmem | hnick
      · apply mem_insertId ((hg.mem e).mpr ⟨hmem, hnames⟩)
        intro hid
        have hsame : Names h (id, e.2) := hid ▸ hnames
        exact hsame.nick_eq hwf hn
      · have heq : e = (id, nick) := Prod.ext (hnames.id_eq hn hnick) hnick
        rw [heq]
        exact mem_insertId_self ..
  len := by simp [hg.len, nicksLen]

theorem addBuddy (hg : Gathered h nicks st) (hwf : WellFormed h) {nick : Nick}
    (he : addBuddy env s u nick st h = .ok (st', h')) :
    Gathered h (nicks ++ listed h [nick]) st' := by
  rcases addBuddy_eq_ok he with ⟨hcount, rfl⟩ | ⟨hcount, id, hnames, rfl⟩
  · have hnone : listed h [nick] = [] := by simp [listed, hcount]
    rw [hnone, List.append_nil]
    exact hg
  · have hone : listed h [nick] = [nick] := by simp [listed, hcount]
    rw [hone]
    exact hg.known hwf hnames _

theorem addAll (more : List Nick) : ∀ {nicks : List Nick} {st : AddState} {h : Hub},
    Gathered h nicks st → WellFormed h → addAll env s u more st h = .ok (st', h') →
      Gathered h (nicks ++ listed h more) st' := by
  induction more with
  | nil =>
    intro nicks st h hg _ he
    cases he
    simpa [listed] using hg
  | cons nick rest ih =>
    intro nicks st h hg hwf he
    obtain ⟨⟨st1, h1⟩, h1e, he⟩ := bind_eq_ok.mp he
    have hq := (addBuddy_edits h1e).quiet
    have hf := hq.toFrame
    have hid : h1.idUmap = lookedUpIn h.idUmap none := hq.idUmap
    have hg1 := (frame_iff hf).mpr (hg.addBuddy hwf h1e)
    have hrest := ih hg1 (hwf.frame hf hid) he
    rw [frame_iff hf, hf.listed_eq, List.append_assoc, ← listed_append] at hrest
    exact hrest

theorem perm (hg : Gathered h nicks st) (hknown : ∀ nick ∈ nicks, ∃ id, Names h (id, nick)) :
    (st.idsMap.map Prod.snd).Perm nicks.dedup := by
  have hnodup : st.idsMap.Nodup :=
    List.Pairwise.of_map Prod.fst (fun a b hlt heq => Int32.ne_of_lt hlt (congrArg Prod.fst heq))
      hg.sorted
  have hinj : ∀ e ∈ st.idsMap, ∀ e' ∈ st.idsMap, e.2 = e'.2 → e = e' := by
    intro e he e' he' heq
    exact Prod.ext (((hg.mem e).mp he).2.id_eq ((hg.mem e').mp he').2 heq) heq
  rw [List.perm_ext_iff_of_nodup (hnodup.map_on hinj) (List.nodup_dedup nicks)]
  intro nick
  rw [List.mem_dedup, List.mem_map]
  constructor
  · rintro ⟨e, he, rfl⟩
    exact ((hg.mem e).mp he).1
  · intro hmem
    obtain ⟨id, hnames⟩ := hknown nick hmem
    exact ⟨(id, nick), (hg.mem _).mpr ⟨hmem, hnames⟩, rfl⟩

theorem nicksLen_eq (hg : Gathered h nicks st) (hknown : ∀ nick ∈ nicks, ∃ id, Names h (id, nick)) :
    nicksLen (st.idsMap.map Prod.snd) = nicksLen nicks.dedup :=
  ((hg.perm hknown).map _).sum_eq

/-- The entries take up at most what has been added up, and exactly that if no name is listed
twice. -/
theorem room (hg : Gathered h nicks st) (hknown : ∀ nick ∈ nicks, ∃ id, Names h (id, nick)) :
    nicksLen (st.idsMap.map Prod.snd) ≤ st.idsPkgLen ∧
      (nicksLen (st.idsMap.map Prod.snd) = st.idsPkgLen ↔ nicks.Nodup) := by
  rw [hg.nicksLen_eq hknown, hg.len]
  exact ⟨nicksLen_le_of_sublist (List.dedup_sublist nicks), nicksLen_dedup_eq⟩

theorem count_le (hg : Gathered h nicks st) (hknown : ∀ nick ∈ nicks, ∃ id, Names h (id, nick)) :
    st.idsMap.length ≤ st.idsPkgLen := by
  have hlen : (st.idsMap.map Prod.snd).length = st.idsMap.length := List.length_map _
  rw [← hlen]
  exact (length_le_nicksLen _).trans (hg.room hknown).1

end Gathered

/-- The data of a command has at most 508 bytes. -/
def Event.Short : Event → Prop
  | .command _ pkg => pkg.getData.length ≤ 508
  | _ => True

/-- What holds of the hub in every run with short commands. -/
structure Serving (h : Hub) : Prop where
  wellFormed : WellFormed h
  nicks : ∀ nick, h.nickUmap.map nick ≠ some none
  short : ∀ u usr, h.users u = some usr → usr.nick.length ≤ 508

namespace Serving

theorem boot : Serving .boot := ⟨.boot, fun _ => nofun, nofun⟩

theorem step {h h' : Hub} {call : Event × Env} (hshort : call.1.Short) (hs : h.step call = some h')
    (hv : Serving h) : Serving h' where
  wellFormed := hv.wellFormed.step hs
  nicks := nicks_step hs hv.nicks
  short := by
    intro u usr hu
    cases step_change hs with
    | accept | close => exact hv.short u usr hu
    | register s pkg session id q o hev hin hses hnick hne hid =>
      change (registered call.2 pkg.getData id s session h).users u = some usr at hu
      rw [registered_users] at hu
      rcases Lib.of_update_some hu with ⟨rfl, rfl⟩ | ⟨-, hu⟩
      · rw [hev] at hshort
        exact hshort
      · exact hv.short u usr hu
    | logOut s session v vsr hev hses hv' hvsr =>
      change Function.update h.users v none u = some usr at hu
      exact hv.short u usr (Lib.of_update_none hu).2
    | frame _ hin hclose hf hid hpend =>
      obtain ⟨usr0, hu0, hi⟩ := hf.some_of_user hu
      simp only [User.ident, Prod.mk.injEq] at hi
      rw [← hi.2.1]
      exact hv.short u usr0 hu0

theorem of_run {h : Hub} {calls : List (Event × Env)} (hr : run Hub.step .boot calls = some h)
    (hshort : ∀ call ∈ calls, call.1.Short) : Serving h :=
  run_of_labels (fun _ _ _ hW hs hv => hv.step hW hs) hr hshort boot

variable {h : Hub}

theorem found (hv : Serving h) (nick : Nick) (hcount : 0 < h.nickUmap.count nick) :
    ∃ b buddy, h.nickUmap.map nick = some (some b) ∧ h.users b = some buddy := by
  obtain ⟨p, hp⟩ := SyncHashMap.count_pos.mp hcount
  cases p with
  | none => exact absurd hp (hv.nicks nick)
  | some b =>
    obtain ⟨i, ht, -⟩ := hv.wellFormed.directory.name (SyncHashMap.pointsTo_eq_some.mpr hp)
    obtain ⟨buddy, hbuddy, -⟩ := WellFormed.tag_eq_some.mp ht
    exact ⟨b, buddy, hp, hbuddy⟩

theorem canAdd (hv : Serving h) {s : SessionRef} {session : Session} {u : UserRef} {usr : User}
    (hs : h.sessions s = some session) (husr : h.users u = some usr) : CanAdd s u h where
  session := ⟨session, hs⟩
  user := ⟨usr, husr, by have := hv.short u usr husr; omega⟩
  nicks := hv.found

theorem names (hv : Serving h) {nicks : List Nick} {nick : Nick} (hn : nick ∈ listed h nicks) :
    ∃ id, Names h (id, nick) := by
  obtain ⟨-, hcount⟩ := List.mem_filter.mp hn
  obtain ⟨b, buddy, hb, hbuddy⟩ := hv.found nick (of_decide_eq_true hcount)
  exact ⟨buddy.id, b, buddy, SyncHashMap.pointsTo_eq_some.mpr hb, hbuddy, rfl⟩

end Serving

end Gpshub
