import Gpshub.Hub.Gathering
import Gpshub.Client.CmdChannel

/-! The reply to `ADD_BUDDIES`: whether all that is written and sent is inside the memory it
is in, and what the client reads. -/
namespace Gpshub
open CommandServer CommandHandler Lib.Machine Lib.Fields

section Spec

variable {h : Hub} {s : SessionRef} {session : Session} {u : UserRef} {usr : User}
  {pkg : CmdPkg}

theorem nicksLen_listed_le (h : Hub) {data : Nick} (hlen : data.length ≤ 508) :
    nicksLen (listed h (addFields data)) ≤ 509 := by
  have hsub : nicksLen (listed h (addFields data)) ≤ nicksLen (addFields data) :=
    nicksLen_le_of_sublist List.filter_sublist
  have hsum : nicksLen (addFields data) ≤ data.length + 1 := sum_addFields_le data
  omega

theorem Gathered.fits {data : Nick} (hlen : data.length ≤ 508) (hv : Serving h) {st : AddState}
    (hg : Gathered h (listed h (addFields data)) st) :
    st.idsPkgLen + 3 + 4 * st.idsMap.length < 2 ^ 16 := by
  have hcount := hg.count_le fun _ hn => hv.names hn
  have hsum := nicksLen_listed_le h hlen
  rw [← hg.len] at hsum
  omega

/-- What `addBuddies` does for a user who is logged in, unless a `send` fails. -/
theorem addBuddies_cases (env : Env) (hv : Serving h) (hs : h.sessions s = some session)
    (hu : session.user = some u) (husr : h.users u = some usr)
    (hlen : pkg.getData.length ≤ 508) :
    addAll env s u (addFields pkg.getData) ⟨[], 0, 0⟩ h = .error .socketException ∧
        addBuddies env pkg s h = .error .socketException ∨
      ∃ st h1 p, addAll env s u (addFields pkg.getData) ⟨[], 0, 0⟩ h = .ok (st, h1) ∧
        Gathered h (listed h (addFields pkg.getData)) st ∧ h1.sessions s = some session ∧
        idsPkg env st.idsMap st.idsPkgLen = .ok p ∧
        addBuddies env pkg s h =
          if 0 < st.idsPkgLen then send h1 s p (env.answer st.sent) else .ok h1 := by
  have hc := hv.canAdd hs husr
  rcases addAll_ok_or (addFields pkg.getData) hc with ⟨⟨st, h1⟩, hall⟩ | hall
  · right
    have hg := (Gathered.start h).addAll _ hv.wellFormed hall
    rw [List.nil_append] at hg
    obtain ⟨p, hp, -⟩ := idsPkg_ok env (hg.room fun _ hn => hv.names hn).1 (hg.fits hlen hv)
    have hs1 : h1.sessions s = some session := by
      rw [(addAll_edits _ hall).quiet.sessions, hs]
    refine ⟨st, h1, p, hall, hg, hs1, hp, ?_⟩
    rw [addBuddies, Hub.session_eq_ok.mpr hs, ok_bind, hu]
    dsimp only
    rw [hall, ok_bind]
    dsimp only
    rw [hp]
    rfl
  · left
    refine ⟨hall, ?_⟩
    rw [addBuddies, Hub.session_eq_ok.mpr hs, ok_bind, hu]
    dsimp only
    rw [hall]
    rfl

theorem addBuddies_ok_or (env : Env) (hv : Serving h) (hs : h.sessions s = some session)
    (hu : session.user = some u) (husr : h.users u = some usr)
    (hlen : pkg.getData.length ≤ 508) :
    (∃ h', addBuddies env pkg s h = .ok h') ∨
      addBuddies env pkg s h = .error .socketException := by
  rcases addBuddies_cases env hv hs hu husr hlen with ⟨-, he⟩ | ⟨st, h1, p, -, -, hs1, -, he⟩
  · exact Or.inr he
  · rw [he]
    split_ifs
    · exact send_ok_or p (env.answer st.sent) hs1
    · exact Or.inl ⟨h1, rfl⟩

theorem addBuddies_ok {env : Env} (hsend : env.Sends) (hv : Serving h)
    (hs : h.sessions s = some session) (hu : session.user = some u)
    (husr : h.users u = some usr) (hlen : pkg.getData.length ≤ 508) :
    ∃ h', addBuddies env pkg s h = .ok h' :=
  (addBuddies_ok_or env hv hs hu husr hlen).resolve_right (addBuddies_caught hsend pkg).ne

end Spec

/-- All that `addBuddies` writes to its `BUDDIES_IDS` packages is inside them, their lengths fit
in the header, and they say that they are as long as what is written to them. -/
structure PackagesExact (env : Env) (pkg : CmdPkg) (s : SessionRef) (u : UserRef) (usr : User)
    (h : Hub) : Prop where
  inside : addBuddies env pkg s h ≠ .error .badIndex
  uid : ∃ p, uidPkg env usr = .ok p ∧ p.getLen.toNat = 3 + (idEntry (usr.id, usr.nick)).length
  ids : ∀ st h1, addAll env s u (addFields pkg.getData) ⟨[], 0, 0⟩ h = .ok (st, h1) →
    0 < st.idsPkgLen → st.idsPkgLen + 3 + 4 * st.idsMap.length < 2 ^ 16 ∧
      ∃ p, idsPkg env st.idsMap st.idsPkgLen = .ok p ∧
        p.getLen.toNat = 3 + (st.idsMap.flatMap idEntry).length

/-- Besides, every nick that is copied has room in its block. -/
structure AddsSafely (env : Env) (pkg : CmdPkg) (s : SessionRef) (u : UserRef) (usr : User)
    (h : Hub) : Prop extends PackagesExact env pkg s u usr h where
  copies : ∀ nick ∈ addFields pkg.getData, ∃ block, copyNick nick = .ok block

/-- `addBuddies` is safe exactly if it has no name to copy; leaving the copies aside, exactly
if no registered name is listed twice. -/
theorem adds_safely_iff {calls : List (Event × Env)} {h : Hub}
    (hr : run Hub.step .boot calls = some h) (hshort : ∀ call ∈ calls, call.1.Short)
    {s : SessionRef} {session : Session} {u : UserRef} {usr : User}
    (hs : h.sessions s = some session) (hu : session.user = some u)
    (husr : h.users u = some usr) {pkg : CmdPkg} (hlen : pkg.getData.length ≤ 508) (env : Env) :
    (AddsSafely env pkg s u usr h ↔ pkg.getData = []) ∧
      (env.Sends → (PackagesExact env pkg s u usr h ↔
        (listed h (addFields pkg.getData)).Nodup)) := by
  have hv := Serving.of_run hr hshort
  have hnick := hv.short u usr husr
  have hnames (nicks : List Nick) : ∀ nick ∈ listed h nicks, ∃ id, Names h (id, nick) :=
    fun nick hn => hv.names hn
  have hinside : addBuddies env pkg s h ≠ .error .badIndex := by
    rcases addBuddies_ok_or env hv hs hu husr hlen with ⟨h', he⟩ | he <;> rw [he] <;> nofun
  have huid : ∃ p, uidPkg env usr = .ok p ∧
      p.getLen.toNat = 3 + (idEntry (usr.id, usr.nick)).length := uidPkg_ok env (by omega)
  have hpackages : env.Sends → (PackagesExact env pkg s u usr h ↔
      (listed h (addFields pkg.getData)).Nodup) := by
    intro hsend
    obtain ⟨st, h1, hall, hg⟩ : ∃ st h1, addAll env s u (addFields pkg.getData) ⟨[], 0, 0⟩ h =
        .ok (st, h1) ∧ Gathered h (listed h (addFields pkg.getData)) st := by
      rcases addBuddies_cases env hv hs hu husr hlen with ⟨hall, -⟩ | ⟨st, h1, -, hall, hg, -⟩
      · exact absurd hall (addAll_caught hsend _).ne
      · exact ⟨st, h1, hall, hg⟩
    obtain ⟨hroom, hexact⟩ := hg.room (hnames _)
    have hfits := hg.fits hlen hv
    obtain ⟨p, hp, -, hget, -⟩ := idsPkg_ok env hroom hfits
    rw [← hexact]
    constructor
    · intro hx
      by_cases hpos : 0 < st.idsPkgLen
      · obtain ⟨-, q, hq, hqget⟩ := hx.ids st h1 hall hpos
        cases hp.symm.trans hq
        rw [hget, idEntries_length] at hqget
        omega
      · omega
    · intro heq
      refine ⟨hinside, huid, fun st' h1' hall' _ => ?_⟩
      cases hall.symm.trans hall'
      refine ⟨hfits, p, hp, ?_⟩
      rw [hget, idEntries_length]
      omega
  refine ⟨⟨fun hx => ?_, fun hnil => ?_⟩, hpackages⟩
  · rw [← addFields_eq_nil]
    apply List.eq_nil_iff_forall_not_mem.mpr
    intro nick hn
    have hnil : nick = [] := copyNick_ok_iff.mp (hx.copies nick hn)
    rw [addFields_eq] at hn
    exact ne_nil_of_mem_addNames hn hnil
  · have hfields : addFields pkg.getData = [] := addFields_eq_nil.mpr hnil
    refine ⟨⟨hinside, huid, fun st h1 hall hpos => ?_⟩, fun nick hn => ?_⟩
    · rw [hfields] at hall
      cases hall
      exact absurd hpos (lt_irrefl 0)
    · rw [hfields] at hn
      cases hn

/-- The lone user `a` lists itself, once or twice. -/
theorem adds_safely_iff_lone : ∃ h usr, run Hub.step .boot loneUser = some h ∧
    h.users 0 = some usr ∧ ¬AddsSafely default (.addBuddies [97]) 0 0 usr h ∧
      PackagesExact default (.addBuddies [97]) 0 0 usr h ∧
      ¬PackagesExact default (.addBuddies [97, 44, 97]) 0 0 usr h := by
  have hrun : ∃ h usr, run Hub.step .boot loneUser = some h ∧
      h.sessions 0 = some ⟨0, some 0⟩ ∧ h.users 0 = some usr ∧
      (listed h (addFields [97])).Nodup ∧ ¬(listed h (addFields [97, 44, 97])).Nodup :=
    ⟨_, _, rfl, rfl, rfl, by decide +kernel, by decide +kernel⟩
  obtain ⟨h, usr, hr, hs, husr, honce, htwice⟩ := hrun
  have hshort : ∀ call ∈ loneUser, call.1.Short := by simp [loneUser, Event.Short]; decide
  have hsends : (default : Env).Sends := ⟨fun _ => nofun, fun _ => nofun⟩
  obtain ⟨hsafe, hexact⟩ := @adds_safely_iff loneUser h hr hshort 0 _ 0 usr hs rfl husr
    (.addBuddies [97]) (by decide) default
  obtain ⟨-, hexact'⟩ := @adds_safely_iff loneUser h hr hshort 0 _ 0 usr hs rfl husr
    (.addBuddies [97, 44, 97]) (by decide) default
  refine ⟨h, usr, hr, husr, fun hx => ?_, (hexact hsends).mpr honce, fun hx => ?_⟩
  · have hdata := hsafe.mp hx
    revert hdata
    decide
  · exact htwice ((hexact' hsends).mp hx)

/-- The copy of the nick `b` does not fit in its block; and the reply to `a,a` says that it is
two bytes longer than what has been written to it. -/
theorem adds_safely_counterexample : ∃ h usr, run Hub.step .boot loneUser = some h ∧
    h.users 0 = some usr ∧ ¬AddsSafely default (.addBuddies [98]) 0 0 usr h ∧
      ∃ st h1 p, addAll default 0 0 (addFields [97, 44, 97]) ⟨[], 0, 0⟩ h = .ok (st, h1) ∧
        idsPkg default st.idsMap st.idsPkgLen = .ok p ∧ p.getLen.toNat = 11 ∧
        (st.idsMap.flatMap idEntry).length = 6 := by
  refine ⟨_, _, rfl, rfl, fun hx => ?_, _, _, _, rfl, rfl, by decide +kernel, by decide +kernel⟩
  have hmem : ([98] : Nick) ∈ addFields (CmdPkg.addBuddies [98]).getData := by decide
  obtain ⟨block, hblock⟩ := hx.copies [98] hmem
  cases hblock

theorem Gathered.decoded {env : Env} {h : Hub} {nicks : List Nick} {st : AddState}
    (hg : Gathered h nicks st) (hd : nicks.Nodup) (hzero : ∀ nick ∈ nicks, 0 ∉ nick)
    (hknown : ∀ nick ∈ nicks, ∃ id, Names h (id, nick))
    (hfits : st.idsPkgLen + 3 + 4 * st.idsMap.length < 2 ^ 16) {p : CmdPkg}
    (hp : idsPkg env st.idsMap st.idsPkgLen = .ok p) :
    p.getType = CmdPkg.BUDDIES_IDS ∧ ∃ buddies,
      CmdChannel.decodeBuddiesIds p.getLen (p.getBytes.drop 3) = some buddies ∧
        ∀ uid nick, buddies uid = some nick ↔
          nick ∈ nicks ∧ ∃ id, id.toUInt32 = uid ∧ Names h (id, nick) := by
  obtain ⟨hroom, hexact⟩ := hg.room hknown
  obtain ⟨q, hq, htype, hget, rest, hrest, hbytes⟩ := idsPkg_ok env hroom hfits
  cases hp.symm.trans hq
  have hlen : p.getLen.toNat = 3 + (st.idsMap.flatMap idEntry).length := by
    rw [hget, idEntries_length, hexact.mpr hd]
    omega
  have hdata : p.getBytes.drop 3 = st.idsMap.flatMap idEntry := by
    rw [CmdPkg.getBytes, List.drop_take, hbytes, hlen, Nat.add_sub_cancel_left, List.take_left]
  let entries := st.idsMap.map fun e => (e.1.toUInt32, e.2)
  have hentries : st.idsMap.flatMap idEntry = entries.flatMap CmdChannel.entry := by
    rw [List.flatMap_map]
    rfl
  have hzero' : ∀ e ∈ entries, 0 ∉ e.2 := by
    intro e he
    obtain ⟨e0, he0, rfl⟩ := List.mem_map.mp he
    exact hzero e0.2 ((hg.mem e0).mp he0).1
  have hdist : (entries.map Prod.fst).Nodup := by
    have hids : (st.idsMap.map Prod.fst).Nodup := hg.sorted.imp fun hlt => Int32.ne_of_lt hlt
    have hmap : entries.map Prod.fst = (st.idsMap.map Prod.fst).map Int32.toUInt32 := by
      simp [entries]
    rw [hmap]
    exact hids.map fun a b hab => by simpa using congrArg UInt32.toInt32 hab
  refine ⟨htype, CmdChannel.assign (fun _ => none) entries, ?_, fun uid nick => ?_⟩
  · rw [hdata, hentries]
    rw [hentries] at hlen
    exact CmdChannel.decodeBuddiesIds_entries hlen hzero'
  · rw [CmdChannel.assign_eq_some hdist fun _ _ => rfl]
    simp only [entries, List.mem_map, Prod.mk.injEq]
    constructor
    · rintro (hnone | ⟨e, he, rfl, rfl⟩)
      · cases hnone
      · obtain ⟨hmem, hnames⟩ := (hg.mem e).mp he
        exact ⟨hmem, e.1, rfl, hnames⟩
    · rintro ⟨hmem, id, rfl, hnames⟩
      exact Or.inr ⟨(id, nick), (hg.mem _).mpr ⟨hmem, hnames⟩, rfl, rfl⟩

/-- The client reads from the reply which registered users with which ids are on the list; and
there is no reply if nobody on the list is registered. -/
theorem buddies_ids_decoded {calls : List (Event × Env)} {h : Hub}
    (hr : run Hub.step .boot calls = some h) (hshort : ∀ call ∈ calls, call.1.Short)
    {s : SessionRef} {session : Session} {u : UserRef} (hs : h.sessions s = some session)
    (hu : session.user = some u) {names : List Nick} (hd : names.Nodup)
    (hnames : ∀ nick ∈ names, nick ≠ [] ∧ COMMA ∉ nick ∧ 0 ∉ nick) {pkg : CmdPkg}
    (hdata : pkg.getData = [COMMA].intercalate names) (hlen : pkg.getData.length ≤ 508)
    {env : Env} (hsend : env.Sends) :
    ∃ st h1 h', addAll env s u names ⟨[], 0, 0⟩ h = .ok (st, h1) ∧
      addBuddies env pkg s h = .ok h' ∧
      ((∀ nick ∈ names, h.nickUmap.count nick = 0) →
        h' = h1 ∧ h'.out = h.out ∧ h'.sendQueue = h.sendQueue) ∧
      ((∃ nick ∈ names, 0 < h.nickUmap.count nick) →
        ∃ p buddies, send h1 s p (env.answer st.sent) = .ok h' ∧
          p.getType = CmdPkg.BUDDIES_IDS ∧
          CmdChannel.decodeBuddiesIds p.getLen (p.getBytes.drop 3) = some buddies ∧
          ∀ uid nick, buddies uid = some nick ↔
            nick ∈ names ∧ ∃ id, id.toUInt32 = uid ∧ Names h (id, nick)) := by
  have hv := Serving.of_run hr hshort
  obtain ⟨usr, husr, -, -⟩ := hv.wellFormed.login hs hu
  have hfields : addFields pkg.getData = names := by
    rw [hdata]
    exact addFields_intercalate fun nick hn => ⟨(hnames nick hn).1, (hnames nick hn).2.1⟩
  rcases addBuddies_cases env hv hs hu husr hlen with ⟨-, he⟩ | ⟨st, h1, p, hall, hg, hs1, hp, he⟩
  · exact absurd he (addBuddies_caught hsend pkg).ne
  · have hfits := hg.fits hlen hv
    rw [hfields] at hall hg
    obtain ⟨h2, h2e⟩ : ∃ h2, send h1 s p (env.answer st.sent) = .ok h2 :=
      (send_ok_or p _ hs1).resolve_right (send_caught p (hsend.answer _)).ne
    by_cases hpos : 0 < st.idsPkgLen
    · rw [if_pos hpos, h2e] at he
      refine ⟨st, h1, h2, hall, he, fun hnone => ?_, fun _ => ?_⟩
      · have hlisted : listed h names = [] :=
          List.filter_eq_nil_iff.mpr fun nick hn => by simp [hnone nick hn]
        rw [hg.len, hlisted] at hpos
        exact absurd hpos (lt_irrefl 0)
      · obtain ⟨htype, buddies, hdec, hbuddies⟩ := hg.decoded (hd.filter _)
          (fun nick hn => (hnames nick (List.mem_of_mem_filter hn)).2.2)
          (fun nick hn => hv.names hn) hfits hp
        refine ⟨p, buddies, h2e, htype, hdec, fun uid nick => ?_⟩
        rw [hbuddies]
        exact and_congr_left fun ⟨_, _, hn⟩ => hn.mem_listed
    · rw [if_neg hpos] at he
      refine ⟨st, h1, h1, hall, he, fun hnone => ?_, fun ⟨nick, hmem, hcount⟩ => ?_⟩
      · have hcount : ∀ nick ∈ names, ¬0 < h.nickUmap.count nick := fun nick hn => by
          rw [hnone nick hn]
          exact lt_irrefl 0
        rw [addAll_unknown names husr hcount] at hall
        cases hall
        exact ⟨rfl, rfl, rfl⟩
      · have hin : nick ∈ listed h names := List.mem_filter.mpr ⟨hmem, decide_eq_true hcount⟩
        have hle := length_le_nicksLen (listed h names)
        have hone : 0 < (listed h names).length := List.length_pos_of_mem hin
        rw [hg.len] at hpos
        omega

/-- Of the names `b` and `c` the first is registered, and the client reads its id. -/
theorem buddies_ids_decoded_two : ∃ (h h' : Hub) (p : CmdPkg) (buddies : UInt32 → Option Nick),
    run Hub.step .boot sharing = some h ∧
      addBuddies default (.addBuddies [98, 44, 99]) 0 h = .ok h' ∧
      CmdChannel.decodeBuddiesIds p.getLen (p.getBytes.drop 3) = some buddies ∧
      buddies 2 = some [98] := by
  have hrun : ∃ h, run Hub.step .boot sharing = some h ∧ h.sessions 0 = some ⟨0, some 0⟩ ∧
      0 < h.nickUmap.count [98] ∧ Names h (2, [98]) :=
    ⟨_, rfl, rfl, by decide +kernel, 1, _, rfl, rfl, rfl⟩
  obtain ⟨h, hr, hs, hcount, hnames⟩ := hrun
  have hshort : ∀ call ∈ sharing, call.1.Short := by simp [sharing, Event.Short]; decide
  have hsends : (default : Env).Sends := ⟨fun _ => nofun, fun _ => nofun⟩
  obtain ⟨st, h1, h', -, he, -, hreply⟩ := @buddies_ids_decoded sharing h hr hshort 0 _ 0 hs rfl
    [[98], [99]] (by decide) (by decide) (.addBuddies [98, 44, 99]) (by decide) (by decide) default
    hsends
  obtain ⟨p, buddies, -, -, hdec, hbuddies⟩ := hreply ⟨[98], List.mem_cons_self, hcount⟩
  exact ⟨h, h', p, buddies, hr, he, hdec,
    (hbuddies 2 [98]).mpr ⟨List.mem_cons_self, 2, rfl, hnames⟩⟩

end Gpshub
