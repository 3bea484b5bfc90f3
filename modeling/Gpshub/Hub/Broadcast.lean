import Gpshub.Hub.Chronicle

/-! Whom a broadcast reaches, and with which position. -/
namespace Gpshub
open CommandServer CommandHandler GpsDataServer CoordsBroadcastThread Lib.Machine

section Turn

variable {env : Env} {h h' : Hub} {id : Int32} {rest : List Int32}

theorem pull_out (hq : h.uqueue = id :: rest) (hs : h.step (.pull, env) = some h') :
    h'.out = h.out ++ (posts env h).map Mail.output := by
  have he := Hub.step_eq_some.mp hs
  simp only [Hub.dispatch, hq] at he
  unfold turn at he
  have hget := SyncHashMap.pointsTo_of_get h.idUmap id
  generalize h.idUmap.get id = p at he hget
  obtain ⟨ptr, m⟩ := p
  cases ptr with
  | none =>
    cases he
    have hb : broadcasting h = none := by simp [broadcasting, hq, hget]
    simp [posts, hb]
  | some u =>
    obtain ⟨usr, husr, he⟩ := bind_eq_ok.mp he
    have husr : h.users u = some usr := Hub.deref_eq_ok.mp husr
    cases hc : usr.ready with
    | none =>
      rw [hc] at he
      cases he
      have hb : broadcasting h = none := by simp [broadcasting, hq, hget, husr, hc]
      simp [posts, hb]
    | some c =>
      rw [hc] at he
      obtain ⟨h1, hall, he⟩ := bind_eq_ok.mp he
      obtain ⟨usr', husr', hall⟩ := bind_eq_ok.mp hall
      have husr' : h.users u = some usr' := Hub.deref_eq_ok.mp husr'
      cases husr.symm.trans husr'
      obtain ⟨usr1, -, he⟩ := bind_eq_ok.mp he
      cases he
      have hb : broadcasting h = some (u, usr, usr.slot c) :=
        broadcasting_eq_some.mpr ⟨id, c, by rw [hq]; rfl, hget, husr, hc, rfl⟩
      have hsent := sendAll_eq_ok (h := { h with uqueue := rest, idUmap := m })
        (o := h.out) husr _ hall
      rw [hsent]
      simp only [posts, hb]
      rfl

theorem WellFormed.nicksFound (hwf : WellFormed h)
    (hnicks : ∀ nick, h.nickUmap.map nick ≠ some none) : NicksFound h := by
  intro nick hc
  obtain ⟨p, hp⟩ := SyncHashMap.count_pos.mp hc
  cases p with
  | none => exact absurd hp (hnicks nick)
  | some b =>
    obtain ⟨i, ht, -⟩ := hwf.directory.name (SyncHashMap.pointsTo_eq_some.mpr hp)
    obtain ⟨buddy, hbuddy, -⟩ := WellFormed.tag_eq_some.mp ht
    exact ⟨b, buddy, hp, hbuddy⟩

/-- A turn comes to its end when nothing in `nick_umap` is `NULL` and `Sendto` succeeds. -/
theorem pull_ok (hq : h.uqueue = id :: rest) (hsend : ∀ k, env.sendto k = true)
    (hwf : WellFormed h) (hnicks : ∀ nick, h.nickUmap.map nick ≠ some none) :
    ∃ h', h.step (.pull, env) = some h' := by
  suffices ∃ h', turn env id { h with uqueue := rest } = .ok h' by
    obtain ⟨h', he⟩ := this
    exact ⟨h', Hub.step_eq_some.mpr (by simpa only [Hub.dispatch, hq] using he)⟩
  have hget := SyncHashMap.pointsTo_of_get h.idUmap id
  unfold turn
  generalize h.idUmap.get id = p at hget
  obtain ⟨ptr, m⟩ := p
  cases ptr with
  | none => exact ⟨_, rfl⟩
  | some u =>
    obtain ⟨k, ht, -⟩ := hwf.directory.id hget
    obtain ⟨usr, husr, -⟩ := WellFormed.tag_eq_some.mp ht
    have hfound : NicksFound h := hwf.nicksFound hnicks
    cases hc : usr.ready with
    | none =>
      refine ⟨{ h with uqueue := rest, idUmap := m }, ?_⟩
      simp [Hub.deref, husr, hc, bind, Except.bind, pure, Except.pure]
    | some c =>
      obtain ⟨h1, hall⟩ : ∃ h1, sendAll env u (usr.slot c) (iterate env usr.buddies) 0
          { h with uqueue := rest, idUmap := m } = .ok h1 :=
        sendAll_ok (h := { h with uqueue := rest, idUmap := m }) (o := h.out) hsend husr hfound _
      have hsame := sendAll_users _ hall
      refine ⟨h1.setUser u (usr.setReady none), ?_⟩
      simp [Hub.deref, broadcast, husr, hc, hall, hsame, bind, Except.bind, pure, Except.pure]

end Turn

theorem iterate_perm (env : Env) (b : SyncHashSet Nick) : (iterate env b).Perm b.set := by
  unfold iterate
  split_ifs with hp
  · exact List.isPerm_iff.mp hp
  · exact .refl _

/-- `ready` names coordinates that were taken for the user, in the slot that is not written
to; and the buddies are a set. -/
structure Stored (taken : List (UserRef × Coordinates)) (u : UserRef) (usr : User) : Prop where
  buddies : usr.buddies.set.Nodup
  ready : ∀ c, usr.ready = some c → c ≠ usr.empty ∧ (u, usr.slot c) ∈ taken

namespace Stored

variable {taken more : List (UserRef × Coordinates)} {u : UserRef} {usr : User}

theorem mono (hs : Stored taken u usr) : Stored (taken ++ more) u usr where
  buddies := hs.buddies
  ready c hc := ⟨(hs.ready c hc).1, List.mem_append_left _ (hs.ready c hc).2⟩

theorem coordinates (hs : Stored taken u usr) (x : Coordinates) :
    Stored (taken ++ [(u, x)]) u (usr.stored x) where
  buddies := by
    rw [buddies_stored]
    exact hs.buddies
  ready d hd := by
    rw [slot_stored]
    rcases ready_stored hd with ⟨rfl, hne⟩ | ⟨hready, hempty⟩
    · rw [Function.update_self]
      exact ⟨hne, List.mem_append_right _ (List.mem_singleton_self (u, x))⟩
    · obtain ⟨hne, hmem⟩ := hs.ready d hready
      rw [hempty, Function.update_of_ne hne]
      exact ⟨hne, List.mem_append_left _ hmem⟩

theorem moved {h : Hub} {call : Event × Env} {usr' : User} (hs : Stored taken u usr)
    (hm : UserMoved h call u usr usr') :
    Stored (taken ++ (takenFrom h call.1).toList) u usr' := by
  cases hm with
  | same => exact hs.mono
  | buddies s pkg b hev hb =>
    have hmono : Stored (taken ++ (takenFrom h call.1).toList) u usr := hs.mono
    exact ⟨hb hs.buddies, hmono.ready⟩
  | address theirAddr bytes sock hev hsock hip =>
    have hmono : Stored (taken ++ (takenFrom h call.1).toList) u usr := hs.mono
    exact ⟨hs.buddies, hmono.ready⟩
  | coordinates c hc =>
    rw [hc]
    exact hs.coordinates c
  | reset hev => exact ⟨hs.buddies, nofun⟩

end Stored

structure Broadcastable (s : Chronicle) : Prop where
  wellFormed : WellFormed s.hub
  nicks : ∀ nick, s.hub.nickUmap.map nick ≠ some none
  users : ∀ u usr, s.hub.users u = some usr → Stored s.taken u usr

theorem nicks_step {h h' : Hub} {call : Event × Env} (hs : h.step call = some h')
    (hn : ∀ nick, h.nickUmap.map nick ≠ some none) (nick : Nick) :
    h'.nickUmap.map nick ≠ some none := by
  cases step_change hs with
  | accept | close => exact hn nick
  | register s pkg session id q o hev hin hses hnick hne hid =>
    change Function.update h.nickUmap.map pkg.getData _ nick ≠ some none
    by_cases hk : nick = pkg.getData
    · subst hk
      simp
    · rw [Function.update_of_ne hk]
      exact hn nick
  | logOut s session u usr hev hses hu husr =>
    change Function.update h.nickUmap.map usr.nick none nick ≠ some none
    by_cases hk : nick = usr.nick
    · subst hk
      simp
    · rw [Function.update_of_ne hk]
      exact hn nick
  | frame _ hin hclose hf hid hpend =>
    rw [hf.nickUmap]
    exact hn nick

namespace Broadcastable

theorem boot : Broadcastable .boot where
  wellFormed := .boot
  nicks _ := nofun
  users _ _ hu := nomatch hu

theorem step {s s' : Chronicle} {call : Event × Env} (hs : s.step call = some s')
    (hb : Broadcastable s) : Broadcastable s' := by
  obtain ⟨h', hh, rfl⟩ := Chronicle.step_eq_some.mp hs
  refine ⟨hb.wellFormed.step hh, nicks_step hh hb.nicks, fun u usr' hu' => ?_⟩
  rcases step_user hh hu' with ⟨usr, hu, hm⟩ | ⟨-, nick, id, session, rfl⟩
  · exact (hb.users u usr hu).moved hm
  · exact ⟨List.nodup_nil, nofun⟩

theorem of_run {s : Chronicle} {calls : List (Event × Env)}
    (hr : run Chronicle.step .boot calls = some s) : Broadcastable s :=
  run_of_inv (fun _ _ _ hs hb => hb.step hs) hr boot

end Broadcastable

/-- The user that is registered with the nick. -/
def Registered (h : Hub) (nick : Nick) (b : UserRef) (buddy : User) : Prop :=
  h.nickUmap.map nick = some (some b) ∧ h.users b = some buddy ∧ buddy.nick = nick

theorem registered_of_pointsTo {h : Hub} (hwf : WellFormed h) {nick : Nick} {b : UserRef}
    {buddy : User} (hp : h.nickUmap.pointsTo nick = some b) (hb : h.users b = some buddy) :
    Registered h nick b buddy := by
  obtain ⟨i, ht, -⟩ := hwf.directory.name hp
  obtain ⟨buddy', hb', htag⟩ := WellFormed.tag_eq_some.mp ht
  cases hb.symm.trans hb'
  exact ⟨SyncHashMap.pointsTo_eq_some.mp hp, hb, congrArg Prod.snd htag⟩

theorem forall₂_filterMap {α β : Type} (f : α → Option β) (l : List α) :
    List.Forall₂ (fun a b => f a = some b) (l.filter fun a => (f a).isSome) (l.filterMap f) := by
  induction l with
  | nil => exact .nil
  | cons a l ih =>
    cases ha : f a with
    | none => simpa [ha] using ih
    | some b => simpa [ha] using ih

/-- The posts are one for each buddy that is registered and has given its UDP address. -/
theorem posts_once {h : Hub} (hwf : WellFormed h) {usr : User} (hn : usr.buddies.set.Nodup)
    (env : Env) (u : UserRef) (coords : Coordinates) :
    ∃ nicks : List Nick, nicks.Nodup ∧
      (∀ nick, nick ∈ nicks ↔ nick ∈ usr.buddies.set ∧
        ∃ b buddy, Registered h nick b buddy ∧ buddy.udpReady = true) ∧
      List.Forall₂ (fun nick o => ∃ b buddy, Registered h nick b buddy ∧
          o = .udp buddy.addrUdp (coordsPkg usr.id coords)) nicks
        (((iterate env usr.buddies).filterMap (post h u usr coords)).map Mail.output) := by
  have hperm := iterate_perm env usr.buddies
  refine ⟨(iterate env usr.buddies).filter fun nick => (post h u usr coords nick).isSome,
    (hperm.nodup_iff.mpr hn).filter _, fun nick => ?_, ?_⟩
  · rw [List.mem_filter, hperm.mem_iff, Option.isSome_iff_exists]
    refine and_congr_right fun _ => ?_
    simp only [post_eq_some]
    constructor
    · rintro ⟨m, b, buddy, hp, hbuddy, hready, -⟩
      exact ⟨b, buddy, registered_of_pointsTo hwf hp hbuddy, hready⟩
    · rintro ⟨b, buddy, ⟨hp, hbuddy, -⟩, hready⟩
      exact ⟨_, b, buddy, SyncHashMap.pointsTo_eq_some.mpr hp, hbuddy, hready, rfl⟩
  · rw [List.forall₂_map_right_iff]
    refine (forall₂_filterMap _ _).imp fun nick m hm => ?_
    obtain ⟨b, buddy, hp, hbuddy, -, rfl⟩ := post_eq_some.mp hm
    exact ⟨b, buddy, registered_of_pointsTo hwf hp hbuddy, rfl⟩

/-- A turn sends one package to every buddy that is registered and has given its UDP address,
with the id of the user and a position that was taken for it, and sends nothing else. -/
theorem broadcast_reaches_buddies {s : Chronicle} {calls : List (Event × Env)}
    (hr : run Chronicle.step .boot calls = some s) {env : Env}
    (hsend : ∀ k, env.sendto k = true) {id : Int32} {rest : List Int32}
    (hq : s.hub.uqueue = id :: rest) :
    ∃ h', s.hub.step (.pull, env) = some h' ∧
      (broadcasting s.hub = none → h'.out = s.hub.out) ∧
      ∀ u usr coords, broadcasting s.hub = some (u, usr, coords) →
        (u, coords) ∈ s.taken ∧ ∃ nicks sent, h'.out = s.hub.out ++ sent ∧ nicks.Nodup ∧
          (∀ nick, nick ∈ nicks ↔ nick ∈ usr.buddies.set ∧
            ∃ b buddy, Registered s.hub nick b buddy ∧ buddy.udpReady = true) ∧
          List.Forall₂ (fun nick o => ∃ b buddy bytes, Registered s.hub nick b buddy ∧
            o = .udp buddy.addrUdp bytes ∧
            bytes.take 12 = intBytes usr.id.toUInt32 ++ intBytes coords.longitude.toUInt32 ++
              intBytes coords.latitude.toUInt32) nicks sent := by
  have hb := Broadcastable.of_run hr
  have hwf := hb.wellFormed
  obtain ⟨h', hs⟩ := pull_ok hq hsend hwf hb.nicks
  have hout := pull_out hq hs
  refine ⟨h', hs, fun hnone => by simpa [posts, hnone] using hout, fun u usr coords hbr => ?_⟩
  obtain ⟨-, sl, -, -, husr, hsl, rfl⟩ := broadcasting_eq_some.mp hbr
  have hstored := hb.users u usr husr
  refine ⟨(hstored.ready sl hsl).2, ?_⟩
  simp only [posts, hbr] at hout
  generalize usr.slot sl = coords at hout
  obtain ⟨nicks, hnodup, hmem, hall⟩ := posts_once hwf hstored.buddies env u coords
  refine ⟨nicks, _, hout, hnodup, hmem, hall.imp fun nick o ho => ?_⟩
  obtain ⟨b, buddy, hreg, rfl⟩ := ho
  refine ⟨b, buddy, _, hreg, rfl, ?_⟩
  unfold coordsPkg
  rw [List.take_append_of_le_length (by simp)]
  exact List.take_of_length_le (by simp)

/-- Two peers register as `a` and `b` and give their addresses; `a` lists `b` and itself, and
sends a position. -/
def sharing : List (Event × Env) :=
  [(.accept default, default), (.command 0 (.registerNick [97]), default),
    (.accept default, default), (.command 1 (.registerNick [98]), default),
    (.datagram default (intBytes 1 ++ intBytes 0), default),
    (.datagram { (default : SockAddr) with port := 7 } (intBytes 2 ++ intBytes 0), default),
    (.command 0 ⟨CmdPkg.ADD_BUDDIES :: shortBytes 6 ++ [98, 44, 97, 0]⟩, default),
    (.datagram default (intBytes 1 ++ intBytes 5 ++ intBytes 6), default)]

/-- The kernel takes every datagram. -/
def sending : Env := { (default : Env) with sendto := fun _ => true }

theorem broadcast_reaches_buddies_two : ∃ s h',
    run Chronicle.step .boot sharing = some s ∧ s.hub.step (.pull, sending) = some h' ∧
      (posts sending s.hub).length = 2 ∧ (broadcasting s.hub = none → h'.out = s.hub.out) := by
  have hq : ∃ s, run Chronicle.step .boot sharing = some s ∧ s.hub.uqueue = [1] ∧
      (posts sending s.hub).length = 2 := ⟨_, rfl, by decide +kernel, by decide +kernel⟩
  obtain ⟨s, hr, hq, hposts⟩ := hq
  obtain ⟨h', hs, hnone, -⟩ := @broadcast_reaches_buddies s sharing hr sending (fun _ => rfl) 1 [] hq
  exact ⟨s, h', hr, hs, hposts, hnone⟩

end Gpshub
