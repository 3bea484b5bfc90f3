import Gpshub.Hub.Leftovers
import Gpshub.Hub.Veil
import Gpshub.Hub.Wire

/-! Two runs that differ in the coordinates of one user and in what memory held before: who is
not its buddy sees no difference. -/
namespace Gpshub
open CommandServer CommandHandler GpsDataServer CoordsBroadcastThread Lib.Machine Hub

/-- The same event, up to the coordinates in a datagram for the id of `u`. -/
def Alike (u : UserRef) (h : Hub) : Event → Event → Prop
  | .datagram theirAddr bytes, .datagram theirAddr' bytes' =>
    theirAddr' = theirAddr ∧ (bytes' = bytes ∨ OwnCoordinates u h bytes bytes')
  | ev, ev' => ev' = ev

instance (u : UserRef) (h : Hub) (ev ev' : Event) : Decidable (Alike u h ev ev') := by
  unfold Alike
  split <;> infer_instance

/-- One event of the first run, the corresponding event of the second one, what both get from
outside, and what memory holds in the second one. -/
abbrev Twin := Event × Event × Env × Leftovers

def Twin.first (t : Twin) : Event × Env := (t.1, t.2.2.1)

def Twin.second (t : Twin) : Event × Env := (t.2.1, t.2.2.1.over t.2.2.2)

theorem Alike.refl (u : UserRef) (h : Hub) (ev : Event) : Alike u h ev ev := by
  cases ev <;> simp [Alike]

theorem alike_eq {u : UserRef} {h : Hub} {ev ev' : Event} (ha : Alike u h ev ev') :
    ev' = ev ∨ ∃ theirAddr bytes bytes', ev = .datagram theirAddr bytes ∧
      ev' = .datagram theirAddr bytes' ∧ OwnCoordinates u h bytes bytes' := by
  unfold Alike at ha
  split at ha
  · obtain ⟨rfl, rfl | hown⟩ := ha
    · exact Or.inl rfl
    · exact Or.inr ⟨_, _, _, rfl, rfl, hown⟩
  · exact Or.inl ha

section Steps

variable {u : UserRef} {p : Hidden} {o : List Output} {env : Env}

theorem dispatch_veil {h : Hub} {ev ev' : Event} (hpull : ev ≠ .pull) (ha : Alike u h ev ev')
    (hz : h.nextUser = u → p = .blank p.addrUdp)
    (hsender : ∀ theirAddr bytes, ev = .datagram theirAddr bytes →
      bytes.length = 12 ∨ bytes.length = 16 → SameSender u p h theirAddr bytes) :
    ∃ p', dispatch (env.withUnset (p.addrUdp h.nextUser)) (veil u p o h) ev' =
      veil u p' o <$> dispatch env h ev := by
  rcases alike_eq ha with rfl | ⟨theirAddr, bytes, bytes', rfl, rfl, hown⟩
  · cases ev' with
    | accept addr => exact ⟨p, rfl⟩
    | command s pkg =>
      refine ⟨p, ?_⟩
      simp only [dispatch, session_veil, map_bind]
      congr 1
      funext session
      exact handle_veil h pkg hz
    | writable s => exact ⟨p, sendQueued_veil h⟩
    | close s => exact ⟨p, closeConnection_veil h⟩
    | datagram theirAddr bytes =>
      exact incomingData_veil (hsender theirAddr bytes rfl) (Or.inl rfl)
    | timeout => exact ⟨p, sendPendingCmd_veil h⟩
    | put id => exact ⟨p, rfl⟩
    | pull => exact absurd rfl hpull
  · exact incomingData_veil (hsender theirAddr bytes rfl) (Or.inr hown)

theorem pull_silent (h : Hub) : silent <$> dispatch env (veil u p o h) .pull =
    (fun h => (veil u p [] h).silent) <$> dispatch env h .pull := by
  have hq : (veil u p o h).uqueue = h.uqueue := rfl
  simp only [dispatch, hq]
  cases h.uqueue with
  | nil => rfl
  | cons id rest => exact turn_silent id { h with uqueue := rest }

end Steps

/-- The hubs agree but for what is hidden and for what was sent. -/
def Related (u : UserRef) (h h2 : Hub) : Prop := ∃ p o, h2 = veil u p o h.silent

section Veils

variable {u : UserRef} {p p' : Hidden} {o : List Output} {h g : Hub}

theorem veil_congr (hc : ∀ v usr, h.users v = some usr → cover u p v usr = cover u p' v usr) :
    veil u p o h = veil u p' o h := by
  unfold veil
  congr 1
  funext v
  cases hv : h.users v with
  | none => rfl
  | some usr => exact congrArg some (hc v usr hv)

theorem veil_veil (o' : List Output) :
    veil u p' o' (veil u p o h).silent = veil u p' o' h.silent := by
  unfold veil silent
  congr 1
  funext v
  simp only [Option.map_map]
  congr 1
  funext usr
  exact cover_cover u p v usr p'

theorem veil_silent : veil u p o h = veil u p (o ++ h.out) h.silent := by
  simp [veil, silent]

theorem eq_veil_of_silent (heq : h.silent = (veil u p [] g).silent) :
    h = veil u p h.out g.silent := by
  have hout : h = { h.silent with out := h.out } := rfl
  have hveil : veil u p h.out g.silent = { (veil u p [] g).silent with out := h.out } := by
    simp [veil, silent]
  rw [hveil, ← heq]
  exact hout

theorem Related.refl (u : UserRef) (h : Hub) : Related u h h := by
  let addr (v : UserRef) : SockAddr := ((h.users v).map User.addrUdp).getD default
  let slots : Hidden := ((h.users u).map fun usr => ⟨usr.slot1, usr.slot2, addr⟩).getD (.blank addr)
  have haddr : slots.addrUdp = addr := by
    simp only [slots]
    cases h.users u <;> rfl
  have hcover (v : UserRef) (usr : User) (hv : h.users v = some usr) : cover u slots v usr = usr := by
    have hunset : usr.withUnset (slots.addrUdp v) = usr := by
      rw [haddr]
      simp [User.withUnset, addr, hv]
    unfold cover
    dsimp only
    rw [hunset]
    split_ifs with hu
    · subst hu
      simp [User.withSlots, slots, hv]
    · rfl
  refine ⟨slots, h.out, ?_⟩
  unfold veil silent
  rw [List.append_nil]
  have husers : (fun v => (h.users v).map (cover u slots v)) = h.users := by
    funext v
    cases hv : h.users v with
    | none => rfl
    | some usr => exact congrArg some (hcover v usr hv)
  dsimp only
  rw [husers]

theorem Related.fresh {h2 : Hub} (hrel : Related u h h2) (hwf : WellFormed h) (addr : SockAddr) :
    ∃ p o, h2 = veil u p o h.silent ∧ (h.nextUser = u → p = .blank p.addrUdp) ∧
      p.addrUdp h.nextUser = addr := by
  obtain ⟨p, o, rfl⟩ := hrel
  have hnone : h.users h.nextUser = none := hwf.nextUser_none
  let addrUdp := Function.update p.addrUdp h.nextUser addr
  have hsame (v : UserRef) (usr : User) (hv : h.silent.users v = some usr) :
      v ≠ h.nextUser ∧ addrUdp v = p.addrUdp v := by
    have hv : h.users v = some usr := hv
    have hne : v ≠ h.nextUser := by
      rintro rfl
      cases hv.symm.trans hnone
    exact ⟨hne, Function.update_of_ne hne ..⟩
  have hself : addrUdp h.nextUser = addr := Function.update_self ..
  by_cases hu : h.nextUser = u
  · refine ⟨.blank addrUdp, o, veil_congr fun v usr hv => ?_, fun _ => rfl, hself⟩
    obtain ⟨hne, haddr⟩ := hsame v usr hv
    have hvu : v ≠ u := hu ▸ hne
    unfold cover
    dsimp only [Hidden.blank]
    rw [haddr, if_neg hvu, if_neg hvu]
  · refine ⟨{ p with addrUdp }, o, veil_congr fun v usr hv => ?_, fun h => absurd h hu, hself⟩
    obtain ⟨-, haddr⟩ := hsame v usr hv
    unfold cover
    dsimp only
    rw [haddr]
    rfl

end Veils

section Steps

variable {u : UserRef} {env : Env} {l : Leftovers} {h h2 h' : Hub}

/-- For a datagram, `Determined` speaks of its sender. -/
theorem sameSender_of_determined {p : Hidden} {o : List Output} {ev ev' : Event}
    {theirAddr : SockAddr} {bytes : List UInt8} (hev : ev = .datagram theirAddr bytes)
    (ha : Alike u h ev ev') (hd : Determined h ev) (hd2 : Determined (veil u p o h.silent) ev')
    (hlen : bytes.length = 12 ∨ bytes.length = 16) : SameSender u p h.silent theirAddr bytes := by
  intro v hv usr hu
  have hu : h.silent.users v = some usr := hu
  have hv' : (veil u p o h.silent).idUmap.pointsTo (toint bytes 0) = some v := hv
  have hu' : (veil u p o h.silent).users v = some (cover u p v usr) := by
    simp only [veil, hu, Option.map_some]
  have hd' : socketEquals theirAddr (cover u p v usr).addrUdp → usr.udpReady := by
    subst hev
    rcases alike_eq ha with rfl | ⟨addr, bytes1, bytes', he, rfl, -, hl, htake, -⟩
    · intro heq
      rw [← cover_udpReady u p]
      exact hd2 hlen v hv' _ hu' heq
    · cases he
      intro heq
      rw [← cover_udpReady u p]
      rw [← toint_eq_of_take htake] at hv'
      exact hd2 (by rwa [hl]) v hv' _ hu' heq
  subst hev
  by_cases hr : usr.udpReady = true
  · rw [cover_addrUdp u p v usr hr]
  · rw [Bool.eq_false_of_not_eq_true (mt hd' hr),
      Bool.eq_false_of_not_eq_true (mt (hd hlen v hv usr hu) hr)]

theorem Related.step {ev ev' : Event} (hrel : Related u h h2) (hwf : WellFormed h)
    (hwf2 : WellFormed h2) (hpull : ev ≠ .pull) (ha : Alike u h ev ev')
    (hsender : ∀ theirAddr bytes, ev = .datagram theirAddr bytes →
      Determined h ev ∧ Determined h2 ev')
    (hj : l.junk = env.junk ∨ Determined h2 ev') (hs : h.step (ev, env) = some h') :
    ∃ h2' sent, h2.step (ev', env.over l) = some h2' ∧ Related u h' h2' ∧
      h'.out = h.out ++ sent ∧ h2'.out = h2.out ++ sent := by
  obtain ⟨p, o, hp, hz, haddr⟩ := (Related.refl u h).fresh hwf env.addrUdp
  obtain ⟨p2, o2, hp2, hz2, haddr2⟩ := hrel.fresh hwf l.addrUdp
  have hrefl : Alike u h.silent ev ev := .refl u _ ev
  have halike : Alike u h.silent ev ev' := ha
  obtain ⟨p', hfirst⟩ := @dispatch_veil u p o env h.silent ev ev hpull hrefl hz
    fun theirAddr bytes hev => by
      obtain ⟨hd, -⟩ := hsender theirAddr bytes hev
      have hself : Determined (veil u p o h.silent) ev := by rwa [← hp]
      exact sameSender_of_determined hev hrefl hd hself
  obtain ⟨p2', hsecond⟩ := @dispatch_veil u p2 o2 env h.silent ev ev' hpull halike hz2
    fun theirAddr bytes hev => by
      obtain ⟨hd, hd2⟩ := hsender theirAddr bytes hev
      rw [hp2] at hd2
      exact sameSender_of_determined hev ha hd hd2
  have hnext : h.silent.nextUser = h.nextUser := rfl
  rw [hnext, haddr, ← hp] at hfirst
  rw [hnext, haddr2, ← hp2] at hsecond
  have he : dispatch env h ev = .ok h' := step_eq_some.mp hs
  have hfirst : dispatch env h ev = veil u p' o <$> dispatch env h.silent ev := hfirst
  rw [he] at hfirst
  cases hg : dispatch env h.silent ev with
  | error e =>
    rw [hg] at hfirst
    cases hfirst
  | ok g =>
    rw [hg] at hfirst hsecond
    have hfirst : h' = veil u p' o g := Except.ok.inj hfirst
    have hover := dispatch_follows (env.withUnset l.addrUdp) l hwf2 rfl hj _ hsecond
    refine ⟨veil u p2' o2 g, g.out, step_eq_some.mpr hover, ⟨p2', o2 ++ g.out, ?_⟩, ?_, ?_⟩
    · rw [hfirst, veil_veil, ← veil_silent]
    · rw [hfirst, hp]
      simp [veil, silent]
    · rw [hp2]
      simp [veil, silent]

theorem Related.pull (hrel : Related u h h2) (hs : h.step (.pull, env) = some h') :
    ∃ h2', h2.step (.pull, env.over l) = some h2' ∧ Related u h' h2' := by
  obtain ⟨p, o, hp⟩ := Related.refl u h
  obtain ⟨p2, o2, rfl⟩ := hrel
  have hfirst := @pull_silent u p o env h.silent
  have hsecond := @pull_silent u p2 o2 env h.silent
  rw [← hp, step_eq_some.mp hs] at hfirst
  cases hg : dispatch env h.silent .pull with
  | error e =>
    rw [hg] at hfirst
    cases hfirst
  | ok g =>
    rw [hg] at hfirst hsecond
    have heq : h'.silent = (veil u p [] g).silent := Except.ok.inj hfirst
    cases hd : dispatch env (veil u p2 o2 h.silent) .pull with
    | error e =>
      rw [hd] at hsecond
      cases hsecond
    | ok h2' =>
      rw [hd] at hsecond
      have heq2 : h2'.silent = (veil u p2 [] g).silent := Except.ok.inj hsecond
      have hover : dispatch (env.over l) (veil u p2 o2 h.silent) .pull = .ok h2' := by
        rw [dispatch_pull_over, hd]
      refine ⟨h2', step_eq_some.mpr hover, p2, h2'.out, ?_⟩
      rw [heq, veil_veil]
      exact eq_veil_of_silent heq2

end Steps

/-- The mail that `c`, with its TCP socket `sock`, gets. -/
def Mail.addressedTo (c : UserRef) (sock : SocketRef) : Mail → Bool
  | .tcp k _ _ => k = sock
  | .position _ recipient _ _ => recipient = c

section Posts

variable {u c : UserRef} {p : Hidden} {o : List Output} {env : Env}

theorem post_veil (h : Hub) (v : UserRef) (usr : User) (coords : Coordinates) (nick : Nick) :
    post (veil u p o h) v (cover u p v usr) coords nick = post h v usr coords nick := by
  unfold post
  have hnicks : (veil u p o h).nickUmap = h.nickUmap := rfl
  rw [hnicks, cover_id]
  cases h.nickUmap.pointsTo nick with
  | none => rfl
  | some b =>
    cases hb : h.users b with
    | none => simp [veil, hb]
    | some buddy =>
      by_cases hr : buddy.udpReady = true
      · simp [veil, hb, hr, cover_addrUdp u p b buddy hr]
      · simp [veil, hb, hr]

/-- The same user is broadcast, with the same coordinates unless it is `u`. -/
theorem broadcasting_veil (h : Hub) :
    (broadcasting h = none ∧ broadcasting (veil u p o h) = none) ∨
      ∃ v usr coords coords', broadcasting h = some (v, usr, coords) ∧
        broadcasting (veil u p o h) = some (v, cover u p v usr, coords') ∧
        (v ≠ u → coords' = coords) := by
  unfold broadcasting
  have hq : (veil u p o h).uqueue = h.uqueue := rfl
  have hids : (veil u p o h).idUmap = h.idUmap := rfl
  rw [hq, hids]
  cases h.uqueue.head? with
  | none => exact Or.inl ⟨rfl, rfl⟩
  | some id =>
    cases hv : h.idUmap.pointsTo id with
    | none => simp [hv]
    | some v =>
      cases hu : h.users v with
      | none => simp [hv, hu, veil]
      | some usr =>
        cases hr : usr.ready with
        | none => simp [hv, hu, veil, hr]
        | some sl =>
          refine Or.inr ⟨v, usr, usr.slot sl, (cover u p v usr).slot sl, ?_, ?_, fun hne => ?_⟩
          · simp [hv, hu, hr]
          · simp [hv, hu, veil, hr]
          · unfold cover User.withUnset
            rw [if_neg hne]
            split_ifs
            · rfl
            · cases sl <;> rfl

theorem broadcasting_veil_self {h : Hub} {usr : User} {coords : Coordinates}
    (hb : broadcasting h = some (u, usr, coords)) :
    ∃ coords', broadcasting (veil u p o h) = some (u, cover u p u usr, coords') := by
  rcases @broadcasting_veil u p o h with ⟨hn, -⟩ | ⟨v, usr', coords1, coords', hb1, hb', -⟩
  · rw [hb] at hn
    cases hn
  · cases hb.symm.trans hb1
    exact ⟨coords', hb'⟩

theorem posts_veil_other {h : Hub} (hb : ∀ usr coords, broadcasting h ≠ some (u, usr, coords)) :
    posts env (veil u p o h) = posts env h := by
  unfold posts
  rcases @broadcasting_veil u p o h with ⟨hn, hn'⟩ | ⟨v, usr, coords, coords', hb1, hb', hc⟩
  · rw [hn, hn']
  · have hv : v ≠ u := by
      rintro rfl
      exact hb usr coords hb1
    rw [hb1, hb', hc hv]
    simp only [cover_buddies]
    congr 1
    funext nick
    exact post_veil h v usr coords nick

theorem posts_unlisted {h : Hub} {usr : User} {coords : Coordinates}
    (hb : broadcasting h = some (u, usr, coords))
    (hc : ∀ nick ∈ usr.buddies.set, h.nickUmap.pointsTo nick ≠ some c) (sock : SocketRef) :
    (posts env h).filter (Mail.addressedTo c sock) = [] := by
  rw [List.filter_eq_nil_iff]
  intro m hm
  unfold posts at hm
  simp only [hb] at hm
  obtain ⟨nick, hnick, hpost⟩ := List.mem_filterMap.mp hm
  obtain ⟨b, buddy, hpoints, -, -, rfl⟩ := post_eq_some.mp hpost
  have hmem : nick ∈ usr.buddies.set := (iterate_perm env usr.buddies).mem_iff.mp hnick
  have hne : b ≠ c := fun hbc => hc nick hmem (hbc ▸ hpoints)
  simpa [Mail.addressedTo] using hne

end Posts

/-- If the event broadcasts `u`, then the nick of `c` is not among the buddies of `u`. -/
def Unshared (u c : UserRef) (s : Chronicle) (call : Event × Env) : Prop :=
  call.1 = .pull → ∀ b ∈ broadcasting s.hub, b.1 = u →
    ∀ client ∈ s.hub.users c, client.nick ∉ b.2.1.buddies.set

instance (u c : UserRef) (s : Chronicle) (call : Event × Env) :
    Decidable (Unshared u c s call) := by
  unfold Unshared
  infer_instance

theorem pointsTo_ne_of_unshared {u c : UserRef} {s : Chronicle} {env : Env} {usr : User}
    {coords : Coordinates} (hu : Unshared u c s (.pull, env)) (hwf : WellFormed s.hub)
    (hb : broadcasting s.hub = some (u, usr, coords)) :
    ∀ nick ∈ usr.buddies.set, s.hub.nickUmap.pointsTo nick ≠ some c := by
  intro nick hmem hpoints
  obtain ⟨i, ht, -⟩ := hwf.directory.name hpoints
  obtain ⟨client, hclient, htag⟩ := WellFormed.tag_eq_some.mp ht
  have hnick : client.nick = nick := congrArg Prod.snd htag
  apply hu rfl _ hb rfl client hclient
  rw [hnick]
  exact hmem

section Runs

variable {u c : UserRef} {s s' s2 : Chronicle} {t : Twin}

/-- Mail that is the same for `c`. -/
def SameFor (c : UserRef) (m m2 : List Mail) : Prop :=
  ∀ sock, m2.filter (Mail.addressedTo c sock) = m.filter (Mail.addressedTo c sock)

theorem sameFor_posts {p : Hidden} {o : List Output} {env : Env} (hwf : WellFormed s.hub)
    (hu : Unshared u c s (.pull, env)) :
    SameFor c (posts env s.hub) (posts env (veil u p o s.hub)) := by
  intro sock
  by_cases hown : ∃ usr coords, broadcasting s.hub = some (u, usr, coords)
  · obtain ⟨usr, coords, hb⟩ := hown
    obtain ⟨coords', hb'⟩ := @broadcasting_veil_self u p o s.hub usr coords hb
    have hc := pointsTo_ne_of_unshared hu hwf hb
    rw [posts_unlisted hb hc sock]
    exact posts_unlisted hb' (by rw [cover_buddies]; exact hc) sock
  · have hother (usr : User) (coords : Coordinates) : broadcasting s.hub ≠ some (u, usr, coords) :=
      fun hb => hown ⟨usr, coords, hb⟩
    rw [posts_veil_other hother]

theorem twin_step (hrel : Related u s.hub s2.hub) (hwf : WellFormed s.hub)
    (hwf2 : WellFormed s2.hub) (hs : s.step t.first = some s') (ha : Alike u s.hub t.1 t.2.1)
    (hu : Unshared u c s t.first) (hd : Determined s.hub t.1) (hd2 : Determined s2.hub t.2.1)
    (hmail : SameFor c s.mail s2.mail) :
    ∃ s2', s2.step t.second = some s2' ∧ Related u s'.hub s2'.hub ∧ SameFor c s'.mail s2'.mail := by
  obtain ⟨h', hh, rfl⟩ := Chronicle.step_eq_some.mp hs
  obtain ⟨ev, ev', env, l⟩ := t
  have happend (m m2 : List Mail) (hm : SameFor c m m2) : SameFor c (s.mail ++ m) (s2.mail ++ m2) :=
    fun sock => by rw [List.filter_append, List.filter_append, hmail sock, hm sock]
  by_cases hpull : ev = .pull
  · subst hpull
    have hsame : ev' = .pull := by
      unfold Alike at ha
      cases ev' <;> exact ha
    subst hsame
    obtain ⟨h2', hh2, hrel'⟩ := hrel.pull (l := l) hh
    refine ⟨s2.record (.pull, env.over l) h2', Chronicle.step_eq_some.mpr ⟨h2', hh2, rfl⟩, hrel', ?_⟩
    apply happend
    obtain ⟨p, o, hp⟩ := hrel
    have hposts := @sameFor_posts u c s p o env hwf hu
    have hsilent : posts env (veil u p o s.hub) = posts (env.over l) s2.hub := by
      rw [hp]
      rfl
    rw [hsilent] at hposts
    exact hposts
  · obtain ⟨h2', sent, hh2, hrel', hout, hout2⟩ := hrel.step (l := l) hwf hwf2 hpull ha
      (fun _ _ _ => ⟨hd, hd2⟩) (Or.inr hd2) hh
    refine ⟨s2.record (ev', env.over l) h2', Chronicle.step_eq_some.mpr ⟨h2', hh2, rfl⟩, hrel', ?_⟩
    apply happend
    have hpull' : ev' ≠ .pull := by
      rcases alike_eq ha with hsame | ⟨theirAddr, bytes, bytes', -, hsame, -⟩
      · have hsame : ev' = ev := hsame
        rw [hsame]
        exact hpull
      · have hsame : ev' = .datagram theirAddr bytes' := hsame
        rw [hsame]
        nofun
    have hm : mailed s.hub h' (ev, env) = sent.filterMap Output.mail := by
      rw [mailed_of_ne_pull hpull, hout, List.drop_left]
    have hm2 : mailed s2.hub h2' (ev', env.over l) = sent.filterMap Output.mail := by
      rw [mailed_of_ne_pull hpull', hout2, List.drop_left]
    intro sock
    change (mailed s2.hub h2' (ev', env.over l)).filter _ = (mailed s.hub h' (ev, env)).filter _
    rw [hm, hm2]

end Runs

/-- The machine whose labels are the events of both runs, run on the first ones. -/
def stepFirst (s : Chronicle) (t : Twin) : Option Chronicle := s.step t.first

/-- Memory that only held ones. -/
def filled : Leftovers := ⟨fun _ => 1, { (default : SockAddr) with port := 9 }, 1⟩

/-- As `sharing`, with other coordinates and other memory in the second run; besides, `c` has
registered. -/
def twoTracks : List Twin :=
  (sharing.take 7).map (fun call => (call.1, call.1, call.2, filled)) ++
    [(.datagram default (intBytes 1 ++ intBytes 5 ++ intBytes 6),
        .datagram default (intBytes 1 ++ intBytes 7 ++ intBytes 8), default, filled),
      (.accept default, .accept default, default, filled),
      (.command 2 (.registerNick [99]), .command 2 (.registerNick [99]), default, filled),
      (.pull, .pull, sending, filled)]

/-- A block with the middle bytes of the altitude of a deleted user. -/
def remains (altitude : UInt8) : Leftovers := ⟨fun i => if i = 9 then altitude else 0, default, 0⟩

/-- `a` sends its position, with altitude 256 or 512, and leaves; then `b` lists itself twice,
and the reply is written where the altitude was. -/
def leaking : List Twin :=
  (sharing.take 5).map (fun call => (call.1, call.1, call.2, default)) ++
    [(.datagram default (intBytes 1 ++ intBytes 5 ++ intBytes 6 ++ intBytes 256),
        .datagram default (intBytes 1 ++ intBytes 5 ++ intBytes 6 ++ intBytes 512), default, default),
      (.pull, .pull, sending, default), (.close 0, .close 0, default, default),
      (.command 1 (.addBuddies [98, 44, 98]), .command 1 (.addBuddies [98, 44, 98]),
        (default : Env).over (remains 1), remains 2)]

end Gpshub
