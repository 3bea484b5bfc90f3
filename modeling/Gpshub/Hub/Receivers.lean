import Gpshub.Hub.BuddiesIds
import Gpshub.Hub.Submissions
import Gpshub.Hub.Wire

/-! Who has been sent a `BUDDIES_IDS` with the id of the users whose positions it gets. -/
namespace Gpshub
open CommandServer CommandHandler GpsDataServer CoordsBroadcastThread Lib.Machine

section Steps

variable {h h' : Hub} {call : Event × Env} {k : SessionRef}

/-- A user of the pair that is there after the step was there before it, with the same id. -/
theorem user_before {u : UserRef} {usr' : User} (hs : h.step call = some h')
    (hlt : u < h.nextUser) (hu' : h'.users u = some usr') :
    ∃ usr, h.users u = some usr ∧ usr'.ident = usr.ident := by
  rcases step_user hs hu' with ⟨usr, hu, hm⟩ | ⟨rfl, -⟩
  · exact ⟨usr, hu, hm.ident_eq⟩
  · exact absurd hlt (lt_irrefl _)

theorem wire_step (hs : h.step call = some h') : h.wire k <+: h'.wire k := by
  unfold Hub.wire
  rw [step_out hs, List.filterMap_append]
  exact List.prefix_append _ _

/-- While the session is open, nothing that was submitted for it is lost. -/
theorem carried_step (hwf : WellFormed h) (hs : h.step call = some h') (hlt : k < h.nextSession)
    (hopen : (h'.sessions k).isSome = true) :
    (h.sessions k).isSome = true ∧ ∀ p ∈ h.carried k, p ∈ h'.carried k := by
  have hclose : call.1 ≠ .close k := by
    intro hev
    obtain ⟨ev, env⟩ := call
    cases hev
    obtain ⟨session, hses, ⟨-, rfl⟩ | ⟨u, usr, -, -, rfl⟩⟩ :=
      closeConnection_eq_ok (Hub.step_eq_some.mp hs)
    · simp [deleteSession] at hopen
    · simp [deleteSession] at hopen
  obtain ⟨ps, hsub, -⟩ := step_serves hwf hs hclose fun _ _ => hlt.ne
  refine ⟨?_, fun p hp => ?_⟩
  · cases step_change hs with
    | accept addr hev =>
      change (Function.update h.sessions h.nextSession _ k).isSome = true at hopen
      rwa [Function.update_of_ne hlt.ne] at hopen
    | register s pkg session id q o hev hin hses =>
      change (Function.update h.sessions s _ k).isSome = true at hopen
      by_cases hk : k = s
      · rw [hk, hses]
        rfl
      · rwa [Function.update_of_ne hk] at hopen
    | close s session hev | logOut s session u usr hev =>
      have hk : k ≠ s := fun hk => hclose (hk ▸ hev)
      change (Function.update h.sessions s none k).isSome = true at hopen
      rwa [Function.update_of_ne hk] at hopen
    | frame h' hin hno hf => rwa [hf.sessions] at hopen
  · rw [hsub.carried]
    exact Multiset.mem_add.mpr (Or.inl hp)

end Steps

theorem mem_carried_of_handed {h : Hub} {k : SessionRef} {p : CmdPkg} (hp : p ∈ handed h k k) :
    p ∈ h.carried k := by
  rcases List.mem_append.mp hp with hq | hw
  · exact Multiset.mem_add.mpr (Or.inl (Multiset.mem_add.mpr (Or.inr hq)))
  · exact Multiset.mem_add.mpr (Or.inl (Multiset.mem_add.mpr (Or.inl hw)))

theorem mem_wire_of_carried {h : Hub} {k : SessionRef} {p : CmdPkg} (hp : p ∈ h.carried k)
    (hno : p ∉ waiting h k) : p ∈ h.wire k := by
  rcases Multiset.mem_add.mp hp with hp | ha
  · rcases Multiset.mem_add.mp hp with hw | hq
    · exact hw
    · exact absurd (List.mem_append_left _ hq) hno
  · exact absurd (List.mem_append_right _ ha) hno

/-- The pair `(b, u)`: if both are still there, a `BUDDIES_IDS` with the id of `u` was submitted
for `b`, and it is not lost unless the session is closed. -/
def Informed (h : Hub) (p : UserRef × UserRef) : Prop :=
  ∀ b u, h.users p.1 = some b → h.users p.2 = some u →
    ∃ sock pkg, b.sock = some sock ∧ Tells pkg u.id u.nick ∧
      ((h.sessions sock).isSome = true → pkg ∈ h.carried sock)

/-- It has been sent. -/
def Reached (h : Hub) (p : UserRef × UserRef) : Prop :=
  ∀ b u, h.users p.1 = some b → h.users p.2 = some u →
    ∃ sock pkg, b.sock = some sock ∧ Tells pkg u.id u.nick ∧ pkg ∈ h.wire sock

structure Naming (s : Chronicle) : Prop where
  wellFormed : WellFormed s.hub
  old : ∀ p ∈ s.named, p.1 < s.hub.nextUser ∧ p.2 < s.hub.nextUser
  known : ∀ p ∈ s.heard, p ∈ s.named
  informed : ∀ p ∈ s.named, Informed s.hub p
  reached : ∀ p ∈ s.heard, Reached s.hub p

section Naming

variable {s s' : Chronicle} {h h' : Hub} {call : Event × Env} {p : UserRef × UserRef}

theorem naming_eq {ev : Event} (hp : p ∈ naming h ev) :
    ∃ k pkg session nick, ev = .command k pkg ∧ pkg.getType = CmdPkg.ADD_BUDDIES ∧
      h.sessions k = some session ∧ session.user = some p.1 ∧ nick ∈ addFields pkg.getData ∧
      h.nickUmap.pointsTo nick = some p.2 := by
  cases ev with
  | command k pkg =>
    simp only [naming] at hp
    split_ifs at hp with htype
    · cases hs : h.sessions k with
      | none => simp [hs] at hp
      | some session =>
        cases hu : session.user with
        | none => simp [hs, hu] at hp
        | some b =>
          simp only [hs, hu, Option.bind_some, List.mem_filterMap, Option.map_eq_some_iff] at hp
          obtain ⟨nick, hmem, u, hpoints, rfl⟩ := hp
          exact ⟨k, pkg, session, nick, rfl, htype, hs, hu, hmem, hpoints⟩
    · cases hp
  | _ => cases hp

/-- Whoever names a registered user in this step is informed of its id. -/
theorem informed_of_naming (hwf : WellFormed h) (hh : h.step call = some h')
    (hp : p ∈ naming h call.1) :
    (p.1 < h.nextUser ∧ p.2 < h.nextUser) ∧ Informed h' p := by
  obtain ⟨k, pkg, session, nick, hev, htype, hses, hb, hmem, hpoints⟩ := naming_eq hp
  obtain ⟨b, hbusr, hbsock, -⟩ := hwf.login hses hb
  obtain ⟨i, ht, -⟩ := hwf.directory.name hpoints
  obtain ⟨u, hu, htag⟩ := WellFormed.tag_eq_some.mp ht
  have hlt : p.1 < h.nextUser ∧ p.2 < h.nextUser := ⟨(hwf.user hbusr).1, (hwf.user hu).1⟩
  refine ⟨hlt, fun b' u' hb' hu' => ?_⟩
  obtain ⟨b0, hb0, hbi⟩ := user_before hh hlt.1 hb'
  cases hbusr.symm.trans hb0
  obtain ⟨u0, hu0, hui⟩ := user_before hh hlt.2 hu'
  cases hu.symm.trans hu0
  have he := Hub.step_eq_some.mp hh
  obtain ⟨ev, env⟩ := call
  subst hev
  obtain ⟨session', -, he⟩ := bind_eq_ok.mp he
  have hadd : addBuddies env pkg k h = .ok h' := by
    unfold handle at he
    rwa [if_neg (by rw [htype]; decide), if_pos htype] at he
  have hnick : u.nick = nick := congrArg Prod.snd htag
  obtain ⟨q, hq, htells⟩ := addBuddies_tells hwf hses hb hadd ⟨p.2, u, hpoints, hu, rfl⟩ hmem
  simp only [User.ident, Prod.mk.injEq] at hbi hui
  rw [(hwf.session hses).1] at hq
  refine ⟨k, q, hbi.2.2.trans hbsock, ?_, fun _ => mem_carried_of_handed hq⟩
  rw [hui.1, hui.2.1, hnick]
  exact htells

theorem Informed.step (hwf : WellFormed h) (hh : h.step call = some h')
    (hlt : p.1 < h.nextUser ∧ p.2 < h.nextUser) (hi : Informed h p) : Informed h' p := by
  intro b' u' hb' hu'
  obtain ⟨b, hb, hbi⟩ := user_before hh hlt.1 hb'
  obtain ⟨u, hu, hui⟩ := user_before hh hlt.2 hu'
  obtain ⟨sock, pkg, hsock, htells, hcarried⟩ := hi b u hb hu
  obtain ⟨-, -, k, hk, hnext⟩ := hwf.user hb
  cases hsock.symm.trans hk
  simp only [User.ident, Prod.mk.injEq] at hbi hui
  refine ⟨sock, pkg, hbi.2.2.trans hsock, ?_, fun hopen => ?_⟩
  · rw [hui.1, hui.2.1]
    exact htells
  · obtain ⟨hold, hmono⟩ := carried_step hwf hh hnext hopen
    exact hmono pkg (hcarried hold)

theorem Reached.step (hh : h.step call = some h') (hlt : p.1 < h.nextUser ∧ p.2 < h.nextUser)
    (hr : Reached h p) : Reached h' p := by
  intro b' u' hb' hu'
  obtain ⟨b, hb, hbi⟩ := user_before hh hlt.1 hb'
  obtain ⟨u, hu, hui⟩ := user_before hh hlt.2 hu'
  obtain ⟨sock, pkg, hsock, htells, hwire⟩ := hr b u hb hu
  simp only [User.ident, Prod.mk.injEq] at hbi hui
  refine ⟨sock, pkg, hbi.2.2.trans hsock, ?_, (wire_step hh).subset hwire⟩
  rw [hui.1, hui.2.1]
  exact htells

theorem Informed.reached (hi : Informed h p) (ha : answered h p.1 = true) : Reached h p := by
  intro b u hb hu
  obtain ⟨sock, pkg, hsock, htells, hcarried⟩ := hi b u hb hu
  unfold answered at ha
  rw [hb, Option.bind_some, hsock] at ha
  simp only [Bool.and_eq_true, List.all_eq_true, decide_eq_true_eq] at ha
  have hno : pkg ∉ waiting h sock := fun hmem => ha.2 pkg hmem htells.1
  exact ⟨sock, pkg, hsock, htells, mem_wire_of_carried (hcarried ha.1) hno⟩

theorem Naming.step (hs : s.step call = some s') (hn : Naming s) : Naming s' := by
  obtain ⟨h', hh, rfl⟩ := Chronicle.step_eq_some.mp hs
  have hle := nextUser_le_step hh
  have hnamed (p : UserRef × UserRef) (hp : p ∈ s.named ++ naming s.hub call.1) :
      (p.1 < s.hub.nextUser ∧ p.2 < s.hub.nextUser) ∧ Informed h' p := by
    rcases List.mem_append.mp hp with hold | hnew
    · have hlt := hn.old p hold
      exact ⟨hlt, (hn.informed p hold).step hn.wellFormed hh hlt⟩
    · exact informed_of_naming hn.wellFormed hh hnew
  constructor
  · exact hn.wellFormed.step hh
  · exact fun p hp => ⟨(hnamed p hp).1.1.trans_le hle, (hnamed p hp).1.2.trans_le hle⟩
  · intro p hp
    rcases List.mem_append.mp hp with hold | hnew
    · exact List.mem_append_left _ (hn.known p hold)
    · exact (List.mem_filter.mp hnew).1
  · exact fun p hp => (hnamed p hp).2
  · intro p hp
    rcases List.mem_append.mp hp with hold | hnew
    · exact (hn.reached p hold).step hh (hn.old p (hn.known p hold))
    · obtain ⟨hmem, ha⟩ := List.mem_filter.mp hnew
      exact (hnamed p hmem).2.reached ha

theorem Naming.boot : Naming .boot := ⟨.boot, nofun, nofun, nofun, nofun⟩

end Naming

/-- Of the package, when it is a `BUDDIES_IDS` for the socket, all bytes were taken. -/
def Output.whole (sock : SocketRef) : Output → Bool
  | .tcp k p n => decide (k = sock → p.getType = CmdPkg.BUDDIES_IDS → p.getLen.toNat ≤ n)
  | .udp _ _ => true

/-- Every recipient of the broadcast has named the user in an `ADD_BUDDIES` of its own, what waited
for it then has been sent, and no `BUDDIES_IDS` has been sent to it in part. -/
def Requited (s : Chronicle) (call : Event × Env) : Prop :=
  call.1 = .pull → ∀ p ∈ broadcasting s.hub, ∀ nick ∈ p.2.1.buddies.set,
    ∀ b ∈ s.hub.nickUmap.pointsTo nick, ∀ buddy ∈ s.hub.users b, buddy.udpReady = true →
      (b, p.1) ∈ s.heard ∧ ∀ sock ∈ buddy.sock, ∀ o ∈ s.hub.out, o.whole sock = true

instance (s : Chronicle) (call : Event × Env) : Decidable (Requited s call) := by
  unfold Requited
  infer_instance

/-- To whoever is sent a position in this step, the id that it carries was sent before, on its own
TCP session. -/
def Announced (s : Chronicle) (call : Event × Env) : Prop :=
  call.1 = .pull → ∀ u b addr bytes, .position u b addr bytes ∈ posts call.2 s.hub →
    ∃ usr buddy sock pkg n, s.hub.users u = some usr ∧ s.hub.users b = some buddy ∧
      buddy.sock = some sock ∧ .tcp sock pkg n ∈ s.hub.out ∧ pkg.getLen.toNat ≤ n ∧
      Tells pkg usr.id usr.nick

theorem announced_of_requited {s : Chronicle} {call : Event × Env} (hn : Naming s)
    (hr : Requited s call) : Announced s call := by
  intro hev u b addr bytes hm
  unfold posts at hm
  cases hbr : broadcasting s.hub with
  | none => simp [hbr] at hm
  | some p =>
    obtain ⟨v, usr, coords⟩ := p
    simp only [hbr] at hm
    obtain ⟨nick, hnick, hpost⟩ := List.mem_filterMap.mp hm
    obtain ⟨b', buddy, hpoints, hbuddy, hready, heq⟩ := post_eq_some.mp hpost
    cases heq
    obtain ⟨-, -, -, -, husr, -, -⟩ := broadcasting_eq_some.mp hbr
    obtain ⟨hheard, hwhole⟩ :=
      hr hev _ hbr nick ((iterate_perm _ _).mem_iff.mp hnick) b hpoints buddy hbuddy hready
    obtain ⟨sock, pkg, hsock, htells, hwire⟩ := hn.reached _ hheard buddy usr hbuddy husr
    obtain ⟨o, ho, htcp⟩ := List.mem_filterMap.mp hwire
    cases o with
    | udp addr bytes => cases htcp
    | tcp k q n =>
      simp only [Output.tcpTo, Option.ite_none_right_eq_some, Option.some.injEq] at htcp
      obtain ⟨hk, rfl⟩ := htcp
      have hall := decide_eq_true_eq.mp (hwhole sock hsock _ ho) hk htells.1
      rw [hk] at ho
      exact ⟨usr, buddy, sock, _, n, husr, hbuddy, hsock, ho, hall, htells⟩

/-- Receivers know the ids they are sent in every run in which they have named the senders, and
have taken the answers. -/
theorem receivers_told_ids {calls : List (Event × Env)}
    (hr : Guarded Chronicle.step Requited .boot calls) :
    Guarded Chronicle.step Announced .boot calls :=
  guarded_mono (fun _ _ _ hs hn => hn.step hs) (fun _ _ => announced_of_requited) .boot hr

/-- As `sharing`, but `b` lists `a` as well; the answer waits until its socket is ready. -/
def sharingBoth : List (Event × Env) :=
  sharing ++ [(.command 1 ⟨CmdPkg.ADD_BUDDIES :: shortBytes 4 ++ [97, 0]⟩,
      { (default : Env) with answer := fun _ => .wouldBlock }),
    (.writable 1, default), (.pull, sending)]

theorem receivers_told_ids_two : (∃ s, run Chronicle.step .boot sharingBoth = some s ∧
      s.mail.any fun m => m matches .position 0 1 _ _) ∧
    Guarded Chronicle.step Announced .boot sharingBoth :=
  ⟨⟨_, rfl, by decide +kernel⟩, @receivers_told_ids sharingBoth (by decide +kernel)⟩

/-- In `sharing` only `a` has listed `b`, so `b` is sent the position of a stranger. -/
theorem receivers_told_ids_counterexample :
    ¬Guarded Chronicle.step Announced .boot (sharing ++ [(.pull, sending)]) := by
  have hrun : ∃ s, run Chronicle.step .boot sharing = some s ∧
      (s.step (.pull, sending)).isSome ∧ (s.hub.users 1).bind User.sock = some 1 ∧
      .position 0 1 { (default : SockAddr) with port := 7 } (coordsPkg 1 ⟨5, 6, 0⟩) ∈
        posts sending s.hub ∧
      ∀ p ∈ s.hub.wire 1, p.getType ≠ CmdPkg.BUDDIES_IDS :=
    ⟨_, rfl, by decide +kernel, by decide +kernel, by decide +kernel, by decide +kernel⟩
  obtain ⟨s, hr, hpull, hsock, hpost, hwire⟩ := hrun
  intro hg
  obtain ⟨s', hs⟩ := Option.isSome_iff_exists.mp hpull
  have hann := ((hg.of_append hr) s' hs).1
  obtain ⟨usr, buddy, sock, pkg, n, husr, hbuddy, hsock', hmem, -, htells⟩ :=
    hann rfl 0 1 _ _ hpost
  rw [hbuddy] at hsock
  have hone : sock = 1 := Option.some.inj (hsock'.symm.trans hsock)
  have hin : pkg ∈ s.hub.wire 1 := List.mem_filterMap.mpr ⟨_, hmem, if_pos hone⟩
  exact hwire _ hin htells.1

end Gpshub
