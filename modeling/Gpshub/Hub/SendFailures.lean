import Gpshub.Hub.Broadcast

/-! What becomes of a broadcast when `Sendto` fails for one of the buddies. -/
namespace Gpshub
open CoordsBroadcastThread Lib.Machine

namespace CoordsBroadcastThread

/-- The loop of `broadcast`, with the datagrams it hands to `Sendto`, sent or not. -/
def sendTrace (env : Env) (u : UserRef) (coords : Coordinates) :
    List Nick → ℕ → Hub → List Output × Except Abort Hub
  | [], _, h => ([], .ok h)
  | nick :: rest, k, h =>
    if 0 < h.nickUmap.count nick then
      let (ptr, nickUmap) := h.nickUmap.get nick
      let h := { h with nickUmap }
      match notNull .badUser ptr with
      | .error e => ([], .error e)
      | .ok buddy =>
        match h.deref buddy with
        | .error e => ([], .error e)
        | .ok buddyUser =>
          if ¬buddyUser.udpReady then sendTrace env u coords rest k h
          else
            match h.deref u with
            | .error e => ([], .error e)
            | .ok usr =>
              let pkg := .udp buddyUser.addrUdp (coordsPkg usr.id coords)
              if env.sendto k then
                let (more, result) := sendTrace env u coords rest (k + 1) (h.emit pkg)
                (pkg :: more, result)
              else ([pkg], .error .socketException)
    else sendTrace env u coords rest k h

theorem sendTrace_snd (env : Env) (u : UserRef) (coords : Coordinates) (nicks : List Nick) :
    ∀ (k : ℕ) (h : Hub), (sendTrace env u coords nicks k h).2 = sendAll env u coords nicks k h := by
  induction nicks with
  | nil => exact fun _ _ => rfl
  | cons nick rest ih =>
    intro k h
    rw [sendTrace, sendAll]
    by_cases hc : 0 < h.nickUmap.count nick
    · rw [if_pos hc, if_pos hc]
      generalize h.nickUmap.get nick = p
      obtain ⟨ptr, m⟩ := p
      dsimp only
      generalize ({ h with nickUmap := m } : Hub) = h1
      cases notNull .badUser ptr with
      | error e => rfl
      | ok buddy =>
        simp only [ok_bind]
        cases h1.deref buddy with
        | error e => rfl
        | ok buddyUser =>
          simp only [ok_bind]
          by_cases hready : ¬buddyUser.udpReady = true
          · rw [if_pos hready, if_pos hready]
            exact ih k h1
          · rw [if_neg hready, if_neg hready]
            cases h1.deref u with
            | error e => rfl
            | ok usr =>
              simp only [ok_bind]
              by_cases hsent : env.sendto k = true
              · rw [if_pos hsent, if_pos hsent]
                exact ih (k + 1) _
              · rw [if_neg hsent, if_neg hsent]
                rfl
    · rw [if_neg hc, if_neg hc]
      exact ih k h

end CoordsBroadcastThread

section Loop

variable {env : Env} {h : Hub} {u : UserRef} {usr : User} {coords : Coordinates} {nick : Nick}
  {rest : List Nick} {k : ℕ} {o : List Output}

theorem sendTrace_of_post_none (hnicks : NicksFound h)
    (hpost : post h u usr coords nick = none) :
    sendTrace env u coords (nick :: rest) k { h with out := o } =
      sendTrace env u coords rest k { h with out := o } := by
  rw [sendTrace]
  by_cases hc : 0 < h.nickUmap.count nick
  · rw [if_pos hc]
    obtain ⟨b, buddy, hb, hbuddy⟩ := hnicks nick hc
    have hready : ¬buddy.udpReady = true := by
      intro hready
      rw [post_eq_some.mpr ⟨b, buddy, SyncHashMap.pointsTo_eq_some.mpr hb, hbuddy, hready, rfl⟩]
        at hpost
      cases hpost
    simp [SyncHashMap.get_of_some hb, notNull, Hub.deref, hbuddy, hready]
  · rw [if_neg hc]

/-- Otherwise `Sendto` is called, and the loop goes on if it succeeds. -/
theorem sendTrace_of_post_some (hu : h.users u = some usr) {m : Mail}
    (hpost : post h u usr coords nick = some m) :
    sendTrace env u coords (nick :: rest) k { h with out := o } =
      if env.sendto k then
        (m.output :: (sendTrace env u coords rest (k + 1) { h with out := o ++ [m.output] }).1,
          (sendTrace env u coords rest (k + 1) { h with out := o ++ [m.output] }).2)
      else ([m.output], .error .socketException) := by
  obtain ⟨b, buddy, hp, hbuddy, hready, rfl⟩ := post_eq_some.mp hpost
  have hb := SyncHashMap.pointsTo_eq_some.mp hp
  have hc : 0 < h.nickUmap.count nick := SyncHashMap.count_pos.mpr ⟨_, hb⟩
  rw [sendTrace, if_pos hc]
  simp [SyncHashMap.get_of_some hb, notNull, Hub.deref, hbuddy, hready, hu, Mail.output, Hub.emit]

theorem sendTrace_sent (hu : h.users u = some usr) (hnicks : NicksFound h) (nicks : List Nick) :
    ∀ {k : ℕ} {o : List Output},
      (∀ j < (nicks.filterMap (post h u usr coords)).length, env.sendto (k + j) = true) →
      sendTrace env u coords nicks k { h with out := o } =
        ((nicks.filterMap (post h u usr coords)).map Mail.output,
          .ok { h with out := o ++ (nicks.filterMap (post h u usr coords)).map Mail.output }) := by
  induction nicks with
  | nil =>
    intro k o _
    simp [sendTrace]
  | cons nick rest ih =>
    intro k o hsend
    cases hpost : post h u usr coords nick with
    | none =>
      rw [List.filterMap_cons, hpost] at hsend ⊢
      rw [sendTrace_of_post_none hnicks hpost]
      exact ih hsend
    | some m =>
      rw [List.filterMap_cons, hpost] at hsend ⊢
      have hfirst : env.sendto k = true := hsend 0 (Nat.succ_pos _)
      have hrest (j : ℕ) (hj : j < (rest.filterMap (post h u usr coords)).length) :
          env.sendto (k + 1 + j) = true := by
        rw [Nat.add_assoc, Nat.add_comm 1 j]
        exact hsend (j + 1) (Nat.succ_lt_succ hj)
      rw [sendTrace_of_post_some hu hpost, if_pos hfirst, ih hrest]
      simp

theorem exists_first_failure {n k : ℕ} (hk : k < n) (hfail : ¬env.sendto k = true) :
    ∃ i < n, (∀ j < i, env.sendto (0 + j) = true) ∧ env.sendto (0 + i) = false := by
  have hex : ∃ i, ¬env.sendto i = true := ⟨k, hfail⟩
  refine ⟨Nat.find hex, (Nat.find_le hfail).trans_lt hk, fun j hj => ?_, ?_⟩
  · rw [Nat.zero_add]
    exact not_not.mp (Nat.find_min hex hj)
  · rw [Nat.zero_add]
    exact Bool.eq_false_of_not_eq_true (Nat.find_spec hex)

theorem sendTrace_failed (hu : h.users u = some usr) (hnicks : NicksFound h)
    (nicks : List Nick) : ∀ {i k : ℕ} {o : List Output},
      i < (nicks.filterMap (post h u usr coords)).length →
      (∀ j < i, env.sendto (k + j) = true) → env.sendto (k + i) = false →
      sendTrace env u coords nicks k { h with out := o } =
        (((nicks.filterMap (post h u usr coords)).map Mail.output).take (i + 1),
          .error .socketException) := by
  induction nicks with
  | nil => exact fun hi => absurd hi (Nat.not_lt_zero _)
  | cons nick rest ih =>
    intro i k o hi hsend hfail
    cases hpost : post h u usr coords nick with
    | none =>
      rw [List.filterMap_cons, hpost] at hi ⊢
      rw [sendTrace_of_post_none hnicks hpost]
      exact ih hi hsend hfail
    | some m =>
      rw [List.filterMap_cons, hpost] at hi ⊢
      rw [sendTrace_of_post_some hu hpost]
      cases i with
      | zero =>
        have hfirst : ¬env.sendto k = true := by simpa using hfail
        rw [if_neg hfirst]
        simp
      | succ i =>
        have hfirst : env.sendto k = true := hsend 0 i.succ_pos
        have hrest (j : ℕ) (hj : j < i) : env.sendto (k + 1 + j) = true := by
          rw [Nat.add_assoc, Nat.add_comm 1 j]
          exact hsend (j + 1) (Nat.succ_lt_succ hj)
        have hfail' : env.sendto (k + 1 + i) = false := by
          rw [Nat.add_assoc, Nat.add_comm 1 i]
          exact hfail
        rw [if_pos hfirst, ih (Nat.lt_of_succ_lt_succ hi) hrest hfail']
        simp

end Loop

/-- The buddies that are registered and have given their UDP address. -/
def recipients (h : Hub) (usr : User) : List Nick :=
  usr.buddies.set.filter fun nick => ((h.nickUmap.pointsTo nick).bind h.users).any User.udpReady

/-- What the next turn hands to `Sendto`. -/
def attempts (env : Env) (h : Hub) : List Output :=
  match broadcasting h with
  | none => []
  | some (u, usr, coords) => (sendTrace env u coords (iterate env usr.buddies) 0 h).1

/-- The turn of the user `u` attempts one package for each recipient, lets the user broadcast
again, and the thread goes on to the next id. -/
structure Undeterred (env : Env) (h : Hub) (u : UserRef) (usr : User) (coords : Coordinates) :
    Prop where
  attempted : ∃ nicks : List Nick, nicks.Nodup ∧
    (∀ nick, nick ∈ nicks ↔ nick ∈ usr.buddies.set ∧
      ∃ b buddy, Registered h nick b buddy ∧ buddy.udpReady = true) ∧
    List.Forall₂ (fun nick o => ∃ b buddy, Registered h nick b buddy ∧
      o = .udp buddy.addrUdp (coordsPkg usr.id coords)) nicks (attempts env h)
  goesOn : ∃ h' usr', h.step (.pull, env) = some h' ∧ h'.uqueue = h.uqueue.tail ∧
    h'.users u = some usr' ∧ usr'.ready = none

section Turn

variable {env : Env} {h : Hub} {u : UserRef} {usr : User} {coords : Coordinates}

theorem isSome_post (nick : Nick) : (post h u usr coords nick).isSome =
    ((h.nickUmap.pointsTo nick).bind h.users).any User.udpReady := by
  unfold post
  cases h.nickUmap.pointsTo nick with
  | none => rfl
  | some b =>
    cases hb : h.users b with
    | none => simp [hb]
    | some buddy => cases hready : buddy.udpReady <;> simp [hb, hready]

theorem length_filterMap_post :
    ((iterate env usr.buddies).filterMap (post h u usr coords)).length =
      (recipients h usr).length := by
  have hlen := (forall₂_filterMap (post h u usr coords) (iterate env usr.buddies)).length_eq
  rw [← hlen]
  simp only [isSome_post]
  exact ((iterate_perm env usr.buddies).filter _).length_eq

/-- A turn is the loop of `broadcast`, after which `ready` is set to `NULL`. -/
theorem dispatch_pull (hb : broadcasting h = some (u, usr, coords)) :
    ∃ h0, h0.users = h.users ∧ h0.nickUmap = h.nickUmap ∧ h0.uqueue = h.uqueue.tail ∧
      h.dispatch env .pull = do
        let h1 ← sendAll env u coords (iterate env usr.buddies) 0 h0
        let usr ← h1.deref u
        return h1.setUser u (usr.setReady none) := by
  obtain ⟨id, sl, hq, hid, husr, hsl, rfl⟩ := broadcasting_eq_some.mp hb
  obtain ⟨rest, hq⟩ := List.head?_eq_some_iff.mp hq
  refine ⟨{ h with uqueue := h.uqueue.tail, idUmap := (h.idUmap.get id).2 }, rfl, rfl, rfl, ?_⟩
  rw [SyncHashMap.pointsTo_of_get] at hid
  simp only [Hub.dispatch, hq, turn, hid, List.tail_cons]
  simp [Hub.deref, husr, hsl, broadcast, ok_bind]

theorem NicksFound.congr {h0 : Hub} (hnicks : NicksFound h) (husers : h0.users = h.users)
    (hnick : h0.nickUmap = h.nickUmap) : NicksFound h0 := by
  unfold NicksFound
  rw [husers, hnick]
  exact hnicks

theorem recipients_congr {h0 : Hub} (husers : h0.users = h.users)
    (hnick : h0.nickUmap = h.nickUmap) : recipients h0 usr = recipients h usr := by
  simp only [recipients, husers, hnick]

theorem sendTrace_of_all_sent (husr : h.users u = some usr) (hnicks : NicksFound h)
    (hsend : ∀ k < (recipients h usr).length, env.sendto k = true) (coords : Coordinates) :
    ∃ h', sendTrace env u coords (iterate env usr.buddies) 0 h =
        (((iterate env usr.buddies).filterMap (post h u usr coords)).map Mail.output, .ok h') ∧
      h'.users = h.users ∧ h'.uqueue = h.uqueue := by
  have hsend0 (j : ℕ) (hj : j < ((iterate env usr.buddies).filterMap
      (post h u usr coords)).length) : env.sendto (0 + j) = true := by
    rw [length_filterMap_post] at hj
    rw [Nat.zero_add]
    exact hsend j hj
  exact ⟨_, sendTrace_sent (o := h.out) husr hnicks (iterate env usr.buddies) hsend0, rfl, rfl⟩

theorem turn_sent (hb : broadcasting h = some (u, usr, coords)) (hnicks : NicksFound h)
    (hsend : ∀ k < (recipients h usr).length, env.sendto k = true) :
    ∃ h' usr', h.step (.pull, env) = some h' ∧ h'.uqueue = h.uqueue.tail ∧
      h'.users u = some usr' ∧ usr'.ready = none := by
  obtain ⟨-, -, -, -, husr, -, -⟩ := broadcasting_eq_some.mp hb
  obtain ⟨h0, husers, hnick, hq, hpull⟩ := dispatch_pull hb
  rw [← recipients_congr husers hnick] at hsend
  rw [← husers] at husr
  obtain ⟨h1, htrace, husers1, hq1⟩ :=
    sendTrace_of_all_sent husr (hnicks.congr husers hnick) hsend coords
  have hall : sendAll env u coords (iterate env usr.buddies) 0 h0 = .ok h1 := by
    rw [← sendTrace_snd, htrace]
  have hderef : h1.deref u = .ok usr := Hub.deref_eq_ok.mpr (by rw [husers1, husr])
  have hend : h.dispatch env .pull = .ok (h1.setUser u (usr.setReady none)) := by
    rw [hpull, hall, ok_bind, hderef, ok_bind]
    rfl
  refine ⟨_, usr.setReady none, Hub.step_eq_some.mpr hend, hq1.trans hq, ?_, rfl⟩
  exact Function.update_self ..

theorem turn_failed (hb : broadcasting h = some (u, usr, coords)) (hnicks : NicksFound h) {k : ℕ}
    (hk : k < (recipients h usr).length) (hfail : ¬env.sendto k = true) :
    h.step (.pull, env) = none := by
  obtain ⟨-, -, -, -, husr, -, -⟩ := broadcasting_eq_some.mp hb
  obtain ⟨h0, husers, hnick, -, hpull⟩ := dispatch_pull hb
  rw [← husers] at husr
  rw [← recipients_congr husers hnick, ← length_filterMap_post] at hk
  obtain ⟨i, hi, hbefore, hi_fail⟩ := exists_first_failure hk hfail
  have htrace := sendTrace_failed (o := h0.out) husr (hnicks.congr husers hnick)
    (iterate env usr.buddies) hi hbefore hi_fail
  have hall : sendAll env u coords (iterate env usr.buddies) 0 h0 = .error .socketException := by
    rw [← sendTrace_snd]
    exact congrArg Prod.snd htrace
  rw [Hub.step, hpull, hall]
  rfl

end Turn

/-- In every reachable state with a queued position the turn is not deterred exactly if
`Sendto` succeeds for each recipient. -/
theorem send_failures_iff {s : Chronicle} {calls : List (Event × Env)}
    (hr : run Chronicle.step .boot calls = some s) {u : UserRef} {usr : User}
    {coords : Coordinates} (hb : broadcasting s.hub = some (u, usr, coords)) (env : Env) :
    Undeterred env s.hub u usr coords ↔
      ∀ k < (recipients s.hub usr).length, env.sendto k = true := by
  have hbr := Broadcastable.of_run hr
  have hnicks := hbr.wellFormed.nicksFound hbr.nicks
  constructor
  · intro hu k hk
    by_contra hfail
    obtain ⟨h', usr', hs, -, -, -⟩ := hu.goesOn
    rw [turn_failed hb hnicks hk hfail] at hs
    cases hs
  · intro hsend
    obtain ⟨-, -, -, -, husr, -, -⟩ := broadcasting_eq_some.mp hb
    have hstored := hbr.users u usr husr
    refine ⟨?_, turn_sent hb hnicks hsend⟩
    have hposts : attempts env s.hub =
        ((iterate env usr.buddies).filterMap (post s.hub u usr coords)).map Mail.output := by
      obtain ⟨h', htrace, -, -⟩ := sendTrace_of_all_sent husr hnicks hsend coords
      simp only [attempts, hb, htrace]
    rw [hposts]
    exact posts_once hbr.wellFormed hstored.buddies env u coords

theorem sharing_broadcasts : ∃ s u usr coords, run Chronicle.step .boot sharing = some s ∧
    broadcasting s.hub = some (u, usr, coords) ∧ 0 < (recipients s.hub usr).length := by
  have hs : ∃ s, run Chronicle.step .boot sharing = some s ∧
      ((broadcasting s.hub).any fun b => 0 < (recipients s.hub b.2.1).length) = true :=
    ⟨_, rfl, by decide +kernel⟩
  obtain ⟨s, hr, hany⟩ := hs
  obtain ⟨⟨u, usr, coords⟩, hb, hpos⟩ := (Option.any_eq_true _ _).mp hany
  exact ⟨s, u, usr, coords, hr, hb, of_decide_eq_true hpos⟩

theorem send_failures_iff_sharing : ∃ s u usr coords,
    run Chronicle.step .boot sharing = some s ∧ 0 < (recipients s.hub usr).length ∧
      Undeterred sending s.hub u usr coords := by
  obtain ⟨s, u, usr, coords, hr, hb, hpos⟩ := sharing_broadcasts
  exact ⟨s, u, usr, coords, hr, hpos, (send_failures_iff hr hb sending).mpr fun _ _ => rfl⟩

/-- The first datagram of a turn cannot be sent. -/
def unreachable : Env := { (default : Env) with sendto := fun k => k ≠ 0 }

theorem send_failures_counterexample : ¬∀ {s : Chronicle} {calls : List (Event × Env)},
    run Chronicle.step .boot calls = some s → ∀ {u usr coords},
      broadcasting s.hub = some (u, usr, coords) → ∀ env, Undeterred env s.hub u usr coords := by
  intro hall
  obtain ⟨s, u, usr, coords, hr, hb, hpos⟩ := sharing_broadcasts
  have hbr := Broadcastable.of_run hr
  have hnicks := hbr.wellFormed.nicksFound hbr.nicks
  have hfail : ¬unreachable.sendto 0 = true := by decide
  obtain ⟨h', usr', hs, -, -, -⟩ := (hall hr hb unreachable).goesOn
  rw [turn_failed hb hnicks hpos hfail] at hs
  cases hs

end Gpshub
