import Mathlib.Algebra.BigOperators.Group.Finset.Piecewise
import Mathlib.Algebra.Order.BigOperators.Group.Finset
import Mathlib.Data.Set.Insert

/-! A mailbox of two slots. One producer writes packages to the empty slot, field by field,
and publishes a package when no other is ready; a token then lets one of the consumers copy
it, again field by field, and make the mailbox free. -/
namespace Lib.Handover

inductive Side
  | one
  | two
  deriving DecidableEq

def Side.other : Side → Side
  | .one => .two
  | .two => .one

theorem Side.other_ne (c : Side) : c.other ≠ c := by
  cases c <;> decide

/-- Where the producer is. `done` are the fields of the package it has written. -/
inductive Producer (F W : Type*)
  | idle
  | writing (v : F → W) (done : Set F)
  | publishing (v : F → W)
  | swapping
  | putting

/-- Where a consumer is. `got` are the fields it has copied. -/
inductive Consumer (F W : Type*)
  | away
  | holding
  | copying (c : Side) (got : F → Option W)
  | busy

namespace Consumer

variable {F W : Type*}

/-- Whether the consumer has the token. -/
def held : Consumer F W → ℕ
  | away => 0
  | _ => 1

theorem held_pos {c : Consumer F W} (h : c ≠ away) : c.held = 1 := by
  cases c with
  | away => exact absurd rfl h
  | holding | copying | busy => rfl

end Consumer

/-- The token is on its way from the producer to the queue. -/
def Producer.held {F W : Type*} : Producer F W → ℕ
  | swapping => 1
  | putting => 1
  | _ => 0

@[ext] structure Mailbox (F W ι : Type*) where
  slot : Side → F → W
  empty : Side
  ready : Option Side
  producer : Producer F W
  /-- How often the mailbox is on the queue of the consumers. -/
  tokens : ℕ
  consumer : ι → Consumer F W
  /-- All packages that came, and whether each was published. -/
  accepted : List ((F → W) × Bool)
  sent : List (F → W)

variable {F W ι : Type*}

theorem sum_update {β : Type*} [Fintype ι] [DecidableEq ι] (g : β → ℕ) (f : ι → β) (j : ι)
    (b : β) : ∑ k, g (Function.update f j b k) + g (f j) = ∑ k, g (f k) + g b := by
  have hsum := Finset.sum_update_of_mem (Finset.mem_univ j) (fun k => g (f k)) (g b)
  have hcomp : (fun k => g (Function.update f j b k)) =
      Function.update (fun k => g (f k)) j (g b) := Function.comp_update g f j b
  have hall := Finset.add_sum_erase Finset.univ (fun k => g (f k)) (Finset.mem_univ j)
  rw [hcomp, hsum, ← hall, Finset.sdiff_singleton_eq_erase]
  omega

/-- The packages that were published. -/
def published (m : Mailbox F W ι) : List (F → W) := (m.accepted.filter (·.2)).map (·.1)

section Invariant

variable [Fintype ι] {m : Mailbox F W ι}

/-- How many consumers have the token. -/
def holders (m : Mailbox F W ι) : ℕ := ∑ j, (m.consumer j).held

structure Inv (m : Mailbox F W ι) : Prop where
  /-- There is one token while a package is ready, and none otherwise. -/
  count : m.tokens + holders m + m.producer.held = if m.ready = none then 0 else 1
  written : ∀ v done, m.producer = .writing v done → ∀ f ∈ done, m.slot m.empty f = v f
  filled : ∀ v, m.producer = .publishing v → m.ready = none ∧ m.slot m.empty = v
  swapped : m.producer = .swapping → m.ready = some m.empty
  apart : m.producer ≠ .swapping → m.ready ≠ some m.empty
  copied : ∀ j c got, m.consumer j = .copying c got → m.ready = some c ∧
    ∀ f w, got f = some w → m.slot c f = w
  /-- Until a consumer calls, the ready package is still to be sent. -/
  waiting : (∀ j, m.consumer j ≠ .busy) →
    published m = m.sent ++ (m.ready.map m.slot).toList
  called : ∀ j, m.consumer j = .busy → published m = m.sent

theorem holders_update [DecidableEq ι] (m : Mailbox F W ι) (j : ι) (c : Consumer F W) :
    ∑ k, (Function.update m.consumer j c k).held + (m.consumer j).held = holders m + c.held :=
  sum_update Consumer.held m.consumer j c

namespace Inv

theorem sole [DecidableEq ι] (h : Inv m) {j k : ι} (hj : m.consumer j ≠ .away) (hk : m.consumer k ≠ .away) :
    j = k := by
  by_contra hne
  have hsum := Finset.add_sum_erase Finset.univ (fun k => (m.consumer k).held) (Finset.mem_univ j)
  have hk' := Finset.single_le_sum (f := fun k => (m.consumer k).held) (fun _ _ => Nat.zero_le _)
    (Finset.mem_erase.mpr ⟨Ne.symm hne, Finset.mem_univ k⟩)
  have hc := h.count
  simp only [Consumer.held_pos hj] at hsum
  simp only [Consumer.held_pos hk] at hk'
  unfold holders at hc
  split_ifs at hc <;> omega

theorem ready_of_held (h : Inv m) {j : ι} (hj : m.consumer j ≠ .away) : m.ready ≠ none := by
  intro hr
  have hle := Finset.single_le_sum (f := fun k => (m.consumer k).held) (fun _ _ => Nat.zero_le _)
    (Finset.mem_univ j)
  simp only [Consumer.held_pos hj] at hle
  have hc := h.count
  rw [if_pos hr] at hc
  unfold holders at hc
  omega

theorem away_of_free (h : Inv m) (hr : m.ready = none) (j : ι) : m.consumer j = .away := by
  by_contra hj
  exact h.ready_of_held hj hr

end Inv

end Invariant

inductive Step [DecidableEq F] [DecidableEq ι] (m : Mailbox F W ι) : Mailbox F W ι → Prop
  | start (v : F → W) (hp : m.producer = .idle) :
    Step m { m with producer := .writing v ∅ }
  | write (v : F → W) (done : Set F) (f : F) (hp : m.producer = .writing v done) :
    Step m { m with
      slot := Function.update m.slot m.empty (Function.update (m.slot m.empty) f (v f))
      producer := .writing v (insert f done) }
  | skip (v : F → W) (done : Set F) (hp : m.producer = .writing v done) (hd : ∀ f, f ∈ done)
      (hr : m.ready ≠ none) :
    Step m { m with producer := .idle, accepted := m.accepted ++ [(v, false)] }
  | decide (v : F → W) (done : Set F) (hp : m.producer = .writing v done) (hd : ∀ f, f ∈ done)
      (hr : m.ready = none) :
    Step m { m with producer := .publishing v }
  | publish (v : F → W) (hp : m.producer = .publishing v) :
    Step m { m with
      ready := some m.empty
      producer := .swapping
      accepted := m.accepted ++ [(v, true)] }
  | swap (hp : m.producer = .swapping) :
    Step m { m with empty := m.empty.other, producer := .putting }
  | put (hp : m.producer = .putting) :
    Step m { m with tokens := m.tokens + 1, producer := .idle }
  | pull (j : ι) (hj : m.consumer j = .away) (ht : 0 < m.tokens) :
    Step m { m with
      tokens := m.tokens - 1
      consumer := Function.update m.consumer j .holding }
  | load (j : ι) (c : Side) (hj : m.consumer j = .holding) (hr : m.ready = some c) :
    Step m { m with consumer := Function.update m.consumer j (.copying c fun _ => none) }
  | miss (j : ι) (hj : m.consumer j = .holding) (hr : m.ready = none) :
    Step m { m with consumer := Function.update m.consumer j .away }
  | copy (j : ι) (c : Side) (got : F → Option W) (f : F)
      (hj : m.consumer j = .copying c got) :
    Step m { m with
      consumer := Function.update m.consumer j
        (.copying c (Function.update got f (some (m.slot c f)))) }
  | call (j : ι) (c : Side) (got : F → Option W) (v : F → W)
      (hj : m.consumer j = .copying c got) (hv : ∀ f, got f = some (v f)) :
    Step m { m with
      consumer := Function.update m.consumer j .busy
      sent := m.sent ++ [v] }
  | reset (j : ι) (hj : m.consumer j = .busy) :
    Step m { m with
      ready := none
      consumer := Function.update m.consumer j .away }

section Steps

variable [Fintype ι] {m m' : Mailbox F W ι}

namespace Inv

section Moves

variable [DecidableEq ι]

private theorem copied_update (h : Inv m) (j : ι) {x : Consumer F W}
    (hx : ∀ c got, x = .copying c got → m.ready = some c ∧
      ∀ f w, got f = some w → m.slot c f = w) :
    ∀ k c got, Function.update m.consumer j x k = .copying c got → m.ready = some c ∧
      ∀ f w, got f = some w → m.slot c f = w := by
  intro k c got hk
  by_cases hkj : k = j
  · subst hkj
    rw [Function.update_self] at hk
    exact hx c got hk
  · rw [Function.update_of_ne hkj] at hk
    exact h.copied k c got hk

private theorem called_update (h : Inv m) (j : ι) {x : Consumer F W} (hx : x ≠ .busy) :
    ∀ k, Function.update m.consumer j x k = .busy → published m = m.sent := by
  intro k hk
  by_cases hkj : k = j
  · subst hkj
    rw [Function.update_self] at hk
    exact absurd hk hx
  · rw [Function.update_of_ne hkj] at hk
    exact h.called k hk

private theorem waiting_update (h : Inv m) {j : ι} (hj : m.consumer j ≠ .busy)
    {x : Consumer F W} (hno : ∀ k, Function.update m.consumer j x k ≠ .busy) :
    published m = m.sent ++ (m.ready.map m.slot).toList := by
  refine h.waiting fun k hk => ?_
  by_cases hkj : k = j
  · exact hj (hkj ▸ hk)
  · exact hno k ((Function.update_of_ne hkj ..).trans hk)

private theorem goOn (h : Inv m) {j : ι} {c : Side} {got : F → Option W}
    (hj : m.consumer j ≠ .away) (hb : m.consumer j ≠ .busy) (hr : m.ready = some c)
    (hgot : ∀ f w, got f = some w → m.slot c f = w) :
    Inv { m with consumer := Function.update m.consumer j (.copying c got) } where
  count := by
    have hu := holders_update m j (.copying c got)
    have hc := h.count
    rw [Consumer.held_pos hj] at hu
    change m.tokens + ∑ k, _ + m.producer.held = _
    rw [Nat.add_right_cancel hu]
    exact hc
  written := h.written
  filled := h.filled
  swapped := h.swapped
  apart := h.apart
  copied := h.copied_update j fun d got' he => by
    cases he
    exact ⟨hr, hgot⟩
  waiting := h.waiting_update hb
  called := h.called_update j nofun

private theorem call (h : Inv m) {j : ι} {c : Side} {got : F → Option W} {v : F → W}
    (hj : m.consumer j = .copying c got) (hv : ∀ f, got f = some (v f)) :
    Inv { m with
      consumer := Function.update m.consumer j .busy
      sent := m.sent ++ [v] } := by
  obtain ⟨hr, hgot⟩ := h.copied j c got hj
  have hjaway : m.consumer j ≠ .away := by rw [hj]; nofun
  have hwhole : m.slot c = v := funext fun f => hgot f (v f) (hv f)
  have hnobusy (k : ι) : m.consumer k ≠ .busy := by
    intro hk
    cases h.sole hjaway (show m.consumer k ≠ .away by rw [hk]; nofun)
    rw [hj] at hk
    cases hk
  have hpub : published m = m.sent ++ [v] := by
    rw [h.waiting hnobusy, hr, ← hwhole]
    rfl
  exact {
    count := by
      have hu := holders_update m j .busy
      have hc := h.count
      rw [Consumer.held_pos hjaway] at hu
      change m.tokens + ∑ k, _ + m.producer.held = _
      rw [Nat.add_right_cancel hu]
      exact hc
    written := h.written
    filled := h.filled
    swapped := h.swapped
    apart := h.apart
    copied := h.copied_update j nofun
    waiting := fun hno => absurd (Function.update_self ..) (hno j)
    called := fun _ _ => hpub }

private theorem reset (h : Inv m) {j : ι} (hj : m.consumer j = .busy) :
    Inv { m with ready := none, consumer := Function.update m.consumer j .away } := by
  have hjaway : m.consumer j ≠ .away := by rw [hj]; nofun
  have haway (k : ι) : Function.update m.consumer j .away k = .away := by
    by_cases hkj : k = j
    · subst hkj
      exact Function.update_self ..
    · rw [Function.update_of_ne hkj]
      by_contra hk
      exact hkj (h.sole hk hjaway)
  have hc := h.count
  rw [if_neg (h.ready_of_held hjaway)] at hc
  have hu := holders_update m j .away
  rw [Consumer.held_pos hjaway] at hu
  change _ = holders m + 0 at hu
  have hfree : m.producer.held = 0 := by omega
  exact {
    count := by
      change m.tokens + ∑ k, (Function.update m.consumer j .away k).held + m.producer.held = 0
      omega
    written := h.written
    filled := fun v hp => ⟨rfl, (h.filled v hp).2⟩
    swapped := fun hp => by
      change m.producer = .swapping at hp
      rw [hp] at hfree
      cases hfree
    apart := fun _ => nofun
    copied := fun k c got hk => nomatch (haway k).symm.trans hk
    waiting := fun _ => by
      change published m = m.sent ++ []
      rw [h.called j hj, List.append_nil]
    called := fun k hk => nomatch (haway k).symm.trans hk }

private theorem pull (h : Inv m) {j : ι} (hj : m.consumer j = .away) (ht : 0 < m.tokens) :
    Inv { m with
      tokens := m.tokens - 1
      consumer := Function.update m.consumer j .holding } where
  count := by
    have hu := holders_update m j .holding
    have hc := h.count
    rw [hj] at hu
    change _ + 0 = holders m + 1 at hu
    change m.tokens - 1 + ∑ k, (Function.update m.consumer j .holding k).held +
      m.producer.held = if m.ready = none then 0 else 1
    omega
  written := h.written
  filled := h.filled
  swapped := h.swapped
  apart := h.apart
  copied := h.copied_update j nofun
  waiting := h.waiting_update (by rw [hj]; nofun)
  called := h.called_update j nofun

end Moves

private theorem write [DecidableEq F] (h : Inv m) {v : F → W} {done : Set F} (f : F)
    (hp : m.producer = .writing v done) :
    Inv { m with
      slot := Function.update m.slot m.empty (Function.update (m.slot m.empty) f (v f))
      producer := .writing v (insert f done) } where
  count := by
    have hc := h.count
    rw [hp] at hc
    exact hc
  written := by
    intro w done' hw g hg
    cases hw
    change Function.update m.slot m.empty _ m.empty g = v g
    rw [Function.update_self]
    by_cases hgf : g = f
    · subst hgf
      exact Function.update_self ..
    · rw [Function.update_of_ne hgf]
      exact h.written v done hp g ((Set.mem_insert_iff.mp hg).resolve_left hgf)
  filled := nofun
  swapped := nofun
  apart := fun _ => h.apart (by rw [hp]; nofun)
  copied := by
    intro j c got hj
    obtain ⟨hr, hgot⟩ := h.copied j c got hj
    have hce : c ≠ m.empty := by
      rintro rfl
      exact h.apart (by rw [hp]; nofun) hr
    refine ⟨hr, fun g w hw => ?_⟩
    change Function.update m.slot m.empty _ c g = w
    rw [Function.update_of_ne hce]
    exact hgot g w hw
  waiting := by
    intro hno
    have hw := h.waiting hno
    cases hr : m.ready with
    | none =>
      rw [hr] at hw
      exact hw
    | some c =>
      rw [hr] at hw
      have hce : c ≠ m.empty := by
        rintro rfl
        exact h.apart (by rw [hp]; nofun) hr
      change published m = m.sent ++ [Function.update m.slot m.empty _ c]
      rw [Function.update_of_ne hce]
      exact hw
  called := h.called

private theorem publish (h : Inv m) {v : F → W} (hp : m.producer = .publishing v) :
    Inv { m with
      ready := some m.empty
      producer := .swapping
      accepted := m.accepted ++ [(v, true)] } := by
  obtain ⟨hr, hv⟩ := h.filled v hp
  have haway (j : ι) := h.away_of_free hr j
  have hc := h.count
  rw [hp, if_pos hr] at hc
  have hpub : ((m.accepted ++ [(v, true)]).filter (·.2)).map (·.1) = published m ++ [v] := by
    simp [published]
  have hw := h.waiting fun j hj => by rw [haway j] at hj; cases hj
  rw [hr] at hw
  exact {
    count := by
      change m.tokens + holders m + 1 = 1
      exact congrArg (· + 1) hc
    written := nofun
    filled := nofun
    swapped := fun _ => rfl
    apart := fun hne => absurd rfl hne
    copied := fun j c got hj => nomatch (haway j).symm.trans hj
    waiting := fun _ => by
      change ((m.accepted ++ [(v, true)]).filter (·.2)).map (·.1) = m.sent ++ [m.slot m.empty]
      rw [hpub, hw, hv]
      simp
    called := fun j hj => nomatch (haway j).symm.trans hj }

/-- The producer passes on to a phase in which it has written nothing. -/
private theorem producer_move (h : Inv m) {p : Producer F W}
    (hp : p.held = m.producer.held) (hns : m.producer ≠ .swapping) (hs : p ≠ .swapping)
    (hw : ∀ v done, p = .writing v done → done = ∅)
    (hf : ∀ v, p = .publishing v → m.ready = none ∧ m.slot m.empty = v) (l : List (F → W)) :
    Inv { m with producer := p, accepted := m.accepted ++ l.map (·, false) } := by
  have hpub : ((m.accepted ++ l.map (·, false)).filter (·.2)).map (·.1) = published m := by
    simp [published]
  exact {
    count := by
      change m.tokens + holders m + p.held = _
      rw [hp]
      exact h.count
    written := fun v done hpw f hfd => by
      rw [hw v done hpw] at hfd
      cases hfd
    filled := hf
    swapped := fun he => absurd he hs
    apart := fun _ => h.apart hns
    copied := h.copied
    waiting := fun hno => hpub.trans (h.waiting hno)
    called := fun j hj => hpub.trans (h.called j hj) }

theorem step [DecidableEq F] [DecidableEq ι] (hs : Step m m') (h : Inv m) : Inv m' := by
  cases hs with
  | start v hp =>
    have hm := h.producer_move (p := .writing v ∅) (by rw [hp]; rfl) (by rw [hp]; nofun) nofun
      (fun _ _ he => by cases he; rfl) nofun []
    rwa [List.map_nil, List.append_nil] at hm
  | write v done f hp => exact h.write f hp
  | skip v done hp hd hr =>
    exact h.producer_move (p := .idle) (by rw [hp]; rfl) (by rw [hp]; nofun) nofun nofun nofun [v]
  | decide v done hp hd hr =>
    have hv : m.slot m.empty = v := funext fun f => h.written v done hp f (hd f)
    have hm := h.producer_move (p := .publishing v) (by rw [hp]; rfl) (by rw [hp]; nofun) nofun
      nofun (fun _ he => by cases he; exact ⟨hr, hv⟩) []
    rwa [List.map_nil, List.append_nil] at hm
  | publish v hp => exact h.publish hp
  | swap hp =>
    have hr := h.swapped hp
    have hc := h.count
    rw [hp] at hc
    exact {
      count := hc
      written := nofun
      filled := nofun
      swapped := nofun
      apart := fun _ he => by
        change m.ready = some m.empty.other at he
        rw [hr] at he
        exact Side.other_ne _ (Option.some.inj he).symm
      copied := h.copied
      waiting := h.waiting
      called := h.called }
  | put hp =>
    have hc := h.count
    rw [hp] at hc
    exact {
      count := by
        change m.tokens + 1 + holders m + 0 = if m.ready = none then 0 else 1
        change m.tokens + holders m + 1 = _ at hc
        omega
      written := nofun
      filled := nofun
      swapped := nofun
      apart := fun _ => h.apart (by rw [hp]; nofun)
      copied := h.copied
      waiting := h.waiting
      called := h.called }
  | pull j hj ht => exact h.pull hj ht
  | load j c hj hr => exact h.goOn (by rw [hj]; nofun) (by rw [hj]; nofun) hr nofun
  | miss j hj hr => exact absurd hr (h.ready_of_held (by rw [hj]; nofun))
  | copy j c got f hj =>
    obtain ⟨hr, hgot⟩ := h.copied j c got hj
    refine h.goOn (by rw [hj]; nofun) (by rw [hj]; nofun) hr fun g w hg => ?_
    by_cases hgf : g = f
    · subst hgf
      rw [Function.update_self] at hg
      exact Option.some.inj hg
    · rw [Function.update_of_ne hgf] at hg
      exact hgot g w hg
  | call j c got v hj hv => exact h.call hj hv
  | reset j hj => exact h.reset hj

theorem free (hr : m.ready = none) (ht : m.tokens = 0) (hp : m.producer = .idle)
    (haway : ∀ j, m.consumer j = .away) (hlog : published m = m.sent) : Inv m where
  count := by
    have hh : holders m = 0 := Finset.sum_eq_zero fun j _ => by rw [haway j]; rfl
    rw [ht, hh, hp, if_pos hr]
    rfl
  written := fun _ _ he => nomatch hp.symm.trans he
  filled := fun _ he => nomatch hp.symm.trans he
  swapped := fun he => nomatch hp.symm.trans he
  apart := fun _ => by rw [hr]; nofun
  copied := fun j _ _ hj => nomatch (haway j).symm.trans hj
  waiting := fun _ => by rw [hr, hlog]; exact (List.append_nil _).symm
  called := fun j hj => nomatch (haway j).symm.trans hj

/-- What was sent are published packages, in order, none of them twice. -/
theorem sent_prefix (h : Inv m) : m.sent <+: published m := by
  by_cases hb : ∃ j, m.consumer j = .busy
  · obtain ⟨j, hj⟩ := hb
    rw [h.called j hj]
  · rw [h.waiting (not_exists.mp hb)]
    exact List.prefix_append ..

theorem sent_all (h : Inv m) (ht : m.tokens = 0) (hp : m.producer.held = 0)
    (haway : ∀ j, m.consumer j = .away) : m.sent = published m := by
  have hc := h.count
  have hh : holders m = 0 := Finset.sum_eq_zero fun j _ => by rw [haway j]; rfl
  have hr : m.ready = none := by
    by_contra hr
    rw [if_neg hr] at hc
    omega
  have hw := h.waiting fun j hj => nomatch (haway j).symm.trans hj
  rw [hr] at hw
  exact (hw.trans (List.append_nil _)).symm

end Inv

end Steps

theorem published_sublist (m : Mailbox F W ι) : (published m).Sublist (m.accepted.map (·.1)) :=
  List.Sublist.map _ List.filter_sublist

end Lib.Handover
