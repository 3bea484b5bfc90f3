import Gpshub.Lib.Fifo
import Gpshub.Lib.Machine
import Gpshub.Util.CircularBuffer

/-! Sequences of calls of a `CircularBuffer`, and the queue it is while they keep to the room
and to the bytes there are. -/
namespace Gpshub.CircularBuffer

open Lib Machine

abbrev Call := Fifo.Call UInt8

abbrev Answer := Fifo.Answer UInt8

/-- One call, with what it returns and the bytes it copies out. -/
def call (c : CircularBuffer) : Call → Except Abort (CircularBuffer × Answer)
  | .add bytes => do
    let (c, n) ← c.add bytes
    return (c, .added n)
  | .get len => do
    let (c, bytes) ← c.get len
    return (c, .got bytes.length bytes)
  | .read len => do
    let bytes ← c.read len
    return (c, .got bytes.length bytes)
  | .size => .ok (c, .size c.size.toInt)

/-- The buffer after a call; `none` when the call left the array. -/
def step (c : CircularBuffer) (k : Call) : Option CircularBuffer :=
  (c.call k).toOption.map Prod.fst

theorem step_eq {c c' : CircularBuffer} {k : Call} {a : Answer} (h : c.call k = .ok (c', a)) :
    c.step k = some c' := by
  rw [step, h]
  rfl

/-- The call asks for no more than there is: `add` for the room left, `get` and `read` for
the bytes held. -/
def Within (c : CircularBuffer) : Call → Prop
  | .add bytes => (bytes.length : ℤ) ≤ c.capacity.toInt - c.size.toInt
  | .get len => (len : ℤ) ≤ c.size.toInt
  | .read len => (len : ℤ) ≤ c.size.toInt
  | .size => True

instance (c : CircularBuffer) : (k : Call) → Decidable (Within c k)
  | .add bytes => inferInstanceAs (Decidable ((bytes.length : ℤ) ≤ _))
  | .get len => inferInstanceAs (Decidable ((len : ℤ) ≤ _))
  | .read len => inferInstanceAs (Decidable ((len : ℤ) ≤ _))
  | .size => inferInstanceAs (Decidable True)

/-- The bytes held, the oldest first. -/
def unread (c : CircularBuffer) : List UInt8 :=
  (List.range c.size.toNatClampNeg).map fun i =>
    byteAt c.buf ((c.start + Int32.ofNat i) % c.capacity).toNatClampNeg

section Ring

variable {c : CircularBuffer} {cap taken : ℕ} {s : List UInt8}

theorem Ring.capacity_eq (h : Ring c cap s taken) : c.capacity.toInt = cap := by
  rw [h.capacity, Int32.toInt_ofNat_of_lt h.small]

theorem Ring.size_eq (h : Ring c cap s taken) : c.size.toInt = (s.length - taken : ℕ) := by
  have hroom := h.room
  have hsmall := h.small
  rw [size, h.count, Int32.toInt_ofNat_of_lt (by omega)]

theorem Ring.size_nat (h : Ring c cap s taken) : c.size.toNatClampNeg = s.length - taken := by
  rw [← Int32.toNat_toInt, h.size_eq, Int.toNat_natCast]

theorem Ring.unread_eq (h : Ring c cap s taken) : c.unread = s.drop taken := by
  have hcell (i : ℕ) (hi : i < s.length - taken) :
      byteAt c.buf ((c.start + Int32.ofNat i) % c.capacity).toNatClampNeg =
        byteAt s (taken + i) := by
    have hp : (taken + i) % cap < 2 ^ 31 := (Nat.mod_lt _ h.pos).trans h.small
    have hroom := h.room
    rw [h.index_eq (h.indexable _ (by omega)), Int32.toNatClampNeg_ofNat_of_lt hp,
      h.memory.2 (taken + i) (by omega) (by omega)]
  have hlen : c.unread.length = (s.drop taken).length := by
    rw [unread, List.length_map, List.length_range, List.length_drop, h.size_nat]
  refine List.ext_getElem hlen fun i hi hi' => ?_
  rw [List.length_drop] at hi'
  simp only [unread, List.getElem_map, List.getElem_range, List.getElem_drop]
  rw [hcell i hi', byteAt, List.getD_eq_getElem?_getD, List.getElem?_eq_getElem (by omega)]
  rfl

theorem ring_new {memory : List UInt8} (hpos : 0 < cap) (hsmall : cap < 2 ^ 31)
    (hmem : memory.length = cap) : Ring (new (Int32.ofNat cap) memory) cap [] 0 :=
  (holds_new hpos hsmall hmem).ring

/-- A call within the bounds does what the same call of the queue does. -/
theorem Ring.call_eq (h : Ring c cap s taken) {k : Call} (hk : Within c k)
    (hindex : ∀ p < s.length + k.given.length, Indexable cap p) :
    ∃ c', c.call k = .ok (c', (Fifo.call (s.drop taken) k).2) ∧
      Ring c' cap (s ++ k.given) (taken + k.taken) ∧
      (Fifo.call (s.drop taken) k).1 = (s ++ k.given).drop (taken + k.taken) := by
  have horder := h.order
  have hroom := h.room
  have hs : s ++ [] = s := List.append_nil s
  cases k with
  | add bytes =>
    change (bytes.length : ℤ) ≤ _ at hk
    rw [h.capacity_eq, h.size_eq] at hk
    obtain ⟨c', hadd, h'⟩ := h.add_eq bytes (by omega) hindex
    refine ⟨c', by rw [call, hadd]; rfl, h', ?_⟩
    exact (List.drop_append_of_le_length horder).symm
  | get len =>
    change (len : ℤ) ≤ _ at hk
    rw [h.size_eq] at hk
    obtain ⟨c', hget, h'⟩ := h.get_eq (show taken + len ≤ s.length by omega)
    have hl : ((s.drop taken).take len).length = len := by simp; omega
    refine ⟨c', ?_, hs.symm ▸ h', ?_⟩
    · rw [call, hget]
      change Except.ok (c', Fifo.Answer.got ((s.drop taken).take len).length _) = _
      rw [hl]
      rfl
    · change (s.drop taken).drop len = (s ++ []).drop (taken + len)
      rw [hs, List.drop_drop]
  | read len =>
    change (len : ℤ) ≤ _ at hk
    rw [h.size_eq] at hk
    have hread : c.read len = .ok ((s.drop taken).take len) := h.copyLoop_eq len 0 (by omega)
    have hl : ((s.drop taken).take len).length = len := by simp; omega
    refine ⟨c, ?_, hs.symm ▸ h, congrArg _ hs.symm⟩
    rw [call, hread]
    change Except.ok (c, Fifo.Answer.got ((s.drop taken).take len).length _) = _
    rw [hl]
    rfl
  | size =>
    refine ⟨c, ?_, hs.symm ▸ h, congrArg _ hs.symm⟩
    simp only [call, Fifo.call, h.size_eq, List.length_drop]

/-- A run within the bounds, of which the calls `ks` are still to come: `all` is what the
whole run adds and `out` how much it takes. -/
def Midway (cap : ℕ) (all : List UInt8) (out : ℕ) (ks : List Call) (c : CircularBuffer)
    (q : List UInt8) : Prop :=
  ∃ s taken, Ring c cap s taken ∧ q = s.drop taken ∧ Checked step Within c ks ∧
    s ++ Fifo.given ks = all ∧ taken + Fifo.taken ks = out

theorem Midway.next {all q : List UInt8} {out : ℕ} {k : Call} {ks : List Call}
    (hindex : ∀ p < all.length, Indexable cap p) (h : Midway cap all out (k :: ks) c q) :
    ∃ c', c.call k = .ok (c', (Fifo.call q k).2) ∧
      Midway cap all out ks c' (Fifo.call q k).1 := by
  obtain ⟨s, taken, hring, rfl, hwithin, rfl, rfl⟩ := h
  have hk : ∀ p < s.length + k.given.length, Indexable cap p := fun p hp =>
    hindex p (by simp only [Fifo.given_cons, List.length_append]; omega)
  obtain ⟨c', hcall, hring', hq⟩ := hring.call_eq hwithin.1 hk
  refine ⟨c', hcall, _, _, hring', hq, hwithin.2 c' (step_eq hcall), ?_, ?_⟩
  · rw [Fifo.given_cons, List.append_assoc]
  · rw [Fifo.taken_cons, Nat.add_assoc]

/-- A new buffer answers as a queue does, and holds the same bytes: all that were added
without those that were taken. -/
theorem new_plays_queue {memory : List UInt8} {calls : List Call} (hpos : 0 < cap)
    (hsmall : cap < 2 ^ 31) (hmem : memory.length = cap)
    (hwithin : Checked step Within (new (Int32.ofNat cap) memory) calls)
    (htotal : (Fifo.given calls).length < 2 ^ 31) :
    ∃ c, Fifo.playOn call (new (Int32.ofNat cap) memory) calls =
        .ok (c, (Fifo.play [] calls).2) ∧
      c.unread = (Fifo.play [] calls).1 ∧
      c.size.toInt = (Fifo.given calls).length - Fifo.taken calls := by
  have hindex : ∀ p < (Fifo.given calls).length, Indexable cap p := fun p hp =>
    .of_lt (hp.trans htotal)
  have hstart : Midway cap (Fifo.given calls) (Fifo.taken calls) calls
      (new (Int32.ofNat cap) memory) [] :=
    ⟨[], 0, ring_new hpos hsmall hmem, rfl, hwithin, rfl, Nat.zero_add _⟩
  obtain ⟨c, hplay, hend⟩ := Fifo.playOn_eq
    (fun k ks c q (h : Midway cap _ _ (k :: ks) c q) => h.next hindex) hstart
  obtain ⟨s, taken, hring, hq, -, hs, ht⟩ := hend
  rw [Fifo.given_nil, List.append_nil] at hs
  rw [Fifo.taken_nil, Nat.add_zero] at ht
  have horder := hring.order
  refine ⟨c, hplay, by rw [hring.unread_eq, hq], ?_⟩
  rw [hring.size_eq, ← hs, ← ht]
  omega

theorem new_plays_queue_wrapped :
    let calls : List Call := [.add [1, 2], .get 1, .add [3, 4], .read 3, .size]
    Checked step Within (new 3 [0, 0, 0]) calls ∧
    ∃ c, Fifo.playOn call (new 3 [0, 0, 0]) calls =
        .ok (c, [.added 2, .got 1 [1], .added 2, .got 3 [2, 3, 4], .size 3]) ∧
      c.unread = [2, 3, 4] ∧ c.size.toInt = (4 : ℕ) - (1 : ℕ) :=
  have hwithin : Checked step Within (new 3 [0, 0, 0])
      [.add [1, 2], .get 1, .add [3, 4], .read 3, .size] := by decide +kernel
  ⟨hwithin, new_plays_queue (by decide) (by decide) rfl hwithin (by decide)⟩

end Ring

end Gpshub.CircularBuffer
