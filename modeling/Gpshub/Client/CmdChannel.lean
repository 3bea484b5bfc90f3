import Gpshub.Server.CmdPkg
import Mathlib.Algebra.BigOperators.Group.List.Basic
import Mathlib.Logic.Function.Basic

/-! How the Python client reads a `BUDDIES_IDS` package. -/
namespace Gpshub.CmdChannel

/-- `struct.unpack('!I', data[offset : offset + 4])[0]`; `none` is a `struct.error`. -/
def unpackUInt (data : List UInt8) (offset : ℕ) : Option UInt32 :=
  if offset + 4 ≤ data.length then some (touint data offset) else none

/-- `while i < data_len and data[i] != 0: i += 1`, with `left` for `data_len - i`; `none` is an
`IndexError`. -/
def skipName (data : List UInt8) : ℕ → ℕ → Option ℕ
  | 0, i => some i
  | left + 1, i => do
    let b ← data[i]?
    if b ≠ 0 then skipName data left (i + 1) else some i

/-- The loop of `__decode_buddies_ids` for at most `rounds` rounds. -/
def decodeLoop (data : List UInt8) (dataLen : ℕ) :
    ℕ → ℕ → (UInt32 → Option Nick) → Option (UInt32 → Option Nick)
  | 0, _, _ => none
  | rounds + 1, offset, buddies =>
    if offset < dataLen then do
      let uid ← unpackUInt data offset
      let offset := offset + 4
      let i ← skipName data (dataLen - offset) offset
      let buddy := (data.drop offset).take (i - offset)
      decodeLoop data dataLen rounds (i + 1) (Function.update buddies uid (some buddy))
    else some buddies

/-- `__decode_buddies_ids`: the ids with their nicks. A round moves `offset` on, so that no
more rounds are needed. -/
def decodeBuddiesIds (len : UInt16) (data : List UInt8) : Option (UInt32 → Option Nick) :=
  let dataLen := len.toNat - 3
  decodeLoop data dataLen (dataLen + 1) 0 fun _ => none

/-- An id with its nick, as they stand in the package. -/
def entry (e : UInt32 × Nick) : List UInt8 := intBytes e.1 ++ (e.2 ++ [0])

/-- `buddies[uid] = buddy`, for one entry after the other. -/
def assign (buddies : UInt32 → Option Nick) (entries : List (UInt32 × Nick)) :
    UInt32 → Option Nick :=
  entries.foldl (fun buddies e => Function.update buddies e.1 (some e.2)) buddies

theorem skipName_eq (name : Nick) : ∀ (pre post : List UInt8) (left : ℕ), 0 ∉ name →
    name.length < left →
    skipName (pre ++ (name ++ 0 :: post)) left pre.length = some (pre.length + name.length) := by
  induction name with
  | nil =>
    intro pre post left _ hleft
    obtain ⟨left, rfl⟩ := Nat.exists_eq_succ_of_ne_zero (Nat.ne_of_gt hleft)
    simp [skipName]
  | cons b name ih =>
    intro pre post left hzero hleft
    obtain ⟨left, rfl⟩ := Nat.exists_eq_succ_of_ne_zero (Nat.ne_of_gt (Nat.zero_lt_of_lt hleft))
    have hb : b ≠ 0 := fun hb => hzero (hb ▸ List.mem_cons_self)
    have hname : 0 ∉ name := fun hmem => hzero (List.mem_cons_of_mem b hmem)
    have hrest := ih (pre ++ [b]) post left hname (Nat.lt_of_succ_lt_succ hleft)
    simp only [List.append_assoc, List.singleton_append, List.length_append,
      List.length_singleton] at hrest
    simp only [skipName, List.cons_append, List.getElem?_append_right (le_refl _),
      Nat.sub_self, List.getElem?_cons_zero, Option.bind_eq_bind, Option.bind_some, hb, ne_eq,
      not_false_eq_true, if_true, hrest, List.length_cons]
    congr 1
    omega

theorem decodeLoop_entry (pre post : List UInt8) (e : UInt32 × Nick) (rounds : ℕ)
    (buddies : UInt32 → Option Nick) (hzero : 0 ∉ e.2) :
    decodeLoop (pre ++ (entry e ++ post)) (pre ++ (entry e ++ post)).length (rounds + 1) pre.length
        buddies =
      decodeLoop (pre ++ (entry e ++ post)) (pre ++ (entry e ++ post)).length rounds
        (pre ++ entry e).length (Function.update buddies e.1 (some e.2)) := by
  have hbytes : pre ++ (entry e ++ post) = pre ++ (intBytes e.1 ++ (e.2 ++ 0 :: post)) := by
    simp [entry]
  have hbytes' : pre ++ (entry e ++ post) = (pre ++ intBytes e.1) ++ (e.2 ++ 0 :: post) := by
    simp [entry]
  have hlen : (pre ++ (entry e ++ post)).length = pre.length + 4 + e.2.length + 1 + post.length := by
    rw [hbytes]
    simp only [List.length_append, intBytes_length, List.length_cons]
    omega
  have hpre : (pre ++ intBytes e.1).length = pre.length + 4 := by simp
  have huid : unpackUInt (pre ++ (entry e ++ post)) pre.length = some e.1 := by
    rw [unpackUInt, if_pos (by omega), hbytes, touint_intBytes]
  have hskip : skipName (pre ++ (entry e ++ post))
      ((pre ++ (entry e ++ post)).length - (pre.length + 4)) (pre.length + 4) =
        some (pre.length + 4 + e.2.length) := by
    rw [hlen, hbytes', ← hpre]
    exact skipName_eq e.2 _ post _ hzero (by omega)
  have hname : ((pre ++ (entry e ++ post)).drop (pre.length + 4)).take
      (pre.length + 4 + e.2.length - (pre.length + 4)) = e.2 := by
    rw [hbytes', ← hpre, List.drop_left, Nat.add_sub_cancel_left, List.take_left]
  have hnext : (pre ++ entry e).length = pre.length + 4 + e.2.length + 1 := by
    simp only [entry, List.length_append, intBytes_length, List.length_singleton]
    omega
  rw [decodeLoop, if_pos (by omega), huid, Option.bind_eq_bind, Option.bind_some]
  dsimp only
  rw [hskip, Option.bind_eq_bind, Option.bind_some, hname, hnext]

theorem decodeLoop_entries (entries : List (UInt32 × Nick)) :
    ∀ (pre : List UInt8) (rounds : ℕ) (buddies : UInt32 → Option Nick),
      (∀ e ∈ entries, 0 ∉ e.2) → entries.length < rounds →
      decodeLoop (pre ++ entries.flatMap entry) (pre ++ entries.flatMap entry).length rounds
        pre.length buddies = some (assign buddies entries) := by
  induction entries with
  | nil =>
    intro pre rounds buddies _ hrounds
    obtain ⟨rounds, rfl⟩ := Nat.exists_eq_succ_of_ne_zero (Nat.ne_of_gt hrounds)
    simp [decodeLoop, assign]
  | cons e entries ih =>
    intro pre rounds buddies hzero hrounds
    obtain ⟨rounds, rfl⟩ := Nat.exists_eq_succ_of_ne_zero (Nat.ne_of_gt (Nat.zero_lt_of_lt hrounds))
    rw [List.flatMap_cons, Nat.succ_eq_add_one,
      decodeLoop_entry _ _ _ _ _ (hzero e List.mem_cons_self)]
    have hrest := ih (pre ++ entry e) rounds (Function.update buddies e.1 (some e.2))
      (fun e' he' => hzero e' (List.mem_cons_of_mem e he')) (Nat.lt_of_succ_lt_succ hrounds)
    rw [List.append_assoc] at hrest
    exact hrest

theorem decodeBuddiesIds_entries {len : UInt16} {entries : List (UInt32 × Nick)}
    (hlen : len.toNat = 3 + (entries.flatMap entry).length) (hzero : ∀ e ∈ entries, 0 ∉ e.2) :
    decodeBuddiesIds len (entries.flatMap entry) = some (assign (fun _ => none) entries) := by
  have hdata : len.toNat - 3 = (entries.flatMap entry).length := by omega
  have hcount : entries.length ≤ (entries.flatMap entry).length := by
    have hmap : (entries.map fun e => (entry e).length).length = entries.length := List.length_map _
    rw [List.length_flatMap, ← hmap]
    apply List.length_le_sum_of_one_le
    intro n hn
    obtain ⟨e, -, rfl⟩ := List.mem_map.mp hn
    simp only [entry, List.length_append, intBytes_length]
    omega
  rw [decodeBuddiesIds, hdata]
  exact decodeLoop_entries entries [] _ _ hzero (Nat.lt_succ_of_le hcount)

theorem assign_eq_some {entries : List (UInt32 × Nick)} (hd : (entries.map Prod.fst).Nodup)
    {buddies : UInt32 → Option Nick} (hfree : ∀ e ∈ entries, buddies e.1 = none) {uid : UInt32}
    {nick : Nick} : assign buddies entries uid = some nick ↔
      buddies uid = some nick ∨ (uid, nick) ∈ entries := by
  induction entries generalizing buddies with
  | nil => simp [assign]
  | cons e entries ih =>
    rw [List.map_cons, List.nodup_cons] at hd
    have hother (e' : UInt32 × Nick) (he' : e' ∈ entries) : e'.1 ≠ e.1 := fun heq =>
      hd.1 (heq ▸ List.mem_map_of_mem he')
    have hfree' (e' : UInt32 × Nick) (he' : e' ∈ entries) :
        Function.update buddies e.1 (some e.2) e'.1 = none := by
      rw [Function.update_of_ne (hother e' he')]
      exact hfree e' (List.mem_cons_of_mem e he')
    have hrest := ih hd.2 hfree'
    have hnone : buddies e.1 = none := hfree e List.mem_cons_self
    show assign (Function.update buddies e.1 (some e.2)) entries uid = some nick ↔ _
    rw [hrest, List.mem_cons]
    by_cases hu : uid = e.1
    · subst hu
      rw [Function.update_self, hnone]
      simp [Prod.ext_iff, eq_comm]
    · rw [Function.update_of_ne hu]
      simp [Prod.ext_iff, hu]

end Gpshub.CmdChannel
