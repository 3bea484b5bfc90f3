import Gpshub.Lib.Framing
import Gpshub.Server.Receive

/-! Which cuttings of the stream into chunks `incomingData` puts together again. -/
namespace Gpshub.CommandServer
open Lib.Framing CircularBuffer

/-- A package as a client sends it. -/
structure WellFormedPkg (pkt : List UInt8) : Prop where
  header : 3 ≤ pkt.length
  fits : pkt.length ≤ 511
  len : (toushort pkt 1).toNat = pkt.length

/-- The packages `pkts` are sent on one session and received as `chunks`. -/
structure Received (pkts chunks : List (List UInt8)) : Prop where
  pkg : ∀ pkt ∈ pkts, WellFormedPkg pkt
  chunk : ∀ bytes ∈ chunks, 1 ≤ bytes.length ∧ bytes.length ≤ CMDPKG_MAX
  stream : chunks.flatten = pkts.flatten

/-- The packages that are handed to `handle` are those that were sent, and the buffer of the
session is empty. -/
def Framed (pkts : List (List UInt8)) (result : Except Abort (Receiver × List CmdPkg)) : Prop :=
  ∃ r cmds, result = .ok (r, cmds) ∧ cmds.map CmdPkg.getBytes = pkts ∧ r.buf.size = 0

section Condition

variable (pkts chunks : List (List UInt8)) (cmdBuf : List UInt8)

/-- How many packages have arrived whole with the first `i` chunks. -/
def arrived (i : ℕ) : ℕ := whole pkts (offset chunks i)

/-- How many have been handled by then, when a round of the loop handles at most one. -/
def turn (i : ℕ) : ℕ := inTurn (arrived pkts chunks) i

/-- What waits in the buffer of the session never exceeds its capacity, and its counters
stay in the range of `int`. -/
structure Fits : Prop where
  total : pkts.flatten.length < 2 ^ 31
  room : ∀ i < chunks.length,
    offset chunks (i + 1) ≤ offset pkts (turn pkts chunks i) + CMDPKG_MAX * 2

/-- There are never more packages to be handled than chunks to come. -/
def InTime : Prop :=
  ∀ i ≤ chunks.length, pkts.length ≤ arrived pkts chunks i + (chunks.length - i)

/-- What `cmd_buf` has at `j` from before the `k`-th package came: the package before it. -/
def leftover (k j : ℕ) : UInt8 :=
  if k = 0 then byteAt cmdBuf j else byteAt pkts.flatten (offset pkts (k - 1) + j)

/-- The byte at `j` of what is read as the header after the `i`-th chunk, also when only a
part of the header is there. -/
def headerByte (i j : ℕ) : UInt8 :=
  let k := turn pkts chunks i
  let p := offset pkts k + j
  if p < offset chunks (i + 1) then byteAt pkts.flatten p
  else if offset chunks (i + 1) < CMDPKG_MAX * 2 then leftover pkts cmdBuf k j
  else byteAt pkts.flatten (p - CMDPKG_MAX * 2)

def headerLen (i : ℕ) : ℕ :=
  (headerByte pkts chunks cmdBuf i 1).toNat * 256 + (headerByte pkts chunks cmdBuf i 2).toNat

/-- After the `i`-th chunk, when only one or two bytes of the next package are there, what
is read as its length exceeds them. -/
def Waits (i : ℕ) : Prop :=
  offset chunks (i + 1) < offset pkts (turn pkts chunks i) + 3 →
    offset chunks (i + 1) < offset pkts (turn pkts chunks i) + headerLen pkts chunks cmdBuf i

def HeadersWait : Prop := ∀ i < chunks.length, Waits pkts chunks cmdBuf i

end Condition

section Round

variable {pkts chunks : List (List UInt8)} {cmdBuf : List UInt8}

namespace Received

theorem arrived_zero (hr : Received pkts chunks) : arrived pkts chunks 0 = 0 := by
  by_contra h0
  have hpos : 0 < pkts.length := by
    have := whole_le pkts (offset chunks 0)
    unfold arrived at h0
    omega
  have h1 : offset pkts 1 ≤ offset chunks 0 :=
    (le_whole_iff (by omega)).mp (Nat.one_le_iff_ne_zero.mpr h0)
  have hp := (hr.pkg pkts[0] (List.getElem_mem hpos)).header
  rw [offset_succ hpos, offset_zero, offset_zero] at h1
  omega

theorem turn_le_arrived (hr : Received pkts chunks) (i : ℕ) :
    turn pkts chunks i ≤ arrived pkts chunks i :=
  inTurn_le hr.arrived_zero i

theorem turn_le_length (hr : Received pkts chunks) (i : ℕ) : turn pkts chunks i ≤ pkts.length :=
  (hr.turn_le_arrived i).trans (whole_le pkts _)

theorem taken_le (hr : Received pkts chunks) (i : ℕ) :
    offset pkts (turn pkts chunks i) ≤ offset chunks i :=
  (le_whole_iff (hr.turn_le_length i)).mp (hr.turn_le_arrived i)

theorem chunk_at (hr : Received pkts chunks) {i : ℕ} (hi : i < chunks.length) :
    1 ≤ chunks[i].length ∧ chunks[i].length ≤ CMDPKG_MAX :=
  hr.chunk _ (List.getElem_mem hi)

theorem offset_le (hr : Received pkts chunks) (i : ℕ) : offset chunks i ≤ pkts.flatten.length := by
  rw [← hr.stream]
  exact offset_le_flatten i

theorem turn_lt (hr : Received pkts chunks) {i : ℕ} (hi : i < chunks.length) :
    turn pkts chunks i < pkts.length := by
  by_contra hge
  have hlen : turn pkts chunks i = pkts.length := le_antisymm (hr.turn_le_length i) (by omega)
  have ht := hr.taken_le i
  have hn := hr.offset_le (i + 1)
  have hc := (hr.chunk_at hi).1
  rw [offset_succ hi] at hn
  rw [hlen, offset_length] at ht
  omega

theorem turn_succ (hr : Received pkts chunks) {i : ℕ} (hi : i < chunks.length) :
    turn pkts chunks (i + 1) =
      if offset pkts (turn pkts chunks i + 1) ≤ offset chunks (i + 1) then turn pkts chunks i + 1
      else turn pkts chunks i := by
  have hk := hr.turn_lt hi
  have hle : turn pkts chunks i ≤ arrived pkts chunks (i + 1) := by
    refine (le_whole_iff hk.le).mpr ((hr.taken_le i).trans ?_)
    exact offset_mono (Nat.le_succ i)
  have hiff : turn pkts chunks i + 1 ≤ arrived pkts chunks (i + 1) ↔
      offset pkts (turn pkts chunks i + 1) ≤ offset chunks (i + 1) := le_whole_iff hk
  change min (turn pkts chunks i + 1) (arrived pkts chunks (i + 1)) = _
  split_ifs with h
  · exact min_eq_left (hiff.mpr h)
  · have := mt hiff.mp h
    omega

end Received

theorem pkt_byteAt {k j : ℕ} (hk : k < pkts.length) (hj : j < pkts[k].length) :
    byteAt pkts[k] j = byteAt pkts.flatten (offset pkts k + j) := by
  rw [← byteAt_drop, ← byteAt_take (a := pkts.flatten.drop (offset pkts k)) hj, frame_eq hk]

/-- The state of the loop before the `i`-th chunk, if all went well so far. -/
structure InTurn (pkts chunks : List (List UInt8)) (cmdBuf : List UInt8) (i : ℕ) (r : Receiver) :
    Prop where
  holds : Holds r.buf (CMDPKG_MAX * 2) (pkts.flatten.take (offset chunks i))
    (offset pkts (turn pkts chunks i))
  length : r.cmdBuf.length = CMDPKG_MAX
  stale : offset chunks i < CMDPKG_MAX * 2 → ∀ j, 1 ≤ j → j ≤ 2 →
    offset chunks i ≤ offset pkts (turn pkts chunks i) + j →
      byteAt r.cmdBuf j = leftover pkts cmdBuf (turn pkts chunks i) j

/-- The buffers when the header has been read after the `i`-th chunk. -/
structure HeaderRead (pkts chunks : List (List UInt8)) (cmdBuf : List UInt8) (i : ℕ)
    (buf : CircularBuffer) (mem : List UInt8) : Prop where
  holds : Holds buf (CMDPKG_MAX * 2) (pkts.flatten.take (offset chunks (i + 1)))
    (offset pkts (turn pkts chunks i))
  length : mem.length = CMDPKG_MAX
  header : ∀ j, 1 ≤ j → j ≤ 2 → byteAt mem j = headerByte pkts chunks cmdBuf i j

theorem InTurn.receive_eq {i : ℕ} {r : Receiver} (ht : InTurn pkts chunks cmdBuf i r)
    (hr : Received pkts chunks) (hf : Fits pkts chunks) (hi : i < chunks.length) :
    ∃ buf mem, receive chunks[i] r = takePkg buf mem ∧
      HeaderRead pkts chunks cmdBuf i buf mem := by
  have hn := (hr.chunk_at hi).2
  have hpos := (hr.chunk_at hi).1
  have hroom := hf.room i hi
  have hsucc := offset_succ hi
  have htaken := hr.taken_le i
  have hle := hr.offset_le (i + 1)
  have htotal := hf.total
  have hlen (x : ℕ) (hx : x ≤ pkts.flatten.length) : (pkts.flatten.take x).length = x := by
    rw [List.length_take, min_eq_left hx]
  -- `Recv` overwrites the front of `cmd_buf`, and `add` takes the chunk from there
  let mem1 := r.cmdBuf.take 0 ++ chunks[i] ++ r.cmdBuf.drop (0 + chunks[i].length)
  have hrecv : memcpy r.cmdBuf 0 chunks[i] = .ok mem1 :=
    memcpy_eq (by rw [ht.length]; omega)
  have hlen1 : mem1.length = CMDPKG_MAX := (memcpy_length hrecv).trans ht.length
  have htake : mem1.take chunks[i].length = chunks[i] := by
    simp [mem1]
  have hgrow : pkts.flatten.take (offset chunks i) ++ chunks[i] =
      pkts.flatten.take (offset chunks (i + 1)) := by
    rw [← hr.stream, ← flatten_take, ← flatten_take, List.take_succ_eq_append_getElem hi,
      List.flatten_append]
    simp
  obtain ⟨buf, hadd, hholds⟩ := ht.holds.add_eq chunks[i]
    (by rw [hlen _ (by omega)]; omega) (by rw [hlen _ (by omega)]; omega)
  rw [hgrow] at hholds
  obtain ⟨header, mem, hread, hcopy, hlen2, hbytes⟩ := hholds.read_eq 3 mem1
    (by rw [hlen _ hle]; omega) (by decide) (by rw [hlen1]; decide) (by
      have : CMDPKG_MAX * 2 ∣ 2 ^ 31 := by decide
      omega)
  refine ⟨buf, mem, ?_, hholds, hlen2.trans hlen1, fun j h1 h2 => ?_⟩
  · simp only [receive, hrecv, htake, hadd, hread, hcopy, bind, Except.bind]
  · rw [hbytes j (by omega), shown, headerByte, hlen _ hle]
    by_cases hj : offset pkts (turn pkts chunks i) + j < offset chunks (i + 1)
    · rw [if_pos hj, if_pos hj, byteAt_take hj]
    · rw [if_neg hj, if_neg hj]
      by_cases hs : offset chunks (i + 1) < CMDPKG_MAX * 2
      · rw [if_pos hs, if_pos hs, byteAt_copy, if_neg (by omega)]
        exact ht.stale (by omega) j h1 h2 (by omega)
      · rw [if_neg hs, if_neg hs, byteAt_take (by omega)]

private theorem takePkg_eq {buf buf' : CircularBuffer} {mem mem' bytes out : List UInt8} {len : ℕ}
    (htakes : ((toushort mem 1).toNat : ℤ) ≤ buf.size.toInt) (hlen : (toushort mem 1).toNat = len)
    (hget : buf.get len = .ok (buf', bytes)) (hcopy : memcpy mem 0 bytes = .ok mem')
    (hstore : store mem' (toushort mem' 1).toNat 0 = .ok out) :
    takePkg buf mem = .ok ({ buf := buf', cmdBuf := out }, some ⟨out⟩) := by
  subst hlen
  refine (if_pos htakes).trans ?_
  simp only [hget, hcopy, CmdPkg.ofBuffer, hstore, bind, Except.bind, pure, Except.pure]

namespace HeaderRead

variable {i : ℕ} {buf : CircularBuffer} {mem : List UInt8}

theorem pkgLen_eq (hh : HeaderRead pkts chunks cmdBuf i buf mem) :
    (toushort mem 1).toNat = headerLen pkts chunks cmdBuf i := by
  rw [toushort_toNat, hh.header 1 (by omega) (by omega), hh.header 2 (by omega) (by omega)]
  rfl

theorem size_eq (hh : HeaderRead pkts chunks cmdBuf i buf mem) (hr : Received pkts chunks) :
    buf.size.toInt = offset chunks (i + 1) - offset pkts (turn pkts chunks i) := by
  have hle := hr.offset_le (i + 1)
  have htaken := (hr.taken_le i).trans (offset_le_succ i)
  have htotal := hh.holds.total
  rw [List.length_take, min_eq_left hle] at htotal
  rw [size, hh.holds.count, List.length_take, min_eq_left hle,
    Int32.toInt_ofNat_of_lt (by omega)]
  omega

theorem takes_iff (hh : HeaderRead pkts chunks cmdBuf i buf mem) (hr : Received pkts chunks) :
    ((toushort mem 1).toNat : ℤ) ≤ buf.size.toInt ↔
      offset pkts (turn pkts chunks i) + headerLen pkts chunks cmdBuf i ≤ offset chunks (i + 1) := by
  rw [hh.pkgLen_eq, hh.size_eq hr]
  omega

theorem get_eq (hh : HeaderRead pkts chunks cmdBuf i buf mem) (hr : Received pkts chunks)
    (len : ℕ) (hlen : offset pkts (turn pkts chunks i) + len ≤ offset chunks (i + 1))
    (hmax : len ≤ CMDPKG_MAX) :
    ∃ buf' bytes mem', buf.get len = .ok (buf', bytes) ∧ memcpy mem 0 bytes = .ok mem' ∧
      Holds buf' (CMDPKG_MAX * 2) (pkts.flatten.take (offset chunks (i + 1)))
        (offset pkts (turn pkts chunks i) + len) ∧
      mem'.length = CMDPKG_MAX ∧
      mem'.take len = (pkts.flatten.drop (offset pkts (turn pkts chunks i))).take len ∧
      ∀ j, len ≤ j → byteAt mem' j = byteAt mem j := by
  have hle := hr.offset_le (i + 1)
  obtain ⟨buf', hget, hholds⟩ := hh.holds.get_eq (show _ + len ≤ _ by
    rw [List.length_take, min_eq_left hle]
    exact hlen)
  have hbytes : ((pkts.flatten.take (offset chunks (i + 1))).drop
        (offset pkts (turn pkts chunks i))).take len =
      (pkts.flatten.drop (offset pkts (turn pkts chunks i))).take len := by
    rw [List.drop_take, List.take_take, min_eq_left (by omega)]
  rw [hbytes] at hget
  have hl : ((pkts.flatten.drop (offset pkts (turn pkts chunks i))).take len).length = len := by
    rw [List.length_take, List.length_drop]
    omega
  have hcopy : memcpy mem 0
      ((pkts.flatten.drop (offset pkts (turn pkts chunks i))).take len) = .ok _ :=
    memcpy_eq (by rw [hl, hh.length]; omega)
  refine ⟨buf', _, _, hget, hcopy, hholds, (memcpy_length hcopy).trans hh.length, ?_, ?_⟩
  · rw [List.take_zero, List.nil_append, List.take_left' hl]
  · intro j hj
    rw [byteAt_copy, hl, if_neg (by omega)]

theorem headerLen_eq (hr : Received pkts chunks) (hk : turn pkts chunks i < pkts.length)
    (hthree : offset pkts (turn pkts chunks i) + 3 ≤ offset chunks (i + 1)) :
    headerLen pkts chunks cmdBuf i = pkts[turn pkts chunks i].length := by
  have hpkt := hr.pkg _ (List.getElem_mem hk)
  have hbyte (j : ℕ) (hj : j < 3) : headerByte pkts chunks cmdBuf i j =
      byteAt pkts[turn pkts chunks i] j := by
    have := hpkt.header
    rw [headerByte, if_pos (by omega), pkt_byteAt hk (by omega)]
  rw [← hpkt.len, toushort_toNat, headerLen, hbyte 1 (by omega), hbyte 2 (by omega)]

theorem wait (hh : HeaderRead pkts chunks cmdBuf i buf mem) (hr : Received pkts chunks)
    (hi : i < chunks.length)
    (hwait : offset chunks (i + 1) < offset pkts (turn pkts chunks i) +
      headerLen pkts chunks cmdBuf i) :
    takePkg buf mem = .ok ({ buf, cmdBuf := mem }, none) ∧
      turn pkts chunks (i + 1) = turn pkts chunks i ∧
      InTurn pkts chunks cmdBuf (i + 1) { buf, cmdBuf := mem } := by
  have hk := hr.turn_lt hi
  have hsucc := offset_succ hk
  have hturn : turn pkts chunks (i + 1) = turn pkts chunks i := by
    rw [hr.turn_succ hi, if_neg]
    intro hwhole
    by_cases hthree : offset pkts (turn pkts chunks i) + 3 ≤ offset chunks (i + 1)
    · rw [headerLen_eq hr hk hthree] at hwait
      omega
    · have := (hr.pkg _ (List.getElem_mem hk)).header
      omega
  have hnot := mt (hh.takes_iff hr).mp (by omega)
  refine ⟨if_neg hnot, hturn, ?_⟩
  constructor
  · rw [hturn]
    exact hh.holds
  · exact hh.length
  · intro hs j h1 h2 hj
    rw [hturn] at hj ⊢
    rw [hh.header j h1 h2, headerByte, if_neg (by omega), if_pos hs]

theorem take (hh : HeaderRead pkts chunks cmdBuf i buf mem) (hr : Received pkts chunks)
    (hi : i < chunks.length) (hk : turn pkts chunks i < pkts.length)
    (hwhole : offset pkts (turn pkts chunks i + 1) ≤ offset chunks (i + 1)) :
    ∃ r cmd, takePkg buf mem = .ok (r, some cmd) ∧ cmd.getBytes = pkts[turn pkts chunks i] ∧
      turn pkts chunks (i + 1) = turn pkts chunks i + 1 ∧
      InTurn pkts chunks cmdBuf (i + 1) r := by
  have hturn : turn pkts chunks (i + 1) = turn pkts chunks i + 1 := by
    rw [hr.turn_succ hi, if_pos hwhole]
  have hpkt := hr.pkg _ (List.getElem_mem hk)
  have hheader := hpkt.header
  have hfits : pkts[turn pkts chunks i].length < CMDPKG_MAX := Nat.lt_succ_of_le hpkt.fits
  have hsucc := offset_succ hk
  have hlen : headerLen pkts chunks cmdBuf i = pkts[turn pkts chunks i].length :=
    headerLen_eq hr hk (by omega)
  have htakes := (hh.takes_iff hr).mpr (by omega)
  obtain ⟨buf', bytes, mem', hget, hcopy, hholds, hlen', hfront, -⟩ :=
    hh.get_eq hr pkts[turn pkts chunks i].length (by omega) (by omega)
  rw [frame_eq hk] at hfront
  have hbyte (j : ℕ) (hj : j < pkts[turn pkts chunks i].length) :
      byteAt mem' j = byteAt pkts[turn pkts chunks i] j := by
    rw [← hfront, byteAt_take hj]
  have hshort : (toushort mem' 1).toNat = pkts[turn pkts chunks i].length := by
    rw [toushort_congr (hbyte 1 (by omega)) (hbyte 2 (by omega)), hpkt.len]
  have hstore : store mem' (toushort mem' 1).toNat 0 =
      .ok (mem'.set pkts[turn pkts chunks i].length 0) := by
    rw [hshort]
    exact store_eq (by omega)
  -- the terminator lies behind the package
  have hkept (j : ℕ) (hj : j < pkts[turn pkts chunks i].length) :
      byteAt (mem'.set pkts[turn pkts chunks i].length 0) j =
        byteAt pkts[turn pkts chunks i] j := by
    rw [byteAt_set_ne 0 hj.ne, hbyte j hj]
  refine ⟨{ buf := buf', cmdBuf := mem'.set pkts[turn pkts chunks i].length 0 },
    ⟨mem'.set pkts[turn pkts chunks i].length 0⟩, ?_, ?_, hturn, ?_⟩
  · exact takePkg_eq htakes (hh.pkgLen_eq.trans hlen) hget hcopy hstore
  · rw [CmdPkg.getBytes, CmdPkg.getLen,
      toushort_congr (hkept 1 (by omega)) (hkept 2 (by omega)), hpkt.len,
      List.take_set_of_le le_rfl, hfront]
  · constructor
    · rw [hturn, hsucc]
      exact hholds
    · exact (List.length_set ..).trans hlen'
    · intro hs j h1 h2 _
      rw [hturn, hkept j (by omega), leftover, if_neg (Nat.succ_ne_zero _), Nat.add_sub_cancel,
        pkt_byteAt hk (by omega)]

theorem cut (hh : HeaderRead pkts chunks cmdBuf i buf mem) (hr : Received pkts chunks)
    (hshort : offset chunks (i + 1) < offset pkts (turn pkts chunks i) + 3)
    (hle : offset pkts (turn pkts chunks i) + headerLen pkts chunks cmdBuf i ≤
      offset chunks (i + 1)) :
    ∃ r cmd, takePkg buf mem = .ok (r, some cmd) ∧ cmd.getBytes.length < 3 := by
  have htakes := (hh.takes_iff hr).mpr hle
  obtain ⟨buf', bytes, mem', hget, hcopy, hholds, hlen', hfront, hrest⟩ :=
    hh.get_eq hr (headerLen pkts chunks cmdBuf i) hle (by
      have : CMDPKG_MAX = 512 := rfl
      omega)
  have hbyte (j : ℕ) (h1 : 1 ≤ j) (h2 : j ≤ 2) :
      byteAt mem' j = headerByte pkts chunks cmdBuf i j := by
    by_cases hj : j < headerLen pkts chunks cmdBuf i
    · rw [headerByte, if_pos (by omega), ← byteAt_drop, ← byteAt_take hj, hfront, byteAt_take hj]
    · rw [hrest j (by omega), hh.header j h1 h2]
  have hlen : (toushort mem' 1).toNat = headerLen pkts chunks cmdBuf i := by
    rw [toushort_toNat, hbyte 1 (by omega) (by omega), hbyte 2 (by omega) (by omega), headerLen]
  have hstore : store mem' (toushort mem' 1).toNat 0 =
      .ok (mem'.set (headerLen pkts chunks cmdBuf i) 0) := by
    rw [hlen]
    exact store_eq (by have : CMDPKG_MAX = 512 := rfl; omega)
  refine ⟨{ buf := buf', cmdBuf := mem'.set (headerLen pkts chunks cmdBuf i) 0 },
    ⟨mem'.set (headerLen pkts chunks cmdBuf i) 0⟩, ?_, ?_⟩
  · exact takePkg_eq htakes hh.pkgLen_eq hget hcopy hstore
  · -- the terminator can only make the length smaller
    have hset (j : ℕ) :
        (byteAt (mem'.set (headerLen pkts chunks cmdBuf i) 0) j).toNat ≤
          (byteAt mem' j).toNat := by
      rcases byteAt_set_zero mem' j (headerLen pkts chunks cmdBuf i) with h0 | hs
      · rw [h0]
        exact Nat.zero_le _
      · rw [hs]
    have hless : (toushort (mem'.set (headerLen pkts chunks cmdBuf i) 0) 1).toNat ≤
        (toushort mem' 1).toNat := by
      have h1 := hset 1
      have h2 := hset (1 + 1)
      rw [toushort_toNat, toushort_toNat]
      omega
    exact (List.length_take_le ..).trans_lt (hless.trans_lt (by omega))

end HeaderRead

/-- What a round does when all went well before: the next package is handled if it is whole,
or else nothing; but when a part of a header is read as a length that is there, that many
bytes are handled as a package. -/
theorem InTurn.step {i : ℕ} {r : Receiver} (ht : InTurn pkts chunks cmdBuf i r)
    (hr : Received pkts chunks) (hf : Fits pkts chunks) (hi : i < chunks.length) :
    (Waits pkts chunks cmdBuf i ∧ ∃ r' cmd, receive chunks[i] r = .ok (r', cmd) ∧
      (pkts.take (turn pkts chunks (i + 1))) =
        pkts.take (turn pkts chunks i) ++ cmd.toList.map CmdPkg.getBytes ∧
      InTurn pkts chunks cmdBuf (i + 1) r') ∨
    (¬Waits pkts chunks cmdBuf i ∧ ∃ r' cmd, receive chunks[i] r = .ok (r', some cmd) ∧
      cmd.getBytes.length < 3) := by
  obtain ⟨buf, mem, he, hh⟩ := ht.receive_eq hr hf hi
  rw [he]
  have hk := hr.turn_lt hi
  by_cases hthree : offset pkts (turn pkts chunks i) + 3 ≤ offset chunks (i + 1)
  · have hw : Waits pkts chunks cmdBuf i := fun hlt => absurd hlt (by omega)
    refine Or.inl ⟨hw, ?_⟩
    by_cases hwhole : offset pkts (turn pkts chunks i + 1) ≤ offset chunks (i + 1)
    · obtain ⟨r', cmd, htake, hbytes, hturn, ht'⟩ := hh.take hr hi hk hwhole
      refine ⟨r', some cmd, htake, ?_, ht'⟩
      rw [hturn, List.take_succ_eq_append_getElem hk, ← hbytes]
      rfl
    · have hlen : headerLen pkts chunks cmdBuf i = _ := HeaderRead.headerLen_eq hr hk hthree
      have hsucc := offset_succ hk
      obtain ⟨hwait, hturn, ht'⟩ := hh.wait hr hi (by omega)
      refine ⟨_, none, hwait, ?_, ht'⟩
      rw [hturn]
      exact (List.append_nil _).symm
  · by_cases hwait : offset chunks (i + 1) < offset pkts (turn pkts chunks i) +
        headerLen pkts chunks cmdBuf i
    · obtain ⟨hw, hturn, ht'⟩ := hh.wait hr hi hwait
      refine Or.inl ⟨fun _ => hwait, _, none, hw, ?_, ht'⟩
      rw [hturn]
      exact (List.append_nil _).symm
    · obtain ⟨r', cmd, hcut, hlen⟩ := hh.cut hr (by omega) (by omega)
      exact Or.inr ⟨fun hw => hwait (hw (by omega)), r', cmd, hcut, hlen⟩

end Round

section Stream

variable {pkts chunks : List (List UInt8)} {cmdBuf : List UInt8}

theorem feed_inTurn (hr : Received pkts chunks) (hf : Fits pkts chunks) (n : ℕ) :
    ∀ {i : ℕ} {r : Receiver}, chunks.length = i + n → InTurn pkts chunks cmdBuf i r →
    ((∀ j, i ≤ j → j < chunks.length → Waits pkts chunks cmdBuf j) ∧
      ∃ r' cmds, feed (chunks.drop i) r = .ok (r', cmds) ∧
        pkts.take (turn pkts chunks chunks.length) =
          pkts.take (turn pkts chunks i) ++ cmds.map CmdPkg.getBytes ∧
        InTurn pkts chunks cmdBuf chunks.length r') ∨
    ((∃ j, j < chunks.length ∧ ¬Waits pkts chunks cmdBuf j) ∧
      ∀ r' cmds, feed (chunks.drop i) r = .ok (r', cmds) →
        ∃ cmd ∈ cmds, cmd.getBytes.length < 3) := by
  induction n with
  | zero =>
    intro i r hlen ht
    obtain rfl : i = chunks.length := hlen.symm
    refine Or.inl ⟨fun j hj hlt => absurd hlt (by omega), r, [], ?_, ?_, ht⟩
    · rw [List.drop_length]
      rfl
    · exact (List.append_nil _).symm
  | succ n ih =>
    intro i r hlen ht
    have hi : i < chunks.length := by omega
    rw [List.drop_eq_getElem_cons hi, feed]
    rcases ht.step hr hf hi with ⟨hw, r1, cmd, he, hpkts, ht1⟩ | ⟨hw, r1, cmd, he, hcut⟩
    · rw [he]
      rcases ih (i := i + 1) (by omega) ht1 with ⟨hws, r', cmds, hfeed, hall, ht'⟩ | ⟨hbad, hcuts⟩
      · refine Or.inl ⟨fun j hj hlt => ?_, r', cmd.toList ++ cmds, ?_, ?_, ht'⟩
        · rcases Nat.eq_or_lt_of_le hj with rfl | hj
          · exact hw
          · exact hws j hj hlt
        · simp only [hfeed, bind, Except.bind, pure, Except.pure]
        · rw [hall, hpkts, List.append_assoc, List.map_append]
      · refine Or.inr ⟨hbad, fun r' cmds hall => ?_⟩
        obtain ⟨_, h1, hall⟩ := bind_eq_ok.mp hall
        cases h1
        obtain ⟨⟨r2, cmds2⟩, hfeed, hall⟩ := bind_eq_ok.mp hall
        cases hall
        obtain ⟨c, hc, hlt⟩ := hcuts _ cmds2 hfeed
        exact ⟨c, List.mem_append_right _ hc, hlt⟩
    · rw [he]
      refine Or.inr ⟨⟨i, hi, hw⟩, fun r' cmds hall => ?_⟩
      obtain ⟨_, h1, hall⟩ := bind_eq_ok.mp hall
      cases h1
      obtain ⟨⟨r2, cmds2⟩, hfeed, hall⟩ := bind_eq_ok.mp hall
      cases hall
      exact ⟨cmd, by simp, hcut⟩

theorem inTurn_new {memory : List UInt8}
    (hmem : memory.length = CMDPKG_MAX * 2) (hcmd : cmdBuf.length = CMDPKG_MAX) :
    InTurn pkts chunks cmdBuf 0 (.new memory cmdBuf) where
  holds := by
    have hnew : Holds (new (.ofNat (CMDPKG_MAX * 2)) memory) (CMDPKG_MAX * 2) [] 0 :=
      holds_new (by decide) (by decide) hmem
    rwa [offset_zero, List.take_zero]
  length := hcmd
  stale := fun _ j _ _ _ => rfl

theorem feed_framed_iff (hr : Received pkts chunks) (hf : Fits pkts chunks) {memory : List UInt8}
    (hmem : memory.length = CMDPKG_MAX * 2) (hcmd : cmdBuf.length = CMDPKG_MAX) :
    Framed pkts (feed chunks (.new memory cmdBuf)) ↔
      InTime pkts chunks ∧ HeadersWait pkts chunks cmdBuf := by
  have hintime : InTime pkts chunks ↔ pkts.length ≤ turn pkts chunks chunks.length :=
    (le_inTurn_iff hr.arrived_zero chunks.length pkts.length).symm
  have hrun := feed_inTurn hr hf chunks.length (Nat.zero_add _).symm
    (inTurn_new hmem hcmd)
  rw [List.drop_zero] at hrun
  rw [hintime]
  rcases hrun with ⟨hws, r', cmds, hfeed, hall, ht⟩ | ⟨⟨j, hj, hnot⟩, hcut⟩
  · have hcmds : cmds.map CmdPkg.getBytes = pkts.take (turn pkts chunks chunks.length) := hall.symm
    constructor
    · rintro ⟨r, cs, he, hbytes, -⟩
      cases hfeed.symm.trans he
      refine ⟨?_, fun j hj => hws j (Nat.zero_le j) hj⟩
      rw [hcmds] at hbytes
      have hl := congrArg List.length hbytes
      rw [List.length_take] at hl
      omega
    · rintro ⟨hle, -⟩
      refine ⟨r', cmds, hfeed, ?_, ?_⟩
      · rw [hcmds, List.take_of_length_le hle]
      · have hturn : turn pkts chunks chunks.length = pkts.length :=
          le_antisymm (hr.turn_le_length _) hle
        rw [size, ht.holds.count, hturn, offset_length, offset_length, hr.stream,
          List.take_length, Nat.sub_self]
        rfl
  · refine iff_of_false ?_ fun h => hnot (h.2 j hj)
    rintro ⟨r, cs, he, hbytes, -⟩
    obtain ⟨cmd, hmem, hlt⟩ := hcut r cs he
    have hin : cmd.getBytes ∈ pkts := hbytes ▸ List.mem_map_of_mem hmem
    have := (hr.pkg _ hin).header
    omega

end Stream

/-- On a session whose waiting bytes fit in its buffer the packages come out as they were
sent, however the calls of `incomingData` get the chunks, exactly if there are never more
packages to handle than chunks to come, and no part of a header is taken for a length that is
already there. -/
theorem incomingData_framed_iff {pkts : List (List UInt8)} {calls : List (List (List UInt8))}
    {memory cmdBuf : List UInt8} (hr : Received pkts calls.flatten)
    (hf : Fits pkts calls.flatten) (hmem : memory.length = CMDPKG_MAX * 2)
    (hcmd : cmdBuf.length = CMDPKG_MAX) :
    Framed pkts (notifications (calls.map fun chunks => chunks.map .data) (.new memory cmdBuf)) ↔
      InTime pkts calls.flatten ∧ HeadersWait pkts calls.flatten cmdBuf := by
  have hne : ∀ bytes ∈ calls.flatten, bytes ≠ [] := by
    rintro bytes hb rfl
    have := (hr.chunk [] hb).1
    simp at this
  rw [notifications_data calls hne]
  exact feed_framed_iff hr hf hmem hcmd

/-- A client registers and adds a buddy. -/
def twoPkgs : List (List UInt8) := [[1, 0, 4, 97], [2, 0, 4, 98]]

theorem twoPkgs_wellFormed : ∀ pkt ∈ twoPkgs, WellFormedPkg pkt := by
  intro pkt hp
  simp only [twoPkgs, List.mem_cons, List.not_mem_nil, or_false] at hp
  rcases hp with rfl | rfl
  · exact ⟨by decide, by decide, by decide⟩
  · exact ⟨by decide, by decide, by decide⟩

/-- The second package comes in two pieces, the first of one byte. -/
theorem incomingData_framed_two :
    Framed twoPkgs (notifications ([[[1, 0, 4, 97], [2]], [[0, 4, 98]]].map fun chunks =>
      chunks.map .data) (.new (List.replicate 1024 0) (List.replicate 512 0))) :=
  (incomingData_framed_iff ⟨twoPkgs_wellFormed, by decide, by decide⟩ ⟨by decide, by decide⟩
    List.length_replicate List.length_replicate).mpr
    ⟨by unfold InTime; decide, by unfold HeadersWait Waits; decide⟩

/-- When both packages come at once, only the first is handled. -/
theorem incomingData_framed_counterexample :
    ¬∀ (pkts : List (List UInt8)) (calls : List (List (List UInt8))) (memory cmdBuf : List UInt8),
      Received pkts calls.flatten → memory.length = CMDPKG_MAX * 2 →
      cmdBuf.length = CMDPKG_MAX →
      Framed pkts (notifications (calls.map fun chunks => chunks.map .data)
        (.new memory cmdBuf)) := by
  intro hall
  have hr : Received twoPkgs [twoPkgs.flatten] :=
    ⟨twoPkgs_wellFormed, by decide, by decide⟩
  have hf := hall twoPkgs [[twoPkgs.flatten]] (List.replicate 1024 0) (List.replicate 512 0) hr
    List.length_replicate List.length_replicate
  rw [notifications_data _ (by decide)] at hf
  have hin := (feed_framed_iff hr ⟨by decide, by decide⟩ List.length_replicate
    List.length_replicate).mp hf
  exact absurd (hin.1 0 (Nat.zero_le _)) (by decide)

end Gpshub.CommandServer
