import Gpshub.Server.StreamBounds

/-! What arrives on a session is taken out of its buffer in order, and nothing is lost. -/
namespace Gpshub.CommandServer

open Lib Machine CircularBuffer

section Round

variable {bytes s : List UInt8} {r : Receiver} {a : ℕ}

theorem header_ring (h : Ring r.buf (CMDPKG_MAX * 2) s a) (hmem : r.cmdBuf.length = CMDPKG_MAX)
    (hpos : 0 < bytes.length) (hle : bytes.length ≤ CMDPKG_MAX)
    (hroom : s.length + bytes.length ≤ a + CMDPKG_MAX * 2)
    (htotal : s.length + bytes.length < 2 ^ 31) :
    ∃ m, header bytes r = .ok m ∧ Ring m.buf (CMDPKG_MAX * 2) (s ++ bytes) a := by
  have horder := h.order
  have hl : (s ++ bytes).length = s.length + bytes.length := List.length_append
  obtain ⟨mem, hcopy⟩ : ∃ mem, memcpy r.cmdBuf 0 bytes = .ok mem := ⟨_, memcpy_eq (by omega)⟩
  obtain ⟨buf, hadd, hbuf⟩ := h.add_eq bytes hroom fun p hp => .of_lt (hp.trans htotal)
  have hmax : CMDPKG_MAX = 512 := rfl
  have hdvd : CMDPKG_MAX * 2 ∣ 2 ^ 31 := by decide
  obtain ⟨first, out, hread, hout, -⟩ := (hbuf.holds (by omega)).read_eq 3 mem (by omega)
    (by omega) (by rw [memcpy_length hcopy]; omega) (by omega)
  exact ⟨⟨buf, out⟩, header_of_eq hcopy hadd hread hout, hbuf⟩

/-- A package that `cmd_buf` has room for is taken from the front of what is buffered. -/
theorem finish_ring (h : Ring r.buf (CMDPKG_MAX * 2) s a) (hmem : r.cmdBuf.length = CMDPKG_MAX)
    (hhead : Headed r)
    (hshort : (pkgLen r : ℤ) ≤ r.buf.size.toInt → pkgLen r < CMDPKG_MAX) :
    ∃ r' taken k, finish r = .ok (r', taken) ∧ Ring r'.buf (CMDPKG_MAX * 2) s (a + k) ∧
      (taken.map Taken.block).toList.flatten = (s.drop a).take k := by
  by_cases hsize : (pkgLen r : ℤ) ≤ r.buf.size.toInt
  · have hlt := hshort hsize
    have hsound : r.Sound a s.length := ⟨h.counts (by decide), hmem⟩
    have hheld := hsound.1.le_of_size hsize
    obtain ⟨buf, hget, hbuf⟩ := h.get_eq hheld
    obtain ⟨buf', block, hget', hblock, hl, -⟩ := hsound.1.get_eq hheld
    cases hget.symm.trans hget'
    obtain ⟨mem, hcopy⟩ : ∃ mem, memcpy r.cmdBuf 0 ((s.drop a).take (pkgLen r)) = .ok mem :=
      ⟨_, memcpy_eq (by omega)⟩
    have hlen := hhead.getLen_eq hsound hheld hblock hcopy
    have hstore := store_eq (b := 0) (show (toushort mem 1).toNat < mem.length by
      rw [memcpy_length hcopy]; omega)
    have htaken : takeBlock r = .ok (⟨buf, mem⟩, (s.drop a).take (pkgLen r)) :=
      takeBlock_of_eq hget hcopy
    let out := mem.set (toushort mem 1).toNat 0
    have hcmd : CmdPkg.ofBuffer mem = .ok ⟨out⟩ := bind_eq_ok.mpr ⟨_, hstore, rfl⟩
    refine ⟨⟨buf, out⟩, some ⟨(s.drop a).take (pkgLen r), ⟨out⟩⟩, pkgLen r, ?_, hbuf,
      List.append_nil _⟩
    rw [finish, if_pos hsize]
    exact bind_eq_ok.mpr ⟨_, htaken, bind_eq_ok.mpr ⟨_, hcmd, rfl⟩⟩
  · exact ⟨r, none, 0, if_neg hsize, h, rfl⟩

/-- A round of bytes that the buffer has room for is completed, and takes what it hands out
from the front of what was there. -/
theorem round_ring (h : Ring r.buf (CMDPKG_MAX * 2) s a) (hmem : r.cmdBuf.length = CMDPKG_MAX)
    (hpos : 0 < bytes.length) (hle : bytes.length ≤ CMDPKG_MAX)
    (hroom : s.length + bytes.length ≤ a + CMDPKG_MAX * 2)
    (htotal : s.length + bytes.length < 2 ^ 31)
    (hshort : ∀ len ∈ declared bytes r, len < CMDPKG_MAX) :
    ∃ r' taken k, round bytes r = .ok (r', taken) ∧
      Ring r'.buf (CMDPKG_MAX * 2) (s ++ bytes) (a + k) ∧
      (taken.map Taken.block).toList.flatten = ((s ++ bytes).drop a).take k := by
  obtain ⟨m, hheader, hm⟩ := header_ring h hmem hpos hle hroom htotal
  have hsound : r.Sound a s.length := ⟨h.counts (by decide), hmem⟩
  obtain ⟨n, hmsound, hhead, -⟩ := header_sound hsound hheader
  obtain ⟨r', taken, k, hfinish, hr', htaken⟩ := finish_ring hm hmsound.2 hhead
    fun hsize => hshort _ (declared_eq_some.mpr ⟨m, hheader, hsize, rfl⟩)
  exact ⟨r', taken, k, bind_eq_ok.mpr ⟨m, hheader, hfinish⟩, hr', htaken⟩

end Round

/-- The buffer holds all bytes received on `x` but those taken out, from the first one on. -/
def Stream.Kept (x : Stream) : Prop :=
  ∃ a, Ring x.buf (CMDPKG_MAX * 2) x.chunks.flatten a ∧
    x.blocks.flatten = x.chunks.flatten.take a

theorem kept_new {memory : List UInt8} (hmem : memory.length = CMDPKG_MAX * 2) :
    (Stream.new memory).Kept :=
  ⟨0, ring_new (by decide) (by decide) hmem, rfl⟩

theorem Stream.Kept.conserved {x : Stream} (h : x.Kept) :
    x.blocks.flatten ++ x.buf.unread = x.chunks.flatten := by
  obtain ⟨a, hring, hblocks⟩ := h
  rw [hblocks, hring.unread_eq, List.take_append_drop]

/-- What the bytes that arrive on session `s` may be: they fit in the buffer, next to what is
there, and the package they complete fits in `cmd_buf` with its terminator. -/
def RoomFor (s : SessionRef) (u : SessionRef) (x : Stream) (bytes : List UInt8) (r : Receiver) :
    Prop :=
  u = s → x.buf.size.toInt + bytes.length ≤ (CMDPKG_MAX * 2 : ℕ) ∧
    x.chunks.flatten.length + bytes.length < 2 ^ 31 ∧ ∀ len ∈ declared bytes r, len ≤ 511

instance (s u : SessionRef) (x : Stream) (bytes : List UInt8) (r : Receiver) :
    Decidable (RoomFor s u x bytes r) :=
  inferInstanceAs (Decidable (u = s → _ ∧ _ ∧ ∀ len ∈ declared bytes r, len ≤ 511))

/-- The round of session `s` ends as it should. -/
def Completes (s : SessionRef) (u : SessionRef) (_ : Stream) (bytes : List UInt8)
    (r : Receiver) : Prop :=
  u = s → ∃ out, round bytes r = .ok out

/-- The blocks that `get` took out on session `s` and the bytes still in its buffer are the
chunks it received, in order. -/
def Conserved (s : SessionRef) (t : Streams) : Prop :=
  ∀ x, t.session s = some x → x.blocks.flatten ++ x.buf.unread = x.chunks.flatten

theorem Stream.Kept.receive {x : Stream} {cmdBuf bytes : List UInt8} {s : SessionRef}
    (h : x.Kept) (hmem : cmdBuf.length = CMDPKG_MAX) (hpos : 0 < bytes.length)
    (hle : bytes.length ≤ CMDPKG_MAX) (hfits : RoomFor s s x bytes ⟨x.buf, cmdBuf⟩) :
    ∃ r taken, round bytes ⟨x.buf, cmdBuf⟩ = .ok (r, taken) ∧
      (x.receive bytes r.buf taken).Kept := by
  obtain ⟨a, hring, hblocks⟩ := h
  obtain ⟨hroom, htotal, hshort⟩ := hfits rfl
  have horder := hring.order
  rw [hring.size_eq] at hroom
  obtain ⟨r, taken, k, hround, hr, htaken⟩ := round_ring (r := ⟨x.buf, cmdBuf⟩) hring hmem hpos
    hle (by omega) htotal fun len hlen => Nat.lt_succ_of_le (hshort len hlen)
  have hchunks : (x.receive bytes r.buf taken).chunks.flatten = x.chunks.flatten ++ bytes := by
    rw [Stream.receive, List.flatten_append, List.flatten_singleton]
  refine ⟨r, taken, hround, a + k, hchunks ▸ hr, ?_⟩
  calc (x.receive bytes r.buf taken).blocks.flatten
      = x.blocks.flatten ++ (taken.map Taken.block).toList.flatten := List.flatten_append
    _ = x.chunks.flatten.take a ++ ((x.chunks.flatten ++ bytes).drop a).take k := by
      rw [hblocks, htaken]
    _ = (x.chunks.flatten ++ bytes).take a ++ ((x.chunks.flatten ++ bytes).drop a).take k := by
      rw [List.take_append_of_le_length horder]
    _ = (x.receive bytes r.buf taken).chunks.flatten.take (a + k) := by
      rw [hchunks, List.take_add]

/-- All buffers are sound, and session `s` has lost nothing. -/
def Keeps (s : SessionRef) (t : Streams) : Prop :=
  t.Sound ∧ ∀ x, t.session s = some x → x.Kept

theorem keeps_step {s : SessionRef} {t t' : Streams} {e : Streams.Event} (h : Keeps s t)
    (hfits : Streams.onRound (RoomFor s) t e) (hs : t.step e = some t') : Keeps s t' := by
  refine ⟨Streams.sound_step t e t' hs h.1, fun y hy => ?_⟩
  cases Streams.step_moved hs with
  | accept hnone hmem =>
    rcases Streams.session_put hy with ⟨-, rfl⟩ | ⟨-, hy⟩
    · exact kept_new hmem
    · exact h.2 y hy
  | recv hserve hround =>
    rcases Streams.session_put hy with ⟨rfl, rfl⟩ | ⟨-, hy⟩
    · obtain ⟨hx, -, hpos, hle⟩ := Streams.serving_eq_some hserve
      obtain ⟨r', taken', hround', hkept⟩ :=
        (h.2 _ hx).receive h.1.cmdBuf hpos hle (hfits _ hserve)
      cases hround.symm.trans hround'
      exact hkept
    · exact h.2 y hy
  | @close u x hx ho =>
    rcases Streams.session_put hy with ⟨rfl, rfl⟩ | ⟨-, hy⟩
    · exact h.2 x hx
    · exact h.2 y hy

/-- As long as the bytes of a session fit, its rounds are completed, and after each of them the
blocks taken out and the bytes still buffered are what it received. -/
theorem bytes_conserved {cmdBuf : List UInt8} (hmem : cmdBuf.length = CMDPKG_MAX)
    (s : SessionRef) {events : List Streams.Event}
    (hfits : Checked Streams.step (Streams.onRound (RoomFor s)) (Streams.boot cmdBuf) events) :
    Always Streams.step (Conserved s) (Streams.boot cmdBuf) events ∧
      Checked Streams.step (Streams.onRound (Completes s)) (Streams.boot cmdBuf) events := by
  have hboot : Keeps s (Streams.boot cmdBuf) := ⟨Streams.sound_boot hmem, fun _ hx => nomatch hx⟩
  constructor
  · have hkeeps := always_of_step (I := Keeps s)
      (fun _ _ _ _ _ hf hs h => keeps_step h hf hs) (always_true _ _) hfits.guarded hboot
    exact hkeeps.mono fun t h x hx => (h.2 x hx).conserved
  · refine (checked_iff (I := Keeps s) (G := fun _ _ => True)
      (fun _ _ _ h hf _ hs => keeps_step h hf hs) (fun t e h hf => ?_) hboot hfits).mp
      (checked_true _ _)
    refine iff_of_true trivial ?_
    cases e with
    | accept u memory => trivial
    | close u => trivial
    | recv u bytes =>
      rintro x hserve rfl
      obtain ⟨hx, -, hpos, hle⟩ := Streams.serving_eq_some hserve
      obtain ⟨r, taken, hround, -⟩ := (h.2 x hx).receive h.1.cmdBuf hpos hle (hf x hserve)
      exact ⟨_, hround⟩

theorem bytes_conserved_stale :
    let events : List Streams.Event := [.accept 0 (List.replicate 1024 7),
      .accept 1 (List.replicate 1024 7), .recv 1 [1, 0, 1, 0], .recv 0 [2], .recv 0 [0, 4, 65]]
    Always Streams.step (Conserved 0) (Streams.boot (List.replicate 512 0)) events ∧
      Checked Streams.step (Streams.onRound (Completes 0))
        (Streams.boot (List.replicate 512 0)) events :=
  bytes_conserved List.length_replicate 0 (by decide +kernel)

/-- As `RoomFor`, but it is what `add` has taken of the bytes that fits in the buffer. -/
def Buffers (s : SessionRef) (u : SessionRef) (x : Stream) (bytes : List UInt8) (r : Receiver) :
    Prop :=
  u = s → (∀ m, header bytes r = .ok m → m.buf.size.toInt ≤ (CMDPKG_MAX * 2 : ℕ)) ∧
    x.chunks.flatten.length + bytes.length < 2 ^ 31 ∧ ∀ len ∈ declared bytes r, len ≤ 511

section Overfull

variable {t : Streams} {x : Stream} {u : SessionRef} {buf : CircularBuffer} {bytes s : List UInt8}
  {n : ℕ}

theorem step_waits (hx : t.session u = some x) (hopen : x.isOpen = true)
    (hmem : t.cmdBuf.length = CMDPKG_MAX) (hpos : 0 < bytes.length)
    (hle : bytes.length ≤ CMDPKG_MAX) (hadd : x.buf.add bytes = .ok (buf, n))
    (hring : Ring buf (CMDPKG_MAX * 2) s 0) (hhead : 3 ≤ s.length)
    (hwait : s.length < (toushort s 1).toNat)
    (htotal : x.chunks.flatten.length + bytes.length < 2 ^ 31) :
    ∃ cmdBuf, cmdBuf.length = CMDPKG_MAX ∧
      Streams.onRound (Buffers u) t (.recv u bytes) ∧
      t.step (.recv u bytes) = some (t.put u (x.receive bytes buf none) cmdBuf) := by
  have hmax : CMDPKG_MAX = 512 := rfl
  obtain ⟨mem, hcopy⟩ : ∃ mem, memcpy t.cmdBuf 0 bytes = .ok mem := ⟨_, memcpy_eq (by omega)⟩
  have hlen : mem.length = 512 := (memcpy_length hcopy).trans hmem
  have hread : buf.copyLoop 3 0 = .ok (s.take 3) := hring.copyLoop_eq 3 0 (by omega)
  have hl : (s.take 3).length = 3 := by rw [List.length_take]; omega
  obtain ⟨out, hout⟩ : ∃ out, memcpy mem 0 (s.take 3) = .ok out := ⟨_, memcpy_eq (by omega)⟩
  have hheader : header bytes ⟨x.buf, t.cmdBuf⟩ = .ok ⟨buf, out⟩ :=
    header_of_eq hcopy hadd hread hout
  have hsize : buf.size.toInt = (s.length - 0 : ℕ) := hring.size_eq
  have hfront (i : ℕ) (hi : i < 3) : byteAt out i = byteAt s i := by
    obtain ⟨-, rfl⟩ := memcpy_eq_ok hout
    rw [Gpshub.byteAt_copy, if_pos (by omega), byteAt_take hi]
  have hlong : ¬(pkgLen ⟨buf, out⟩ : ℤ) ≤ buf.size.toInt := by
    rw [pkgLen, toushort_congr (hfront 1 (by decide)) (hfront 2 (by decide))]
    omega
  have hround : round bytes ⟨x.buf, t.cmdBuf⟩ = .ok (⟨buf, out⟩, none) :=
    bind_eq_ok.mpr ⟨_, hheader, if_neg hlong⟩
  have hserve : t.serving u bytes = some x := Streams.serving_eq hx hopen hpos hle
  refine ⟨out, (memcpy_length hout).trans hlen, fun y hy _ => ?_, Streams.step_recv hserve hround⟩
  cases hserve.symm.trans hy
  refine ⟨fun m hm => ?_, htotal, ?_⟩
  · cases hheader.symm.trans hm
    have hroom := hring.room
    show buf.size.toInt ≤ _
    omega
  · rw [declared_eq hheader, if_neg hlong]
    exact fun len hlen => absurd hlen (Option.not_mem_none len)

end Overfull

/-- 512 bytes with a header that declares 60000, then 88, and then 512: of these `add` takes 424,
and the buffer is full. -/
def overfull : List Streams.Event :=
  [.accept 0 (List.replicate 1024 0), .recv 0 ([1, 234, 96] ++ List.replicate 509 65),
    .recv 0 (List.replicate 88 66), .recv 0 (List.replicate 424 67 ++ List.replicate 88 68)]

theorem bytes_conserved_counterexample :
    Checked Streams.step (Streams.onRound (Buffers 0)) (Streams.boot (List.replicate 512 0))
        overfull ∧
      ¬Always Streams.step (Conserved 0) (Streams.boot (List.replicate 512 0)) overfull := by
  let first : List UInt8 := [1, 234, 96] ++ List.replicate 509 65
  let second : List UInt8 := List.replicate 88 66
  let third : List UInt8 := List.replicate 424 67
  let lost : List UInt8 := List.replicate 88 68
  have hfirst : first.length = 512 := by
    rw [List.length_append, List.length_replicate]
    rfl
  have hsecond : second.length = 88 := List.length_replicate
  have hthird : third.length = 424 := List.length_replicate
  have hlost : lost.length = 88 := List.length_replicate
  have hdeclared {s : List UInt8} (h1 : byteAt s 1 = 234) (h2 : byteAt s 2 = 96) :
      (toushort s 1).toNat = 60000 := by
    have hsame : toushort s 1 = toushort [1, 234, 96] 1 := toushort_congr h1 h2
    rw [hsame]
    decide
  have hindex (p : ℕ) (hp : p ≤ 1024) : Indexable (CMDPKG_MAX * 2) p := .of_lt (by omega)
  have hmem : (List.replicate 1024 (0 : UInt8)).length = CMDPKG_MAX * 2 := List.length_replicate
  have hmax : CMDPKG_MAX = 512 := rfl
  let x0 : Stream := .new (List.replicate 1024 0)
  let t0 : Streams := .boot (List.replicate 512 0)
  have haccept : t0.step (.accept 0 (List.replicate 1024 0)) = some (t0.put 0 x0 t0.cmdBuf) :=
    Streams.step_accept rfl hmem
  have hnew : Ring x0.buf (CMDPKG_MAX * 2) [] 0 := ring_new (by decide) (by decide) hmem
  obtain ⟨buf1, hadd1, hring1⟩ := hnew.add_eq first (by rw [List.length_nil]; omega)
    fun p hp => hindex p (by rw [List.length_nil] at hp; omega)
  rw [List.nil_append] at hring1
  have hdeclared1 := hdeclared (s := first) rfl rfl
  obtain ⟨cmd1, hcmd1, hbuffers1, hstep1⟩ := step_waits (Streams.session_put_self t0 0 x0 _) rfl
    List.length_replicate (by omega) (by omega) hadd1 hring1 (by omega) (by omega)
    (by rw [hfirst]; decide)
  let x1 : Stream := x0.receive first buf1 none
  have hlength2 : (first ++ second).length = 600 := by rw [List.length_append]; omega
  have hdeclared2 := hdeclared (s := first ++ second) rfl rfl
  have hreceived1 : x1.chunks.flatten.length = 512 := by
    rw [show x1.chunks = [first] from rfl, List.flatten_singleton, hfirst]
  obtain ⟨buf2, hadd2, hring2⟩ := hring1.add_eq second (by omega) fun p hp => hindex p (by omega)
  obtain ⟨cmd2, hcmd2, hbuffers2, hstep2⟩ := step_waits (x := x1)
    (Streams.session_put_self (t0.put 0 x0 t0.cmdBuf) 0 x1 cmd1) rfl hcmd1 (by omega) (by omega)
    hadd2 hring2 (by omega) (by omega) (by omega)
  let x2 : Stream := x1.receive second buf2 none
  have hreceived2 : x2.chunks.flatten.length = 600 := by
    rw [show x2.chunks = x1.chunks ++ [second] from rfl, List.flatten_append, List.length_append,
      List.flatten_singleton, hreceived1, hsecond]
  -- of the third chunk only the beginning does
  have hlength3 : (first ++ second ++ third).length = 1024 := by rw [List.length_append]; omega
  have hdeclared3 := hdeclared (s := first ++ second ++ third) rfl rfl
  obtain ⟨buf3, hadd3, hring3⟩ := hring2.add_full (by decide) third lost (by omega) (by omega)
    fun p hp => hindex p (by omega)
  have hthirdlost : (third ++ lost).length = 512 := by rw [List.length_append]; omega
  obtain ⟨cmd3, hcmd3, hbuffers3, hstep3⟩ := step_waits (x := x2) (Streams.session_put_self
    ((t0.put 0 x0 t0.cmdBuf).put 0 x1 cmd1) 0 x2 cmd2) rfl hcmd2 (by omega) (by omega)
    hadd3 hring3 (by omega) (by omega) (by omega)
  constructor
  · refine ⟨trivial, fun t1 h1 => ⟨?_, fun t2 h2 => ⟨?_, fun t3 h3 => ⟨?_, fun _ _ => trivial⟩⟩⟩⟩
    · cases haccept.symm.trans h1
      exact hbuffers1
    · cases haccept.symm.trans h1
      cases hstep1.symm.trans h2
      exact hbuffers2
    · cases haccept.symm.trans h1
      cases hstep1.symm.trans h2
      cases hstep2.symm.trans h3
      exact hbuffers3
  · intro hall
    have hrun : run Streams.step t0 overfull = some ((((t0.put 0 x0 t0.cmdBuf).put 0 x1 cmd1).put
        0 x2 cmd2).put 0 (x2.receive (third ++ lost) buf3 none) cmd3) :=
      run_cons.mpr ⟨_, haccept, run_cons.mpr ⟨_, hstep1, run_cons.mpr ⟨_, hstep2,
        run_cons.mpr ⟨_, hstep3, rfl⟩⟩⟩⟩
    have hkept := hall.last hrun _ (Streams.session_put_self _ 0 _ _)
    have hunread : buf3.unread = first ++ second ++ third := hring3.unread_eq
    have hchunks : buf3.unread = (x2.chunks ++ [third ++ lost]).flatten := hkept
    have hlast : (x2.chunks ++ [third ++ lost]).flatten.length = 1112 := by
      rw [List.flatten_append, List.length_append, List.flatten_singleton]
      omega
    rw [← hchunks, hunread] at hlast
    omega

end Gpshub.CommandServer
