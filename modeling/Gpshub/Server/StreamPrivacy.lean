import Gpshub.Server.StreamBounds

/-! When what is handed to `handle` for a session depends on what that session received, and
on nothing that other sessions left in `cmd_buf`. -/
namespace Gpshub.CommandServer

open Lib Machine CircularBuffer

/-- What `handle` is called with. -/
def Taken.packet (x : Taken) : UInt8 × Nick := (x.cmd.getType, x.cmd.getData)

/-- The package as the session's own bytes give it: `block` was taken out of its buffer, and
`bytes` have just been received. -/
def ownPacket (bytes block : List UInt8) : UInt8 × Nick :=
  if 3 ≤ block.length then (byteAt block 0, (block.drop 3).takeWhile (· ≠ 0))
  else (if block = [] then 0 else byteAt block 0, (bytes.drop 3).takeWhile (· ≠ 0))

/-- A package shorter than its header shows what stands behind the header in `cmd_buf`: that
are bytes just received, if the string ends there. -/
def Own (s : SessionRef) (u : SessionRef) (_ : Stream) (bytes : List UInt8) (r : Receiver) :
    Prop :=
  u = s → ∀ len ∈ declared bytes r, 3 ≤ len ∨ 0 ∈ bytes.drop 3

theorem takeWhile_append_of_mem {xs : List UInt8} (ys : List UInt8) (h : 0 ∈ xs) :
    (xs ++ ys).takeWhile (· ≠ 0) = xs.takeWhile (· ≠ 0) := by
  induction xs with
  | nil => cases h
  | cons x xs ih =>
    rw [List.cons_append, List.takeWhile_cons, List.takeWhile_cons]
    by_cases hx : x = 0
    · simp [hx]
    · obtain h0 | h := List.mem_cons.mp h
      · exact absurd h0.symm hx
      · rw [ih h]

theorem takeWhile_append_zero (xs ys : List UInt8) :
    (xs ++ 0 :: ys).takeWhile (· ≠ 0) = xs.takeWhile (· ≠ 0) := by
  induction xs with
  | nil => rfl
  | cons x xs ih => rw [List.cons_append, List.takeWhile_cons, List.takeWhile_cons, ih]

section Round

variable {bytes : List UInt8} {r : Receiver} {t e : ℕ}

/-- A package that is declared by a string of its own ends in the bytes received has a header
of its own. -/
theorem own_header {m : Receiver} {n : ℕ} (h : m.Sound t (e + n)) (hte : t ≤ e)
    (hn : n = bytes.length ∨ t + CMDPKG_MAX * 2 ≤ e + n)
    (hsize : (pkgLen m : ℤ) ≤ m.buf.size.toInt)
    (hown : 3 ≤ pkgLen m ∨ 0 ∈ bytes.drop 3) : t + 3 ≤ e + n := by
  have hheld := h.1.le_of_size hsize
  have hmax : CMDPKG_MAX = 512 := rfl
  obtain h3 | h0 := hown
  · omega
  · have hlen := List.length_pos_of_mem h0
    rw [List.length_drop] at hlen
    omega

/-- What is handed out of a complete header, with enough behind it, is the session's own. -/
theorem packet_own {mem1 mem2 mem3 mem4 first block : List UInt8} {cmd : CmdPkg}
    (hrecv : memcpy mem1 0 bytes = .ok mem2)
    (hread : memcpy mem2 0 first = .ok mem3) (hfirst : first.length = 3)
    (hget : memcpy mem3 0 block = .ok mem4) (hend : block.length < mem4.length)
    (hcmd : cmd.bytes = mem4.set block.length 0)
    (hown : 3 ≤ block.length ∨ 0 ∈ bytes.drop 3) :
    (cmd.getType, cmd.getData) = ownPacket bytes block := by
  have h2 := memcpy_front hrecv
  have h3 := memcpy_front hread
  have h4 := memcpy_front hget
  rw [hfirst] at h3
  unfold ownPacket CmdPkg.getType CmdPkg.getData
  rw [hcmd]
  by_cases hle : 3 ≤ block.length
  · rw [if_pos hle]
    -- the terminator stands right behind the block
    have hset : mem4.set block.length 0 = block ++ 0 :: (mem3.drop block.length).tail := by
      have hne : 0 < (mem3.drop block.length).length := by
        rw [h4, List.length_append] at hend
        omega
      rw [h4, List.set_append_right _ _ le_rfl, Nat.sub_self]
      cases hrest : mem3.drop block.length with
      | nil =>
        rw [hrest] at hne
        cases hne
      | cons b rest => rfl
    rw [hset, byteAt_append_left (by omega), List.drop_append_of_le_length hle,
      takeWhile_append_zero]
  · have hbytes := hown.resolve_left hle
    rw [if_neg hle]
    have hdata : (mem4.set block.length 0).drop 3 = bytes.drop 3 ++ (mem1.drop bytes.length) := by
      have hb3 : 3 ≤ bytes.length := by
        have hpos := List.length_pos_of_mem hbytes
        rw [List.length_drop] at hpos
        omega
      calc (mem4.set block.length 0).drop 3
          = mem4.drop 3 := List.drop_set_of_lt (by omega)
        _ = mem3.drop 3 := by
          rw [h4, List.drop_append, List.drop_eq_nil_of_le (by omega), List.nil_append,
            List.drop_drop]
          congr 1
          omega
        _ = mem2.drop 3 := by
          rw [h3, List.drop_append, List.drop_eq_nil_of_le (by omega), List.nil_append, hfirst]
          rfl
        _ = bytes.drop 3 ++ mem1.drop bytes.length := by
          rw [h2, List.drop_append_of_le_length hb3]
    rw [hdata, takeWhile_append_of_mem _ hbytes]
    congr 1
    by_cases hnil : block = []
    · subst hnil
      rw [if_pos rfl]
      cases mem4 with
      | nil => cases hend
      | cons b rest => rfl
    · have hpos := List.length_pos_of_ne_nil hnil
      rw [if_neg hnil, byteAt_set_ne 0 (by omega), h4, byteAt_append_left hpos]

/-- What a package shows of the bytes of its session, in a round that was completed. -/
theorem finish_own {q m : Receiver} {n : ℕ} {mem first : List UInt8} {taken : Option Taken}
    (h : m.Sound t (e + n)) (hte : t ≤ e)
    (hn : n = bytes.length ∨ t + CMDPKG_MAX * 2 ≤ e + n) (hhead : Headed m)
    (hrecv : memcpy mem 0 bytes = .ok q.cmdBuf) (hread : memcpy q.cmdBuf 0 first = .ok m.cmdBuf)
    (hfirst : m.buf.copyLoop 3 0 = .ok first)
    (hown : (pkgLen m : ℤ) ≤ m.buf.size.toInt → 3 ≤ pkgLen m ∨ 0 ∈ bytes.drop 3)
    (hfinish : finish m = .ok (r, taken)) :
    ∀ x ∈ taken, t + 3 ≤ e + n ∧ x.packet = ownPacket bytes x.block := by
  intro x hx
  cases finish_eq_ok hfinish with
  | wait hsize => cases hx
  | take hsize hget hcopy hend hcmd =>
    cases Option.some.inj hx
    have h3 := own_header h hte hn hsize (hown hsize)
    have hheld := h.1.le_of_size hsize
    obtain ⟨buf, block, hget', hblock, hl, -⟩ := h.1.get_eq hheld
    cases hget.symm.trans hget'
    have hlen := hhead.getLen_eq h hheld hblock hcopy
    obtain ⟨out, hout, hl3⟩ := h.1.copyLoop_eq (show t + 0 + 3 ≤ e + n by omega)
    cases hfirst.symm.trans hout
    rw [hlen, ← hl] at hend hcmd
    exact ⟨h3, packet_own hrecv hread hl3 hcopy hend hcmd (by rw [hl]; exact hown hsize)⟩

/-- Buffers that differ in cells never written, and whatever is left in `cmd_buf`: the same
bytes have the same package handed out. -/
theorem round_alike {buf buf' : CircularBuffer} {cmdBuf cmdBuf' : List UInt8} {r' : Receiver}
    {taken taken' : Option Taken} (h : Counts buf (CMDPKG_MAX * 2) t e)
    (ha : CircularBuffer.Alike (CMDPKG_MAX * 2) e buf buf') (hmem : cmdBuf.length = CMDPKG_MAX)
    (hmem' : cmdBuf'.length = CMDPKG_MAX) (hpos : 0 < bytes.length)
    (hown : ∀ len ∈ declared bytes ⟨buf, cmdBuf⟩, 3 ≤ len ∨ 0 ∈ bytes.drop 3)
    (hown' : ∀ len ∈ declared bytes ⟨buf', cmdBuf'⟩, 3 ≤ len ∨ 0 ∈ bytes.drop 3)
    (hround : round bytes ⟨buf, cmdBuf⟩ = .ok (r, taken))
    (hround' : round bytes ⟨buf', cmdBuf'⟩ = .ok (r', taken')) :
    taken'.map Taken.packet = taken.map Taken.packet ∧
      ∃ t' e', Counts r.buf (CMDPKG_MAX * 2) t' e' ∧
        CircularBuffer.Alike (CMDPKG_MAX * 2) e' r.buf r'.buf := by
  have h' : Counts buf' (CMDPKG_MAX * 2) t e := h.of_alike ha
  have hte := h.order
  obtain ⟨m, hheader, hfinish⟩ := round_eq_ok hround
  obtain ⟨m', hheader', hfinish'⟩ := round_eq_ok hround'
  obtain ⟨q, hload, hreader⟩ := bind_eq_ok.mp hheader
  obtain ⟨q', hload', hreader'⟩ := bind_eq_ok.mp hheader'
  obtain ⟨n, hrecv, hadd⟩ := load_eq_ok hload
  obtain ⟨n', hrecv', hadd'⟩ := load_eq_ok hload'
  obtain ⟨-, haq⟩ := h.add_alike ha hadd hadd'
  obtain ⟨hq, hle, hn⟩ := h.add_ok hadd
  have hmax : CMDPKG_MAX = 512 := rfl
  have hne : t < e + n := by omega
  obtain ⟨first, hread, hcopy, hbuf⟩ := readHeader_eq_ok hreader
  obtain ⟨first', hread', hcopy', hbuf'⟩ := readHeader_eq_ok hreader'
  have hsame := hq.copyLoop_alike haq (Or.inr hne) (Or.inl hq.order) hread
  cases hsame.symm.trans hread'
  obtain ⟨hm, hhead⟩ := readHeader_sound (t := t) (e := e + n)
    ⟨hq, (memcpy_length hrecv).trans hmem⟩ hreader
  obtain ⟨hm', hhead'⟩ := readHeader_sound (t := t) (e := e + n)
    ⟨hq.of_alike haq, (memcpy_length hrecv').trans hmem'⟩ hreader'
  have ham : CircularBuffer.Alike (CMDPKG_MAX * 2) (e + n) m.buf m'.buf := by rwa [hbuf, hbuf']
  have hshown := finish_own hm hte hn hhead hrecv hcopy (hbuf ▸ hread)
    (fun hsize => hown _ (declared_eq_some.mpr ⟨m, hheader, hsize, rfl⟩)) hfinish
  have hshown' := finish_own hm' hte hn hhead' hrecv' hcopy' (hbuf' ▸ hread')
    (fun hsize => hown' _ (declared_eq_some.mpr ⟨m', hheader', hsize, rfl⟩)) hfinish'
  by_cases h3 : t + 3 ≤ e + n
  · have hpkg : pkgLen m' = pkgLen m := by
      obtain ⟨out, hout, hl3⟩ := hq.copyLoop_eq (show t + 0 + 3 ≤ e + n by omega)
      cases hread.symm.trans hout
      have hfront (i : ℕ) (hi : i < 3) : byteAt m'.cmdBuf i = byteAt m.cmdBuf i := by
        rw [memcpy_front hcopy, memcpy_front hcopy', byteAt_append_left (by omega),
          byteAt_append_left (by omega)]
      rw [pkgLen, pkgLen, toushort_congr (hfront 1 (by decide)) (hfront 2 (by decide))]
    have hsizes : m'.buf.size = m.buf.size := by rw [ham.1, size, size]
    cases finish_eq_ok hfinish with
    | wait hsize =>
      cases finish_eq_ok hfinish' with
      | wait hsize' => exact ⟨rfl, t, e + n, hm.1, ham⟩
      | take hsize' hget' hout' hend' hcmd' =>
        rw [hpkg, hsizes] at hsize'
        omega
    | take hsize hget hout hend hcmd =>
      cases finish_eq_ok hfinish' with
      | wait hsize' =>
        rw [hpkg, hsizes] at hsize'
        omega
      | take hsize' hget' hout' hend' hcmd' =>
        rw [hpkg] at hget'
        obtain ⟨rfl, had⟩ := hm.1.get_alike ham hne hget hget'
        obtain ⟨d, block, hd, -, -, -, hcounts⟩ := hm.1.get_eq (hm.1.le_of_size hsize)
        cases hget.symm.trans hd
        refine ⟨?_, _, _, hcounts, had⟩
        exact congrArg some ((hshown' _ rfl).2.trans (hshown _ rfl).2.symm)
  · cases finish_eq_ok hfinish with
    | take => exact absurd (hshown _ rfl).1 h3
    | wait hsize =>
      cases finish_eq_ok hfinish' with
      | take => exact absurd (hshown' _ rfl).1 h3
      | wait hsize' => exact ⟨rfl, t, e + n, hm.1, ham⟩

end Round

/-- A buffer and the packages handed out that the chunks of a session, the last one first, can
lead to, whatever its memory held and whatever stood in `cmd_buf` each time. -/
inductive Solo : List (List UInt8) → CircularBuffer → List (UInt8 × Nick) → Prop
  | new {memory : List UInt8} (hmem : memory.length = CMDPKG_MAX * 2) :
      Solo [] (Stream.new memory).buf []
  | round {chunks : List (List UInt8)} {buf : CircularBuffer} {packets : List (UInt8 × Nick)}
      {bytes cmdBuf : List UInt8} {r : Receiver} {taken : Option Taken}
      (h : Solo chunks buf packets) (hmem : cmdBuf.length = CMDPKG_MAX)
      (hpos : 0 < bytes.length)
      (hown : ∀ len ∈ declared bytes ⟨buf, cmdBuf⟩, 3 ≤ len ∨ 0 ∈ bytes.drop 3)
      (hround : round bytes ⟨buf, cmdBuf⟩ = .ok (r, taken)) :
      Solo (bytes :: chunks) r.buf (packets ++ (taken.map Taken.packet).toList)

theorem Solo.agree {chunks : List (List UInt8)} {buf : CircularBuffer}
    {packets : List (UInt8 × Nick)} (h : Solo chunks buf packets) :
    ∀ {buf' : CircularBuffer} {packets' : List (UInt8 × Nick)}, Solo chunks buf' packets' →
      packets' = packets ∧ ∃ t e, Counts buf (CMDPKG_MAX * 2) t e ∧
        CircularBuffer.Alike (CMDPKG_MAX * 2) e buf buf' := by
  induction h with
  | @new memory hmem =>
    intro buf' packets' h'
    cases h' with
    | @new memory' hmem' =>
      have hring : Ring (Stream.new memory).buf (CMDPKG_MAX * 2) [] 0 :=
        ring_new (by decide) (by decide) hmem
      refine ⟨rfl, 0, 0, hring.counts (by decide), rfl, hmem.trans hmem'.symm, ?_⟩
      exact fun k _ hk => absurd hk (Nat.not_lt_zero k)
  | round h hmem hpos hown hround ih =>
    intro buf' packets' h'
    cases h' with
    | round h' hmem' _ hown' hround' =>
      obtain ⟨rfl, t, e, hcounts, halike⟩ := ih h'
      obtain ⟨hpackets, hbuf⟩ := round_alike hcounts halike hmem hmem' hpos hown hown'
        hround hround'
      exact ⟨by rw [hpackets], hbuf⟩

namespace Streams

/-- The chunks that session `s` receives. -/
def received (s : SessionRef) (events : List Event) : List (List UInt8) :=
  events.filterMap fun
    | .recv u bytes => if u = s then some bytes else none
    | _ => none

/-- The chunks that arrived on session `s`. -/
def chunks (s : SessionRef) (t : Streams) : List (List UInt8) := (t.session s).elim [] Stream.chunks

/-- The packages `handle` was called with for session `s`. -/
def packets (s : SessionRef) (t : Streams) : List (UInt8 × Nick) :=
  (t.session s).elim [] Stream.packets

theorem received_cons (s : SessionRef) (e : Event) (events : List Event) :
    received s (e :: events) = received s [e] ++ received s events := by
  rw [received, ← List.singleton_append, List.filterMap_append]
  rfl

theorem chunks_step {s : SessionRef} {t t' : Streams} {e : Event} (hs : t.step e = some t') :
    t'.chunks s = t.chunks s ++ received s [e] := by
  cases step_moved hs with
  | @accept u memory hnone hmem =>
    by_cases hus : s = u
    · subst hus
      simp [chunks, received, hnone, Stream.new]
    · simp [chunks, received, session_put_ne _ _ hus]
  | @recv u bytes x r taken hserve hround =>
    by_cases hus : s = u
    · subst hus
      simp [chunks, received, (serving_eq_some hserve).1, Stream.receive]
    · simp [chunks, received, session_put_ne _ _ hus, Ne.symm hus]
  | @close u x hx ho =>
    by_cases hus : s = u
    · subst hus
      simp [chunks, received, hx]
    · simp [chunks, received, session_put_ne _ _ hus]

theorem chunks_run {s : SessionRef} {events : List Event} :
    ∀ {t t' : Streams}, run step t events = some t' →
      t'.chunks s = t.chunks s ++ received s events := by
  induction events with
  | nil =>
    intro t t' hr
    cases hr
    exact (List.append_nil _).symm
  | cons e events ih =>
    intro t t' hr
    obtain ⟨m, hs, hr⟩ := run_cons.mp hr
    rw [ih hr, chunks_step hs, List.append_assoc, ← received_cons]

/-- The packages of session `s` are what its chunks alone can lead to. -/
def Separate (s : SessionRef) (t : Streams) : Prop :=
  t.Sound ∧ ∀ x, t.session s = some x → Solo x.chunks.reverse x.buf x.packets

theorem separate_step {s : SessionRef} {t t' : Streams} {e : Event} (h : Separate s t)
    (hown : onRound (Own s) t e) (hs : t.step e = some t') : Separate s t' := by
  refine ⟨sound_step t e t' hs h.1, fun y hy => ?_⟩
  cases step_moved hs with
  | accept hnone hmem =>
    rcases session_put hy with ⟨-, rfl⟩ | ⟨-, hy⟩
    · exact .new hmem
    · exact h.2 y hy
  | recv hserve hround =>
    rcases session_put hy with ⟨rfl, rfl⟩ | ⟨-, hy⟩
    · obtain ⟨hx, -, hpos, -⟩ := serving_eq_some hserve
      rw [Stream.receive, List.reverse_append]
      exact (h.2 _ hx).round h.1.cmdBuf hpos (hown _ hserve rfl) hround
    · exact h.2 y hy
  | @close u x hx ho =>
    rcases session_put hy with ⟨rfl, rfl⟩ | ⟨-, hy⟩
    · exact h.2 x hx
    · exact h.2 y hy

theorem Separate.solo {s : SessionRef} {t : Streams} (h : Separate s t) :
    ∃ buf, Solo (t.chunks s).reverse buf (t.packets s) := by
  unfold chunks packets
  cases hx : t.session s with
  | none => exact ⟨_, .new (List.length_replicate (a := 0))⟩
  | some x => exact ⟨x.buf, h.2 x hx⟩

theorem solo_run {s : SessionRef} {cmdBuf : List UInt8} {events : List Event} {t : Streams}
    (hmem : cmdBuf.length = CMDPKG_MAX) (hrun : run step (boot cmdBuf) events = some t)
    (hown : Guarded step (onRound (Own s)) (boot cmdBuf) events) :
    ∃ buf, Solo (received s events).reverse buf (t.packets s) := by
  have hboot : Separate s (boot cmdBuf) := ⟨sound_boot hmem, fun _ hx => nomatch hx⟩
  have hall := always_of_step (I := Separate s)
    (fun _ _ _ _ _ ho hs h => separate_step h ho hs) (always_true _ _) hown hboot
  obtain ⟨buf, hsolo⟩ := (hall.last hrun).solo
  have hchunks : t.chunks s = received s events := chunks_run hrun
  exact ⟨buf, hchunks ▸ hsolo⟩

end Streams

/-- Two runs in which session `s` receives the same chunks hand out the same packages for it,
whatever happens on the other sessions, as long as each of its packages shows bytes of its own. -/
theorem packets_own {cmdBuf cmdBuf' : List UInt8} (hmem : cmdBuf.length = CMDPKG_MAX)
    (hmem' : cmdBuf'.length = CMDPKG_MAX) {s : SessionRef} {events events' : List Streams.Event}
    {t t' : Streams} (hrun : run Streams.step (Streams.boot cmdBuf) events = some t)
    (hrun' : run Streams.step (Streams.boot cmdBuf') events' = some t')
    (hown : Guarded Streams.step (Streams.onRound (Own s)) (Streams.boot cmdBuf) events)
    (hown' : Guarded Streams.step (Streams.onRound (Own s)) (Streams.boot cmdBuf') events')
    (hsame : Streams.received s events = Streams.received s events') :
    t.packets s = t'.packets s := by
  obtain ⟨buf, hsolo⟩ := Streams.solo_run hmem hrun hown
  obtain ⟨buf', hsolo'⟩ := Streams.solo_run hmem' hrun' hown'
  exact ((hsame ▸ hsolo).agree hsolo').1.symm

instance (s u : SessionRef) (x : Stream) (bytes : List UInt8) (r : Receiver) :
    Decidable (Own s u x bytes r) :=
  inferInstanceAs (Decidable (u = s → ∀ len ∈ declared bytes r, _ ∨ _))

theorem packets_own_two :
    let events : List Streams.Event := [.accept 0 (List.replicate 1024 0),
      .accept 1 (List.replicate 1024 0), .recv 1 [1, 255, 255], .recv 0 [2, 0, 5, 65],
      .recv 0 [0]]
    let events' : List Streams.Event := [.accept 0 (List.replicate 1024 7),
      .recv 0 [2, 0, 5, 65], .accept 1 (List.replicate 1024 7), .recv 1 [9, 9, 9, 9, 9, 9],
      .recv 0 [0]]
    (run Streams.step (Streams.boot (List.replicate 512 0)) events).map (Streams.packets 0) =
      (run Streams.step (Streams.boot (List.replicate 512 3)) events').map
        (Streams.packets 0) := by
  intro events events'
  obtain ⟨t, hrun⟩ := Option.isSome_iff_exists.mp (show (run Streams.step
    (Streams.boot (List.replicate 512 0)) events).isSome by decide +kernel)
  obtain ⟨t', hrun'⟩ := Option.isSome_iff_exists.mp (show (run Streams.step
    (Streams.boot (List.replicate 512 3)) events').isSome by decide +kernel)
  rw [hrun, hrun']
  exact congrArg some (packets_own List.length_replicate List.length_replicate hrun hrun'
    (by decide +kernel) (by decide +kernel) (by decide))

/-- The first byte of a package, received alone, is taken for a whole package or not by the
length that another session's package left in `cmd_buf`. -/
theorem packets_own_counterexample :
    let events : List Streams.Event := [.accept 0 (List.replicate 1024 0),
      .accept 1 (List.replicate 1024 0), .recv 1 [1, 0, 1], .recv 0 [2]]
    let events' : List Streams.Event := [.accept 0 (List.replicate 1024 0),
      .accept 1 (List.replicate 1024 0), .recv 1 [1, 255, 255], .recv 0 [2]]
    Streams.received 0 events = Streams.received 0 events' ∧
    (run Streams.step (Streams.boot (List.replicate 512 0)) events).map (Streams.packets 0) =
      some [(2, [])] ∧
    (run Streams.step (Streams.boot (List.replicate 512 0)) events').map (Streams.packets 0) =
      some [] := by
  decide +kernel

end Gpshub.CommandServer
