import Gpshub.Server.Streams

/-! Where the rounds of `incomingData` write in `cmd_buf`, and how much they take out of the
session's buffer. -/
namespace Gpshub.CommandServer

open Lib Machine CircularBuffer

/-- How many bytes the loop of `get` and `read` copies before it ends or leaves the array. -/
def copied (c : CircularBuffer) : ℕ → ℕ → ℕ
  | 0, _ => 0
  | left + 1, i =>
    let j := (c.start + Int32.ofNat i) % c.capacity
    if j = c.end_ ∧ 0 < i then 0
    else match cell c.buf j with
      | .ok _ => copied c left (i + 1) + 1
      | .error _ => 0

/-- The indices of `cmd_buf` written to when a package is taken out: by `get`, and by the
constructor of `CmdPkg` that terminates the data. -/
def finishWrites (r : Receiver) : List ℕ :=
  if (pkgLen r : ℤ) ≤ r.buf.size.toInt then
    List.range (copied r.buf (pkgLen r) 0) ++
    match takeBlock r with
    | .ok (m, _) => [(toushort m.cmdBuf 1).toNat]
    | .error _ => []
  else []

/-- The indices of `cmd_buf` written to when the header is read, and after. -/
def headerWrites (r : Receiver) : List ℕ :=
  List.range (copied r.buf 3 0) ++
  match readHeader r with
  | .ok m => finishWrites m
  | .error _ => []

/-- The indices of `cmd_buf` a round writes to, in order, until it ends or goes wrong. -/
def writes (bytes : List UInt8) (r : Receiver) : List ℕ :=
  List.range bytes.length ++
  match load bytes r with
  | .ok m => headerWrites m
  | .error _ => []

theorem copied_le (c : CircularBuffer) (k : ℕ) : ∀ i, copied c k i ≤ k := by
  induction k with
  | zero => exact fun _ => le_rfl
  | succ k ih =>
    intro i
    rw [copied]
    have hrest := ih (i + 1)
    split_ifs
    · exact Nat.zero_le _
    · split <;> omega

theorem copied_eq {c : CircularBuffer} {k : ℕ} :
    ∀ {i : ℕ} {bytes : List UInt8}, c.copyLoop k i = .ok bytes →
      copied c k i = bytes.length := by
  induction k with
  | zero =>
    intro i bytes h
    cases h
    rfl
  | succ k ih =>
    intro i bytes h
    rw [copyLoop] at h
    rw [copied]
    split_ifs at h ⊢
    · cases h
      rfl
    · obtain ⟨j, hj, h⟩ := bind_eq_ok.mp h
      obtain ⟨rest, hrest, h⟩ := bind_eq_ok.mp h
      cases h
      rw [hj]
      exact congrArg Nat.succ (ih hrest)

section Round

variable {bytes : List UInt8} {r : Receiver} {t e : ℕ}

/-- A package that `cmd_buf` has room for is copied there, and terminated right behind. -/
theorem finishWrites_eq (h : r.Sound t e) (hhead : Headed r)
    (hsize : (pkgLen r : ℤ) ≤ r.buf.size.toInt) (hle : pkgLen r ≤ CMDPKG_MAX) :
    finishWrites r = List.range (pkgLen r) ++ [pkgLen r] := by
  have hheld := h.1.le_of_size hsize
  obtain ⟨buf, block, hget, hblock, hl, -⟩ := h.1.get_eq hheld
  have hroom : 0 + block.length ≤ r.cmdBuf.length := by
    rw [h.2, hl]
    omega
  obtain ⟨mem, hcopy⟩ : ∃ mem, memcpy r.cmdBuf 0 block = .ok mem := ⟨_, memcpy_eq hroom⟩
  have htake : takeBlock r = .ok (⟨buf, mem⟩, block) := takeBlock_of_eq hget hcopy
  have hlen := hhead.getLen_eq h hheld hblock hcopy
  rw [finishWrites, if_pos hsize, copied_eq hblock, hl, htake]
  exact congrArg (fun n => List.range (pkgLen r) ++ [n]) hlen

/-- A package is taken out inside `cmd_buf` exactly if it leaves room for the terminator. -/
theorem finishWrites_iff (h : r.Sound t e) (hhead : Headed r)
    (hsize : (pkgLen r : ℤ) ≤ r.buf.size.toInt) :
    (∀ i ∈ finishWrites r, i < CMDPKG_MAX) ↔ pkgLen r < CMDPKG_MAX := by
  by_cases hle : pkgLen r ≤ CMDPKG_MAX
  · rw [finishWrites_eq h hhead hsize hle]
    constructor
    · exact fun hall => hall _ (List.mem_append_right _ (List.mem_singleton_self _))
    · intro hlt i hi
      obtain hi | hi := List.mem_append.mp hi
      · exact (List.mem_range.mp hi).trans hlt
      · exact List.mem_singleton.mp hi ▸ hlt
  · refine iff_of_false (fun hall => ?_) (by omega)
    obtain ⟨buf, block, -, hblock, hl, -⟩ := h.1.get_eq (h.1.le_of_size hsize)
    have hmem : CMDPKG_MAX ∈ finishWrites r := by
      rw [finishWrites, if_pos hsize, copied_eq hblock, hl]
      exact List.mem_append_left _ (List.mem_range.mpr (by omega))
    exact Nat.lt_irrefl _ (hall _ hmem)

/-- A round writes inside `cmd_buf` exactly if the package it takes, if any, leaves room for
the terminator. -/
theorem writes_iff (h : r.Sound t e) (hbytes : bytes.length ≤ CMDPKG_MAX) :
    (∀ i ∈ writes bytes r, i < CMDPKG_MAX) ↔ ∀ len ∈ declared bytes r, len < CMDPKG_MAX := by
  have hrange {n : ℕ} (hn : n ≤ CMDPKG_MAX) (rest : List ℕ) :
      (∀ i ∈ List.range n ++ rest, i < CMDPKG_MAX) ↔ ∀ i ∈ rest, i < CMDPKG_MAX := by
    simp only [List.mem_append, List.mem_range, or_imp, forall_and, and_iff_right_iff_imp]
    exact fun _ i hi => hi.trans_le hn
  rw [writes, hrange hbytes]
  cases hload : load bytes r with
  | error e =>
    have hnone : declared bytes r = none := by rw [declared, header, hload, error_bind]
    simp [hnone]
  | ok m =>
    obtain ⟨n, hm, -⟩ := load_sound h hload
    have hthree : copied m.buf 3 0 ≤ CMDPKG_MAX := (copied_le m.buf 3 0).trans (by decide)
    change (∀ i ∈ headerWrites m, i < CMDPKG_MAX) ↔ _
    rw [headerWrites, hrange hthree]
    cases hread : readHeader m with
    | error e =>
      have hnone : declared bytes r = none := by rw [declared, header, hload, ok_bind, hread]
      simp [hnone]
    | ok q =>
      obtain ⟨hq, hhead⟩ := readHeader_sound hm hread
      have hheader : header bytes r = .ok q := by rw [header, hload, ok_bind, hread]
      change (∀ i ∈ finishWrites q, i < CMDPKG_MAX) ↔ _
      rw [declared_eq hheader]
      by_cases hsize : (pkgLen q : ℤ) ≤ q.buf.size.toInt
      · rw [if_pos hsize]
        simpa using finishWrites_iff hq hhead hsize
      · rw [if_neg hsize, finishWrites, if_neg hsize]
        simp

end Round

namespace Streams

instance (t : Streams) (P : SessionRef → Stream → List UInt8 → Receiver → Prop)
    [∀ s x bytes r, Decidable (P s x bytes r)] : (e : Event) → Decidable (onRound P t e)
  | .accept _ _ => inferInstanceAs (Decidable True)
  | .recv s bytes =>
    inferInstanceAs (Decidable (∀ x ∈ t.serving s bytes, P s x bytes ⟨x.buf, t.cmdBuf⟩))
  | .close _ => inferInstanceAs (Decidable True)

end Streams

/-- Whatever arrives on whatever sessions: all writes stay inside `cmd_buf` if and only if all
packages taken out declare less than `CMDPKG_MAX` bytes. -/
theorem writes_inside_iff {cmdBuf : List UInt8} (hmem : cmdBuf.length = CMDPKG_MAX)
    (events : List Streams.Event) :
    Checked Streams.step
        (Streams.onRound fun _ _ bytes r => ∀ i ∈ writes bytes r, i < CMDPKG_MAX)
        (Streams.boot cmdBuf) events ↔
      Checked Streams.step
        (Streams.onRound fun _ _ bytes r => ∀ len ∈ declared bytes r, len < CMDPKG_MAX)
        (Streams.boot cmdBuf) events := by
  refine checked_iff (I := Streams.Sound) (F := fun _ _ => True) ?_ ?_
    (Streams.sound_boot hmem) (checked_true _ _)
  · exact fun t e t' h _ _ hs => Streams.sound_step t e t' hs h
  · intro t e h _
    cases e with
    | accept s memory => rfl
    | close s => rfl
    | recv s bytes =>
      refine forall₂_congr fun x hx => ?_
      obtain ⟨hs, -, -, hlen⟩ := Streams.serving_eq_some hx
      obtain ⟨a, n, hr⟩ := h.receiver hs
      exact writes_iff hr hlen

theorem writes_inside_small :
    Checked Streams.step
      (Streams.onRound fun _ _ bytes r => ∀ i ∈ writes bytes r, i < CMDPKG_MAX)
      (Streams.boot (List.replicate 512 0))
      [.accept 0 (List.replicate 1024 0), .recv 0 [1, 0], .recv 0 [5, 65, 0]] :=
  (writes_inside_iff List.length_replicate _).mpr (by decide +kernel)

/-- One `Recv` of a package that declares `CMDPKG_MAX` bytes. -/
theorem writes_inside_counterexample :
    ¬Checked Streams.step
      (Streams.onRound fun _ _ bytes r => ∀ i ∈ writes bytes r, i < CMDPKG_MAX)
      (Streams.boot (List.replicate 512 0))
      [.accept 0 (List.replicate 1024 0), .recv 0 ([1, 2, 0] ++ List.replicate 509 65)] := by
  intro hsafe
  have hmem : (List.replicate 1024 (0 : UInt8)).length = CMDPKG_MAX * 2 := List.length_replicate
  have hcmd : (List.replicate 512 (0 : UInt8)).length = CMDPKG_MAX := List.length_replicate
  have hlen : ([1, 2, 0] ++ List.replicate 509 (65 : UInt8)).length = 512 := by
    rw [List.length_append, List.length_replicate]
    rfl
  have hpkg : (toushort ([1, 2, 0] ++ List.replicate 509 (65 : UInt8)) 1).toNat = 512 := rfl
  obtain ⟨m, hheader, hsize, hm⟩ := header_first hmem hcmd (by omega) hlen.le
  have hdeclared : declared ([1, 2, 0] ++ List.replicate 509 65)
      ⟨(Stream.new (List.replicate 1024 0)).buf, List.replicate 512 0⟩ = some 512 :=
    declared_eq_some.mpr ⟨m, hheader, by omega, by omega⟩
  have hround := (hsafe.2 _ (Streams.step_accept rfl hmem)).1 (.new (List.replicate 1024 0))
    (Streams.serving_eq (Streams.session_put_self _ _ _ _) rfl (by omega) hlen.le)
  have hsound : Receiver.Sound
      ⟨(Stream.new (List.replicate 1024 0)).buf, List.replicate 512 0⟩ 0 0 :=
    ⟨(ring_new (by decide) (by decide) hmem).counts (by decide), hcmd⟩
  exact absurd ((writes_iff hsound hlen.le).mp hround 512 hdeclared) (by decide)

/-- Of every session at least three bytes were taken out for each package handed to `handle`. -/
def HeadersConsumed (t : Streams) : Prop :=
  ∀ s x, t.session s = some x → 3 * x.packets.length ≤ x.blocks.flatten.length

/-- The package handed out in a round takes its header out of the buffer. -/
def TakesHeader (_ : SessionRef) (_ : Stream) (bytes : List UInt8) (r : Receiver) : Prop :=
  ∀ r' taken, round bytes r = .ok (r', some taken) → 3 ≤ taken.block.length

/-- What is declared is no less than the header that declares it. -/
def CountsHeader (_ : SessionRef) (_ : Stream) (bytes : List UInt8) (r : Receiver) : Prop :=
  ∀ len ∈ declared bytes r, 3 ≤ len

instance (s : SessionRef) (x : Stream) (bytes : List UInt8) (r : Receiver) :
    Decidable (CountsHeader s x bytes r) :=
  inferInstanceAs (Decidable (∀ len ∈ declared bytes r, 3 ≤ len))

theorem HeadersConsumed.put {t : Streams} (h : HeadersConsumed t) {s : SessionRef} {x : Stream}
    (cmdBuf : List UInt8) (hx : 3 * x.packets.length ≤ x.blocks.flatten.length) :
    HeadersConsumed (t.put s x cmdBuf) := by
  intro u y hu
  rcases Streams.session_put hu with ⟨-, rfl⟩ | ⟨-, hu⟩
  · exact hx
  · exact h u y hu

theorem headersConsumed_step {t t' : Streams} {e : Streams.Event} (hs : t.step e = some t')
    (hsound : t.Sound) (h : HeadersConsumed t) :
    HeadersConsumed t' ∧ Streams.onRound TakesHeader t e ↔
      Streams.onRound CountsHeader t e := by
  cases Streams.step_moved hs with
  | accept hnone hmem => exact iff_of_true ⟨h.put _ (Nat.zero_le _), trivial⟩ trivial
  | close hx ho => exact iff_of_true ⟨h.put _ (h _ _ hx :), trivial⟩ trivial
  | @recv s bytes x r taken hserve hround =>
    have hx : t.session s = some x := (Streams.serving_eq_some hserve).1
    obtain ⟨a, n, hr⟩ := hsound.receiver hx
    have hdeclared := declared_of_round hr hround
    constructor
    · rintro ⟨-, htakes⟩ y hy len hlen
      cases hserve.symm.trans hy
      cases taken with
      | none =>
        rw [hdeclared] at hlen
        cases hlen
      | some k =>
        rw [hdeclared] at hlen
        exact Option.some.inj hlen ▸ htakes x hserve r k hround
    · intro hcounts
      have hk : ∀ k ∈ taken, 3 ≤ k.block.length := fun k hk =>
        hcounts x hserve _ (hdeclared.trans (by rw [Option.mem_def.mp hk]; rfl))
      refine ⟨h.put _ ?_, fun y hy r' k hk' => ?_⟩
      · have hold := h s x hx
        cases taken with
        | none => simpa [Stream.receive] using hold
        | some k =>
          have h3 := hk k rfl
          simp only [Stream.receive, Option.map_some, Option.toList_some, List.length_append,
            List.length_singleton, List.flatten_append, List.flatten_singleton]
          omega
      · cases hserve.symm.trans hy
        cases hround.symm.trans hk'
        exact hk k rfl

/-- Every package takes its own header out of the buffer, so that a session has at least three
bytes taken out for each of its packages, exactly as long as no package declares less. -/
theorem headers_consumed_iff {cmdBuf : List UInt8} (hmem : cmdBuf.length = CMDPKG_MAX)
    (events : List Streams.Event) :
    Always Streams.step HeadersConsumed (Streams.boot cmdBuf) events ∧
        Guarded Streams.step (Streams.onRound TakesHeader) (Streams.boot cmdBuf) events ↔
      Guarded Streams.step (Streams.onRound CountsHeader) (Streams.boot cmdBuf) events :=
  always_and_guarded_iff Streams.sound_step
    (fun _ _ _ hs hsound h => headersConsumed_step hs hsound h) (Streams.sound_boot hmem)
    (fun _ _ hs => nomatch hs)

theorem headers_consumed_two :
    Always Streams.step HeadersConsumed (Streams.boot (List.replicate 512 0))
      [.accept 0 (List.replicate 1024 0), .recv 0 [1, 0, 5, 65, 0], .recv 0 [2, 0, 4, 0]] :=
  ((headers_consumed_iff List.length_replicate _).mpr (by decide +kernel)).1

/-- A package that declares no bytes is handed out, and none are taken out of the buffer. -/
theorem headers_consumed_counterexample :
    ¬Always Streams.step HeadersConsumed (Streams.boot (List.replicate 512 0))
      [.accept 0 (List.replicate 1024 0), .recv 0 [1, 0, 0]] := by
  intro hall
  have hrun : ((run Streams.step (Streams.boot (List.replicate 512 0))
      [.accept 0 (List.replicate 1024 0), .recv 0 [1, 0, 0]]).bind fun t => t.session 0).map
      (fun x => (x.packets.length, x.blocks.flatten.length)) = some (1, 0) := by decide +kernel
  obtain ⟨x, hx, hcounts⟩ := Option.map_eq_some_iff.mp hrun
  obtain ⟨t, ht, hs⟩ := Option.bind_eq_some_iff.mp hx
  have hlast := hall.last ht 0 x hs
  rw [Prod.mk.injEq] at hcounts
  omega

end Gpshub.CommandServer
