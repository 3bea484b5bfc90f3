import Gpshub.Hub.State
import Gpshub.Lib.Directory
import Gpshub.Lib.Machine
import Gpshub.Server.Receive
import Gpshub.Util.RingCounts

/-! The sessions of the command server and the `cmd_buf` they share: rounds of the loop of
`incomingData`, each for any of the sessions. -/
namespace Gpshub.CommandServer

open Lib Machine CircularBuffer

/-- `Recv` has written `bytes` to `cmd_buf`, and they are added to the buffer. -/
def load (bytes : List UInt8) (r : Receiver) : Except Abort Receiver := do
  let cmdBuf ← memcpy r.cmdBuf 0 bytes
  let (buf, _) ← r.buf.add (cmdBuf.take bytes.length)
  return { buf, cmdBuf }

/-- The header is read to `cmd_buf`. -/
def readHeader (r : Receiver) : Except Abort Receiver := do
  let bytes ← r.buf.read 3
  let cmdBuf ← memcpy r.cmdBuf 0 bytes
  return { r with cmdBuf }

def header (bytes : List UInt8) (r : Receiver) : Except Abort Receiver :=
  load bytes r >>= readHeader

/-- The length in the header. -/
def pkgLen (r : Receiver) : ℕ := (toushort r.cmdBuf 1).toNat

/-- `get` copies a package of that length to `cmd_buf`. -/
def takeBlock (r : Receiver) : Except Abort (Receiver × List UInt8) := do
  let (buf, block) ← r.buf.get (pkgLen r)
  let cmdBuf ← memcpy r.cmdBuf 0 block
  return ({ buf, cmdBuf }, block)

/-- A package handed to `handle`, and the bytes that `get` took for it. -/
structure Taken where
  block : List UInt8
  cmd : CmdPkg
  deriving DecidableEq, Repr

/-- `takePkg`, which also tells what was taken out of the buffer. -/
def finish (r : Receiver) : Except Abort (Receiver × Option Taken) := do
  if (pkgLen r : ℤ) ≤ r.buf.size.toInt then
    let (r, block) ← takeBlock r
    let cmd ← CmdPkg.ofBuffer r.cmdBuf
    return ({ r with cmdBuf := cmd.bytes }, some { block, cmd })
  else return (r, none)

/-- One round of the loop, after `Recv` has returned `bytes`. -/
def round (bytes : List UInt8) (r : Receiver) : Except Abort (Receiver × Option Taken) :=
  header bytes r >>= finish

/-- The length of the package a round hands to `handle`: what the header says, where `size()`
is not below it. -/
def declared (bytes : List UInt8) (r : Receiver) : Option ℕ :=
  match header bytes r with
  | .ok r => if (pkgLen r : ℤ) ≤ r.buf.size.toInt then some (pkgLen r) else none
  | .error _ => none

/-- An accepted connection: its buffer, what `Recv` returned on it, what `get` took out, and
what `handle` was called with. -/
structure Stream where
  buf : CircularBuffer
  isOpen : Bool
  chunks : List (List UInt8)
  blocks : List (List UInt8)
  packets : List (UInt8 × Nick)
  deriving DecidableEq, Repr

/-- `memory` is what `malloc` returned for the buffer. -/
def Stream.new (memory : List UInt8) : Stream where
  buf := .new (.ofNat (CMDPKG_MAX * 2)) memory
  isOpen := true
  chunks := []
  blocks := []
  packets := []

/-- After a round that left `buf` and handed out `taken`. -/
def Stream.receive (x : Stream) (bytes : List UInt8) (buf : CircularBuffer)
    (taken : Option Taken) : Stream :=
  { x with
    buf
    chunks := x.chunks ++ [bytes]
    blocks := x.blocks ++ (taken.map Taken.block).toList
    packets := x.packets ++ (taken.map fun t => (t.cmd.getType, t.cmd.getData)).toList }

/-- All sessions ever accepted, and the one `cmd_buf`. -/
structure Streams where
  session : SessionRef → Option Stream
  cmdBuf : List UInt8

namespace Streams

/-- Before the first connection; `cmdBuf` is what the memory of the server holds. -/
def boot (cmdBuf : List UInt8) : Streams := { session := fun _ => none, cmdBuf }

/-- One thread serves all sessions, one round of the loop after another. -/
inductive Event
  | accept (s : SessionRef) (memory : List UInt8)
  | recv (s : SessionRef) (bytes : List UInt8)
  | close (s : SessionRef)
  deriving DecidableEq, Repr

/-- The session on which `Recv` can return `bytes`: these are not none, which would be the end
of file, and no more than asked for. -/
def serving (t : Streams) (s : SessionRef) (bytes : List UInt8) : Option Stream :=
  (t.session s).filter fun x => x.isOpen && decide (0 < bytes.length ∧ bytes.length ≤ CMDPKG_MAX)

def put (t : Streams) (s : SessionRef) (x : Stream) (cmdBuf : List UInt8) : Streams where
  session := Function.update t.session s (some x)
  cmdBuf := cmdBuf

def step (t : Streams) : Event → Option Streams
  | .accept s memory =>
    if t.session s = none ∧ memory.length = CMDPKG_MAX * 2 then
      some (t.put s (.new memory) t.cmdBuf)
    else none
  | .recv s bytes => do
    let x ← t.serving s bytes
    let (r, taken) ← (round bytes ⟨x.buf, t.cmdBuf⟩).toOption
    return t.put s (x.receive bytes r.buf taken) r.cmdBuf
  | .close s => do
    let x ← t.session s
    if x.isOpen then return t.put s { x with isOpen := false } t.cmdBuf else none

/-- A condition on the rounds: on the bytes that arrive and on what they find. -/
def onRound (P : SessionRef → Stream → List UInt8 → Receiver → Prop) (t : Streams) :
    Event → Prop
  | .recv s bytes => ∀ x, t.serving s bytes = some x → P s x bytes ⟨x.buf, t.cmdBuf⟩
  | _ => True

end Streams

theorem takePkg_eq_finish (r : Receiver) : takePkg r.buf r.cmdBuf =
    (fun out => (out.1, out.2.map Taken.cmd)) <$> finish r := by
  have htake : takePkg r.buf r.cmdBuf = if (pkgLen r : ℤ) ≤ r.buf.size.toInt then do
      let (buf, pkg) ← r.buf.get (pkgLen r)
      let cmdBuf ← memcpy r.cmdBuf 0 pkg
      let cmd ← CmdPkg.ofBuffer cmdBuf
      return ({ buf, cmdBuf := cmd.bytes }, some cmd)
    else return (r, none) := rfl
  rw [htake, finish]
  split_ifs
  · simp only [takeBlock, map_bind, bind_assoc, pure_bind, map_pure, Option.map_some]
  · rfl

theorem receive_eq_round (bytes : List UInt8) (r : Receiver) :
    receive bytes r = (fun out => (out.1, out.2.map Taken.cmd)) <$> round bytes r := by
  simp only [receive, round, header, load, readHeader, map_bind, bind_assoc, pure_bind,
    ← takePkg_eq_finish]

theorem load_eq_ok {bytes : List UInt8} {r r' : Receiver} (h : load bytes r = .ok r') :
    ∃ n, memcpy r.cmdBuf 0 bytes = .ok r'.cmdBuf ∧ r.buf.add bytes = .ok (r'.buf, n) := by
  obtain ⟨cmdBuf, hcopy, h⟩ := bind_eq_ok.mp h
  obtain ⟨⟨buf, n⟩, hadd, h⟩ := bind_eq_ok.mp h
  cases h
  rw [take_of_memcpy hcopy] at hadd
  exact ⟨n, hcopy, hadd⟩

theorem header_of_eq {bytes first mem out : List UInt8} {r : Receiver} {buf : CircularBuffer}
    {n : ℕ} (hcopy : memcpy r.cmdBuf 0 bytes = .ok mem) (hadd : r.buf.add bytes = .ok (buf, n))
    (hread : buf.read 3 = .ok first) (hout : memcpy mem 0 first = .ok out) :
    header bytes r = .ok ⟨buf, out⟩ := by
  rw [← take_of_memcpy hcopy] at hadd
  have hload : load bytes r = .ok ⟨buf, mem⟩ :=
    bind_eq_ok.mpr ⟨mem, hcopy, bind_eq_ok.mpr ⟨_, hadd, rfl⟩⟩
  have hreader : readHeader ⟨buf, mem⟩ = .ok ⟨buf, out⟩ :=
    bind_eq_ok.mpr ⟨first, hread, bind_eq_ok.mpr ⟨out, hout, rfl⟩⟩
  exact bind_eq_ok.mpr ⟨_, hload, hreader⟩

theorem readHeader_eq_ok {r r' : Receiver} (h : readHeader r = .ok r') :
    ∃ bytes, r.buf.copyLoop 3 0 = .ok bytes ∧ memcpy r.cmdBuf 0 bytes = .ok r'.cmdBuf ∧
      r'.buf = r.buf := by
  obtain ⟨bytes, hread, h⟩ := bind_eq_ok.mp h
  obtain ⟨cmdBuf, hcopy, h⟩ := bind_eq_ok.mp h
  cases h
  exact ⟨bytes, hread, hcopy, rfl⟩

theorem takeBlock_eq_ok {r r' : Receiver} {block : List UInt8}
    (h : takeBlock r = .ok (r', block)) :
    r.buf.get (pkgLen r) = .ok (r'.buf, block) ∧ memcpy r.cmdBuf 0 block = .ok r'.cmdBuf := by
  obtain ⟨⟨buf, bytes⟩, hget, h⟩ := bind_eq_ok.mp h
  obtain ⟨cmdBuf, hcopy, h⟩ := bind_eq_ok.mp h
  cases h
  exact ⟨hget, hcopy⟩

theorem takeBlock_of_eq {r : Receiver} {buf : CircularBuffer} {block mem : List UInt8}
    (hget : r.buf.get (pkgLen r) = .ok (buf, block)) (hcopy : memcpy r.cmdBuf 0 block = .ok mem) :
    takeBlock r = .ok (⟨buf, mem⟩, block) :=
  bind_eq_ok.mpr ⟨_, hget, bind_eq_ok.mpr ⟨mem, hcopy, rfl⟩⟩

theorem ofBuffer_eq_ok {buf : List UInt8} {cmd : CmdPkg} (h : CmdPkg.ofBuffer buf = .ok cmd) :
    (toushort buf 1).toNat < buf.length ∧ cmd.bytes = buf.set (toushort buf 1).toNat 0 := by
  obtain ⟨bytes, hstore, h⟩ := bind_eq_ok.mp h
  cases h
  unfold store at hstore
  split_ifs at hstore with hlt
  cases hstore
  exact ⟨hlt, rfl⟩

/-- How a round ends: nothing is handed out, or a package whose length fits is. -/
inductive Finished (r : Receiver) : Receiver → Option Taken → Prop
  | wait (hsize : r.buf.size.toInt < pkgLen r) : Finished r r none
  | take {m : Receiver} {block : List UInt8} {cmd : CmdPkg}
      (hsize : (pkgLen r : ℤ) ≤ r.buf.size.toInt)
      (hget : r.buf.get (pkgLen r) = .ok (m.buf, block))
      (hcopy : memcpy r.cmdBuf 0 block = .ok m.cmdBuf)
      (hend : (toushort m.cmdBuf 1).toNat < m.cmdBuf.length)
      (hcmd : cmd.bytes = m.cmdBuf.set (toushort m.cmdBuf 1).toNat 0) :
      Finished r { m with cmdBuf := cmd.bytes } (some { block, cmd })

theorem finish_eq_ok {r r' : Receiver} {taken : Option Taken} (h : finish r = .ok (r', taken)) :
    Finished r r' taken := by
  unfold finish at h
  split_ifs at h with hsize
  · obtain ⟨⟨m, block⟩, hblock, h⟩ := bind_eq_ok.mp h
    obtain ⟨cmd, hcmd, h⟩ := bind_eq_ok.mp h
    cases h
    obtain ⟨hget, hcopy⟩ := takeBlock_eq_ok hblock
    obtain ⟨hend, hbytes⟩ := ofBuffer_eq_ok hcmd
    exact .take hsize hget hcopy hend hbytes
  · cases h
    exact .wait (by omega)

theorem declared_eq {bytes : List UInt8} {r m : Receiver} (h : header bytes r = .ok m) :
    declared bytes r = if (pkgLen m : ℤ) ≤ m.buf.size.toInt then some (pkgLen m) else none := by
  rw [declared, h]

theorem declared_eq_some {bytes : List UInt8} {r : Receiver} {len : ℕ} :
    declared bytes r = some len ↔
      ∃ m, header bytes r = .ok m ∧ (pkgLen m : ℤ) ≤ m.buf.size.toInt ∧ pkgLen m = len := by
  constructor
  · intro h
    unfold declared at h
    split at h
    · next m hm =>
      split_ifs at h with hsize
      exact ⟨m, hm, hsize, Option.some.inj h⟩
    · cases h
  · rintro ⟨m, hm, hsize, rfl⟩
    rw [declared_eq hm, if_pos hsize]

namespace Streams

/-- What an event can do. -/
inductive Moved (t : Streams) : Event → Streams → Prop
  | accept {s : SessionRef} {memory : List UInt8} (hs : t.session s = none)
      (hm : memory.length = CMDPKG_MAX * 2) :
      Moved t (.accept s memory) (t.put s (.new memory) t.cmdBuf)
  | recv {s : SessionRef} {bytes : List UInt8} {x : Stream} {r : Receiver}
      {taken : Option Taken} (hs : t.serving s bytes = some x)
      (hround : round bytes ⟨x.buf, t.cmdBuf⟩ = .ok (r, taken)) :
      Moved t (.recv s bytes) (t.put s (x.receive bytes r.buf taken) r.cmdBuf)
  | close {s : SessionRef} {x : Stream} (hs : t.session s = some x) (ho : x.isOpen = true) :
      Moved t (.close s) (t.put s { x with isOpen := false } t.cmdBuf)

theorem step_moved {t t' : Streams} {e : Event} (h : t.step e = some t') : Moved t e t' := by
  cases e with
  | accept s memory =>
    rw [step] at h
    split_ifs at h with hok
    cases h
    exact .accept hok.1 hok.2
  | recv s bytes =>
    obtain ⟨x, hx, h⟩ := Option.bind_eq_some_iff.mp h
    obtain ⟨⟨r, taken⟩, hr, h⟩ := Option.bind_eq_some_iff.mp h
    cases h
    cases hround : round bytes ⟨x.buf, t.cmdBuf⟩ with
    | error e =>
      rw [hround] at hr
      cases hr
    | ok out =>
      rw [hround] at hr
      cases hr
      exact .recv hx hround
  | close s =>
    obtain ⟨x, hx, h⟩ := Option.bind_eq_some_iff.mp h
    split_ifs at h with ho
    cases h
    exact .close hx ho

theorem step_accept {t : Streams} {s : SessionRef} {memory : List UInt8}
    (hs : t.session s = none) (hm : memory.length = CMDPKG_MAX * 2) :
    t.step (.accept s memory) = some (t.put s (.new memory) t.cmdBuf) := if_pos ⟨hs, hm⟩

theorem step_recv {t : Streams} {s : SessionRef} {bytes : List UInt8} {x : Stream}
    {r : Receiver} {taken : Option Taken} (hs : t.serving s bytes = some x)
    (hround : round bytes ⟨x.buf, t.cmdBuf⟩ = .ok (r, taken)) :
    t.step (.recv s bytes) = some (t.put s (x.receive bytes r.buf taken) r.cmdBuf) := by
  rw [step, hs]
  change ((round bytes ⟨x.buf, t.cmdBuf⟩).toOption.bind fun out =>
    some (t.put s (x.receive bytes out.1.buf out.2) out.1.cmdBuf)) = _
  rw [hround]
  rfl

theorem serving_eq_some {t : Streams} {s : SessionRef} {bytes : List UInt8} {x : Stream}
    (h : t.serving s bytes = some x) :
    t.session s = some x ∧ x.isOpen = true ∧ 0 < bytes.length ∧ bytes.length ≤ CMDPKG_MAX := by
  obtain ⟨hx, hok⟩ := Option.filter_eq_some_iff.mp h
  simp only [Bool.and_eq_true, decide_eq_true_eq] at hok
  exact ⟨hx, hok.1, hok.2⟩

theorem serving_eq {t : Streams} {s : SessionRef} {bytes : List UInt8} {x : Stream}
    (hs : t.session s = some x) (ho : x.isOpen = true) (h0 : 0 < bytes.length)
    (hle : bytes.length ≤ CMDPKG_MAX) : t.serving s bytes = some x := by
  rw [serving, hs, Option.filter_some, ho, decide_eq_true ⟨h0, hle⟩]
  rfl

@[simp] theorem session_put_self (t : Streams) (s : SessionRef) (x : Stream)
    (cmdBuf : List UInt8) : (t.put s x cmdBuf).session s = some x :=
  Function.update_self s _ _

theorem session_put_ne {t : Streams} {s u : SessionRef} (x : Stream) (cmdBuf : List UInt8)
    (h : u ≠ s) : (t.put s x cmdBuf).session u = t.session u :=
  Function.update_of_ne h _ _

/-- A session after a step is the one that was served, or it is as before. -/
theorem session_put {t : Streams} {s u : SessionRef} {x y : Stream} {cmdBuf : List UInt8}
    (h : (t.put s x cmdBuf).session u = some y) :
    u = s ∧ y = x ∨ u ≠ s ∧ t.session u = some y := of_update_some h

end Streams

/-- The header stands at the front of `cmd_buf`, as far as there is one. -/
def Headed (r : Receiver) : Prop :=
  ∃ bytes, r.buf.copyLoop 3 0 = .ok bytes ∧
    ∀ i < bytes.length, byteAt r.cmdBuf i = byteAt bytes i

/-- The counters of the buffer and the length of `cmd_buf` are right. -/
def Receiver.Sound (r : Receiver) (t e : ℕ) : Prop :=
  Counts r.buf (CMDPKG_MAX * 2) t e ∧ r.cmdBuf.length = CMDPKG_MAX

section Round

variable {bytes : List UInt8} {r r' : Receiver} {t e : ℕ}

theorem load_sound (h : r.Sound t e) (hload : load bytes r = .ok r') :
    ∃ n, r'.Sound t (e + n) ∧ n ≤ bytes.length ∧
      (n = bytes.length ∨ t + CMDPKG_MAX * 2 ≤ e + n) := by
  obtain ⟨n, hcopy, hadd⟩ := load_eq_ok hload
  obtain ⟨hc, hle, hn⟩ := h.1.add_ok hadd
  exact ⟨n, ⟨hc, (memcpy_length hcopy).trans h.2⟩, hle, hn⟩

theorem readHeader_sound (h : r.Sound t e) (hread : readHeader r = .ok r') :
    r'.Sound t e ∧ Headed r' := by
  obtain ⟨bytes, hcopy, hmem, hbuf⟩ := readHeader_eq_ok hread
  refine ⟨⟨hbuf ▸ h.1, (memcpy_length hmem).trans h.2⟩, bytes, hbuf ▸ hcopy, fun i hi => ?_⟩
  obtain ⟨-, hout⟩ := memcpy_eq_ok hmem
  rw [hout, byteAt_copy, if_pos hi]

theorem header_sound (h : r.Sound t e) (hheader : header bytes r = .ok r') :
    ∃ n, r'.Sound t (e + n) ∧ Headed r' ∧ n ≤ bytes.length ∧
      (n = bytes.length ∨ t + CMDPKG_MAX * 2 ≤ e + n) := by
  obtain ⟨m, hload, hread⟩ := bind_eq_ok.mp hheader
  obtain ⟨n, hm, hle, hn⟩ := load_sound h hload
  obtain ⟨hr, hhead⟩ := readHeader_sound hm hread
  exact ⟨n, hr, hhead, hle, hn⟩

/-- The bytes taken out begin with those that were read as the header. -/
theorem Headed.block_eq (hhead : Headed r) (h : r.Sound t e) {len : ℕ} {block : List UInt8}
    (hlen : t + len ≤ e) (hblock : r.buf.copyLoop len 0 = .ok block) {i : ℕ} (hi : i < 3)
    (hil : i < block.length) : byteAt block i = byteAt r.cmdBuf i := by
  obtain ⟨first, hread, hfirst⟩ := hhead
  obtain ⟨out, hout, hl⟩ := h.1.copyLoop_eq (show t + 0 + len ≤ e by omega)
  cases hblock.symm.trans hout
  by_cases hle : len ≤ 3
  · have hadd := copyLoop_add (3 - len) hblock hl
    rw [Nat.add_sub_cancel' hle, hread] at hadd
    cases hrest : r.buf.copyLoop (3 - len) (0 + len) with
    | error e =>
      rw [hrest] at hadd
      cases hadd
    | ok rest =>
      rw [hrest, map_ok] at hadd
      cases hadd
      rw [hfirst i (by rw [List.length_append]; omega), byteAt_append_left hil]
  · obtain ⟨out, hout, hl3⟩ := h.1.copyLoop_eq (show t + 0 + 3 ≤ e by omega)
    cases hread.symm.trans hout
    have hadd := copyLoop_add (len - 3) hread hl3
    rw [Nat.add_sub_cancel' (by omega), hblock] at hadd
    cases hrest : r.buf.copyLoop (len - 3) (0 + 3) with
    | error e =>
      rw [hrest] at hadd
      cases hadd
    | ok rest =>
      rw [hrest, map_ok] at hadd
      cases hadd
      rw [hfirst i (by omega), byteAt_append_left (by omega)]

theorem Headed.byteAt_copy (hhead : Headed r) (h : r.Sound t e) {len : ℕ}
    {block mem : List UInt8} (hlen : t + len ≤ e) (hblock : r.buf.copyLoop len 0 = .ok block)
    (hcopy : memcpy r.cmdBuf 0 block = .ok mem) {i : ℕ} (hi : i < 3) :
    byteAt mem i = byteAt r.cmdBuf i := by
  obtain ⟨-, rfl⟩ := memcpy_eq_ok hcopy
  rw [Gpshub.byteAt_copy]
  split_ifs with hil
  · exact hhead.block_eq h hlen hblock hi hil
  · rfl

theorem Headed.getLen_eq (hhead : Headed r) (h : r.Sound t e) {len : ℕ}
    {block mem : List UInt8} (hlen : t + len ≤ e) (hblock : r.buf.copyLoop len 0 = .ok block)
    (hcopy : memcpy r.cmdBuf 0 block = .ok mem) : (toushort mem 1).toNat = pkgLen r := by
  have h1 := hhead.byteAt_copy h hlen hblock hcopy (show 1 < 3 by decide)
  have h2 := hhead.byteAt_copy h hlen hblock hcopy (show 2 < 3 by decide)
  rw [toushort_congr h1 h2, pkgLen]

theorem finish_sound (h : r.Sound t e) {taken : Option Taken}
    (hfinish : finish r = .ok (r', taken)) :
    ∃ len, r'.Sound (t + len) e ∧ ∀ x ∈ taken, x.block.length = len ∧ pkgLen r = len := by
  cases finish_eq_ok hfinish with
  | wait hsize => exact ⟨0, h, fun x hx => nomatch hx⟩
  | take hsize hget hcopy hend hcmd =>
    obtain ⟨buf, out, hout, -, hl, -, hc⟩ := h.1.get_eq (h.1.le_of_size hsize)
    cases hget.symm.trans hout
    refine ⟨pkgLen r, ⟨hc, ?_⟩, fun x hx => ?_⟩
    · rw [hcmd, List.length_set, memcpy_length hcopy, h.2]
    · cases Option.some.inj hx
      exact ⟨hl, rfl⟩

theorem round_eq_ok {taken : Option Taken} (hround : round bytes r = .ok (r', taken)) :
    ∃ m, header bytes r = .ok m ∧ finish m = .ok (r', taken) := bind_eq_ok.mp hround

theorem round_sound (h : r.Sound t e) {taken : Option Taken}
    (hround : round bytes r = .ok (r', taken)) : ∃ t' e', r'.Sound t' e' := by
  obtain ⟨m, hheader, hfinish⟩ := round_eq_ok hround
  obtain ⟨n, hm, -⟩ := header_sound h hheader
  obtain ⟨len, hr, -⟩ := finish_sound hm hfinish
  exact ⟨_, _, hr⟩

/-- In a round that is completed, a package is handed out exactly if one is declared. -/
theorem declared_of_round (h : r.Sound t e) {taken : Option Taken}
    (hround : round bytes r = .ok (r', taken)) :
    declared bytes r = taken.map fun x => x.block.length := by
  obtain ⟨m, hheader, hfinish⟩ := round_eq_ok hround
  obtain ⟨n, hm, -⟩ := header_sound h hheader
  obtain ⟨len, -, htaken⟩ := finish_sound hm hfinish
  rw [declared_eq hheader]
  cases finish_eq_ok hfinish with
  | wait hsize => exact if_neg (by omega)
  | take hsize hget hcopy hend hcmd =>
    obtain ⟨hl, hp⟩ := htaken _ rfl
    rw [if_pos hsize, Option.map_some, hl, hp]

theorem header_first {memory cmdBuf : List UInt8} (hmem : memory.length = CMDPKG_MAX * 2)
    (hcmd : cmdBuf.length = CMDPKG_MAX) (h3 : 3 ≤ bytes.length)
    (hle : bytes.length ≤ CMDPKG_MAX) :
    ∃ m, header bytes ⟨(Stream.new memory).buf, cmdBuf⟩ = .ok m ∧
      m.buf.size.toInt = bytes.length ∧ pkgLen m = (toushort bytes 1).toNat := by
  have hnew : Ring (Stream.new memory).buf (CMDPKG_MAX * 2) [] 0 :=
    ring_new (by decide) (by decide) hmem
  have hmax : CMDPKG_MAX = 512 := rfl
  obtain ⟨mem, hcopy⟩ : ∃ mem, memcpy cmdBuf 0 bytes = .ok mem := ⟨_, memcpy_eq (by omega)⟩
  obtain ⟨buf, hadd, hbuf⟩ := hnew.add_eq bytes
    (by rw [List.length_nil]; omega) fun p hp => .of_lt (by rw [List.length_nil] at hp; omega)
  rw [List.nil_append] at hbuf
  have hread : buf.copyLoop 3 0 = .ok (bytes.take 3) := hbuf.copyLoop_eq 3 0 (by omega)
  have hl : (bytes.take 3).length = 3 := by rw [List.length_take]; omega
  obtain ⟨out, hout⟩ : ∃ out, memcpy mem 0 (bytes.take 3) = .ok out :=
    ⟨_, memcpy_eq (by rw [memcpy_length hcopy]; omega)⟩
  refine ⟨⟨buf, out⟩, header_of_eq hcopy hadd hread hout, ?_, ?_⟩
  · rw [hbuf.size_eq, Nat.sub_zero]
  · have hfront (i : ℕ) (hi : i < 3) : byteAt out i = byteAt bytes i := by
      obtain ⟨-, rfl⟩ := memcpy_eq_ok hout
      rw [Gpshub.byteAt_copy, if_pos (by omega), byteAt_take hi]
    rw [pkgLen, toushort_congr (hfront 1 (by decide)) (hfront 2 (by decide))]

end Round

namespace Streams

/-- The counters of all buffers and the length of `cmd_buf` are right. -/
structure Sound (t : Streams) : Prop where
  cmdBuf : t.cmdBuf.length = CMDPKG_MAX
  counts : ∀ s x, t.session s = some x → ∃ a e, Counts x.buf (CMDPKG_MAX * 2) a e

theorem sound_boot {cmdBuf : List UInt8} (h : cmdBuf.length = CMDPKG_MAX) :
    Sound (boot cmdBuf) where
  cmdBuf := h
  counts _ _ hs := nomatch hs

theorem Sound.receiver {t : Streams} (h : t.Sound) {s : SessionRef} {x : Stream}
    (hs : t.session s = some x) : ∃ a e, Receiver.Sound ⟨x.buf, t.cmdBuf⟩ a e := by
  obtain ⟨a, e, hc⟩ := h.counts s x hs
  exact ⟨a, e, hc, h.cmdBuf⟩

theorem Sound.put {t : Streams} (h : t.Sound) {s : SessionRef} {x : Stream}
    {cmdBuf : List UInt8} (hmem : cmdBuf.length = CMDPKG_MAX)
    (hx : ∃ a e, Counts x.buf (CMDPKG_MAX * 2) a e) : (t.put s x cmdBuf).Sound where
  cmdBuf := hmem
  counts u y hu := by
    rcases session_put hu with ⟨-, rfl⟩ | ⟨-, hu⟩
    · exact hx
    · exact h.counts u y hu

theorem sound_step (t : Streams) (e : Event) (t' : Streams) (hs : t.step e = some t')
    (h : t.Sound) : t'.Sound := by
  cases step_moved hs with
  | accept hnone hmem =>
    have hring : Ring (.new (.ofNat (CMDPKG_MAX * 2)) _) (CMDPKG_MAX * 2) [] 0 :=
      ring_new (by decide) (by decide) hmem
    exact h.put h.cmdBuf ⟨_, _, hring.counts (by decide)⟩
  | recv hserve hround =>
    obtain ⟨a, e, hr⟩ := h.receiver (serving_eq_some hserve).1
    obtain ⟨a', e', hr'⟩ := round_sound hr hround
    exact h.put hr'.2 ⟨_, _, hr'.1⟩
  | close hx ho =>
    obtain ⟨a, e, hc⟩ := h.counts _ _ hx
    exact h.put h.cmdBuf ⟨a, e, hc⟩

theorem feed_run {s : SessionRef} {chunks : List (List UInt8)}
    (hsizes : ∀ c ∈ chunks, 0 < c.length ∧ c.length ≤ CMDPKG_MAX) :
    ∀ {t : Streams} {x : Stream} {r : Receiver} {cmds : List CmdPkg}, t.session s = some x →
      x.isOpen = true → feed chunks ⟨x.buf, t.cmdBuf⟩ = .ok (r, cmds) →
      ∃ t' x', run step t (chunks.map (.recv s)) = some t' ∧ t'.session s = some x' ∧
        x'.buf = r.buf ∧ t'.cmdBuf = r.cmdBuf ∧
        x'.packets = x.packets ++ cmds.map fun p => (p.getType, p.getData) := by
  induction chunks with
  | nil =>
    intro t x r cmds hx ho hfeed
    cases hfeed
    exact ⟨t, x, rfl, hx, rfl, rfl, (List.append_nil _).symm⟩
  | cons bytes rest ih =>
    intro t x r cmds hx ho hfeed
    obtain ⟨hpos, hle⟩ := hsizes bytes List.mem_cons_self
    obtain ⟨⟨r1, cmd⟩, hreceive, hfeed⟩ := bind_eq_ok.mp hfeed
    obtain ⟨⟨r2, more⟩, hrest, hfeed⟩ := bind_eq_ok.mp hfeed
    cases hfeed
    rw [receive_eq_round] at hreceive
    cases hround : round bytes ⟨x.buf, t.cmdBuf⟩ with
    | error e =>
      rw [hround] at hreceive
      cases hreceive
    | ok out =>
      rw [hround, map_ok] at hreceive
      cases hreceive
      have hstep := step_recv (serving_eq hx ho hpos hle) hround
      obtain ⟨t', x', hrun, hx', hbuf, hmem, hpackets⟩ :=
        ih (fun c hc => hsizes c (List.mem_cons_of_mem _ hc))
          (session_put_self t s (x.receive bytes out.1.buf out.2) out.1.cmdBuf) ho hrest
      refine ⟨t', x', run_cons.mpr ⟨_, hstep, hrun⟩, hx', hbuf, hmem, ?_⟩
      rw [hpackets, Stream.receive, List.append_assoc]
      cases out.2 <;> rfl

end Streams

end Gpshub.CommandServer
