import Mathlib
import Lotus.Lib.Run

/-!
# Partially unsealed sector files (`sector-storage/partialfile`)

An unsealed sector file is `[unpadded data][rle+ trailer][4-byte LE trailer length]`; the
trailer marks which byte indices of the sector hold unsealed data.  The file is modelled as its
raw bytes, so that `openPartialFile` checks exactly the layout `writeTrailer` produces.  Reads,
writes and truncations of the file do not fail; everything the code computes from them is kept.

The rle+ codec of go-bitfield is a parameter (`RleCodec`) that carries its own round trip, and
an rle+ bitfield is its set of marked indices: `Or` is `∪`, `Subtract` is `\`, `Fill` then
`Count` is one past the last marked index.

**Layout.**  `openPartialFile_writeTrailer`: over any data region, the trailer `writeTrailer`
writes passes every check of `openPartialFile`, which reads back the set that was written.

**Runs on one instance.**  `MarkAllocated` and `Free` compute the new set from `pf.allocated`,
the set decoded when the file was opened, write it to the trailer and never store it back.  So
along any run on one instance `pf.allocated` stays the opening set (`run_allocated`), and the
trailer holds the opening set with only the last operation applied (`reopen_run`).
-/

namespace Lotus

namespace Partialfile

/-- The rle+ encoding of go-bitfield over the set of marked indices, taken as correct:
`FromBuf` decodes what `EncodeRuns` wrote. -/
structure RleCodec where
  encodeRuns : Finset ℕ → List UInt8
  fromBuf : List UInt8 → Except String (Finset ℕ)
  fromBuf_encodeRuns : ∀ s, fromBuf (encodeRuns s) = .ok s

/-- `Fill` then `Count`: one past the last marked index, the bitfield's length. -/
def lastSet (s : Finset ℕ) : ℕ :=
  s.sup (· + 1)

/-- `PieceRun`: the `size` indices from `offset` on. -/
def pieceRun (offset size : ℕ) : Finset ℕ :=
  Finset.Ico offset (offset + size)

/-- `abi.UnpaddedPieceSize.Padded`, also used for `UnpaddedByteIndex.Padded`. -/
def padded (s : ℕ) : ℕ :=
  s + s / 127

/-! ## File bytes -/

/-- `binary.Write(w, binary.LittleEndian, uint32(n))`. -/
def le32 (n : ℕ) : List UInt8 :=
  [n, n / 2 ^ 8, n / 2 ^ 16, n / 2 ^ 24].map fun x => (x % 2 ^ 8).toUInt8

/-- `binary.LittleEndian.Uint32` of the four bytes read. -/
def uint32LE (b : List UInt8) : ℕ :=
  (b.getD 0 0).toNat + 2 ^ 8 * (b.getD 1 0).toNat + 2 ^ 16 * (b.getD 2 0).toNat +
    2 ^ 24 * (b.getD 3 0).toNat

/-- A write of `bs` at offset `off`: bytes past the end of the file are zero-filled first. -/
def writeAt (f : List UInt8) (off : ℕ) (bs : List UInt8) : List UInt8 :=
  f.take off ++ List.replicate (off - f.length) 0 ++ bs ++ f.drop (off + bs.length)

/-- `File.Truncate(n)`: cut to `n` bytes, or zero-extend to them. -/
def truncate (f : List UInt8) (n : ℕ) : List UInt8 :=
  f.take n ++ List.replicate (n - f.length) 0

/-- `File.ReadAt`: a negative offset or a read past the end of the file fails. -/
def readAt (f : List UInt8) (off : ℤ) (n : ℕ) : Except String (List UInt8) :=
  if off < 0 then .error "negative offset"
  else if f.length < off.toNat + n then .error "EOF"
  else .ok ((f.drop off.toNat).take n)

/-- `fsutil.Deallocate`: punch a hole, so the range reads back as zeros; the size is kept. -/
def deallocate (f : List UInt8) (offset size : ℕ) : List UInt8 :=
  f.mapIdx fun i b => if offset ≤ i ∧ i < offset + size then 0 else b

/-! ## The file format -/

section Codec

variable (codec : RleCodec)

/-- `writeTrailer`: the encoded set at `maxPieceSize`, its length after it, and the file cut
just behind the length word. -/
def writeTrailer (maxPieceSize : ℕ) (w : List UInt8) (r : Finset ℕ) : List UInt8 :=
  let trailer := codec.encodeRuns r
  let w := writeAt w maxPieceSize trailer
  let w := writeAt w (maxPieceSize + trailer.length) (le32 trailer.length)
  truncate w (maxPieceSize + trailer.length + 4)

/-- `PartialFile`, with the path kept for the error texts and the file as its bytes. -/
structure PartialFile where
  maxPiece : ℕ
  path : String
  allocated : Finset ℕ
  file : List UInt8
  deriving DecidableEq

/-- `OpenPartialFile`: every check of the trailer, in the source's order. -/
def openPartialFile (maxPieceSize : ℕ) (path : String) (f : List UInt8) :
    Except String PartialFile := do
  let size := f.length
  if size < maxPieceSize then
    throw s!"sector file {path} was smaller than the sector size {size} < {maxPieceSize}"
  let tlen ← (readAt f (size - 4 : ℤ) 4).mapError fun e => s!"reading trailer length: {e}"
  let trailerLen := uint32LE tlen
  let expectLen := trailerLen + 4 + maxPieceSize
  if expectLen ≠ size then
    throw s!"file {path} has inconsistent length; has {size} bytes; expected {expectLen}"
  let trailerStart : ℤ := size - 4 - trailerLen
  if trailerStart ≠ maxPieceSize then
    throw "expected sector size to equal trailer start index"
  let trailerBytes ← (readAt f trailerStart trailerLen).mapError fun e => s!"reading trailer: {e}"
  let rle ← (codec.fromBuf trailerBytes).mapError fun e => s!"decoding trailer: {e}"
  if lastSet rle > maxPieceSize then
    throw s!"last set byte at index higher than sector size: {lastSet rle} > {maxPieceSize}"
  pure ⟨maxPieceSize, path, rle, f⟩

/-- `CreatePartialFile` over what was at the path (nothing, for a new file): `fallocate` makes
the data region, an empty trailer is written, and the file is opened again. -/
def createPartialFile (maxPieceSize : ℕ) (path : String) (old : List UInt8) :
    Except String PartialFile :=
  let f := old ++ List.replicate (maxPieceSize - old.length) 0
  openPartialFile codec maxPieceSize path (writeTrailer codec maxPieceSize f ∅)

namespace PartialFile

/-- `MarkAllocated`: the trailer gets `pf.allocated ∪ run`; `pf.allocated` is not updated. -/
def markAllocated (pf : PartialFile) (offset size : ℕ) : PartialFile :=
  let ored := pf.allocated ∪ pieceRun offset size
  { pf with file := writeTrailer codec pf.maxPiece pf.file ored }

/-- `Free`: the range is deallocated and the trailer gets `pf.allocated \ run`; `pf.allocated` is
not updated. -/
def free (pf : PartialFile) (offset size : ℕ) : PartialFile :=
  let file := deallocate pf.file offset size
  let s := pf.allocated \ pieceRun offset size
  { pf with file := writeTrailer codec pf.maxPiece file s }

end PartialFile

end Codec

namespace PartialFile

/-- `Allocated`. -/
def allocatedRuns (pf : PartialFile) : Finset ℕ :=
  pf.allocated

/-- `HasAllocated`: every padded index of the unpadded range is marked. -/
def hasAllocated (pf : PartialFile) (offset size : ℕ) : Bool :=
  (pf.allocatedRuns ∩ pieceRun (padded offset) (padded size)).card = padded size

end PartialFile

/-! ## Byte-level lemmas -/

@[simp]
theorem length_le32 (n : ℕ) : (le32 n).length = 4 := rfl

theorem uint32LE_le32 (n : ℕ) : uint32LE (le32 n) = n % 2 ^ 32 := by
  simp [uint32LE, le32]
  omega

theorem writeAt_of_le {f : List UInt8} {off : ℕ} (h : off ≤ f.length) (bs : List UInt8) :
    writeAt f off bs = f.take off ++ bs ++ f.drop (off + bs.length) := by
  simp [writeAt, Nat.sub_eq_zero_of_le h]

@[simp]
theorem length_deallocate (f : List UInt8) (offset size : ℕ) :
    (deallocate f offset size).length = f.length := by
  simp [deallocate]

theorem truncate_append {a : List UInt8} {n : ℕ} (h : a.length = n) (b : List UInt8) :
    truncate (a ++ b) n = a := by
  simp [truncate, ← h]

/-- The bytes `writeTrailer` leaves: the data region, the encoded set, its length word. -/
theorem writeTrailer_eq (codec : RleCodec) {m : ℕ} {w : List UInt8} (hm : m ≤ w.length)
    (r : Finset ℕ) :
    writeTrailer codec m w r =
      w.take m ++ codec.encodeRuns r ++ le32 (codec.encodeRuns r).length := by
  set t := codec.encodeRuns r
  have hpre : (w.take m ++ t).length = m + t.length := by simp [hm]
  -- the trailer lands right behind the data region, the length word right behind the trailer
  have h1 : writeAt w m t = (w.take m ++ t) ++ w.drop (m + t.length) := by
    rw [writeAt_of_le hm t, List.append_assoc]
  have h2 : writeAt (w.take m ++ t ++ w.drop (m + t.length)) (m + t.length) (le32 t.length) =
      (w.take m ++ t ++ le32 t.length) ++
        (w.take m ++ t ++ w.drop (m + t.length)).drop (m + t.length + 4) := by
    rw [writeAt_of_le (by simp; omega), List.take_left' hpre, length_le32]
  have hlen : (w.take m ++ t ++ le32 t.length).length = m + t.length + 4 := by simp [hm]; omega
  show truncate (writeAt (writeAt w m t) (m + t.length) (le32 t.length)) (m + t.length + 4) = _
  rw [h1, h2, truncate_append hlen]

theorem readAt_middle (a b c : List UInt8) :
    readAt (a ++ b ++ c) (a.length : ℤ) b.length = .ok b := by
  have hoff : ¬ (a.length : ℤ) < 0 := by omega
  have hend : ¬ (a ++ b ++ c).length < a.length + b.length := by simp
  simp only [readAt, if_neg hoff, Int.toNat_natCast, if_neg hend]
  simp

/-- `Fill`/`Count` bounds every marked index. -/
theorem lt_of_mem_of_lastSet_le {s : Finset ℕ} {m i : ℕ} (hs : lastSet s ≤ m) (hi : i ∈ s) :
    i < m :=
  Nat.lt_of_succ_le ((Finset.le_sup (f := (· + 1)) hi).trans hs)

/-! ## The layout passes `OpenPartialFile` -/

section Codec

variable (codec : RleCodec)

/-- A data region followed by a written trailer passes every check of `OpenPartialFile`, which
decodes the set that was encoded. -/
theorem openPartialFile_layout {m : ℕ} {d : List UInt8} (hd : d.length = m) (r : Finset ℕ)
    (hlen : (codec.encodeRuns r).length < 2 ^ 32) (hr : lastSet r ≤ m) (path : String) :
    openPartialFile codec m path (d ++ codec.encodeRuns r ++ le32 (codec.encodeRuns r).length) =
      .ok ⟨m, path, r, d ++ codec.encodeRuns r ++ le32 (codec.encodeRuns r).length⟩ := by
  set t := codec.encodeRuns r
  set f := d ++ t ++ le32 t.length
  have hsize : f.length = m + t.length + 4 := by simp [f, hd]; omega
  -- the length word is the last four bytes, and it reads back the trailer's length
  have htlen : readAt f ((f.length : ℤ) - 4) 4 = .ok (le32 t.length) := by
    have := readAt_middle (d ++ t) (le32 t.length) []
    rw [List.append_nil, length_le32] at this
    rw [show ((f.length : ℤ) - 4) = ((d ++ t).length : ℤ) by simp [hsize, hd]]
    exact this
  have huint : uint32LE (le32 t.length) = t.length := by
    rw [uint32LE_le32, Nat.mod_eq_of_lt hlen]
  have htrailer : readAt f (m : ℤ) t.length = .ok t := by
    rw [← hd]
    exact readAt_middle d t (le32 t.length)
  have hstart : ((f.length : ℤ) - 4 - (t.length : ℤ)) = (m : ℤ) := by
    rw [hsize]
    push_cast
    omega
  have hsmall : ¬ f.length < m := by omega
  have hexpect : t.length + 4 + m = f.length := by omega
  have hlast : ¬ lastSet r > m := by omega
  have hdec : codec.fromBuf t = .ok r := codec.fromBuf_encodeRuns r
  simp only [openPartialFile, hsmall, htlen, huint, hexpect, hstart, htrailer, hdec, hlast, if_false, ne_eq, not_true_eq_false, Except.mapError,
    bind, Except.bind, pure, Except.pure]

/-- The file `writeTrailer` leaves over a file that holds the data region opens with the set
that was written. -/
theorem openPartialFile_writeTrailer {m : ℕ} {w : List UInt8} (hm : m ≤ w.length)
    (r : Finset ℕ) (hlen : (codec.encodeRuns r).length < 2 ^ 32) (hr : lastSet r ≤ m)
    (path : String) :
    openPartialFile codec m path (writeTrailer codec m w r) =
      .ok ⟨m, path, r, writeTrailer codec m w r⟩ := by
  rw [writeTrailer_eq codec hm]
  exact openPartialFile_layout codec (by simp [hm]) r hlen hr path

end Codec

/-! ## Runs on one instance -/

/-- The calls that change a partial file. -/
inductive Op
  | markAllocated (offset size : ℕ)
  | free (offset size : ℕ)
  deriving DecidableEq, Repr

/-- The set a call computes from the set it starts from: `Or` with the run, or `Subtract`. -/
def Op.update : Op → Finset ℕ → Finset ℕ
  | .markAllocated offset size, s => s ∪ pieceRun offset size
  | .free offset size, s => s \ pieceRun offset size

/-- The set the calls should leave: each applied to the set the previous one left. -/
def intendedSet (s : Finset ℕ) (ops : List Op) : Finset ℕ :=
  ops.foldl (fun s op => op.update s) s

section Codec

variable (codec : RleCodec)

namespace PartialFile

/-- One call on the instance. -/
def step (pf : PartialFile) : Op → PartialFile
  | .markAllocated offset size => pf.markAllocated codec offset size
  | .free offset size => pf.free codec offset size

/-- Calls one after another on the same instance. -/
def run (pf : PartialFile) (ops : List Op) : PartialFile :=
  Run.run (step codec) pf ops

/-- The file region a call keeps in front of the trailer it writes. -/
def dataAfter (pf : PartialFile) : Op → List UInt8
  | .markAllocated _ _ => pf.file
  | .free offset size => deallocate pf.file offset size

/-- A call keeps the instance's fields but the file, and writes the updated opening set behind
the data region. -/
theorem step_eq (pf : PartialFile) (op : Op) :
    step codec pf op =
      { pf with file := writeTrailer codec pf.maxPiece (pf.dataAfter op) (op.update pf.allocated) } := by
  cases op <;> rfl

/-- The fields a run never changes: the sector size, the path and the set decoded at opening. -/
def Keeps (pf pf' : PartialFile) : Prop :=
  pf'.maxPiece = pf.maxPiece ∧ pf'.path = pf.path ∧ pf'.allocated = pf.allocated ∧
    pf.maxPiece ≤ pf'.file.length

theorem keeps_step {pf pf' : PartialFile} (h : Keeps pf pf') (op : Op) :
    Keeps pf (step codec pf' op) := by
  obtain ⟨hm, hp, ha, hlen⟩ := h
  have hdata : pf'.maxPiece ≤ (pf'.dataAfter op).length := by
    cases op <;> simp [dataAfter, hm, hlen]
  rw [step_eq]
  refine ⟨hm, hp, ha, ?_⟩
  rw [writeTrailer_eq codec hdata]
  simp [hm]
  omega

/-- Along any run on one instance `pf.allocated` stays the set decoded at opening, so
`Allocated` and `HasAllocated` never see the calls made on it. -/
theorem run_keeps (pf : PartialFile) (hlen : pf.maxPiece ≤ pf.file.length) (ops : List Op) :
    Keeps pf (pf.run codec ops) :=
  Run.run_invariant (P := Keeps pf) (fun _ op h => keeps_step codec h op) ops ⟨rfl, rfl, rfl, hlen⟩

/-- Reopening after a call reads the updated opening set back. -/
theorem reopen_step {pf pf' : PartialFile} (h : Keeps pf pf') (op : Op)
    (hshort : (codec.encodeRuns (op.update pf.allocated)).length < 2 ^ 32)
    (hlast : lastSet (op.update pf.allocated) ≤ pf.maxPiece) :
    openPartialFile codec pf.maxPiece pf.path (step codec pf' op).file =
      .ok ⟨pf.maxPiece, pf.path, op.update pf.allocated, (step codec pf' op).file⟩ := by
  obtain ⟨hm, -, ha, hlen⟩ := h
  have hdata : pf.maxPiece ≤ (pf'.dataAfter op).length := by
    cases op <;> simp [dataAfter, hlen]
  rw [step_eq, hm, ha]
  exact openPartialFile_writeTrailer codec hdata _ hshort hlast pf.path

/-- Reopening after any run on one instance reads back the opening set with only the run's
last call applied: every earlier call is lost. -/
theorem reopen_run (pf : PartialFile) (hlen : pf.maxPiece ≤ pf.file.length) (pre : List Op)
    (op : Op) (hshort : (codec.encodeRuns (op.update pf.allocated)).length < 2 ^ 32)
    (hlast : lastSet (op.update pf.allocated) ≤ pf.maxPiece) :
    openPartialFile codec pf.maxPiece pf.path (pf.run codec (pre ++ [op])).file =
      .ok ⟨pf.maxPiece, pf.path, op.update pf.allocated, (pf.run codec (pre ++ [op])).file⟩ := by
  have hrun : pf.run codec (pre ++ [op]) = step codec (pf.run codec pre) op := by
    simp [run, Run.run_append]
  rw [hrun]
  exact reopen_step codec (run_keeps codec pf hlen pre) op hshort hlast

end PartialFile

end Codec

/-! ## Two `MarkAllocated` calls on one instance -/

/-- A new file of sector size 8 and two `MarkAllocated` calls on the instance `CreatePartialFile`
returns, for the ranges `[0, 2)` and `[2, 4)`: reopening reads back `{2, 3}` where the calls
should leave `{0, 1, 2, 3}`, and the instance reports neither range. -/
theorem markAllocated_twice_keeps_last_range (codec : RleCodec) (path : String)
    (hshort : ∀ s ∈ [(∅ : Finset ℕ), {2, 3}], (codec.encodeRuns s).length < 2 ^ 32) :
    ∃ pf, createPartialFile codec 8 path [] = .ok pf ∧
      openPartialFile codec 8 path (pf.run codec [.markAllocated 0 2, .markAllocated 2 2]).file =
        .ok ⟨8, path, {2, 3}, (pf.run codec [.markAllocated 0 2, .markAllocated 2 2]).file⟩ ∧
      intendedSet pf.allocated [.markAllocated 0 2, .markAllocated 2 2] = {0, 1, 2, 3} ∧
      (pf.run codec [.markAllocated 0 2, .markAllocated 2 2]).hasAllocated 0 2 = false := by
  set f := writeTrailer codec 8 (List.replicate 8 0) ∅
  have hflen : 8 ≤ f.length := by
    simp [f, writeTrailer_eq codec (show 8 ≤ (List.replicate 8 (0 : UInt8)).length by simp)]
  have hcreate : createPartialFile codec 8 path [] = .ok ⟨8, path, ∅, f⟩ :=
    openPartialFile_writeTrailer codec (by simp) ∅ (hshort ∅ (by simp)) (by simp [lastSet]) path
  have hintended : intendedSet ∅ [.markAllocated 0 2, .markAllocated 2 2] = {0, 1, 2, 3} := by
    decide
  have hlast : lastSet ((Op.markAllocated 2 2).update ∅) ≤ 8 := by decide
  refine ⟨⟨8, path, ∅, f⟩, hcreate, ?_, hintended, ?_⟩
  · -- only the second call's range reaches the trailer
    exact PartialFile.reopen_run codec ⟨8, path, ∅, f⟩ hflen [.markAllocated 0 2]
      (.markAllocated 2 2) (hshort {2, 3} (by simp)) hlast
  · -- the instance still holds the set decoded at creation
    have hkeep := PartialFile.run_keeps codec ⟨8, path, ∅, f⟩ hflen
      [.markAllocated 0 2, .markAllocated 2 2]
    simp [PartialFile.hasAllocated, PartialFile.allocatedRuns, hkeep.2.2.1, padded]

/-! ## A codec for fixed inputs -/

/-- Every index below `lastSet s` is marked by a byte `1` or `0`. -/
def bitmapRuns (s : Finset ℕ) : List UInt8 :=
  (List.range (lastSet s)).map fun i => if i ∈ s then 1 else 0

/-- The indices whose byte is `1`. -/
def bitmapSet (bs : List UInt8) : Finset ℕ :=
  ((List.range bs.length).filter fun i => bs.getD i 0 = 1).toFinset

theorem bitmapSet_bitmapRuns (s : Finset ℕ) : bitmapSet (bitmapRuns s) = s := by
  ext i
  simp only [bitmapSet, bitmapRuns, List.mem_toFinset, List.mem_filter, List.mem_range,
    List.length_map, List.length_range, List.getD_eq_getElem?_getD, List.getElem?_map]
  constructor
  · rintro ⟨hi, h⟩
    by_contra hn
    simp [List.getElem?_range hi, hn] at h
  · intro hi
    have hlt : i < lastSet s := lt_of_mem_of_lastSet_le le_rfl hi
    exact ⟨hlt, by simp [List.getElem?_range hlt, hi]⟩

/-- A correct codec, used to run the fixed inputs. -/
def bitmapCodec : RleCodec where
  encodeRuns := bitmapRuns
  fromBuf bs := .ok (bitmapSet bs)
  fromBuf_encodeRuns s := by rw [bitmapSet_bitmapRuns]

theorem markAllocated_twice_keeps_last_range_bitmap :
    (∀ s ∈ [(∅ : Finset ℕ), {2, 3}], (bitmapCodec.encodeRuns s).length < 2 ^ 32) ∧
      ∃ pf, createPartialFile bitmapCodec 8 "s" [] = .ok pf ∧
        openPartialFile bitmapCodec 8 "s"
            (pf.run bitmapCodec [.markAllocated 0 2, .markAllocated 2 2]).file =
          .ok ⟨8, "s", {2, 3}, (pf.run bitmapCodec [.markAllocated 0 2, .markAllocated 2 2]).file⟩ ∧
        intendedSet pf.allocated [.markAllocated 0 2, .markAllocated 2 2] = {0, 1, 2, 3} ∧
        (pf.run bitmapCodec [.markAllocated 0 2, .markAllocated 2 2]).hasAllocated 0 2 = false :=
  ⟨by decide +kernel, markAllocated_twice_keeps_last_range bitmapCodec "s" (by decide +kernel)⟩

end Partialfile

end Lotus
