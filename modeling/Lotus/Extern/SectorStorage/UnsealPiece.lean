import Lotus.Extern.SectorStorage.Partialfile
import Lotus.Extern.SectorStorage.Fr32Readers
import Lotus.Lib.Runs

/-!
# Unsealing a piece into a partial file (`Sealer.UnsealPiece`)

`UnsealPiece` unseals the unpadded range `(offset, size)` of a sector into its partially
unsealed file.  `computeUnsealRanges` takes the padded request, removes what the file already
holds (`Subtract`) and joins runs closer than `mergeGaps` (`JoinClose`).  For each marked run of
the result, at padded index `at` and `len` padded bytes long, `ffi.UnsealRange` is asked for the
run's unpadded bytes, which it writes into a pipe; a goroutine copies `size` bytes from the pipe
through a `bufio.Writer` into a `padWriter` over the file, which `pf.Writer` has seeked to the
request's padded offset; then `MarkAllocated(at, len)` records the run.

The sector's unsealed bytes are a parameter, and `ffi.UnsealRange` emits the ones of the range it
is asked for.  go-bitfield's `JoinClose` is a parameter too (`JoinClose`), with what the proofs use
of it: it keeps every marked index and marks only indices between two marked ones.  The file is
its bytes, as in `Partialfile`; consecutive writes of the pad writer are one write of their
concatenation, and a failed call returns its error without the file it leaves.

**What holds.**  Every run `computeUnsealRanges` gives lies in the padded request
(`computeUnsealRanges_runs_subset`).  When nothing of the request was unsealed, and the request is whole
`127`-byte chunks, `UnsealPiece` writes the padded unsealed bytes of the request at its own offset
and marks it allocated (`unsealPiece_of_disjoint`).

**What does not.**  Each run is written at the request's offset, `size` bytes long, whatever its
own position and length.  A run shorter than the request makes the copy fail; but a run that
starts one padded byte into a request of whole chunks has just as many unpadded bytes.  So when
the file holds only the first padded byte of the request, the call succeeds, marks the request
allocated, and writes the unsealed bytes from `offset + 1` at the request's offset
(`unsealPiece_shifts_data`).
-/

namespace Lotus

namespace Ffiwrapper

open Partialfile (PartialFile)

/-- go-bitfield's `JoinClose` over the set of marked indices: it keeps the marked indices and
marks some of the gaps between them, up to `closeness` long. -/
structure JoinClose where
  join : ℕ → Finset ℕ → Finset ℕ
  subset_join : ∀ c s, s ⊆ join c s
  join_subset : ∀ c s i, i ∈ join c s → ∃ a ∈ s, ∃ b ∈ s, a ≤ i ∧ i ≤ b

/-- `mergeGaps`: `32 << 20`. -/
def mergeGaps : ℕ := 32 <<< 20

section Unseal

variable (codec : Partialfile.RleCodec) (jc : JoinClose) (numCPU : ℕ) (unsealed : List Fr32.Byte)

/-- `computeUnsealRanges`: the padded request less what is unsealed, its close runs joined. -/
def computeUnsealRanges (allocated : Finset ℕ) (offset size : ℕ) : Finset ℕ :=
  jc.join mergeGaps (Partialfile.pieceRun (padded offset) (padded size) \ allocated)

/-- The run iterator of a bitfield: its runs from index `0` to its last marked index. -/
def runIterator (s : Finset ℕ) : List (Bool × ℕ) :=
  Runs.runs ((List.range (Partialfile.lastSet s)).map fun i => decide (i ∈ s))

/-- `ffi.UnsealRange`, taken to emit the unsealed bytes of the range it is asked for. -/
def unsealRange (off len : ℕ) : List Fr32.Byte :=
  (unsealed.drop off).take len

/-- The size of the `bufio.Writer`: the request's padded size, at most `NumCPU * MTTresh`, as
unpadded bytes; `bufio` takes `4096` for a size of `0`. -/
def bufSize (size : ℕ) : ℕ :=
  let bsize := min (padded size) (numCPU * Fr32.mtTresh)
  if unpadded bsize = 0 then 4096 else unpadded bsize

/-- What the `bufio.Writer` of `bs` bytes hands on: a full buffer each time it fills, and what is
left at `Flush`; `fuel` bounds the buffers. -/
def bufioWrites (bs : ℕ) : ℕ → List Fr32.Byte → List (List Fr32.Byte)
  | _, [] => []
  | 0, x :: xs => [x :: xs]
  | fuel + 1, x :: xs => (x :: xs).take bs :: bufioWrites bs fuel ((x :: xs).drop bs)

/-- One marked run of `toUnseal`, at padded index `at_` and `len` padded bytes long.  The writer
is seeked to the request's offset and the goroutine copies `size` bytes, whatever the run. -/
def unsealRun (offset size : ℕ) (pf : PartialFile) (at_ len : ℕ) : Except String PartialFile :=
  let data := unsealRange unsealed (unpadded at_) (unpadded len)
  if data.length < size then
    -- `io.CopyN` meets the end of the pipe
    .error "piping output to unsealed file: copying data: EOF"
  else if size < data.length then
    -- the goroutine is gone, and `UnsealRange` writes into a closed pipe
    .error "unseal range: write: broken pipe"
  else
    let r := Fr32.runWrites numCPU (fun _ => none) Fr32.newPadWriter
      (bufioWrites (bufSize numCPU size) data.length data)
    if r.2.all (·.isOk) then
      let pf := { pf with file := Partialfile.writeAt pf.file (padded offset) (r.1.dst.map UInt8.ofBitVec) }
      match Fr32.close r.1 with
      | .error (.unprocessed n) =>
        .error s!"piping output to unsealed file: closing padwriter: still have {n} unprocessed bytes"
      | .ok () => .ok (pf.markAllocated codec at_ len)
    else .error "piping output to unsealed file: copying data: padwriter write"

/-- The loop over the runs of `toUnseal`: a run starts where the one before ends, unmarked runs
are skipped, and the first error ends the call. -/
def unsealLoop (offset size : ℕ) : List (Bool × ℕ) → ℕ → PartialFile → Except String PartialFile
  | [], _, pf => .ok pf
  | (val, len) :: rest, at_, pf =>
    if val then
      match unsealRun codec numCPU unsealed offset size pf at_ len with
      | .ok pf => unsealLoop offset size rest (at_ + len) pf
      | .error e => .error e
    else unsealLoop offset size rest (at_ + len) pf

/-- `UnsealPiece` on the opened partial file `pf`: nothing to do when the request is unsealed. -/
def unsealPiece (pf : PartialFile) (offset size : ℕ) : Except String PartialFile :=
  let toUnseal := runIterator (computeUnsealRanges jc pf.allocated offset size)
  if toUnseal.isEmpty then .ok pf
  else unsealLoop codec numCPU unsealed offset size toUnseal 0 pf

/-! ## The runs to unseal -/

variable {jc}

/-- Joining the gaps of one interval changes nothing. -/
lemma join_Ico (c a b : ℕ) : jc.join c (Finset.Ico a b) = Finset.Ico a b := by
  refine Finset.Subset.antisymm (fun i hi => ?_) (jc.subset_join c _)
  obtain ⟨x, hx, y, hy, hxi, hiy⟩ := jc.join_subset c _ i hi
  rw [Finset.mem_Ico] at hx hy ⊢
  omega

/-- Every index `computeUnsealRanges` marks is in the padded request. -/
lemma computeUnsealRanges_subset (allocated : Finset ℕ) (offset size : ℕ) :
    computeUnsealRanges jc allocated offset size ⊆
      Partialfile.pieceRun (padded offset) (padded size) := by
  intro i hi
  obtain ⟨x, hx, y, hy, hxi, hiy⟩ := jc.join_subset _ _ i hi
  simp only [Partialfile.pieceRun, Finset.mem_sdiff, Finset.mem_Ico] at hx hy ⊢
  omega

/-- When what is left of the request is one interval, that interval is what is unsealed. -/
lemma computeUnsealRanges_of_sdiff {allocated : Finset ℕ} {offset size a b : ℕ}
    (h : Partialfile.pieceRun (padded offset) (padded size) \ allocated = Finset.Ico a b) :
    computeUnsealRanges jc allocated offset size = Finset.Ico a b := by
  rw [computeUnsealRanges, h, join_Ico]

lemma lastSet_Ico {a b : ℕ} (h : a < b) : Partialfile.lastSet (Finset.Ico a b) = b := by
  unfold Partialfile.lastSet
  refine le_antisymm (Finset.sup_le fun i hi => ?_) ?_
  · rw [Finset.mem_Ico] at hi
    omega
  · have hmem : b - 1 ∈ Finset.Ico a b := Finset.mem_Ico.mpr ⟨by omega, by omega⟩
    have := Finset.le_sup (f := (· + 1)) hmem
    omega

/-- The bits of an interval: unmarked up to it, marked along it. -/
lemma bits_Ico {a b : ℕ} (h : a ≤ b) :
    (List.range b).map (fun i => decide (i ∈ Finset.Ico a b)) =
      List.replicate a false ++ List.replicate (b - a) true := by
  refine List.ext_getElem (by simp; omega) fun i h1 h2 => ?_
  simp only [List.length_map, List.length_range] at h1
  simp only [List.getElem_map, List.getElem_range, Finset.mem_Ico, List.getElem_append,
    List.length_replicate, List.getElem_replicate]
  split_ifs with hi <;> simp <;> omega

/-- The run iterator of a nonempty interval: the gap before it, if any, then the interval. -/
lemma runIterator_Ico {a b : ℕ} (h : a < b) :
    runIterator (Finset.Ico a b) = if a = 0 then [(true, b)] else [(false, a), (true, b - a)] := by
  rw [runIterator, lastSet_Ico h, bits_Ico h.le]
  split_ifs with ha
  · subst ha
    simpa using Runs.runs_replicate true (a := b) (by omega)
  · exact Runs.runs_replicate_append_replicate false (by omega) (by omega)

/-- The indices a marked run of the iterator covers are marked. -/
lemma mem_of_mem_positioned_runIterator {s : Finset ℕ} {at_ len : ℕ}
    (h : (true, at_, len) ∈ Runs.positioned (runIterator s) 0) {i : ℕ} (hlo : at_ ≤ i)
    (hhi : i < at_ + len) : i ∈ s := by
  have hbit := Runs.getElem?_expand_of_mem_positioned _ 0 h i hlo hhi
  rw [runIterator, Runs.expand_runs, Nat.sub_zero, List.getElem?_map] at hbit
  obtain ⟨j, hj, hji⟩ := Option.map_eq_some_iff.mp hbit
  have hi : i < Partialfile.lastSet s := by simpa using (List.getElem?_eq_some_iff.mp hj).1
  rw [List.getElem?_range hi, Option.some.injEq] at hj
  subst hj
  simpa using hji

/-- **Every run to unseal lies in the request.** -/
theorem computeUnsealRanges_runs_subset {allocated : Finset ℕ} {offset size at_ len : ℕ}
    (h : (true, at_, len) ∈ Runs.positioned
      (runIterator (computeUnsealRanges jc allocated offset size)) 0) :
    Partialfile.pieceRun at_ len ⊆ Partialfile.pieceRun (padded offset) (padded size) := by
  intro i hi
  rw [Partialfile.pieceRun, Finset.mem_Ico] at hi
  exact computeUnsealRanges_subset allocated offset size
    (mem_of_mem_positioned_runIterator h hi.1 hi.2)

/-! ## One run -/

lemma flatten_bufioWrites (bs : ℕ) :
    ∀ (fuel : ℕ) (data : List Fr32.Byte), (bufioWrites bs fuel data).flatten = data
  | _, [] => by simp [bufioWrites]
  | 0, x :: xs => by simp [bufioWrites]
  | fuel + 1, x :: xs => by
    rw [bufioWrites, List.flatten_cons, flatten_bufioWrites bs fuel, List.take_append_drop]

lemma length_le_of_mem_bufioWrites (bs : ℕ) :
    ∀ (fuel : ℕ) (data : List Fr32.Byte), ∀ p ∈ bufioWrites bs fuel data, p.length ≤ data.length
  | _, [], p, hp => by simp [bufioWrites] at hp
  | 0, x :: xs, p, hp => by
    simp only [bufioWrites, List.mem_singleton] at hp
    rw [hp]
  | fuel + 1, x :: xs, p, hp => by
    rw [bufioWrites, List.mem_cons] at hp
    rcases hp with rfl | hp
    · rw [List.length_take]
      omega
    · have := length_le_of_mem_bufioWrites bs fuel _ p hp
      simp only [List.length_drop] at this
      omega

/-- **One run**: when `UnsealRange` gives `size` bytes, whole chunks, they are padded and written
at the request's offset, and the run is marked allocated. -/
lemma unsealRun_eq (offset : ℕ) (pf : PartialFile) {size at_ len : ℕ}
    (hlen : (unsealRange unsealed (unpadded at_) (unpadded len)).length = size)
    (h127 : size % 127 = 0) (hbig : size + 126 < 2 ^ 63) :
    unsealRun codec numCPU unsealed offset size pf at_ len =
      .ok (PartialFile.markAllocated codec
        { pf with
          file := Partialfile.writeAt pf.file (padded offset)
            ((Fr32.padBytes (unsealRange unsealed (unpadded at_) (unpadded len))).map UInt8.ofBitVec) }
        at_ len) := by
  generalize hdata : unsealRange unsealed (unpadded at_) (unpadded len) = data at hlen
  subst hlen
  -- the pad writer gets the bytes in buffers, and pads them all, as they are whole chunks
  have hdst : ∀ b : List Fr32.Byte, (fun _ => (none : Option ℕ)) b = none := fun _ => rfl
  obtain ⟨hinv, hres⟩ := Fr32.runWrites_padInv numCPU hdst
    (bufioWrites (bufSize numCPU data.length) data.length data) Fr32.padInv_new
    (fun p hp => by have := length_le_of_mem_bufioWrites _ _ _ p hp; omega)
  rw [List.nil_append, flatten_bufioWrites] at hinv
  have hwhole : 127 * (data.length / 127) = data.length := by omega
  have hclose := (Fr32.close_eq_ok_iff hinv).mpr (by omega)
  have hpad : (Fr32.runWrites numCPU (fun _ => none) Fr32.newPadWriter
      (bufioWrites (bufSize numCPU data.length) data.length data)).1.dst = Fr32.padBytes data := by
    rw [hinv.1, hwhole, List.take_length]
  simp only [unsealRun, hdata, lt_irrefl, if_false, hres, hpad, hclose]
  simp [Except.isOk, Except.toBool]

/-! ## The call -/

/-- The loop over an unmarked run and then a marked one: the marked run alone, after the other. -/
lemma unsealLoop_gap_run (offset size a n : ℕ) (pf : PartialFile) :
    unsealLoop codec numCPU unsealed offset size [(false, a), (true, n)] 0 pf =
      unsealRun codec numCPU unsealed offset size pf a n := by
  simp only [unsealLoop, Bool.false_eq_true, if_false, if_true, zero_add]
  cases unsealRun codec numCPU unsealed offset size pf a n <;> rfl

lemma unsealLoop_run (offset size n : ℕ) (pf : PartialFile) :
    unsealLoop codec numCPU unsealed offset size [(true, n)] 0 pf =
      unsealRun codec numCPU unsealed offset size pf 0 n := by
  simp only [unsealLoop, if_true]
  cases unsealRun codec numCPU unsealed offset size pf 0 n <;> rfl

/-- **A request nothing of which is unsealed** is padded and written at its own offset, and
marked allocated. -/
theorem unsealPiece_of_disjoint {pf : PartialFile} {offset size : ℕ}
    (hdisj : Disjoint pf.allocated (Partialfile.pieceRun (padded offset) (padded size)))
    (hsize : 0 < size) (h127 : size % 127 = 0) (hlen : offset + size ≤ unsealed.length)
    (hbig : size + 126 < 2 ^ 63) :
    unsealPiece codec jc numCPU unsealed pf offset size =
      .ok (PartialFile.markAllocated codec
        { pf with
          file := Partialfile.writeAt pf.file (padded offset)
            ((Fr32.padBytes (unsealRange unsealed offset size)).map UInt8.ofBitVec) }
        (padded offset) (padded size)) := by
  -- the whole request is one run, at its own offset
  have hJ : computeUnsealRanges jc pf.allocated offset size =
      Finset.Ico (padded offset) (padded offset + padded size) :=
    computeUnsealRanges_of_sdiff (Finset.sdiff_eq_self_of_disjoint hdisj.symm)
  have hpos : padded offset < padded offset + padded size := by unfold padded; omega
  have hdata : (unsealRange unsealed (unpadded (padded offset)) (unpadded (padded size))).length =
      size := by
    rw [unpadded_padded, unpadded_padded, unsealRange, List.length_take, List.length_drop]
    omega
  have hrun := unsealRun_eq codec numCPU unsealed offset pf hdata h127 hbig
  rw [unpadded_padded, unpadded_padded] at hrun
  simp only [unsealPiece, hJ, runIterator_Ico hpos]
  by_cases h0 : padded offset = 0
  · rw [h0] at hrun ⊢
    simp only [if_true, List.isEmpty_cons, Bool.false_eq_true, if_false, zero_add, unsealLoop_run,
      hrun]
  · simp only [h0, if_false, List.isEmpty_cons, Bool.false_eq_true, Nat.add_sub_cancel_left,
      unsealLoop_gap_run, hrun]

/-- A request of whole chunks at a chunk boundary, of which only the first padded byte is unsealed:
the call succeeds and marks the whole request allocated, but the one run left, one byte into the
request, is written at the request's offset, with the unsealed bytes from `offset + 1`. -/
theorem unsealPiece_shifts_data {pf : PartialFile} {offset size : ℕ}
    (hoff : offset % 127 = 0) (hsize : 0 < size) (h127 : size % 127 = 0)
    (hfirst : pf.allocated ∩ Partialfile.pieceRun (padded offset) (padded size) = {padded offset})
    (hlen : offset + 1 + size ≤ unsealed.length) (hbig : size + 126 < 2 ^ 63) :
    unsealPiece codec jc numCPU unsealed pf offset size =
        .ok (PartialFile.markAllocated codec
          { pf with
            file := Partialfile.writeAt pf.file (padded offset)
              ((Fr32.padBytes (unsealRange unsealed (offset + 1) size)).map UInt8.ofBitVec) }
          (padded offset + 1) (padded size - 1)) ∧
      pf.allocated ∪ Partialfile.pieceRun (padded offset + 1) (padded size - 1) =
        pf.allocated ∪ Partialfile.pieceRun (padded offset) (padded size) := by
  have hp : padded offset ∈ pf.allocated := (Finset.mem_inter.mp (hfirst ▸ Finset.mem_singleton_self _)).1
  have hL : 128 ≤ padded size := by unfold padded; omega
  -- what is left of the request is all of it but its first byte
  have hleft : Partialfile.pieceRun (padded offset) (padded size) \ pf.allocated =
      Finset.Ico (padded offset + 1) (padded offset + padded size) := by
    ext i
    have hi := Finset.ext_iff.mp hfirst i
    simp only [Finset.mem_inter, Finset.mem_singleton, Partialfile.pieceRun, Finset.mem_Ico] at hi
    simp only [Partialfile.pieceRun, Finset.mem_sdiff, Finset.mem_Ico]
    constructor
    · rintro ⟨⟨hlo, hhi⟩, hnot⟩
      have hne : i ≠ padded offset := fun he => hnot (he ▸ hp)
      omega
    · rintro ⟨hlo, hhi⟩
      refine ⟨⟨by omega, hhi⟩, fun hmem => ?_⟩
      have := hi.mp ⟨hmem, by omega, hhi⟩
      omega
  have hJ := @computeUnsealRanges_of_sdiff jc _ _ _ _ _ hleft
  have hpos : padded offset + 1 < padded offset + padded size := by omega
  -- the run starts one unpadded byte in, and has as many unpadded bytes as the request
  have hat : unpadded (padded offset + 1) = offset + 1 := by unfold unpadded padded; omega
  have hsub : padded offset + padded size - (padded offset + 1) = padded size - 1 := by omega
  have hlen' : unpadded (padded size - 1) = size := by unfold unpadded padded; omega
  have hdata : (unsealRange unsealed (unpadded (padded offset + 1))
      (unpadded (padded size - 1))).length = size := by
    rw [hat, hlen', unsealRange, List.length_take, List.length_drop]
    omega
  have hrun := unsealRun_eq codec numCPU unsealed offset pf hdata h127 hbig
  rw [hat, hlen'] at hrun
  refine ⟨?_, ?_⟩
  · simp only [unsealPiece, hJ, runIterator_Ico hpos, Nat.add_eq_zero_iff, one_ne_zero, and_false,
      if_false, List.isEmpty_cons, Bool.false_eq_true, hsub, unsealLoop_gap_run, hrun]
  · ext i
    simp only [Finset.mem_union, Partialfile.pieceRun, Finset.mem_Ico]
    constructor
    · rintro (h | h)
      · exact .inl h
      · exact .inr ⟨by omega, by omega⟩
    · rintro (h | ⟨hlo, hhi⟩)
      · exact .inl h
      · by_cases he : i = padded offset
        · exact .inl (he ▸ hp)
        · exact .inr ⟨by omega, by omega⟩

end Unseal

/-- A `JoinClose` that marks every index between two marked ones at most `c + 1` apart. -/
def gapJoin : JoinClose where
  join c s := s ∪ (Finset.range (Partialfile.lastSet s)).filter fun i =>
    ∃ a ∈ s, ∃ b ∈ s, a < i ∧ i < b ∧ b - a ≤ c + 1
  subset_join _ _ := Finset.subset_union_left
  join_subset c s i hi := by
    rcases Finset.mem_union.mp hi with hi | hi
    · exact ⟨i, hi, i, hi, le_rfl, le_rfl⟩
    · obtain ⟨a, ha, b, hb, hai, hib, -⟩ := (Finset.mem_filter.mp hi).2
      exact ⟨a, ha, b, hb, hai.le, hib.le⟩

/-- The unsealed bytes of a sector of `256` bytes: byte `i` is `i`. -/
def countingSector : List Fr32.Byte :=
  (List.range 256).map fun i => BitVec.ofNat 8 i

/-- A partial file of one `128`-byte chunk whose trailer marks only its first padded byte. -/
def firstByteFile : PartialFile :=
  ⟨128, "unsealed", {0}, List.replicate 128 0⟩

theorem unsealPiece_shifts_data_first :
    (0 % 127 = 0 ∧ 0 < 127 ∧ 127 % 127 = 0 ∧
      firstByteFile.allocated ∩ Partialfile.pieceRun (padded 0) (padded 127) = {padded 0} ∧
      0 + 1 + 127 ≤ countingSector.length ∧ 127 + 126 < 2 ^ 63) ∧
    unsealPiece Partialfile.bitmapCodec gapJoin 1 countingSector firstByteFile 0 127 =
        .ok (PartialFile.markAllocated Partialfile.bitmapCodec
          { firstByteFile with
            file := Partialfile.writeAt firstByteFile.file (padded 0)
              ((Fr32.padBytes (unsealRange countingSector (0 + 1) 127)).map UInt8.ofBitVec) }
          (padded 0 + 1) (padded 127 - 1)) ∧
      firstByteFile.allocated ∪ Partialfile.pieceRun (padded 0 + 1) (padded 127 - 1) =
        firstByteFile.allocated ∪ Partialfile.pieceRun (padded 0) (padded 127) := by
  have hfirst : firstByteFile.allocated ∩ Partialfile.pieceRun (padded 0) (padded 127) =
      {padded 0} := by decide
  have hlen : 0 + 1 + 127 ≤ countingSector.length := by simp [countingSector]
  exact ⟨⟨rfl, by decide, rfl, hfirst, hlen, by decide⟩,
    unsealPiece_shifts_data Partialfile.bitmapCodec 1 countingSector rfl (by decide) rfl hfirst hlen
      (by decide)⟩

/-- At padded byte `1`, inside the run, the file gets unsealed byte `2`, where the padded data
has unsealed byte `1`. -/
example : (Fr32.padBytes (unsealRange countingSector 1 127))[1]? = some 2 ∧
    (Fr32.padBytes (unsealRange countingSector 0 127))[1]? = some 1 := by
  decide +kernel

/-- The second chunk of a file of which nothing is unsealed is the one run to unseal, after a gap
of one chunk. -/
theorem computeUnsealRanges_runs_subset_secondChunk :
    Partialfile.pieceRun 128 128 ⊆ Partialfile.pieceRun (padded 127) (padded 127) := by
  have hJ : computeUnsealRanges gapJoin ∅ 127 127 = Finset.Ico 128 256 :=
    computeUnsealRanges_of_sdiff (by rw [Finset.sdiff_empty]; rfl)
  have h : (true, 128, 128) ∈ Runs.positioned (runIterator (computeUnsealRanges gapJoin ∅ 127 127)) 0 := by
    rw [hJ, runIterator_Ico (by decide)]
    decide
  exact computeUnsealRanges_runs_subset h

/-- A partial file of one `128`-byte chunk of which nothing is unsealed. -/
def emptyChunkFile : PartialFile :=
  ⟨128, "unsealed", ∅, List.replicate 128 0⟩

/-- Nothing of the first chunk is unsealed: its padded bytes go to its own offset. -/
theorem unsealPiece_of_disjoint_emptyChunk :
    unsealPiece Partialfile.bitmapCodec gapJoin 1 countingSector emptyChunkFile 0 127 =
      .ok (PartialFile.markAllocated Partialfile.bitmapCodec
        { emptyChunkFile with
          file := Partialfile.writeAt emptyChunkFile.file (padded 0)
            ((Fr32.padBytes (unsealRange countingSector 0 127)).map UInt8.ofBitVec) }
        (padded 0) (padded 127)) :=
  unsealPiece_of_disjoint Partialfile.bitmapCodec 1 countingSector (Finset.disjoint_empty_left _)
    (by decide) rfl (by simp [countingSector]) (by decide)

end Ffiwrapper

end Lotus
