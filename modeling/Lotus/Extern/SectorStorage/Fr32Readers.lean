import Lotus.Extern.SectorStorage.Fr32Threads
import Lotus.Lib.Chunks

/-!
# Padding and unpadding a stream (`padWriter`, `subPieces`, `unpadReader`)

`padWriter` pads a byte stream as it is written.  A `Write` that leaves fewer than `127` bytes
in hand stashes them; otherwise the stash and the new bytes are padded piece by piece: each round
takes the largest piece `subPieces` finds in what is left, pads it with `Pad` into the work
buffer and writes that to `dst`, until fewer than `127` bytes are left, which become the stash.

`subPieces u` splits the padded size of `u` into its set bits, lowest first, each converted back
to unpadded bytes; from `127` bytes up, the last and largest is `127 · 2 ^ j` bytes, padded to
`2 ^ (j + 7)`, and no more than `u` (`subPieces_getLast`).  So every round pads whole chunks of a
power-of-two size, where `Pad` is `pad` (`Fr32.Pad_eq_pad`), and the padded pieces concatenate to
the padding of their concatenation (`padBytes_append`).

The state after any sequence of writes is described by `PadInv`: `dst` holds the padding of the
longest prefix of everything written whose length is a multiple of `127`, and the stash holds the
rest (`runWrites_padInv`).  `Close` succeeds exactly when the stash is empty.

`unpadReader` reads a padded piece back: each `Read` unpads as many whole chunks of the source as
`out` and what is left allow, a power of two of them.  For a piece of `2 ^ k` padded bytes and
reads whose chunks fit the work buffer, no `Read` panics, what the reads return is the unpadding
of what the source has given, and `2 ^ k / 128` reads return the whole piece
(`unpadReader_reads_piece`).
-/

namespace Lotus

namespace Fr32

open GoInt

/-- `subPieces(in)`: the set bits of `in.Padded()`, lowest first, each as unpadded bytes. -/
def subPieces (input : ℕ) : List ℕ :=
  let w := uint64 (padded input)
  (Run.forLoop 0 (onesCount64 w) (fun _ st =>
      let next := trailingZeros64 st.1
      let psize := 1 <<< next
      (st.1 ^^^ psize, st.2 ++ [unpadded psize])) (w, [])).2

/-- A `padWriter`: what has been written to `dst`, the stash, and the work buffer with its
capacity. -/
structure PadWriter where
  dst : List Byte
  stash : List Byte
  work : Bytes
  workCap : ℕ

/-- `NewPadWriter(dst)`. -/
def newPadWriter : PadWriter :=
  ⟨[], [], fun _ => 0, 0⟩

/-- Why `Write` does not return `len(p), nil`: `dst.Write` failed after `n` padded bytes, and
`Write` returns `PaddedPieceSize(n).Unpadded()` with the error; or `pieces[len(pieces)-1]` is out
of range. -/
inductive WriteError
  | dst (returned : ℕ)
  | indexOutOfRange
  deriving DecidableEq, Repr

/-- `Close`'s error, "still have %d unprocessed bytes". -/
inductive CloseError
  | unprocessed (n : ℕ)
  deriving DecidableEq, Repr

/-- The `for` loop of `Write` on what is left of `in`.  `dstWrite b` is `none` when `dst` takes all
of `b`, and `some n` when it fails after `n` bytes.  Each round takes at least `127` bytes, and
`fuel` bounds the rounds. -/
def writeLoop (numCPU : ℕ) (dstWrite : List Byte → Option ℕ) :
    ℕ → PadWriter → List Byte → PadWriter × Except WriteError Unit
  | 0, w, _ => (w, .ok ())
  | fuel + 1, w, input =>
    match (subPieces input.length).getLast? with
    | none => (w, .error .indexOutOfRange)
    | some biggest =>
      let w := if w.workCap < padded biggest then
        { w with work := fun _ => 0, workCap := padded biggest } else w
      let w := { w with work := Pad numCPU (fun i => input.getD i 0) w.work (padded biggest) }
      let buf := List.ofFn fun j : Fin (padded biggest) => w.work j
      match dstWrite buf with
      | some n => ({ w with dst := w.dst ++ buf.take n }, .error (.dst (unpadded n)))
      | none =>
        let w := { w with dst := w.dst ++ buf }
        let input := input.drop biggest
        if input.length < 127 then ({ w with stash := input }, .ok ())
        else writeLoop numCPU dstWrite fuel w input

/-- `padWriter.Write(p)`; the loop gets `len(in)` rounds, more than it takes. -/
def write (numCPU : ℕ) (dstWrite : List Byte → Option ℕ) (w : PadWriter) (p : List Byte) :
    PadWriter × Except WriteError ℕ :=
  if p.length + w.stash.length < 127 then ({ w with stash := w.stash ++ p }, .ok p.length)
  else
    let input := if w.stash.length ≠ 0 then w.stash ++ p else p
    let r := writeLoop numCPU dstWrite input.length w input
    (r.1, r.2.map fun _ => p.length)

/-- `padWriter.Close()`. -/
def close (w : PadWriter) : Except CloseError Unit :=
  if w.stash.length > 0 then .error (.unprocessed w.stash.length) else .ok ()

/-- A sequence of `Write` calls, with what each returns. -/
def runWrites (numCPU : ℕ) (dstWrite : List Byte → Option ℕ) :
    PadWriter → List (List Byte) → PadWriter × List (Except WriteError ℕ)
  | w, [] => (w, [])
  | w, p :: ps =>
    let r := write numCPU dstWrite w p
    let rs := runWrites numCPU dstWrite r.1 ps
    (rs.1, r.2 :: rs.2)

/-- `pad` of a byte string into a zeroed buffer of `len / 127 * 128` bytes. -/
def padBytes (l : List Byte) : List Byte :=
  List.ofFn fun j : Fin (l.length / 127 * 128) =>
    pad (fun i => l.getD i 0) (fun _ => 0) (l.length / 127 * 128) j

/-! ## The pieces -/

lemma subPieces_eq (input : ℕ) : subPieces input = (bitPieces (uint64 (padded input))).map unpadded := by
  unfold subPieces
  dsimp only
  exact forLoop_peel_unpadded (by unfold uint64; omega)

/-- **The largest piece**: from `127` bytes up, the last of `subPieces u` is `127 · 2 ^ j` bytes,
padded to `2 ^ (j + 7)`, and no more than `u`. -/
theorem subPieces_getLast {u : ℕ} (h127 : 127 ≤ u) (hu : u < 2 ^ 63) :
    ∃ j, (subPieces u).getLast? = some (127 * 2 ^ j) ∧ 127 * 2 ^ j ≤ u ∧
      padded (127 * 2 ^ j) = 2 ^ (j + 7) := by
  have hfit : padded u < 2 ^ 64 := by unfold padded; omega
  rw [subPieces_eq, uint64_of_lt hfit]
  -- the pieces are not empty, as they add up to the padded size
  rcases List.eq_nil_or_concat (bitPieces (padded u)) with hnil | ⟨P, p, hP⟩
  · have hsum := sum_bitPieces (padded u)
    rw [hnil] at hsum
    unfold padded at hsum
    simp at hsum
    omega
  rw [List.concat_eq_append] at hP
  have hp : p ∈ bitPieces (padded u) := hP ▸ List.mem_append_right P (List.mem_singleton_self p)
  have hlt := lt_two_mul_of_bitPieces_eq hP
  have hle := le_of_mem_bitPieces_self hp
  obtain ⟨h, -, rfl⟩ := mem_bitPieces.1 hp
  -- the largest bit is more than half the padded size, so at least `2 ^ 7`
  have h7 : 7 ≤ h := by
    by_contra hh
    have : 2 ^ h ≤ 2 ^ 6 := Nat.pow_le_pow_right (by norm_num) (by omega)
    unfold padded at hlt
    omega
  refine ⟨h - 7, ?_, ?_, ?_⟩
  · rw [hP, List.map_append, List.map_singleton, List.getLast?_concat, unpadded_two_pow h7]
  · rw [← unpadded_two_pow h7, ← unpadded_padded u]
    exact unpadded_mono hle
  · rw [Nat.pow_add]
    unfold padded
    omega

/-! ## Padded byte strings -/

lemma length_padBytes (l : List Byte) : (padBytes l).length = l.length / 127 * 128 :=
  List.length_ofFn

lemma getElem_padBytes (l : List Byte) (j : ℕ) (hj : j < (padBytes l).length) :
    (padBytes l)[j] = padByte (fun i => l.getD (j / 128 * 127 + i) 0) (j % 128) := by
  rw [length_padBytes] at hj
  simp only [padBytes, List.getElem_ofFn]
  rw [pad_apply, if_pos (by omega)]

/-- `padBytes` maps each `127`-byte chunk to a `128`-byte chunk. -/
lemma padBytes_eq_chunkwise (l : List Byte) :
    padBytes l = Chunks.chunkwise 127 128 padByte 0 l := by
  apply List.ext_getElem
  · rw [length_padBytes, Chunks.length_chunkwise]
  · intro j h₁ h₂
    rw [getElem_padBytes, Chunks.getElem_chunkwise]

/-- **Padding is chunkwise**: after whole chunks, padding a concatenation pads each part. -/
theorem padBytes_append {A B : List Byte} (hA : A.length % 127 = 0) :
    padBytes (A ++ B) = padBytes A ++ padBytes B := by
  simp only [padBytes_eq_chunkwise]
  exact Chunks.chunkwise_append 127 128 padByte 0 (fun x x' h k hk => padByte_congr h hk)
    (Nat.dvd_of_mod_eq_zero hA)

/-- A piece of `127 · 2 ^ j` bytes padded with `Pad`, whatever the work buffer held, is the
padding of those bytes. -/
lemma ofFn_Pad {numCPU j : ℕ} (input : List Byte) (work : Bytes) (hlen : 127 * 2 ^ j ≤ input.length)
    (hpad : padded (127 * 2 ^ j) = 2 ^ (j + 7)) :
    (List.ofFn fun k : Fin (padded (127 * 2 ^ j)) =>
        Pad numCPU (fun i => input.getD i 0) work (padded (127 * 2 ^ j)) k) =
      padBytes (input.take (127 * 2 ^ j)) := by
  apply List.ext_getElem
  · rw [List.length_ofFn, length_padBytes, List.length_take, hpad, Nat.pow_add]
    omega
  · intro k h₁ h₂
    have hPad : ∀ x, Pad numCPU (fun i => input.getD i 0) work (padded (127 * 2 ^ j)) x =
        pad (fun i => input.getD i 0) work (2 ^ (j + 7)) x := fun x => by rw [hpad, Pad_eq_pad]
    rw [List.getElem_ofFn, getElem_padBytes, hPad, pad_apply, if_pos]
    · refine padByte_congr (fun i hi => ?_) (Nat.mod_lt _ (by norm_num))
      -- the chunk lies in the piece
      rw [List.length_ofFn, hpad, Nat.pow_add] at h₁
      have hk : k / 128 * 127 + i < 127 * 2 ^ j := by omega
      simp [List.getD_eq_getElem?_getD, hk]
    · rw [List.length_ofFn, hpad] at h₁
      have h128 : 2 ^ (j + 7) / 128 * 128 = 2 ^ (j + 7) := by
        rw [Nat.pow_add]
        omega
      rw [h128]
      exact h₁

/-! ## Writes -/

section Writes

variable (numCPU : ℕ) {dstWrite : List Byte → Option ℕ} (hdst : ∀ b, dstWrite b = none)
include hdst

/-- **The write loop** pads the whole chunks of its input, one largest piece a round, and stashes
the rest, when `dst` takes everything and the loop has a round for each `127` bytes. -/
lemma writeLoop_ok : ∀ (fuel : ℕ) (w : PadWriter) (input : List Byte), 127 ≤ input.length →
    input.length < 2 ^ 63 → input.length ≤ 127 * fuel →
    (writeLoop numCPU dstWrite fuel w input).2 = .ok () ∧
      (writeLoop numCPU dstWrite fuel w input).1.dst =
        w.dst ++ padBytes (input.take (127 * (input.length / 127))) ∧
      (writeLoop numCPU dstWrite fuel w input).1.stash = input.drop (127 * (input.length / 127))
  | 0, _, _, h127, _, hfuel => absurd hfuel (by omega)
  | fuel + 1, w, input, h127, hlt, hfuel => by
    obtain ⟨j, hlast, hle, hpad⟩ := subPieces_getLast h127 hlt
    rw [writeLoop, hlast]
    dsimp only
    rw [hdst]
    dsimp only
    -- the work buffer, fresh or not, does not change what is padded
    generalize hw₁ : (if w.workCap < padded (127 * 2 ^ j) then
      { w with work := fun _ => 0, workCap := padded (127 * 2 ^ j) } else w) = w₁
    have hw₁dst : w₁.dst = w.dst := by
      rw [← hw₁]
      split <;> rfl
    rw [ofFn_Pad input w₁.work hle hpad, hw₁dst]
    have hrest : (input.drop (127 * 2 ^ j)).length = input.length - 127 * 2 ^ j := List.length_drop
    have hj1 : 1 ≤ 2 ^ j := Nat.one_le_two_pow
    split_ifs with hsmall
    · -- the piece was all the whole chunks
      have hb : 127 * (input.length / 127) = 127 * 2 ^ j := by omega
      exact ⟨rfl, by rw [hb], by rw [hb]⟩
    · -- the rest is padded by the next rounds
      obtain ⟨hok, hdst', hstash⟩ := writeLoop_ok fuel _ (input.drop (127 * 2 ^ j)) (by omega)
        (by omega) (by omega)
      have hk : 127 * (input.length / 127) =
          127 * 2 ^ j + 127 * ((input.drop (127 * 2 ^ j)).length / 127) := by omega
      refine ⟨hok, ?_, ?_⟩
      · rw [hdst', hk, List.take_add, padBytes_append (by rw [List.length_take]; omega),
          List.append_assoc]
      · rw [hstash, hk, List.drop_drop]

omit hdst in
/-- After writing `T`: `dst` holds the padding of the longest prefix of `T` whose length is a
multiple of `127`, and the stash holds the rest. -/
def PadInv (T : List Byte) (w : PadWriter) : Prop :=
  w.dst = padBytes (T.take (127 * (T.length / 127))) ∧ w.stash = T.drop (127 * (T.length / 127))

omit hdst in
lemma padInv_new : PadInv [] newPadWriter :=
  ⟨by simp [newPadWriter, padBytes], rfl⟩

/-- **One `Write`** keeps `PadInv` and returns `len(p)`. -/
lemma write_padInv {T : List Byte} {w : PadWriter} (hinv : PadInv T w) (p : List Byte)
    (hp : p.length + 126 < 2 ^ 63) :
    PadInv (T ++ p) (write numCPU dstWrite w p).1 ∧ (write numCPU dstWrite w p).2 = .ok p.length := by
  obtain ⟨hd, hs⟩ := hinv
  have hslen : w.stash.length = T.length - 127 * (T.length / 127) := by rw [hs, List.length_drop]
  have hq : 127 * (T.length / 127) ≤ T.length := Nat.mul_div_le _ _
  unfold write
  by_cases hshort : p.length + w.stash.length < 127
  · -- too little for a chunk: the bytes join the stash
    rw [if_pos hshort]
    have hdiv : (T ++ p).length / 127 = T.length / 127 := by
      rw [List.length_append]
      omega
    refine ⟨⟨?_, ?_⟩, rfl⟩
    · rw [hdiv, List.take_append_of_le_length hq]
      exact hd
    · rw [hdiv, List.drop_append_of_le_length hq, ← hs]
  · -- the stash and the bytes are padded together
    have hin : (if w.stash.length ≠ 0 then w.stash ++ p else p) = w.stash ++ p := by
      split_ifs with h
      · rfl
      · rw [List.length_eq_zero_iff.1 (not_not.1 h), List.nil_append]
    rw [if_neg hshort]
    dsimp only
    rw [hin]
    have hlen : (w.stash ++ p).length = w.stash.length + p.length := List.length_append
    obtain ⟨hok, hdst', hstash⟩ := writeLoop_ok numCPU hdst (w.stash ++ p).length w (w.stash ++ p) (by omega)
      (by omega) (by omega)
    have hk : 127 * ((T ++ p).length / 127) =
        127 * (T.length / 127) + 127 * ((w.stash ++ p).length / 127) := by
      rw [List.length_append]
      omega
    refine ⟨⟨?_, ?_⟩, by rw [hok]; rfl⟩
    · rw [hdst', hd, hk, List.take_add, List.take_append_of_le_length hq,
        List.drop_append_of_le_length hq, ← hs, padBytes_append (by rw [List.length_take]; omega)]
    · rw [hstash, hk, ← List.drop_drop, List.drop_append_of_le_length hq, ← hs]

/-- **Every sequence of writes** keeps `PadInv`, and each write returns the length of its bytes. -/
theorem runWrites_padInv : ∀ (ps : List (List Byte)) {T : List Byte} {w : PadWriter}, PadInv T w →
    (∀ p ∈ ps, p.length + 126 < 2 ^ 63) →
    PadInv (T ++ ps.flatten) (runWrites numCPU dstWrite w ps).1 ∧
      (runWrites numCPU dstWrite w ps).2 = ps.map fun p => .ok p.length
  | [], T, w, hinv, _ => by simpa [runWrites] using hinv
  | p :: ps, T, w, hinv, hps => by
    obtain ⟨hinv', hr⟩ := write_padInv numCPU hdst hinv p (hps p List.mem_cons_self)
    obtain ⟨hinv'', hrs⟩ := runWrites_padInv ps hinv' fun q hq => hps q (List.mem_cons_of_mem _ hq)
    refine ⟨by simpa [runWrites, List.flatten_cons, List.append_assoc] using hinv'', ?_⟩
    simp only [runWrites, hr, hrs, List.map_cons]

end Writes

/-- `Close` succeeds exactly when what was written is whole chunks. -/
lemma close_eq_ok_iff {T : List Byte} {w : PadWriter} (hinv : PadInv T w) :
    close w = .ok () ↔ T.length % 127 = 0 := by
  unfold close
  rw [hinv.2, List.length_drop]
  split_ifs with h
  · simp only [false_iff]
    omega
  · simp only [true_iff]
    omega

/-- A `padWriter` over a `dst` that never fails, after any sequence of writes: `dst` holds the
padding of the longest prefix of everything written whose length is a multiple of `127`, the stash
holds the rest, every `Write` returned the length of its bytes, and `Close` succeeds exactly when
the total is a multiple of `127`; and from `127` bytes up, the largest of `subPieces` is a whole
number of `127`-byte chunks, padded to a power of two, and no more than the bytes in hand. -/
theorem padWriter_spec (numCPU : ℕ) {dstWrite : List Byte → Option ℕ}
    (hdst : ∀ b, dstWrite b = none) (ps : List (List Byte))
    (hps : ∀ p ∈ ps, p.length + 126 < 2 ^ 63) :
    (runWrites numCPU dstWrite newPadWriter ps).1.dst =
        padBytes (ps.flatten.take (127 * (ps.flatten.length / 127))) ∧
      (runWrites numCPU dstWrite newPadWriter ps).1.stash =
        ps.flatten.drop (127 * (ps.flatten.length / 127)) ∧
      (runWrites numCPU dstWrite newPadWriter ps).2 = ps.map (fun p => .ok p.length) ∧
      (close (runWrites numCPU dstWrite newPadWriter ps).1 = .ok () ↔
        ps.flatten.length % 127 = 0) ∧
      ∀ u, 127 ≤ u → u < 2 ^ 63 → ∃ j, (subPieces u).getLast? = some (127 * 2 ^ j) ∧
        127 * 2 ^ j ≤ u ∧ padded (127 * 2 ^ j) = 2 ^ (j + 7) := by
  obtain ⟨hinv, hres⟩ := runWrites_padInv numCPU hdst ps padInv_new hps
  rw [List.nil_append] at hinv
  exact ⟨hinv.1, hinv.2, hres, close_eq_ok_iff hinv, fun u h127 hu => subPieces_getLast h127 hu⟩

/-- Writes of `100` and `60` bytes: `33` bytes stay in the stash and `Close` fails. -/
theorem padWriter_spec_twoWrites :
    (runWrites 1 (fun _ => none) newPadWriter [List.replicate 100 1, List.replicate 60 2]).1.stash =
        List.replicate 33 2 ∧
      (runWrites 1 (fun _ => none) newPadWriter [List.replicate 100 1, List.replicate 60 2]).2 =
        [.ok 100, .ok 60] ∧
      close (runWrites 1 (fun _ => none) newPadWriter
        [List.replicate 100 1, List.replicate 60 2]).1 ≠ .ok () := by
  obtain ⟨-, hstash, hres, hclose, -⟩ := padWriter_spec 1 (fun _ => rfl)
    [List.replicate 100 1, List.replicate 60 2] (by simp)
  refine ⟨hstash.trans ?_, by rw [hres]; rfl, fun h => ?_⟩
  · rw [List.flatten_cons, List.flatten_cons, List.flatten_nil, List.append_nil,
      List.length_append, List.length_replicate, List.length_replicate, List.drop_append,
      List.drop_replicate, List.length_replicate, List.drop_replicate]
    simp
  have h160 := hclose.1 h
  simp at h160

/-! ## Unpadding a stream (`unpadReader`)

`NewUnpadReader(src, sz)` allocates a work buffer of `MTTresh · mtChunkCount(sz)` bytes.  Each
`Read(out)` takes `todo`, the largest power of two in the padded size of the whole chunks `out`
holds, or in `left` when that is less; reads `todo` source bytes into `r.work[:todo]` and unpads
them into `out`.  `todo` is bounded by `out` and by `left`, never by the work buffer.
-/

/-- `PaddedPieceSize(p).Validate()` succeeds: at least `128` bytes, and one bit set. -/
def ValidPadded (p : ℕ) : Prop :=
  128 ≤ p ∧ onesCount64 p = 1

instance : DecidablePred ValidPadded :=
  fun p => inferInstanceAs (Decidable (128 ≤ p ∧ onesCount64 p = 1))

/-- An `unpadReader`: the bytes its source has yet to give, `left`, and the work buffer with its
length. -/
structure UnpadReader where
  src : List Byte
  left : ℕ
  work : Bytes
  workLen : ℕ

/-- `NewUnpadReader(src, sz)`, with `runtime.NumCPU()` as `numCPU`; `none` for a bad piece
size. -/
def newUnpadReader (numCPU : ℕ) (src : List Byte) (sz : ℕ) : Option UnpadReader :=
  if ValidPadded sz then some ⟨src, sz, fun _ => 0, mtTresh * mtChunkCount numCPU sz⟩ else none

/-- Why `Read` returns no bytes: `io.EOF`; an `out` too short for a valid piece size; the source
ending after `n` of the `todo` bytes (`io.ErrUnexpectedEOF`, returned with `n`); or "didn't read
enough: n / todo, left, out". -/
inductive ReadError
  | eof
  | badOutput
  | unexpectedEOF (n : ℕ)
  | short (n todo left outLen : ℕ)
  deriving DecidableEq, Repr

/-- `unpadReader.Read(out)`, with `len(out) = outLen`: the source gives what it has left, and on
success `out[:n]` is returned.  `none` is a panic: a negative shift for an `out` of fewer than
`127` bytes, or a slice past the capacity of `r.work` or the length of `out`. -/
def read (numCPU : ℕ) (r : UnpadReader) (out : Bytes) (outLen : ℕ) :
    Option (UnpadReader × Except ReadError (List Byte)) :=
  if r.left = 0 then some (r, .error .eof) else
  let chunks := outLen / 127
  let x := uint64 (chunks * 128)
  -- `63 - bits.LeadingZeros64(0)` is `-1`
  if x = 0 then none else
  let outTwoPow := 1 <<< (63 - leadingZeros64 x)
  if ¬ValidPadded outTwoPow then some (r, .error .badOutput) else
  let todo := if r.left < outTwoPow then 1 <<< (63 - leadingZeros64 r.left) else outTwoPow
  let r := { r with left := r.left - todo }
  -- `r.work[:todo]`
  if r.workLen < todo then none else
  -- `io.ReadAtLeast(r.src, r.work[:todo], int(todo))`
  let n := min todo r.src.length
  let r := { r with
    src := r.src.drop n
    work := fun i => if i < n then r.src.getD i 0 else r.work i }
  if n < todo then
    if 0 < n then some (r, .error (.unexpectedEOF n))
    else some (r, .error (.short n todo r.left outLen))
  -- `out[:todo.Unpadded()]`
  else if outLen < unpadded todo then none
  else some (r, .ok (List.ofFn fun j : Fin (unpadded todo) => Unpad numCPU r.work out todo j))

/-- `Read` once for each output buffer, given with its length, in turn; `none` if one panics. -/
def readRun (numCPU : ℕ) : UnpadReader → List (Bytes × ℕ) →
    Option (UnpadReader × List (Except ReadError (List Byte)))
  | r, [] => some (r, [])
  | r, o :: outs =>
    match read numCPU r o.1 o.2 with
    | none => none
    | some (r, res) => (readRun numCPU r outs).map fun p => (p.1, res :: p.2)

/-- The bytes a sequence of `Read` results gives before its first error. -/
def bytesBefore : List (Except ReadError (List Byte)) → List Byte
  | [] => []
  | .ok l :: rs => l ++ bytesBefore rs
  | .error _ :: _ => []

/-- `unpad` of a byte string into a zeroed buffer of `len / 128 * 127` bytes. -/
def unpadBytes (l : List Byte) : List Byte :=
  List.ofFn fun j : Fin (l.length / 128 * 127) =>
    unpad (fun _ => 0) (fun i => l.getD i 0) l.length j

/-- After the reads so far of a piece of `sz` bytes from the source `S`: `left` is a multiple of
`128` and no more than `sz`, and the source has given the first `sz - left` bytes of `S`. -/
def ReadInv (S : List Byte) (sz : ℕ) (r : UnpadReader) : Prop :=
  r.left ≤ sz ∧ 128 ∣ r.left ∧ r.src = S.drop (sz - r.left)

/-! ## Unpadded byte strings -/

lemma length_unpadBytes (l : List Byte) : (unpadBytes l).length = l.length / 128 * 127 :=
  List.length_ofFn

/-- `unpadBytes` maps each `128`-byte chunk to a `127`-byte chunk. -/
lemma unpadBytes_eq_chunkwise (l : List Byte) :
    unpadBytes l = Chunks.chunkwise 128 127 unpadByte 0 l := by
  apply List.ext_getElem
  · rw [length_unpadBytes, Chunks.length_chunkwise]
  · intro j h₁ h₂
    rw [length_unpadBytes] at h₁
    rw [Chunks.getElem_chunkwise]
    simp only [unpadBytes, List.getElem_ofFn]
    rw [unpad_apply, if_pos h₁]

/-- **Unpadding is chunkwise**: after whole chunks, unpadding a concatenation unpads each part. -/
theorem unpadBytes_append {A B : List Byte} (hA : A.length % 128 = 0) :
    unpadBytes (A ++ B) = unpadBytes A ++ unpadBytes B := by
  simp only [unpadBytes_eq_chunkwise]
  exact Chunks.chunkwise_append 128 127 unpadByte 0 (fun x x' h k hk => unpadByte_congr h hk)
    (Nat.dvd_of_mod_eq_zero hA)

/-- A piece of `2 ^ t` bytes read into the work buffer and unpadded with `Unpad`, whatever the
buffers held before, is the unpadding of those bytes. -/
lemma ofFn_Unpad {numCPU t : ℕ} (ht : 7 ≤ t) (src : List Byte) (work out : Bytes)
    (hlen : 2 ^ t ≤ src.length) :
    (List.ofFn fun j : Fin (unpadded (2 ^ t)) =>
        Unpad numCPU (fun i => if i < 2 ^ t then src.getD i 0 else work i) out (2 ^ t) j) =
      unpadBytes (src.take (2 ^ t)) := by
  obtain ⟨m, hm⟩ : 128 ∣ 2 ^ t := (Nat.pow_dvd_pow 2 ht : 2 ^ 7 ∣ 2 ^ t)
  have hun : unpadded (2 ^ t) = 2 ^ t / 128 * 127 := unpadded_of_dvd ⟨m, hm⟩
  rw [unpadBytes_eq_chunkwise]
  apply List.ext_getElem
  · rw [List.length_ofFn, Chunks.length_chunkwise, List.length_take, min_eq_left hlen, hun]
  · intro j h₁ h₂
    rw [List.length_ofFn, hun] at h₁
    simp only [List.getElem_ofFn, Chunks.getElem_chunkwise, Unpad_eq_unpad]
    rw [unpad_apply, if_pos h₁]
    refine unpadByte_congr (fun i hi => ?_) (Nat.mod_lt _ (by norm_num))
    -- the chunk lies in the piece
    have hin : j / 127 * 128 + i < 2 ^ t := by omega
    simp only [if_pos hin, List.getD_eq_getElem?_getD, List.getElem?_take]

/-! ## One `Read` -/

lemma validPadded_two_pow {k : ℕ} (h7 : 7 ≤ k) (h64 : k < 64) : ValidPadded (2 ^ k) :=
  ⟨le_trans (by norm_num) (Nat.pow_le_pow_right (by norm_num) h7), onesCount64_two_pow h64⟩

lemma one_le_mtChunkCount (numCPU usz : ℕ) : 1 ≤ mtChunkCount numCPU usz := by
  unfold mtChunkCount
  dsimp only
  generalize (if usz / mtTresh > numCPU then 1 <<< len32 (numCPU % 2 ^ 32)
    else usz / mtTresh) = threads
  split_ifs <;> omega

/-- The size `Read` takes, for an `out` of at least `127` bytes and a `left` that is a nonzero
multiple of `128`: a power of two `2 ^ t`, at least `128`, at most `left`, and at most the padded
size of the whole chunks of `out`. -/
lemma todo_eq {left outLen : ℕ} (h127 : 127 ≤ outLen) (hlt : outLen < 2 ^ 63) (hleft : left ≠ 0)
    (h128 : 128 ∣ left) (hleft64 : left < 2 ^ 64) :
    ∃ t, 7 ≤ t ∧ 2 ^ t ≤ left ∧ 2 ^ t ≤ outLen / 127 * 128 ∧
      (if left < 1 <<< (63 - leadingZeros64 (outLen / 127 * 128)) then
        1 <<< (63 - leadingZeros64 left) else 1 <<< (63 - leadingZeros64 (outLen / 127 * 128))) =
        2 ^ t := by
  have hc0 : outLen / 127 * 128 ≠ 0 := by omega
  have hL7 : 7 ≤ Nat.log2 (outLen / 127 * 128) := (Nat.le_log2 hc0).2 (by omega)
  have hLc := Nat.log2_self_le hc0
  rw [one_shiftLeft_leadingZeros64 hc0 (by omega), one_shiftLeft_leadingZeros64 hleft hleft64]
  split_ifs with hsmall
  · -- `left` is the smaller: its highest bit
    have h7 : 7 ≤ Nat.log2 left := (Nat.le_log2 hleft).2 (Nat.le_of_dvd (by omega) h128)
    have hl := Nat.log2_self_le hleft
    exact ⟨Nat.log2 left, h7, hl, by omega, rfl⟩
  · exact ⟨_, hL7, by omega, hLc, rfl⟩

/-- **One `Read` in the middle of a piece**, when the source holds what is left and the work
buffer holds the padded size of `out`: it takes `2 ^ t` bytes, at least `128` and at most `left`,
and returns their unpadding. -/
lemma read_ok (numCPU : ℕ) {r : UnpadReader} (out : Bytes) {outLen : ℕ} (h127 : 127 ≤ outLen)
    (hlt : outLen < 2 ^ 63) (hleft : r.left ≠ 0) (h128 : 128 ∣ r.left) (hleft64 : r.left < 2 ^ 64)
    (hsrc : r.left ≤ r.src.length) (hwork : outLen / 127 * 128 ≤ r.workLen) :
    ∃ t, 7 ≤ t ∧ 2 ^ t ≤ r.left ∧
      read numCPU r out outLen = some ({ r with
        left := r.left - 2 ^ t
        src := r.src.drop (2 ^ t)
        work := fun i => if i < 2 ^ t then r.src.getD i 0 else r.work i },
        .ok (unpadBytes (r.src.take (2 ^ t)))) := by
  have hc0 : outLen / 127 * 128 ≠ 0 := by omega
  have hc64 : outLen / 127 * 128 < 2 ^ 64 := by omega
  have hvalid : ValidPadded (1 <<< (63 - leadingZeros64 (outLen / 127 * 128))) := by
    rw [one_shiftLeft_leadingZeros64 hc0 hc64]
    exact validPadded_two_pow ((Nat.le_log2 hc0).2 (by omega)) ((Nat.log2_lt hc0).2 hc64)
  obtain ⟨t, ht7, htleft, htout, htodo⟩ := todo_eq h127 hlt hleft h128 hleft64
  have hun : unpadded (2 ^ t) ≤ outLen := by
    have := unpadded_mono htout
    rw [unpadded_of_dvd (dvd_mul_left 128 _)] at this
    omega
  refine ⟨t, ht7, htleft, ?_⟩
  unfold read
  rw [if_neg hleft]
  dsimp only
  have hx : uint64 ((outLen / 127 : ℕ) * 128) = outLen / 127 * 128 := by
    unfold uint64
    omega
  rw [hx, if_neg hc0, if_neg (not_not_intro hvalid), htodo,
    if_neg (by omega), min_eq_left (by omega), if_neg (lt_irrefl _), if_neg (by omega),
    ofFn_Unpad ht7 _ _ _ (by omega)]

/-- With nothing left, every `Read` is `io.EOF` and changes nothing. -/
lemma readRun_eof (numCPU : ℕ) {r : UnpadReader} (h0 : r.left = 0) :
    ∀ outs, readRun numCPU r outs = some (r, outs.map fun _ => .error .eof)
  | [] => rfl
  | o :: outs => by
    simp only [readRun, read, if_pos h0, readRun_eof numCPU h0 outs, Option.map_some,
      List.map_cons]

/-! ## A sequence of `Read`s -/

section Reads

variable (numCPU : ℕ) {S : List Byte} {sz : ℕ} (hS : sz ≤ S.length) (hsz : sz < 2 ^ 64)
  (hsz128 : 128 ∣ sz)
include hS hsz hsz128

/-- **Every sequence of `Read`s** with outputs the work buffer holds keeps `ReadInv`, and the bytes
returned before the first error extend the unpadding of what the source has given; each `Read`
takes at least one chunk until the piece is read. -/
theorem readRun_readInv : ∀ (outs : List (Bytes × ℕ)) (r : UnpadReader), ReadInv S sz r →
    (∀ o ∈ outs, 127 ≤ o.2 ∧ o.2 < 2 ^ 63 ∧ o.2 / 127 * 128 ≤ r.workLen) →
    ∃ r' res, readRun numCPU r outs = some (r', res) ∧ ReadInv S sz r' ∧
      unpadBytes (S.take (sz - r.left)) ++ bytesBefore res = unpadBytes (S.take (sz - r'.left)) ∧
      (r'.left = 0 ∨ r'.left + 128 * outs.length ≤ r.left)
  | [], r, hinv, _ => ⟨r, [], rfl, hinv, by rw [bytesBefore, List.append_nil], .inr (by simp)⟩
  | o :: outs, r, hinv, houts => by
    obtain ⟨hle, h128, hsrc⟩ := hinv
    by_cases h0 : r.left = 0
    · -- the piece is read: every `Read` is `io.EOF`
      refine ⟨r, _, readRun_eof numCPU h0 _, ⟨hle, h128, hsrc⟩, ?_, .inl h0⟩
      simp only [List.map_cons, bytesBefore, List.append_nil]
    obtain ⟨h127, hlt, hwork⟩ := houts o List.mem_cons_self
    have hlen : r.left ≤ r.src.length := by
      rw [hsrc, List.length_drop]
      omega
    obtain ⟨t, ht7, htleft, hread⟩ := read_ok numCPU o.1 h127 hlt h0 h128 (by omega) hlen hwork
    have h128t : 128 ∣ 2 ^ t := (Nat.pow_dvd_pow 2 ht7 : 2 ^ 7 ∣ 2 ^ t)
    have hpos := Nat.two_pow_pos t
    -- the reader after this `Read`
    obtain ⟨r', res, hrun, hinv', hbytes, hcount⟩ := readRun_readInv outs
      { r with
        left := r.left - 2 ^ t
        src := r.src.drop (2 ^ t)
        work := fun i => if i < 2 ^ t then r.src.getD i 0 else r.work i }
      ⟨by dsimp only; omega, Nat.dvd_sub h128 h128t, by
        dsimp only
        rw [hsrc, List.drop_drop]
        congr 1
        omega⟩
      fun o' ho' => houts o' (List.mem_cons_of_mem _ ho')
    refine ⟨r', .ok (unpadBytes (r.src.take (2 ^ t))) :: res, ?_, hinv', ?_, ?_⟩
    · simp only [readRun, hread, hrun, Option.map_some]
    · -- the chunk read extends what was given, in whole chunks
      have hdone : (S.take (sz - r.left)).length % 128 = 0 := by
        rw [List.length_take, min_eq_left (by omega)]
        exact Nat.mod_eq_zero_of_dvd (Nat.dvd_sub hsz128 h128)
      dsimp only at hbytes
      rw [bytesBefore, ← List.append_assoc, ← unpadBytes_append hdone, hsrc, ← List.take_add,
        show sz - r.left + 2 ^ t = sz - (r.left - 2 ^ t) by omega]
      exact hbytes
    · dsimp only at hcount
      rw [List.length_cons]
      omega

end Reads

/-- **`unpadReader` unpads the piece** when every `out` is one that the work buffer holds, at most
`2 ^ 18` chunks: no `Read` panics, `left` stays a multiple of `128`, the bytes returned before the
first error are the unpadding of what the source has given, and after `sz / 128` `Read`s the whole
piece has been read and its `sz / 128 * 127` bytes returned. -/
theorem unpadReader_reads_piece (numCPU : ℕ) {k : ℕ} (hk7 : 7 ≤ k) (hk : k < 64) (S : List Byte)
    (hS : 2 ^ k ≤ S.length) (outs : List (Bytes × ℕ))
    (houts : ∀ o ∈ outs, 127 ≤ o.2 ∧ o.2 / 127 ≤ 2 ^ 18) :
    ∃ r₀ r res, newUnpadReader numCPU S (2 ^ k) = some r₀ ∧
      readRun numCPU r₀ outs = some (r, res) ∧ r.left % 128 = 0 ∧
      bytesBefore res = unpadBytes (S.take (2 ^ k - r.left)) ∧
      (2 ^ k / 128 ≤ outs.length → r.left = 0 ∧ bytesBefore res = unpadBytes (S.take (2 ^ k)) ∧
        (bytesBefore res).length = 2 ^ k / 128 * 127) := by
  have hsz : 2 ^ k < 2 ^ 64 := Nat.pow_lt_pow_right (by norm_num) hk
  have h128 : 128 ∣ 2 ^ k := (Nat.pow_dvd_pow 2 hk7 : 2 ^ 7 ∣ 2 ^ k)
  -- the reader as `NewUnpadReader` makes it
  let r₀ : UnpadReader := ⟨S, 2 ^ k, fun _ => 0, mtTresh * mtChunkCount numCPU (2 ^ k)⟩
  have hnew : newUnpadReader numCPU S (2 ^ k) = some r₀ := if_pos (validPadded_two_pow hk7 hk)
  have hinv₀ : ReadInv S (2 ^ k) r₀ := ⟨le_rfl, h128, by simp [r₀]⟩
  have hwork : ∀ o ∈ outs, 127 ≤ o.2 ∧ o.2 < 2 ^ 63 ∧ o.2 / 127 * 128 ≤ r₀.workLen := by
    intro o ho
    obtain ⟨h127, hsmall⟩ := houts o ho
    have hcount : mtTresh * 1 ≤ mtTresh * mtChunkCount numCPU (2 ^ k) :=
      Nat.mul_le_mul_left _ (one_le_mtChunkCount numCPU (2 ^ k))
    rw [mtTresh_eq] at hcount
    exact ⟨h127, by omega, by dsimp only [r₀]; rw [mtTresh_eq]; omega⟩
  obtain ⟨r, res, hrun, ⟨-, hr128, -⟩, hbytes, hcount⟩ :=
    readRun_readInv numCPU hS hsz h128 outs r₀ hinv₀ hwork
  -- nothing was given before the first `Read`
  have hstart : unpadBytes (S.take (2 ^ k - r₀.left)) = [] := by simp [r₀, unpadBytes]
  rw [hstart, List.nil_append] at hbytes
  refine ⟨r₀, r, res, hnew, hrun, Nat.mod_eq_zero_of_dvd hr128, hbytes, fun hn => ?_⟩
  -- each `Read` took a chunk, so `sz / 128` of them read the piece
  have h0 : r.left = 0 := by
    obtain ⟨m, hm⟩ := h128
    rcases hcount with h | h
    · exact h
    · dsimp only [r₀] at h
      rw [hm] at h hn
      omega
  rw [h0, Nat.sub_zero] at hbytes
  refine ⟨h0, hbytes, ?_⟩
  rw [hbytes, length_unpadBytes, List.length_take, min_eq_left hS]

/-- A piece of 256 bytes read one chunk at a time. -/
theorem unpadReader_reads_piece_twoReads :
    ∃ r₀ r res, newUnpadReader 1 (List.replicate 256 7) (2 ^ 8) = some r₀ ∧
      readRun 1 r₀ [(fun _ => 0, 127), (fun _ => 0, 127)] = some (r, res) ∧ r.left % 128 = 0 ∧
      bytesBefore res = unpadBytes ((List.replicate 256 7).take (2 ^ 8 - r.left)) ∧
      (2 ^ 8 / 128 ≤ 2 → r.left = 0 ∧
        bytesBefore res = unpadBytes ((List.replicate 256 7).take (2 ^ 8)) ∧
        (bytesBefore res).length = 2 ^ 8 / 128 * 127) :=
  unpadReader_reads_piece 1 (k := 8) (by norm_num) (by norm_num) _
    (by rw [List.length_replicate]; norm_num) _ (by decide)

/-- **`Read` can slice the work buffer past its end.**  `NewUnpadReader` sizes `r.work` as
`MTTresh · mtChunkCount(sz)`, which for a large piece and few CPUs is less than the piece; an `out`
whose whole chunks pad to the piece or more makes the first `Read` take the whole piece, and
`r.work[:todo]` panics. -/
theorem read_slices_past_work (numCPU : ℕ) {k : ℕ} (hk7 : 7 ≤ k) (hk : k < 64) (src : List Byte)
    (out : Bytes) {outLen : ℕ} (hwork : mtTresh * mtChunkCount numCPU (2 ^ k) < 2 ^ k)
    (hout : 2 ^ k ≤ outLen / 127 * 128) (hlt : outLen < 2 ^ 63) :
    ∃ r, newUnpadReader numCPU src (2 ^ k) = some r ∧ read numCPU r out outLen = none := by
  have hsz : 2 ^ k < 2 ^ 64 := Nat.pow_lt_pow_right (by norm_num) hk
  have hk0 : 2 ^ k ≠ 0 := (Nat.two_pow_pos k).ne'
  have hc0 : outLen / 127 * 128 ≠ 0 := by omega
  have hkL : k ≤ Nat.log2 (outLen / 127 * 128) := (Nat.le_log2 hc0).2 hout
  have hL64 : Nat.log2 (outLen / 127 * 128) < 64 := (Nat.log2_lt hc0).2 (by omega)
  have hx : uint64 ((outLen / 127 : ℕ) * 128) = outLen / 127 * 128 := by
    unfold uint64
    omega
  -- the first `Read` takes the whole piece
  have htodo : (if 2 ^ k < 2 ^ Nat.log2 (outLen / 127 * 128) then 1 <<< (63 - leadingZeros64 (2 ^ k))
      else 2 ^ Nat.log2 (outLen / 127 * 128)) = 2 ^ k := by
    split_ifs with h
    · rw [one_shiftLeft_leadingZeros64 hk0 hsz, Nat.log2_two_pow]
    · exact le_antisymm (not_lt.1 h) (Nat.pow_le_pow_right (by norm_num) hkL)
  refine ⟨⟨src, 2 ^ k, fun _ => 0, mtTresh * mtChunkCount numCPU (2 ^ k)⟩,
    if_pos (validPadded_two_pow hk7 hk), ?_⟩
  unfold read
  dsimp only
  rw [if_neg hk0, hx, if_neg hc0, one_shiftLeft_leadingZeros64 hc0 (by omega),
    if_neg (not_not_intro (validPadded_two_pow (by omega) hL64)), htodo, if_pos hwork]

/-- With one CPU, a piece of `2 ^ 27` bytes gets a work buffer of `2 ^ 26`, and a first `Read` into
`127 · 2 ^ 20` bytes panics. -/
theorem read_slices_past_work_oneCPU :
    ∃ r, newUnpadReader 1 [] (2 ^ 27) = some r ∧ read 1 r (fun _ => 0) (127 * 2 ^ 20) = none :=
  read_slices_past_work 1 (by norm_num) (by norm_num) [] (fun _ => 0) (by decide) (by norm_num)
    (by norm_num)

end Fr32

end Lotus
