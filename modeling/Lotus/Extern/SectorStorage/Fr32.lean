import Mathlib
import Lotus.Lib.Run
import Lotus.Lib.BitShift

/-!
# Fr32 padding (`extern/sector-storage/fr32/fr32.go`)

`pad` spreads every 127-byte chunk of its input over 128 bytes: the chunk's 1016 bits are cut
into four runs of 254 bits and each run is stored in a 32-byte word whose top two bits are zero,
so that the word is a field element of BLS12-381.  The code does this byte by byte, with a carry
`t` of 2, 4 and 6 bits through its three inner loops and a mask at the end of each word;
`unpad` walks the padded bytes with the next byte in hand and drops the two zero bits at each word
boundary with an XOR fix-up.

Go slices are modelled as functions `ℕ → Byte` with their length beside them, and Go's writes as
`Function.update`.  Each loop's result is computed once (`padLoop_spec`, `unpadLoop_spec`), which
gives every byte of a padded chunk in closed form (`padChunk_apply`, via `padByte`), and likewise
for `unpad` (`unpadByte`).  The round trips then hold byte by byte: inside a word they are the
shift identities of `BitShift`, and at the word boundaries they use that the two top bits of
each padded word are zero.
-/

namespace Lotus

namespace Fr32

/-- Go's `byte`. -/
abbrev Byte := BitVec 8

/-- A `[]byte`, read and written by index; its length is passed beside it. -/
abbrev Bytes := ℕ → Byte

/-- `copy(dst[dstOff:dstOff+n], src[srcOff:srcOff+n])`. -/
def copyBytes (dst : Bytes) (dstOff : ℕ) (src : Bytes) (srcOff n : ℕ) : Bytes :=
  fun j => if dstOff ≤ j ∧ j < dstOff + n then src (srcOff + (j - dstOff)) else dst j

/-! ## `pad` -/

/-- The three carry loops of `pad`, for `s = 2, 4, 6`:
`v = in[inOff+i]; out[outOff+i] = (v << s) | t; t = v >> (8 - s)`, over the state
`(out, t, v)`. -/
def padLoop (s : ℕ) (input : Bytes) (inOff outOff a b : ℕ) :
    Bytes × Byte × Byte → Bytes × Byte × Byte :=
  Run.forLoop a b fun i st =>
    let v := input (inOff + i)
    (Function.update st.1 (outOff + i) ((v <<< s) ||| st.2.1), v >>> (8 - s), v)

/-- One iteration of `pad`'s outer loop: chunk `chunk` of `in` into chunk `chunk` of `out`. -/
def padChunk (input out : Bytes) (chunk : ℕ) : Bytes :=
  let inOff := chunk * 127
  let outOff := chunk * 128
  let out := copyBytes out outOff input inOff 31
  let t := input (inOff + 31) >>> 6
  let out := Function.update out (outOff + 31) (input (inOff + 31) &&& 0x3f)
  let v : Byte := 0
  let (out, _, v) := padLoop 2 input inOff outOff 32 64 (out, t, v)
  let t := v >>> 4
  let out := Function.update out (outOff + 63) (out (outOff + 63) &&& 0x3f)
  let (out, _, v) := padLoop 4 input inOff outOff 64 96 (out, t, v)
  let t := v >>> 2
  let out := Function.update out (outOff + 95) (out (outOff + 95) &&& 0x3f)
  let (out, t, _) := padLoop 6 input inOff outOff 96 127 (out, t, v)
  Function.update out (outOff + 127) (t &&& 0x3f)

/-- `pad(in, out)`, with `len(out) = outLen`. -/
def pad (input out : Bytes) (outLen : ℕ) : Bytes :=
  Run.forLoop 0 (outLen / 128) (fun chunk out => padChunk input out chunk) out

/-! ## `unpad` -/

/-- The first loop of `unpad`: `next := in[i+inOffNext]; out[outOff+i] = at; at = next`, over the
state `(out, at)`. -/
def unpadCopyLoop (input : Bytes) (inOffNext outOff : ℕ) : Bytes × Byte → Bytes × Byte :=
  Run.forLoop 0 32 fun i st =>
    let next := input (i + inOffNext)
    (Function.update st.1 (outOff + i) st.2, next)

/-- The other three loops of `unpad`, for `r = 2, 4, 6`:
`out[outOff+i] = at >> r; out[outOff+i] |= next << (8 - r); at = next`. -/
def unpadLoop (r : ℕ) (input : Bytes) (inOffNext outOff a b : ℕ) :
    Bytes × Byte → Bytes × Byte :=
  Run.forLoop a b fun i st =>
    let next := input (i + inOffNext)
    (Function.update st.1 (outOff + i) ((st.2 >>> r) ||| (next <<< (8 - r))), next)

/-- One iteration of `unpad`'s outer loop; `atByte` is the source's `at`, a keyword here. -/
def unpadChunk (input out : Bytes) (chunk : ℕ) : Bytes :=
  let inOffNext := chunk * 128 + 1
  let outOff := chunk * 127
  let atByte := input (chunk * 128)
  let (out, atByte) := unpadCopyLoop input inOffNext outOff (out, atByte)
  let out := Function.update out (outOff + 31) (out (outOff + 31) ||| (atByte <<< 6))
  let (out, atByte) := unpadLoop 2 input inOffNext outOff 32 64 (out, atByte)
  let out := Function.update out (outOff + 63)
    (out (outOff + 63) ^^^ ((atByte <<< 6) ^^^ (atByte <<< 4)))
  let (out, atByte) := unpadLoop 4 input inOffNext outOff 64 96 (out, atByte)
  let out := Function.update out (outOff + 95)
    (out (outOff + 95) ^^^ ((atByte <<< 4) ^^^ (atByte <<< 2)))
  (unpadLoop 6 input inOffNext outOff 96 127 (out, atByte)).1

/-- `unpad(out, in)`, with `len(in) = inLen`. -/
def unpad (out input : Bytes) (inLen : ℕ) : Bytes :=
  Run.forLoop 0 (inLen / 128) (fun chunk out => unpadChunk input out chunk) out

/-! ## The loops in closed form -/

section Loops

variable (input : Bytes)

/-- **`pad`'s carry loop**, entered with the carry of the byte before `a`: at every index of
`[a, b)` it writes the byte shifted up by `s` over the top bits of the byte before, and it leaves
the carry and `v` of the last byte. -/
lemma padLoop_spec (s inOff outOff : ℕ) {a b : ℕ} (hab : a < b) (out : Bytes)
    {t : Byte} (ht : t = input (inOff + (a - 1)) >>> (8 - s)) (v : Byte) :
    padLoop s input inOff outOff a b (out, t, v) =
      (Run.window (outOff + a) (outOff + b)
          (fun j => (input (inOff + (j - outOff)) <<< s) |||
            (input (inOff + (j - outOff - 1)) >>> (8 - s))) out,
        input (inOff + (b - 1)) >>> (8 - s), input (inOff + (b - 1))) := by
  set f : Bytes := fun j => (input (inOff + (j - outOff)) <<< s) |||
    (input (inOff + (j - outOff - 1)) >>> (8 - s))
  -- the invariant after index `i`: the window `[a, i)` is written, and the carry and `v` are
  -- those of byte `i - 1`
  let P : ℕ → Bytes × Byte × Byte → Prop := fun i st =>
    st.1 = Run.window (outOff + a) (outOff + i) f out ∧
      st.2.1 = input (inOff + (i - 1)) >>> (8 - s) ∧ (a < i → st.2.2 = input (inOff + (i - 1)))
  have key : P b (padLoop s input inOff outOff a b (out, t, v)) :=
    Run.forLoop_invariant hab.le ⟨by simp, ht, fun h => absurd h (lt_irrefl a)⟩
      fun i st _ _ hst => by
        obtain ⟨h1, h2, -⟩ := hst
        have hf : f (outOff + i) = (input (inOff + i) <<< s) ||| st.2.1 := by
          simp [f, h2]
        refine ⟨?_, by simp, fun _ => by simp⟩
        dsimp only
        rw [h1, ← hf]
        exact Run.update_window (by omega) f out
  obtain ⟨h1, h2, h3⟩ := key
  exact Prod.ext h1 (Prod.ext h2 (h3 hab))

/-- **`unpad`'s shift loops**, entered with the byte before `a + 1` in hand: at every index of
`[a, b)` they write the byte shifted down by `r` under the low bits of the byte after. -/
lemma unpadLoop_spec (r base outOff : ℕ) {a b : ℕ} (hab : a ≤ b) (out : Bytes) {atByte : Byte}
    (hat : atByte = input (base + a)) :
    unpadLoop r input (base + 1) outOff a b (out, atByte) =
      (Run.window (outOff + a) (outOff + b)
          (fun j => (input (base + (j - outOff)) >>> r) |||
            (input (base + (j - outOff) + 1) <<< (8 - r))) out,
        input (base + b)) := by
  set f : Bytes := fun j => (input (base + (j - outOff)) >>> r) |||
    (input (base + (j - outOff) + 1) <<< (8 - r))
  -- the invariant after index `i`: the window `[a, i)` is written and `at` is byte `i`
  let P : ℕ → Bytes × Byte → Prop := fun i st =>
    st.1 = Run.window (outOff + a) (outOff + i) f out ∧ st.2 = input (base + i)
  have key : P b (unpadLoop r input (base + 1) outOff a b (out, atByte)) :=
    Run.forLoop_invariant hab ⟨by simp, hat⟩ fun i st _ _ hst => by
      obtain ⟨h1, h2⟩ := hst
      have hnext : input (i + (base + 1)) = input (base + (i + 1)) := by
        congr 1
        omega
      have hf : f (outOff + i) = (st.2 >>> r) ||| (input (i + (base + 1)) <<< (8 - r)) := by
        simp only [f, h2, hnext, Nat.add_sub_cancel_left, Nat.add_assoc]
      refine ⟨?_, hnext⟩
      dsimp only
      rw [h1, ← hf]
      exact Run.update_window (by omega) f out
  exact Prod.ext key.1 key.2

/-- `unpad`'s first loop copies the chunk's first 32 bytes and leaves byte 32 in hand. -/
lemma unpadCopyLoop_spec (base outOff : ℕ) (out : Bytes) :
    unpadCopyLoop input (base + 1) outOff (out, input base) =
      (Run.window outOff (outOff + 32) (fun j => input (base + (j - outOff))) out,
        input (base + 32)) := by
  let P : ℕ → Bytes × Byte → Prop := fun i st =>
    st.1 = Run.window outOff (outOff + i) (fun j => input (base + (j - outOff))) out ∧
      st.2 = input (base + i)
  have key : P 32 (unpadCopyLoop input (base + 1) outOff (out, input base)) :=
    Run.forLoop_invariant (Nat.zero_le 32) ⟨by simp, rfl⟩ fun i st _ _ hst => by
      obtain ⟨h1, h2⟩ := hst
      have hnext : input (i + (base + 1)) = input (base + (i + 1)) := by
        congr 1
        omega
      have hi : st.2 = input (base + (outOff + i - outOff)) := by simp [h2]
      refine ⟨?_, hnext⟩
      dsimp only
      rw [h1, hi]
      exact Run.update_window (by omega) (fun j => input (base + (j - outOff))) out
  exact Prod.ext key.1 key.2

end Loops

/-! ## Chunks byte by byte -/

/-- Byte `k < 128` of a padded chunk whose bytes before padding are `x 0, ..., x 126`. -/
def padByte (x : Bytes) (k : ℕ) : Byte :=
  if k < 31 then x k
  else if k = 31 then x 31 &&& 0x3f
  else if k < 63 then (x k <<< 2) ||| (x (k - 1) >>> 6)
  else if k = 63 then ((x 63 <<< 2) ||| (x 62 >>> 6)) &&& 0x3f
  else if k < 95 then (x k <<< 4) ||| (x (k - 1) >>> 4)
  else if k = 95 then ((x 95 <<< 4) ||| (x 94 >>> 4)) &&& 0x3f
  else if k < 127 then (x k <<< 6) ||| (x (k - 1) >>> 2)
  else (x 126 >>> 2) &&& 0x3f

/-- **A padded chunk in closed form**: `padChunk` writes `padByte` of the chunk's input over the
chunk's 128 bytes of `out`, and nothing else. -/
lemma padChunk_eq (input out : Bytes) (chunk : ℕ) :
    padChunk input out chunk =
      Run.window (chunk * 128) (chunk * 128 + 128)
        (fun j => padByte (fun i => input (chunk * 127 + i)) (j - chunk * 128)) out := by
  funext j
  simp only [padChunk]
  rw [padLoop_spec input 2 _ _ (by omega) _ (by simp)]
  dsimp only
  rw [padLoop_spec input 4 _ _ (by omega) _ (by simp)]
  dsimp only
  rw [padLoop_spec input 6 _ _ (by omega) _ (by simp)]
  dsimp only
  simp only [Function.update_apply, Run.window, copyBytes]
  by_cases hin : chunk * 128 ≤ j ∧ j < chunk * 128 + 128
  swap
  · simp (disch := omega) only [if_pos, if_neg]
  obtain ⟨k, rfl⟩ : ∃ k, j = chunk * 128 + k := ⟨j - chunk * 128, by omega⟩
  simp only [padByte, Nat.add_sub_cancel_left, Nat.reduceSub]
  -- one case per branch of `padByte`: the position decides every test
  rcases (show k < 31 ∨ k = 31 ∨ (31 < k ∧ k < 63) ∨ k = 63 ∨ (63 < k ∧ k < 95) ∨ k = 95 ∨
      (95 < k ∧ k < 127) ∨ k = 127 by omega) with h | h | h | h | h | h | h | h
  all_goals simp (disch := omega) only [if_pos, if_neg]

/-- Byte `k < 127` of an unpadded chunk whose padded bytes are `y 0, ..., y 127`. -/
def unpadByte (y : Bytes) (k : ℕ) : Byte :=
  if k < 31 then y k
  else if k = 31 then y 31 ||| (y 32 <<< 6)
  else if k < 63 then (y k >>> 2) ||| (y (k + 1) <<< 6)
  else if k = 63 then ((y 63 >>> 2) ||| (y 64 <<< 6)) ^^^ ((y 64 <<< 6) ^^^ (y 64 <<< 4))
  else if k < 95 then (y k >>> 4) ||| (y (k + 1) <<< 4)
  else if k = 95 then ((y 95 >>> 4) ||| (y 96 <<< 4)) ^^^ ((y 96 <<< 4) ^^^ (y 96 <<< 2))
  else (y k >>> 6) ||| (y (k + 1) <<< 2)

/-- **An unpadded chunk in closed form**: `unpadChunk` writes `unpadByte` of the chunk's padded
bytes over the chunk's 127 bytes of `out`, and nothing else. -/
lemma unpadChunk_eq (input out : Bytes) (chunk : ℕ) :
    unpadChunk input out chunk =
      Run.window (chunk * 127) (chunk * 127 + 127)
        (fun j => unpadByte (fun i => input (chunk * 128 + i)) (j - chunk * 127)) out := by
  funext j
  simp only [unpadChunk]
  rw [unpadCopyLoop_spec input]
  dsimp only
  rw [unpadLoop_spec input 2 _ _ (by omega) _ rfl]
  dsimp only
  rw [unpadLoop_spec input 4 _ _ (by omega) _ rfl]
  dsimp only
  rw [unpadLoop_spec input 6 _ _ (by omega) _ rfl]
  simp only [Function.update_apply, Run.window]
  by_cases hin : chunk * 127 ≤ j ∧ j < chunk * 127 + 127
  swap
  · simp (disch := omega) only [if_pos, if_neg]
  obtain ⟨k, rfl⟩ : ∃ k, j = chunk * 127 + k := ⟨j - chunk * 127, by omega⟩
  simp only [unpadByte, Nat.add_sub_cancel_left, Nat.add_assoc]
  -- one case per branch of `unpadByte`
  rcases (show k < 31 ∨ k = 31 ∨ (31 < k ∧ k < 63) ∨ k = 63 ∨ (63 < k ∧ k < 95) ∨ k = 95 ∨
      95 < k by omega) with h | h | h | h | h | h | h
  all_goals simp (disch := omega) only [if_pos, if_neg]

/-! ## The word boundaries

Inside a 32-byte word a round trip is one of the `BitShift` identities.  At the boundaries the
code masks the top two bits, and `unpad` repairs the byte across the two dropped bits with an XOR;
each of these bytes is checked bit by bit.  Going from padded bytes and back needs the dropped
bits to be zero (`TopClear`). -/

/-- The two top bits of a byte are zero: `b & 0xC0 == 0`. -/
def TopClear (b : Byte) : Prop :=
  b &&& 0xC0 = 0

lemma TopClear.getLsbD {b : Byte} (h : TopClear b) : b.getLsbD 6 = false ∧ b.getLsbD 7 = false := by
  have h6 := congrArg (fun z : Byte => z.getLsbD 6) h
  have h7 := congrArg (fun z : Byte => z.getLsbD 7) h
  simp at h6 h7
  exact ⟨h6, h7⟩

lemma topClear_and (b : Byte) : TopClear (b &&& 0x3f) := by
  unfold TopClear
  rw [BitVec.and_assoc]
  simp

section Boundary

variable (a b c : Byte)

/-! `unpad` after `pad`, at the last byte of each word and the byte before the mask. -/

lemma unpadPad_31 : (a &&& 0x3f) ||| (((b <<< 2) ||| (a >>> 6)) <<< 6) = a := by
  ext i hi
  simp
  interval_cases i <;> simp

lemma unpadPad_62 :
    (((a <<< 2) ||| (b >>> 6)) >>> 2) ||| ((((c <<< 2) ||| (a >>> 6)) &&& 0x3f) <<< 6) = a := by
  ext i hi
  simp
  interval_cases i <;> simp

lemma unpadPad_63 :
    (((((a <<< 2) ||| (b >>> 6)) &&& 0x3f) >>> 2) ||| (((c <<< 4) ||| (a >>> 4)) <<< 6)) ^^^
      ((((c <<< 4) ||| (a >>> 4)) <<< 6) ^^^ (((c <<< 4) ||| (a >>> 4)) <<< 4)) = a := by
  ext i hi
  simp
  interval_cases i <;> simp

lemma unpadPad_94 :
    (((a <<< 4) ||| (b >>> 4)) >>> 4) ||| ((((c <<< 4) ||| (a >>> 4)) &&& 0x3f) <<< 4) = a := by
  ext i hi
  simp
  interval_cases i <;> simp

lemma unpadPad_95 :
    (((((a <<< 4) ||| (b >>> 4)) &&& 0x3f) >>> 4) ||| (((c <<< 6) ||| (a >>> 2)) <<< 4)) ^^^
      ((((c <<< 6) ||| (a >>> 2)) <<< 4) ^^^ (((c <<< 6) ||| (a >>> 2)) <<< 2)) = a := by
  ext i hi
  simp
  interval_cases i <;> simp

lemma unpadPad_126 : (((a <<< 6) ||| (b >>> 2)) >>> 6) ||| (((a >>> 2) &&& 0x3f) <<< 2) = a := by
  ext i hi
  simp
  interval_cases i <;> simp

/-! `pad` after `unpad`: the byte whose top bits were dropped must have had them zero. -/

lemma padUnpad_31 (h : TopClear a) : (a ||| (b <<< 6)) &&& 0x3f = a := by
  obtain ⟨h6, h7⟩ := h.getLsbD
  ext i hi
  simp
  interval_cases i <;> simp_all

lemma padUnpad_32 (h : TopClear b) :
    (((a >>> 2) ||| (c <<< 6)) <<< 2) ||| ((b ||| (a <<< 6)) >>> 6) = a := by
  obtain ⟨h6, h7⟩ := h.getLsbD
  ext i hi
  simp
  interval_cases i <;> simp_all

lemma padUnpad_63 (h : TopClear a) :
    (((((a >>> 2) ||| (c <<< 6)) ^^^ ((c <<< 6) ^^^ (c <<< 4))) <<< 2) |||
      (((b >>> 2) ||| (a <<< 6)) >>> 6)) &&& 0x3f = a := by
  obtain ⟨h6, h7⟩ := h.getLsbD
  ext i hi
  simp
  interval_cases i <;> simp_all

lemma padUnpad_64 (h : TopClear b) :
    (((a >>> 4) ||| (c <<< 4)) <<< 4) |||
      ((((b >>> 2) ||| (a <<< 6)) ^^^ ((a <<< 6) ^^^ (a <<< 4))) >>> 4) = a := by
  obtain ⟨h6, h7⟩ := h.getLsbD
  ext i hi
  simp
  interval_cases i <;> simp_all

lemma padUnpad_95 (h : TopClear a) :
    (((((a >>> 4) ||| (c <<< 4)) ^^^ ((c <<< 4) ^^^ (c <<< 2))) <<< 4) |||
      (((b >>> 4) ||| (a <<< 4)) >>> 4)) &&& 0x3f = a := by
  obtain ⟨h6, h7⟩ := h.getLsbD
  ext i hi
  simp
  interval_cases i <;> simp_all

lemma padUnpad_96 (h : TopClear b) :
    (((a >>> 6) ||| (c <<< 2)) <<< 6) |||
      ((((b >>> 4) ||| (a <<< 4)) ^^^ ((a <<< 4) ^^^ (a <<< 2))) >>> 2) = a := by
  obtain ⟨h6, h7⟩ := h.getLsbD
  ext i hi
  simp
  interval_cases i <;> simp_all

lemma padUnpad_127 (h : TopClear a) : (((b >>> 6) ||| (a <<< 2)) >>> 2) &&& 0x3f = a := by
  obtain ⟨h6, h7⟩ := h.getLsbD
  ext i hi
  simp
  interval_cases i <;> simp_all

end Boundary

/-! ## Round trips on one chunk -/

/-- **`unpad` undoes `pad` on a chunk**: every one of the 127 bytes comes back. -/
theorem unpadByte_padByte (x : Bytes) {k : ℕ} (hk : k < 127) : unpadByte (padByte x) k = x k := by
  -- the inner bytes of each word, and the bytes at and before each mask
  rcases (show k < 31 ∨ k = 31 ∨ (31 < k ∧ k < 62) ∨ k = 62 ∨ k = 63 ∨ (63 < k ∧ k < 94) ∨
      k = 94 ∨ k = 95 ∨ (95 < k ∧ k < 126) ∨ k = 126 by omega)
    with h | rfl | h | rfl | rfl | h | rfl | rfl | h | rfl
  all_goals simp (disch := omega) only [unpadByte, padByte, if_pos, if_neg, Nat.add_sub_cancel,
    Nat.reduceSub, Nat.reduceAdd]
  · exact unpadPad_31 _ _
  · simpa using BitShift.shiftLeft_join (x k) (x (k - 1)) (x (k + 1)) (s := 2) (by omega)
  · exact unpadPad_62 _ _ _
  · exact unpadPad_63 _ _ _
  · simpa using BitShift.shiftLeft_join (x k) (x (k - 1)) (x (k + 1)) (s := 4) (by omega)
  · exact unpadPad_94 _ _ _
  · exact unpadPad_95 _ _ _
  · simpa using BitShift.shiftLeft_join (x k) (x (k - 1)) (x (k + 1)) (s := 6) (by omega)
  · exact unpadPad_126 _ _

/-- **`pad` undoes `unpad` on a chunk** whose four words have their top two bits clear. -/
theorem padByte_unpadByte (y : Bytes) (h31 : TopClear (y 31)) (h63 : TopClear (y 63))
    (h95 : TopClear (y 95)) (h127 : TopClear (y 127)) {k : ℕ} (hk : k < 128) :
    padByte (unpadByte y) k = y k := by
  rcases (show k < 31 ∨ k = 31 ∨ k = 32 ∨ (32 < k ∧ k < 63) ∨ k = 63 ∨ k = 64 ∨
      (64 < k ∧ k < 95) ∨ k = 95 ∨ k = 96 ∨ (96 < k ∧ k < 127) ∨ k = 127 by omega)
    with h | rfl | rfl | h | rfl | rfl | h | rfl | rfl | h | rfl
  all_goals simp (disch := omega) only [unpadByte, padByte, if_pos, if_neg, Nat.sub_add_cancel,
    Nat.reduceSub, Nat.reduceAdd]
  · exact padUnpad_31 _ _ h31
  · exact padUnpad_32 _ _ _ h31
  · simpa using BitShift.shiftRight_join (y k) (y (k + 1)) (y (k - 1)) (s := 2) (by omega)
  · exact padUnpad_63 _ _ _ h63
  · exact padUnpad_64 _ _ _ h63
  · simpa using BitShift.shiftRight_join (y k) (y (k + 1)) (y (k - 1)) (s := 4) (by omega)
  · exact padUnpad_95 _ _ _ h95
  · exact padUnpad_96 _ _ _ h95
  · simpa using BitShift.shiftRight_join (y k) (y (k + 1)) (y (k - 1)) (s := 6) (by omega)
  · exact padUnpad_127 _ _ h127

/-! ## Whole buffers -/

/-- `padByte` reads only the chunk's 127 input bytes. -/
lemma padByte_congr {x x' : Bytes} (h : ∀ i < 127, x i = x' i) {k : ℕ} (hk : k < 128) :
    padByte x k = padByte x' k := by
  unfold padByte
  split_ifs <;> simp (disch := omega) only [h]

/-- `unpadByte` reads only the chunk's 128 padded bytes. -/
lemma unpadByte_congr {y y' : Bytes} (h : ∀ i < 128, y i = y' i) {k : ℕ} (hk : k < 127) :
    unpadByte y k = unpadByte y' k := by
  unfold unpadByte
  split_ifs <;> simp (disch := omega) only [h]

/-- **`pad` in closed form**: its first `128 n` bytes are the padded chunks, byte `j` being byte
`j % 128` of chunk `j / 128`. -/
lemma pad_eq (input out : Bytes) (n : ℕ) :
    pad input out (128 * n) =
      Run.window 0 (n * 128)
        (fun j => padByte (fun i => input (j / 128 * 127 + i)) (j % 128)) out := by
  have hn : 128 * n / 128 = n := by omega
  unfold pad
  rw [hn]
  -- after `c` chunks the first `c` chunks of `out` are written
  exact Run.forLoop_invariant (P := fun c buf => buf = Run.window 0 (c * 128)
      (fun j => padByte (fun i => input (j / 128 * 127 + i)) (j % 128)) out)
    (Nat.zero_le n) (by simp) fun c buf _ _ hbuf => by
      rw [padChunk_eq, hbuf, Nat.succ_mul]
      refine Run.window_window (by omega) (by omega) (fun j h1 h2 => ?_) out
      have hdiv : j / 128 = c := by omega
      have hmod : j % 128 = j - c * 128 := by omega
      rw [hdiv, hmod]

/-- **`unpad` in closed form**: its first `127 n` bytes are the unpadded chunks. -/
lemma unpad_eq (out input : Bytes) (n : ℕ) :
    unpad out input (128 * n) =
      Run.window 0 (n * 127)
        (fun j => unpadByte (fun i => input (j / 127 * 128 + i)) (j % 127)) out := by
  have hn : 128 * n / 128 = n := by omega
  unfold unpad
  rw [hn]
  exact Run.forLoop_invariant (P := fun c buf => buf = Run.window 0 (c * 127)
      (fun j => unpadByte (fun i => input (j / 127 * 128 + i)) (j % 127)) out)
    (Nat.zero_le n) (by simp) fun c buf _ _ hbuf => by
      rw [unpadChunk_eq, hbuf, Nat.succ_mul]
      refine Run.window_window (by omega) (by omega) (fun j h1 h2 => ?_) out
      have hdiv : j / 127 = c := by omega
      have hmod : j % 127 = j - c * 127 := by omega
      rw [hdiv, hmod]

/-- `pad` byte by byte, for any length of `out`: the whole chunks are padded, the rest kept. -/
lemma pad_apply (input out : Bytes) (n j : ℕ) :
    pad input out n j = if j < n / 128 * 128 then
      padByte (fun i => input (j / 128 * 127 + i)) (j % 128) else out j := by
  have hn : pad input out n = pad input out (128 * (n / 128)) := by
    unfold pad
    rw [show 128 * (n / 128) / 128 = n / 128 by omega]
  rw [hn, pad_eq]
  simp only [Run.window, Nat.zero_le, true_and]

/-- `unpad` byte by byte, for any length of `in`. -/
lemma unpad_apply (out input : Bytes) (n j : ℕ) :
    unpad out input n j = if j < n / 128 * 127 then
      unpadByte (fun i => input (j / 127 * 128 + i)) (j % 127) else out j := by
  have hn : unpad out input n = unpad out input (128 * (n / 128)) := by
    unfold unpad
    rw [show 128 * (n / 128) / 128 = n / 128 by omega]
  rw [hn, unpad_eq]
  simp only [Run.window, Nat.zero_le, true_and]

/-- **Fr32 padding is a bijection with `unpad` as its inverse.**  For every number `n` of chunks:
`pad` leaves the top two bits of every 32-byte word clear; `unpad` gives back the `127 n` input
bytes of a padded buffer; and `pad` gives back every `128 n`-byte buffer whose words have their top
two bits clear from its `unpad`. -/
theorem pad_unpad_inverse (n : ℕ) :
    (∀ input out : Bytes, ∀ w < 4 * n, TopClear (pad input out (128 * n) (32 * w + 31))) ∧
    (∀ input out out' : Bytes, ∀ i < 127 * n,
      unpad out' (pad input out (128 * n)) (128 * n) i = input i) ∧
    (∀ x : Bytes, (∀ w < 4 * n, TopClear (x (32 * w + 31))) →
      ∀ out out' : Bytes, ∀ j < 128 * n, pad (unpad out x (128 * n)) out' (128 * n) j = x j) := by
  refine ⟨fun input out w hw => ?_, fun input out out' i hi => ?_, fun x hx out out' j hj => ?_⟩
  · -- the last byte of each word is masked with `0x3f`
    rw [pad_eq]
    simp only [Run.window, if_pos (show 0 ≤ 32 * w + 31 ∧ 32 * w + 31 < n * 128 by omega)]
    rcases (show (32 * w + 31) % 128 = 31 ∨ (32 * w + 31) % 128 = 63 ∨
        (32 * w + 31) % 128 = 95 ∨ (32 * w + 31) % 128 = 127 by omega) with h | h | h | h
    all_goals
      rw [h]
      simp (disch := omega) only [padByte, if_pos, if_neg]
      exact topClear_and _
  · -- chunk `i / 127`, read back from the padded chunk at the same place
    rw [unpad_eq]
    simp only [Run.window, if_pos (show 0 ≤ i ∧ i < n * 127 by omega)]
    have hchunk : ∀ m < 128, pad input out (128 * n) (i / 127 * 128 + m) =
        padByte (fun t => input (i / 127 * 127 + t)) m := fun m hm => by
      rw [pad_eq]
      simp only [Run.window, if_pos (show 0 ≤ i / 127 * 128 + m ∧ i / 127 * 128 + m < n * 128 by
        omega)]
      have hdiv : (i / 127 * 128 + m) / 128 = i / 127 := by omega
      have hmod : (i / 127 * 128 + m) % 128 = m := by omega
      rw [hdiv, hmod]
    rw [unpadByte_congr hchunk (Nat.mod_lt _ (by omega)),
      unpadByte_padByte _ (Nat.mod_lt _ (by omega)), Nat.div_add_mod']
  · rw [pad_eq]
    simp only [Run.window, if_pos (show 0 ≤ j ∧ j < n * 128 by omega)]
    have hchunk : ∀ m < 127, unpad out x (128 * n) (j / 128 * 127 + m) =
        unpadByte (fun t => x (j / 128 * 128 + t)) m := fun m hm => by
      rw [unpad_eq]
      simp only [Run.window, if_pos (show 0 ≤ j / 128 * 127 + m ∧ j / 128 * 127 + m < n * 127 by
        omega)]
      have hdiv : (j / 128 * 127 + m) / 127 = j / 128 := by omega
      have hmod : (j / 128 * 127 + m) % 127 = m := by omega
      rw [hdiv, hmod]
    -- the four words of chunk `j / 128` have their top bits clear
    have htop : ∀ r < 4, TopClear (x (j / 128 * 128 + (32 * r + 31))) := fun r hr => by
      have h := hx (4 * (j / 128) + r) (by omega)
      rwa [show 32 * (4 * (j / 128) + r) + 31 = j / 128 * 128 + (32 * r + 31) by omega] at h
    rw [padByte_congr hchunk (Nat.mod_lt _ (by omega)),
      padByte_unpadByte (fun t => x (j / 128 * 128 + t)) (htop 0 (by omega)) (htop 1 (by omega)) (htop 2 (by omega))
        (htop 3 (by omega)) (Nat.mod_lt _ (by omega)), Nat.div_add_mod']

end Fr32

end Lotus
