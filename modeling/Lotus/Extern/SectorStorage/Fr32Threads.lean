import Mathlib
import Lotus.Extern.SectorStorage.Fr32
import Lotus.Extern.SectorStorage.Ffiwrapper

/-!
# Padding on several threads (`Pad`, `Unpad` and `mt`)

Above `MTTresh` (32 MiB) of padded bytes, `Pad` and `Unpad` split the work over `mtChunkCount`
threads: thread `i` runs the sequential `pad` or `unpad` on the slices
`in[start.Unpadded():end.Unpadded()]` and `out[start:end]`, where `start = threadBytes * i` and
`threadBytes = padLen / threads`.  The threads write disjoint slices and read only what no
thread writes, so here they run one after another.

A thread's slice is a window of the sequential result when it starts on a chunk boundary, so
when the threads cover the buffer in whole chunks (`threads * threadBytes = padLen` and
`128 ∣ threadBytes`), `mt` computes `pad` and `unpad` (`mt_pad_eq`, `mt_unpad_eq`).  A power of
two of padded bytes, the size of a piece, is such a size (`Pad_eq_pad`, `Unpad_eq_unpad`).

Other sizes that `Pad` accepts (`len(out) % 128 == 0`) are not.  With one CPU and `2 ^ 26 + 128`
bytes, `mt` runs two threads of `2 ^ 25 + 64` bytes; each pads only the whole chunks of its own
slice, and the last 64 bytes of `out` are never written (`Pad_skips_last_bytes`).
-/

namespace Lotus

namespace Fr32

open GoInt

/-- `MTTresh`: `32 << 20` padded bytes. -/
def mtTresh : ℕ := 32 <<< 20

/-- `mtChunkCount(usz)`, with `runtime.NumCPU()` as `numCPU`. -/
def mtChunkCount (numCPU usz : ℕ) : ℕ :=
  let threads := usz / mtTresh
  let threads := if threads > numCPU then 1 <<< len32 (numCPU % 2 ^ 32) else threads
  if threads = 0 then 1 else if threads > 32 then 32 else threads

/-- The slice `b[lo:]` as the callee sees it: its index `j` is `b[lo + j]`. -/
def sliceFrom (b : Bytes) (lo : ℕ) : Bytes :=
  fun j => b (lo + j)

/-- What a callee wrote to the slice `b[lo:hi]`, seen in `b`. -/
def writeBack (b : Bytes) (lo hi : ℕ) (v : Bytes) : Bytes :=
  Run.window lo hi (fun k => v (k - lo)) b

/-- `mt(in, out, padLen, op)` on the unpadded buffer `in` and the padded buffer `out`.  `op` gets
the two slices with their lengths and returns them as it leaves them. -/
def mt (numCPU : ℕ) (op : Bytes → Bytes → ℕ → ℕ → Bytes × Bytes) (input out : Bytes)
    (padLen : ℕ) : Bytes × Bytes :=
  let threads := mtChunkCount numCPU padLen
  let threadBytes := padLen / threads
  Run.forLoop 0 threads (fun thread bufs =>
    let start := threadBytes * thread
    let endOff := start + threadBytes
    let r := op (sliceFrom bufs.1 (unpadded start)) (sliceFrom bufs.2 start)
      (unpadded endOff - unpadded start) threadBytes
    (writeBack bufs.1 (unpadded start) (unpadded endOff) r.1, writeBack bufs.2 start endOff r.2))
    (input, out)

/-- `pad` as `mt`'s `op`: it writes the padded slice. -/
def padOp (unpaddedBytes paddedBytes : Bytes) (_unpaddedLen paddedLen : ℕ) : Bytes × Bytes :=
  (unpaddedBytes, pad unpaddedBytes paddedBytes paddedLen)

/-- `unpad` as `mt`'s `op`: it writes the unpadded slice. -/
def unpadOp (unpaddedBytes paddedBytes : Bytes) (_unpaddedLen paddedLen : ℕ) : Bytes × Bytes :=
  (unpad unpaddedBytes paddedBytes paddedLen, paddedBytes)

/-- `Pad(in, out)`, with `len(out) = outLen`. -/
def Pad (numCPU : ℕ) (input out : Bytes) (outLen : ℕ) : Bytes :=
  if outLen > mtTresh then (mt numCPU padOp input out outLen).2 else pad input out outLen

/-- `Unpad(in, out)`, with `len(in) = inLen`: `mt(out, in, len(in), unpad)` above the threshold. -/
def Unpad (numCPU : ℕ) (input out : Bytes) (inLen : ℕ) : Bytes :=
  if inLen > mtTresh then (mt numCPU unpadOp out input inLen).1 else unpad out input inLen

/-! ## Slices -/

lemma writeBack_sliceFrom (b : Bytes) (lo hi : ℕ) : writeBack b lo hi (sliceFrom b lo) = b := by
  funext k
  simp only [writeBack, Run.window, sliceFrom]
  split_ifs with h
  · rw [Nat.add_sub_cancel' h.1]
  · rfl

lemma writeBack_apply (b : Bytes) (lo hi : ℕ) (v : Bytes) (k : ℕ) :
    writeBack b lo hi v k = if lo ≤ k ∧ k < hi then v (k - lo) else b k := rfl

/-- A chunk boundary of the padded buffer holds `127` unpadded bytes per chunk before it. -/
lemma unpadded_of_dvd {s : ℕ} (h : 128 ∣ s) : unpadded s = s / 128 * 127 := by
  obtain ⟨a, rfl⟩ := h
  unfold unpadded
  omega

/-! ## Threads on whole chunks -/

/-- The chunk layout of a thread that starts on a chunk boundary `s`: byte `j - s` of its slice is
byte `j % 128` of chunk `j / 128`, whose input starts at `unpadded s + (j - s) / 128 * 127`. -/
lemma chunk_of_aligned {s j : ℕ} (hs : 128 ∣ s) (hj : s ≤ j) :
    (j - s) % 128 = j % 128 ∧ ∀ i, unpadded s + ((j - s) / 128 * 127 + i) = j / 128 * 127 + i := by
  rw [unpadded_of_dvd hs]
  obtain ⟨a, rfl⟩ := hs
  exact ⟨by omega, fun i => by omega⟩

/-- The same layout seen from the unpadded side: byte `j - unpadded s` of the thread's unpadded
slice is byte `j % 127` of chunk `j / 127`, whose padded bytes start at `s + ...`. -/
lemma unpadChunk_of_aligned {s j : ℕ} (hs : 128 ∣ s) (hj : unpadded s ≤ j) :
    (j - unpadded s) % 127 = j % 127 ∧
      ∀ i, s + ((j - unpadded s) / 127 * 128 + i) = j / 127 * 128 + i := by
  rw [unpadded_of_dvd hs] at hj ⊢
  obtain ⟨a, rfl⟩ := hs
  exact ⟨by omega, fun i => by omega⟩

section Aligned

variable {numCPU L : ℕ}
  (hcover : mtChunkCount numCPU L * (L / mtChunkCount numCPU L) = L)
  (halign : 128 ∣ L / mtChunkCount numCPU L)
include hcover halign

/-- **`mt` pads like `pad`** when the threads cover the buffer in whole chunks: after `c` threads
the first `c` slices hold the padded chunks, each thread's chunks being the buffer's. -/
theorem mt_pad_eq (input out : Bytes) : (mt numCPU padOp input out L).2 = pad input out L := by
  unfold mt
  dsimp only
  generalize mtChunkCount numCPU L = T at hcover halign ⊢
  generalize L / T = tb at hcover halign ⊢
  set g : Bytes := fun j => padByte (fun i => input (j / 128 * 127 + i)) (j % 128)
  have htb : tb / 128 * 128 = tb := Nat.div_mul_cancel halign
  have hpad : pad input out L = Run.window 0 (tb * T) g out := by
    have hL : L / 128 * 128 = L := by
      obtain ⟨a, ha⟩ := halign
      have : L = 128 * (T * a) := by rw [← hcover, ha, Nat.mul_left_comm]
      omega
    funext j
    rw [pad_apply, hL, Run.window, Nat.mul_comm tb, hcover]
    simp only [Nat.zero_le, true_and, g]
  -- after `c` threads the unpadded buffer is untouched and the first `c` slices are padded
  rw [hpad]
  refine congrArg Prod.snd (Run.forLoop_invariant
    (P := fun c bufs => bufs = (input, Run.window 0 (tb * c) g out)) (Nat.zero_le _) (by simp)
    fun c bufs _ _ hbufs => ?_)
  subst hbufs
  have hs : 128 ∣ tb * c := Dvd.dvd.mul_right halign c
  simp only [padOp, writeBack_sliceFrom, Prod.mk.injEq, true_and]
  rw [writeBack, Nat.mul_succ]
  refine Run.window_window (Nat.zero_le _) (Nat.le_add_right _ _) (fun j hj₁ hj₂ => ?_) out
  -- byte `j` of the slice is byte `j` of the buffer's padded chunks
  obtain ⟨hmod, hoff⟩ := chunk_of_aligned hs hj₁
  have hlt : j - tb * c < tb / 128 * 128 := by
    rw [htb]
    omega
  rw [pad_apply, if_pos hlt, hmod]
  simp only [sliceFrom, hoff, g]

/-- **`mt` unpads like `unpad`** when the threads cover the buffer in whole chunks. -/
theorem mt_unpad_eq (input out : Bytes) : (mt numCPU unpadOp out input L).1 = unpad out input L := by
  unfold mt
  dsimp only
  generalize mtChunkCount numCPU L = T at hcover halign ⊢
  generalize L / T = tb at hcover halign ⊢
  set h : Bytes := fun j => unpadByte (fun i => input (j / 127 * 128 + i)) (j % 127)
  obtain ⟨a, ha⟩ := halign
  -- thread `c`'s unpadded slice starts after `c` threads' chunks
  have hU : ∀ c, unpadded (tb * c) = 127 * a * c := fun c => by
    rw [unpadded_of_dvd (Dvd.dvd.mul_right ⟨a, ha⟩ c), ha]
    rw [Nat.mul_assoc, Nat.mul_div_cancel_left _ (by norm_num : 0 < 128)]
    ring
  have hunpad : unpad out input L = Run.window 0 (127 * a * T) h out := by
    have hL : L / 128 * 127 = 127 * a * T := by
      have : L = 128 * (T * a) := by rw [← hcover, ha, Nat.mul_left_comm]
      rw [this, Nat.mul_div_cancel_left _ (by norm_num : 0 < 128)]
      ring
    funext j
    rw [unpad_apply, hL, Run.window]
    simp only [Nat.zero_le, true_and, h]
  rw [hunpad]
  refine congrArg Prod.fst (Run.forLoop_invariant
    (P := fun c bufs => bufs = (Run.window 0 (127 * a * c) h out, input)) (Nat.zero_le _) (by simp)
    fun c bufs _ _ hbufs => ?_)
  subst hbufs
  have hs : 128 ∣ tb * c := Dvd.dvd.mul_right ⟨a, ha⟩ c
  simp only [unpadOp, writeBack_sliceFrom, Prod.mk.injEq, and_true]
  rw [writeBack, hU, ← Nat.mul_succ, hU, Nat.mul_succ]
  refine Run.window_window (Nat.zero_le _) (Nat.le_add_right _ _) (fun j hj₁ hj₂ => ?_) out
  -- byte `j` of the slice is byte `j` of the buffer's unpadded chunks
  obtain ⟨hmod, hoff⟩ := unpadChunk_of_aligned (j := j) hs (by rw [hU]; exact hj₁)
  have hlt : j - 127 * a * c < tb / 128 * 127 := by
    rw [ha, Nat.mul_div_cancel_left _ (by norm_num : 0 < 128)]
    omega
  rw [hU] at hmod hoff
  rw [unpad_apply, if_pos hlt, hmod]
  simp only [sliceFrom, hoff, h]

end Aligned

/-! ## Pieces -/

lemma mtTresh_eq : mtTresh = 2 ^ 25 := rfl

/-- For more than `MTTresh` bytes in a power of two, the thread count is a power of two up to
`32`: the size's quotient by `MTTresh`, or the power of two above `NumCPU`, and then the cap. -/
lemma mtChunkCount_pow_two (numCPU : ℕ) {k : ℕ} (hk : 26 ≤ k) :
    ∃ j ≤ 5, mtChunkCount numCPU (2 ^ k) = 2 ^ j := by
  have hq : 2 ^ k / mtTresh = 2 ^ (k - 25) := by
    rw [mtTresh_eq, Nat.pow_div (by omega) (by norm_num)]
  unfold mtChunkCount
  dsimp only
  rw [hq]
  obtain ⟨e, he⟩ : ∃ e, (if 2 ^ (k - 25) > numCPU then 1 <<< len32 (numCPU % 2 ^ 32)
      else 2 ^ (k - 25)) = 2 ^ e := by
    split_ifs
    · exact ⟨_, Nat.one_shiftLeft _⟩
    · exact ⟨_, rfl⟩
  rw [he, if_neg (by positivity)]
  split_ifs with h32
  · exact ⟨5, le_refl _, rfl⟩
  · refine ⟨e, ?_, rfl⟩
    by_contra h
    exact h32 (lt_of_lt_of_le (by norm_num) (Nat.pow_le_pow_right (by norm_num) (by omega : 6 ≤ e)))

/-- A power of two above `MTTresh` is covered in whole chunks. -/
lemma aligned_pow_two (numCPU : ℕ) {k : ℕ} (hk : 26 ≤ k) :
    mtChunkCount numCPU (2 ^ k) * (2 ^ k / mtChunkCount numCPU (2 ^ k)) = 2 ^ k ∧
      128 ∣ 2 ^ k / mtChunkCount numCPU (2 ^ k) := by
  obtain ⟨j, hj, h⟩ := mtChunkCount_pow_two numCPU hk
  rw [h, Nat.pow_div (by omega) (by norm_num), ← Nat.pow_add, Nat.add_sub_cancel' (by omega)]
  exact ⟨rfl, Nat.pow_dvd_pow 2 (by omega : 7 ≤ k - j)⟩

/-- Above `MTTresh` a power of two means `26 ≤ k`. -/
lemma le_of_pow_two_gt {k : ℕ} (h : 2 ^ k > mtTresh) : 26 ≤ k := by
  by_contra hk
  have : 2 ^ k ≤ 2 ^ 25 := Nat.pow_le_pow_right (by norm_num) (by omega)
  rw [mtTresh_eq] at h
  omega

/-- **`Pad` pads a piece like `pad`**, whatever the number of CPUs. -/
theorem Pad_eq_pad (numCPU k : ℕ) (input out : Bytes) :
    Pad numCPU input out (2 ^ k) = pad input out (2 ^ k) := by
  unfold Pad
  split_ifs with h
  · obtain ⟨hcover, halign⟩ := aligned_pow_two numCPU (le_of_pow_two_gt h)
    exact mt_pad_eq hcover halign input out
  · rfl

/-- **`Unpad` unpads a piece like `unpad`**, whatever the number of CPUs. -/
theorem Unpad_eq_unpad (numCPU k : ℕ) (input out : Bytes) :
    Unpad numCPU input out (2 ^ k) = unpad out input (2 ^ k) := by
  unfold Unpad
  split_ifs with h
  · obtain ⟨hcover, halign⟩ := aligned_pow_two numCPU (le_of_pow_two_gt h)
    exact mt_unpad_eq hcover halign input out
  · rfl

/-! ## Other sizes -/

/-- A masked byte is not `0xff`. -/
lemma and_3f_ne_ff (b : Byte) : b &&& 0x3f ≠ 0xff := by
  intro h
  have htop := topClear_and b
  rw [h] at htop
  exact absurd htop (by unfold TopClear; decide)

/-- **Two threads leave the end of `out` unwritten.**  With one CPU, `Pad` of `2 ^ 26 + 128` bytes
runs two threads of `2 ^ 25 + 64` bytes, and each pads the `2 ^ 25` bytes of its whole chunks: the
last byte keeps what `out` held, here `0xff`, where `pad` writes a byte with its top two bits
clear. -/
theorem Pad_skips_last_bytes (input : Bytes) :
    Pad 1 input (fun _ => 0xff) (2 ^ 26 + 128) (2 ^ 26 + 127) = 0xff ∧
      pad input (fun _ => 0xff) (2 ^ 26 + 128) (2 ^ 26 + 127) ≠ 0xff := by
  have hT : mtChunkCount 1 (2 ^ 26 + 128) = 2 := by decide
  constructor
  · unfold Pad mt
    rw [if_pos (by rw [mtTresh_eq]; norm_num)]
    dsimp only
    rw [hT, Run.forLoop_succ (by norm_num), Run.forLoop_succ (by norm_num), Run.forLoop_self]
    simp only [padOp, writeBack_apply, pad_apply, sliceFrom]
    norm_num
  · -- the last byte of a padded chunk is masked with `0x3f`
    rw [pad_apply, if_pos (by norm_num), show (2 ^ 26 + 127) % 128 = 127 by norm_num]
    simp only [padByte]
    norm_num
    exact and_3f_ne_ff _

end Fr32

end Lotus
