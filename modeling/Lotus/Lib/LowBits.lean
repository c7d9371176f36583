import Mathlib
import Lotus.Lib.GoInt
import Lotus.Lib.Run

/-!
# Peeling the set bits of a word, lowest first

A common `math/bits` loop splits a 64-bit word `w` into powers of two: it runs
`bits.OnesCount64(w)` rounds, and each round takes `psize := 1 << bits.TrailingZeros64(w)` and
clears that bit with `w ^= psize`.  `peelBits` is that loop.  On a 64-bit word it takes the set
bits of `w`, lowest first, as powers of two (`peelBits_onesCount64`): Mathlib's `Nat.bitIndices`
under `2 ^ ·`.  Everything the callers need then follows from `bitIndices`: the pieces add up to
`w`, they increase strictly, they are at least `2 ^ j` when `2 ^ j` divides `w`, and the pieces
before a piece `2 ^ k` add up to `w % 2 ^ k`, so that laid out in this order every piece starts at
a multiple of its own size.
-/

namespace GoInt

/-- `k` rounds of `psize := 1 << bits.TrailingZeros64(w); w ^= psize`: the pieces taken. -/
def peelBits : ℕ → ℕ → List ℕ
  | 0, _ => []
  | k + 1, w => (1 <<< trailingZeros64 w) :: peelBits k (w ^^^ 1 <<< trailingZeros64 w)

/-- The set bits of `w`, lowest first, as powers of two. -/
def bitPieces (w : ℕ) : List ℕ :=
  w.bitIndices.map (2 ^ ·)

variable {w : ℕ}

/-! ## The loop takes the set bits -/

lemma lt_of_testBit (hw : w < 2 ^ 64) {i : ℕ} (h : w.testBit i = true) : i < 64 := by
  have := Nat.ge_two_pow_of_testBit h
  by_contra hi
  have : 2 ^ 64 ≤ 2 ^ i := Nat.pow_le_pow_right (by norm_num) (by omega)
  omega

/-- Scanning the 64 bit positions finds the set bits in order. -/
lemma filter_testBit_eq_bitIndices (hw : w < 2 ^ 64) :
    (List.range 64).filter (fun i => w.testBit i) = w.bitIndices := by
  refine List.SortedLT.eq_of_mem_iff ?_ Nat.bitIndices_sorted fun i => ?_
  · exact ((List.pairwise_lt_range).filter _).sortedLT
  · simp only [List.mem_filter, List.mem_range, Nat.mem_bitIndices]
    exact ⟨fun h => h.2, fun h => ⟨lt_of_testBit hw h, h⟩⟩

lemma onesCount64_eq_length (hw : w < 2 ^ 64) : onesCount64 w = w.bitIndices.length := by
  rw [onesCount64, filter_testBit_eq_bitIndices hw]

/-- A power of two in a 64-bit word has one bit set. -/
lemma onesCount64_two_pow {k : ℕ} (hk : k < 64) : onesCount64 (2 ^ k) = 1 := by
  have hw : 2 ^ k < 2 ^ 64 := Nat.pow_lt_pow_right (by norm_num) hk
  rw [onesCount64_eq_length hw, Nat.bitIndices_two_pow, List.length_singleton]

lemma trailingZeros64_eq {i : ℕ} {rest : List ℕ} (hw : w < 2 ^ 64) (h : w.bitIndices = i :: rest) :
    trailingZeros64 w = i := by
  rw [trailingZeros64, ← List.head?_filter, filter_testBit_eq_bitIndices hw, h]
  rfl

/-- Clearing the lowest set bit drops it from the indices. -/
lemma bitIndices_xor_two_pow {i : ℕ} {rest : List ℕ} (h : w.bitIndices = i :: rest) :
    (w ^^^ 2 ^ i).bitIndices = rest := by
  have hsorted : (i :: rest).Pairwise (· < ·) := h ▸ Nat.bitIndices_sorted.pairwise
  refine List.SortedLT.eq_of_mem_iff Nat.bitIndices_sorted (List.pairwise_cons.1 hsorted).2.sortedLT
    fun j => ?_
  have hmem : j ∈ i :: rest ↔ w.testBit j = true := by rw [← h, Nat.mem_bitIndices]
  rw [Nat.mem_bitIndices, Nat.testBit_xor, Nat.testBit_two_pow]
  -- `i` is the smallest index, so it is not among the rest
  have hi : i ∉ rest := fun hir => Nat.lt_irrefl i ((List.pairwise_cons.1 hsorted).1 i hir)
  by_cases hji : i = j
  · subst hji
    have hwi : w.testBit i = true := hmem.1 List.mem_cons_self
    simp [hi, hwi]
  · simp only [hji, decide_false, Bool.xor_false]
    rw [← hmem, List.mem_cons]
    exact ⟨fun h => h.resolve_left (Ne.symm hji), Or.inr⟩

/-- **The loop peels the set bits**, lowest first. -/
theorem peelBits_bitIndices (hw : w < 2 ^ 64) : peelBits w.bitIndices.length w = bitPieces w := by
  -- induction on the indices still set, for every word that has them
  generalize hL : w.bitIndices = L
  induction L generalizing w with
  | nil => simp [peelBits, bitPieces, hL]
  | cons i rest ih =>
    have htz := trailingZeros64_eq hw hL
    have hpow : 1 <<< i = 2 ^ i := by rw [Nat.shiftLeft_eq, one_mul]
    have hlt : w ^^^ 2 ^ i < 2 ^ 64 :=
      Nat.xor_lt_two_pow hw (Nat.pow_lt_pow_right (by norm_num) (lt_of_testBit hw
        (Nat.mem_bitIndices.1 (hL ▸ List.mem_cons_self))))
    rw [List.length_cons, peelBits, htz, hpow, ih hlt (bitIndices_xor_two_pow hL), bitPieces,
      bitPieces, bitIndices_xor_two_pow hL, hL, List.map_cons]

theorem peelBits_onesCount64 (hw : w < 2 ^ 64) : peelBits (onesCount64 w) w = bitPieces w := by
  rw [onesCount64_eq_length hw, peelBits_bitIndices hw]

/-- The Go loop, whatever it does with each piece, folds over the pieces `peelBits` takes. -/
lemma iterate_peel {α : Type*} (g : α → ℕ → α) (k : ℕ) (w : ℕ) (acc : α) :
    ((fun st : ℕ × α => (st.1 ^^^ 1 <<< trailingZeros64 st.1,
        g st.2 (1 <<< trailingZeros64 st.1)))^[k] (w, acc)).2 = (peelBits k w).foldl g acc := by
  induction k generalizing w acc with
  | zero => rfl
  | succ k ih => rw [Function.iterate_succ_apply, ih]; rfl

/-! ## What the pieces are -/

@[simp] lemma sum_bitPieces (w : ℕ) : (bitPieces w).sum = w :=
  Nat.sum_map_two_pow_bitIndices w

lemma bitPieces_strictly_increasing (w : ℕ) : (bitPieces w).Pairwise (· < ·) :=
  (Nat.bitIndices_sorted.pairwise).map _ fun _ _ h => Nat.pow_lt_pow_right (by norm_num) h

lemma mem_bitPieces {p : ℕ} : p ∈ bitPieces w ↔ ∃ i, w.testBit i = true ∧ p = 2 ^ i := by
  simp only [bitPieces, List.mem_map, Nat.mem_bitIndices]
  exact ⟨fun ⟨i, hi, he⟩ => ⟨i, hi, he.symm⟩, fun ⟨i, hi, he⟩ => ⟨i, hi, he.symm⟩⟩

lemma le_of_mem_bitPieces_self {p : ℕ} (hp : p ∈ bitPieces w) : p ≤ w := by
  obtain ⟨i, hi, rfl⟩ := mem_bitPieces.1 hp
  exact Nat.ge_two_pow_of_testBit hi

/-- A piece of a multiple of `2 ^ j` is at least `2 ^ j`. -/
lemma le_of_mem_bitPieces {j p : ℕ} (hdvd : 2 ^ j ∣ w) (hp : p ∈ bitPieces w) : 2 ^ j ≤ p := by
  obtain ⟨i, hi, rfl⟩ := mem_bitPieces.1 hp
  refine Nat.pow_le_pow_right (by norm_num) (Nat.le_of_not_lt fun hij => ?_)
  -- the bits below `j` of a multiple of `2 ^ j` are clear
  have h := Nat.testBit_mod_two_pow w j i
  rw [Nat.mod_eq_zero_of_dvd hdvd, Nat.zero_testBit, decide_eq_true hij, hi] at h
  exact absurd h (by decide)

/-- So it is `2 ^ j` times a power of two. -/
lemma dvd_of_mem_bitPieces {j p : ℕ} (hdvd : 2 ^ j ∣ w) (hp : p ∈ bitPieces w) :
    ∃ i, j ≤ i ∧ p = 2 ^ i := by
  obtain ⟨i, -, rfl⟩ := mem_bitPieces.1 hp
  exact ⟨i, (Nat.pow_le_pow_iff_right (show 1 < 2 by norm_num)).1 (le_of_mem_bitPieces hdvd hp), rfl⟩

/-- The indices below one index `k` of `w` are those of `w % 2 ^ k`. -/
lemma bitIndices_mod_two_pow {l₁ l₂ : List ℕ} {k : ℕ} (h : w.bitIndices = l₁ ++ k :: l₂) :
    (w % 2 ^ k).bitIndices = l₁ := by
  have hsorted : (l₁ ++ k :: l₂).Pairwise (· < ·) := h ▸ Nat.bitIndices_sorted.pairwise
  rw [List.pairwise_append, List.pairwise_cons] at hsorted
  obtain ⟨hl₁, ⟨hk, -⟩, hcross⟩ := hsorted
  refine List.SortedLT.eq_of_mem_iff Nat.bitIndices_sorted hl₁.sortedLT fun j => ?_
  rw [Nat.mem_bitIndices, Nat.testBit_mod_two_pow, Bool.and_eq_true, decide_eq_true_iff,
    ← Nat.mem_bitIndices, h, List.mem_append, List.mem_cons]
  -- the indices of `l₁` lie below `k`, the others at or above it
  constructor
  · rintro ⟨hjk, hj | rfl | hj⟩
    · exact hj
    · exact absurd hjk (Nat.lt_irrefl _)
    · exact absurd (hk j hj) (Nat.lt_asymm hjk)
  · intro hj
    exact ⟨hcross j hj k List.mem_cons_self, Or.inl hj⟩

/-- **The pieces before a piece `p` add up to `w % p`**: laid out lowest first from a multiple
of the total, each piece starts at a multiple of itself. -/
lemma sum_before_bitPieces {P₁ P₂ : List ℕ} {p : ℕ} (h : bitPieces w = P₁ ++ p :: P₂) :
    P₁.sum = w % p := by
  obtain ⟨l₁, l₂, hidx, rfl, hl₂⟩ := List.map_eq_append_iff.1 h
  obtain ⟨k, l₂', rfl, rfl, -⟩ := List.map_eq_cons_iff.1 hl₂
  rw [← bitIndices_mod_two_pow hidx, Nat.sum_map_two_pow_bitIndices]

/-- The largest piece is more than half the word: no bit is set above it. -/
lemma lt_two_mul_of_bitPieces_eq {P : List ℕ} {p : ℕ} (h : bitPieces w = P ++ [p]) : w < 2 * p := by
  obtain ⟨k, -, rfl⟩ := mem_bitPieces.1 (h ▸ List.mem_append_right P (List.mem_singleton_self p))
  have hsorted := bitPieces_strictly_increasing w
  rw [h, List.pairwise_append] at hsorted
  rw [← Nat.pow_succ']
  refine Nat.lt_pow_two_of_testBit w fun i hi => ?_
  by_contra hbit
  have hmem : 2 ^ i ∈ P ++ [2 ^ k] := h ▸ mem_bitPieces.2 ⟨i, by simpa using hbit, rfl⟩
  have hki : 2 ^ k < 2 ^ i := Nat.pow_lt_pow_right (by norm_num) (by omega)
  rcases List.mem_append.1 hmem with hP | hq
  · exact absurd (hsorted.2.2 _ hP _ (List.mem_singleton_self _)) (by omega)
  · rw [List.mem_singleton] at hq
    omega

end GoInt
