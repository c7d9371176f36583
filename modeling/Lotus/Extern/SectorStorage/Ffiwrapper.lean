import Lotus.Lib.Run
import Lotus.Lib.GoInt
import Lotus.Lib.LowBits

/-!
# Piece sizes and alignment padding (`extern/sector-storage/ffiwrapper/sealer_cgo.go`)

A piece of `n` unpadded bytes takes `n + n / 127` bytes once Fr32-padded (`padded`), and a padded
size `m` holds `m - m / 128` unpadded bytes (`unpadded`); these are `abi.UnpaddedPieceSize.Padded`
and `abi.PaddedPieceSize.Unpadded`.  Pieces in a sector are aligned to their own padded size, and
`GetRequiredPadding oldLength newPieceLength` returns the padding pieces that bring the sector's
padded length `oldLength` to the next multiple of `newPieceLength`: one piece per one bit of
`-oldLength % newPieceLength`, and their sum.

The loop takes the set bits of `toFill`, lowest first (`getRequiredPadding_eq`).  When the sector
length is a multiple of `128` and the piece a power of two from `128` up, that is what alignment
needs (`getRequiredPadding_spec`): powers of two from `128` up, increasing, adding up to less than
the piece, to a total that brings the length to a multiple of the piece, each starting at a
multiple of its own size.  The unsigned negation is what makes this work: `2 ^ 64 - oldLength`
is `-oldLength` modulo every power of two up to `2 ^ 64`.
-/

namespace Lotus

open GoInt

/-- `abi.UnpaddedPieceSize.Padded`. -/
def padded (s : ℕ) : ℕ :=
  s + s / 127

/-- `abi.PaddedPieceSize.Unpadded`. -/
def unpadded (s : ℕ) : ℕ :=
  s - s / 128

/-- `GetRequiredPadding`: the padding pieces, lowest first, and their sum.  The state of the loop
is `(toFill, padPieces, sum)`. -/
def getRequiredPadding (oldLength newPieceLength : ℕ) : List ℕ × ℕ :=
  let toFill := uint64 (-(oldLength : ℤ)) % newPieceLength
  let n := onesCount64 toFill
  let st := Run.forLoop 0 n (fun _ st =>
      let next := trailingZeros64 st.1
      let psize := 1 <<< next
      (st.1 ^^^ psize, st.2.1 ++ [psize], st.2.2 + psize)) (toFill, [], 0)
  (st.2.1, st.2.2)

/-- Appending each piece and adding it up, over a list of pieces. -/
lemma foldl_append_add (l acc : List ℕ) (s : ℕ) :
    l.foldl (fun st p => (st.1 ++ [p], st.2 + p)) (acc, s) = (acc ++ l, s + l.sum) := by
  induction l generalizing acc s with
  | nil => simp
  | cons p l ih => rw [List.foldl_cons, ih, List.append_assoc, List.singleton_append, List.sum_cons,
      Nat.add_assoc]

/-- `GetRequiredPadding` returns the set bits of `toFill`, lowest first, and their sum. -/
lemma getRequiredPadding_eq (oldLength newPieceLength : ℕ) :
    getRequiredPadding oldLength newPieceLength =
      (bitPieces (uint64 (-(oldLength : ℤ)) % newPieceLength),
        uint64 (-(oldLength : ℤ)) % newPieceLength) := by
  have hlt : uint64 (-(oldLength : ℤ)) % newPieceLength < 2 ^ 64 :=
    lt_of_le_of_lt (Nat.mod_le _ _) (by unfold uint64; omega)
  have h := iterate_peel (fun st p => (st.1 ++ [p], st.2 + p))
    (onesCount64 (uint64 (-(oldLength : ℤ)) % newPieceLength))
    (uint64 (-(oldLength : ℤ)) % newPieceLength) ([], 0)
  rw [foldl_append_add, peelBits_onesCount64 hlt] at h
  unfold getRequiredPadding
  dsimp only
  rw [Run.forLoop_iterate, Nat.sub_zero, h, List.nil_append, Nat.zero_add, sum_bitPieces]

/-- `-oldLength` as a `uint64` and `oldLength` add up to a multiple of every divisor of `2 ^ 64`. -/
lemma dvd_add_uint64_neg {oldLength n : ℕ} (hn : n ∣ 2 ^ 64) :
    n ∣ oldLength + uint64 (-(oldLength : ℤ)) % n := by
  have hu : (uint64 (-(oldLength : ℤ)) : ℤ) = -(oldLength : ℤ) % 2 ^ 64 :=
    Int.toNat_of_nonneg (Int.emod_nonneg _ (by norm_num))
  -- in `ℤ` the wrap is `-oldLength` modulo `2 ^ 64`
  have h64 : (2 ^ 64 : ℤ) ∣ oldLength + uint64 (-(oldLength : ℤ)) := by
    rw [hu]
    apply Int.dvd_of_emod_eq_zero
    rw [Int.add_emod, Int.emod_emod, ← Int.add_emod, Int.add_right_neg, Int.zero_emod]
  have hsum : n ∣ oldLength + uint64 (-(oldLength : ℤ)) := by
    have h' : ((2 ^ 64 : ℕ) : ℤ) ∣ ((oldLength + uint64 (-(oldLength : ℤ)) : ℕ) : ℤ) := by
      push_cast
      exact h64
    exact dvd_trans hn (Int.natCast_dvd_natCast.1 h')
  rw [Nat.dvd_iff_mod_eq_zero] at hsum ⊢
  rw [Nat.add_mod, Nat.mod_mod, ← Nat.add_mod, hsum]

variable {oldLength k : ℕ}

/-- **Alignment padding** for a sector length `oldLength` that is a multiple of `128` and a piece
of `2 ^ k` bytes, `7 ≤ k < 64`: the pieces are powers of two from `128` up, increasing, their sum
is under the piece and brings the length to a multiple of it, and each piece starts at a multiple
of its own size. -/
theorem getRequiredPadding_spec (h128 : 128 ∣ oldLength) (hk7 : 7 ≤ k) (hk : k < 64) :
    (getRequiredPadding oldLength (2 ^ k)).1.Pairwise (· < ·) ∧
      (∀ p ∈ (getRequiredPadding oldLength (2 ^ k)).1, ∃ j, 7 ≤ j ∧ p = 2 ^ j) ∧
      (getRequiredPadding oldLength (2 ^ k)).2 = (getRequiredPadding oldLength (2 ^ k)).1.sum ∧
      (getRequiredPadding oldLength (2 ^ k)).2 < 2 ^ k ∧
      2 ^ k ∣ oldLength + (getRequiredPadding oldLength (2 ^ k)).2 ∧
      ∀ P₁ p P₂, (getRequiredPadding oldLength (2 ^ k)).1 = P₁ ++ p :: P₂ → p ∣ oldLength + P₁.sum := by
  rw [getRequiredPadding_eq]
  dsimp only
  set toFill := uint64 (-(oldLength : ℤ)) % 2 ^ k with htoFill
  have hdvd64 : 2 ^ k ∣ 2 ^ 64 := Nat.pow_dvd_pow 2 hk.le
  have hfill : 2 ^ k ∣ oldLength + toFill := dvd_add_uint64_neg hdvd64
  -- `toFill` is a multiple of `128`, as the length and the piece are
  have h128' : 2 ^ 7 ∣ toFill :=
    (Nat.dvd_add_right h128).1 (dvd_trans (Nat.pow_dvd_pow 2 hk7) hfill)
  have hpow : ∀ p ∈ bitPieces toFill, ∃ j, 7 ≤ j ∧ p = 2 ^ j := fun p hp =>
    dvd_of_mem_bitPieces h128' hp
  refine ⟨bitPieces_strictly_increasing _, hpow, (sum_bitPieces _).symm,
    Nat.mod_lt _ (by positivity), hfill, fun P₁ p P₂ hsplit => ?_⟩
  -- a piece is a power of two below `2 ^ k`, so it divides the piece size
  have hp : p ∈ bitPieces toFill := hsplit ▸ List.mem_append_right _ List.mem_cons_self
  obtain ⟨j, -, rfl⟩ := hpow p hp
  have hjk : 2 ^ j ∣ 2 ^ k := by
    refine Nat.pow_dvd_pow 2 ((Nat.pow_lt_pow_iff_right (show 1 < 2 by norm_num)).1 ?_).le
    calc 2 ^ j ≤ toFill := le_of_mem_bitPieces_self hp
      _ < 2 ^ k := Nat.mod_lt _ (by positivity)
  rw [sum_before_bitPieces hsplit, Nat.dvd_iff_mod_eq_zero, Nat.add_mod, Nat.mod_mod, ← Nat.add_mod,
    ← Nat.dvd_iff_mod_eq_zero]
  exact dvd_trans hjk hfill

/-! ## The pieces of a padded size -/

/-- Converting each piece and appending it, over a list of pieces. -/
lemma foldl_append_unpadded (l acc : List ℕ) :
    l.foldl (fun st p => st ++ [unpadded p]) acc = acc ++ l.map unpadded := by
  induction l generalizing acc with
  | nil => simp
  | cons p l ih => rw [List.foldl_cons, ih, List.map_cons, List.append_assoc, List.singleton_append]

/-- The loop of `subPieces` and `fillersFromRem`: the set bits of a `uint64`, lowest first, each
converted to unpadded bytes. -/
lemma forLoop_peel_unpadded {w : ℕ} (hw : w < 2 ^ 64) :
    (Run.forLoop 0 (onesCount64 w) (fun _ st =>
        (st.1 ^^^ 1 <<< trailingZeros64 st.1, st.2 ++ [unpadded (1 <<< trailingZeros64 st.1)]))
      (w, [])).2 = (bitPieces w).map unpadded := by
  have h := iterate_peel (fun st p => st ++ [unpadded p]) (onesCount64 w) w []
  rw [foldl_append_unpadded, peelBits_onesCount64 hw, List.nil_append] at h
  rw [Run.forLoop_iterate, Nat.sub_zero, h]

/-- A padded piece of `2 ^ j` bytes, `7 ≤ j`, holds `127 · 2 ^ (j - 7)` unpadded bytes. -/
lemma unpadded_two_pow {j : ℕ} (hj : 7 ≤ j) : unpadded (2 ^ j) = 127 * 2 ^ (j - 7) := by
  have h : 2 ^ j = 128 * 2 ^ (j - 7) := by
    rw [show (128 : ℕ) = 2 ^ 7 by norm_num, ← Nat.pow_add, Nat.add_sub_cancel' hj]
  rw [h, unpadded, Nat.mul_div_cancel_left _ (by norm_num)]
  omega

lemma unpadded_padded (u : ℕ) : unpadded (padded u) = u := by
  unfold unpadded padded
  omega

lemma unpadded_mono {a b : ℕ} (h : a ≤ b) : unpadded a ≤ unpadded b := by
  unfold unpadded
  omega

end Lotus
