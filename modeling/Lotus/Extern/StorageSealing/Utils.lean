import Lotus.Extern.SectorStorage.Ffiwrapper

/-!
# Filler pieces (`extern/storage-sealing/utils.go`)

`fillersFromRem` fills the `in` unpadded bytes left in a sector: it converts them to padded
bytes, `in + in / 127`, takes one piece per set bit of that, smallest first, and converts each
piece back to unpadded bytes.  The pieces it returns are the set bits of the padded size
(`fillersFromRem_eq`).  For a remainder that is a multiple of `127` and whose padded size fits a
`uint64`, they are valid pieces (`127 · 2 ^ j` bytes, padded to a power of two from `128` up),
increasing, and they add up to the remainder (`fillersFromRem_valid`).

The conversion is `uint64` arithmetic: at `in = 127 · 2 ^ 57` the padded size is `2 ^ 64`, which
wraps to `0`, and there are no fillers at all (`fillersFromRem_wraps`).
-/

namespace Lotus

namespace Sealing

open GoInt

/-- `fillersFromRem`; `input` is the source's `in`.  `out[i]` is written for each `i` in turn,
which is appending. -/
def fillersFromRem (input : ℕ) : Except String (List ℕ) :=
  let toFill := uint64 (padded input)
  let st := Run.forLoop 0 (onesCount64 toFill) (fun _ st =>
      let next := trailingZeros64 st.1
      let psize := 1 <<< next
      (st.1 ^^^ psize, st.2 ++ [unpadded psize])) (toFill, [])
  .ok st.2

/-- The fillers are the set bits of the padded remainder, as a `uint64`, converted back. -/
lemma fillersFromRem_eq (input : ℕ) :
    fillersFromRem input = .ok ((bitPieces (uint64 (padded input))).map unpadded) := by
  have hlt : uint64 (padded input) < 2 ^ 64 := by unfold uint64; omega
  unfold fillersFromRem
  dsimp only
  rw [forLoop_peel_unpadded hlt]

/-- Over multiples of `128`, unpadding takes one byte in `128`. -/
lemma sum_map_unpadded (l : List ℕ) (h : ∀ p ∈ l, 128 ∣ p) :
    (l.map unpadded).sum * 128 = l.sum * 127 := by
  induction l with
  | nil => rfl
  | cons p l ih =>
    obtain ⟨a, rfl⟩ := h p List.mem_cons_self
    have hl := ih fun q hq => h q (List.mem_cons_of_mem _ hq)
    simp only [List.map_cons, List.sum_cons, unpadded] at hl ⊢
    omega

/-- **The fillers of a remainder that is a multiple of `127`**, when its padded size fits a
`uint64`: valid pieces, increasing, adding up to the remainder. -/
theorem fillersFromRem_valid {input : ℕ} (h127 : 127 ∣ input) (hfit : padded input < 2 ^ 64) :
    ∃ fillers, fillersFromRem input = .ok fillers ∧ fillers.Pairwise (· < ·) ∧
      (∀ f ∈ fillers, ∃ j, f = 127 * 2 ^ j ∧ padded f = 2 ^ (j + 7)) ∧ fillers.sum = input := by
  obtain ⟨q, rfl⟩ := h127
  have hT : uint64 (padded (127 * q)) = 2 ^ 7 * q := by
    rw [uint64_of_lt hfit]
    unfold padded
    omega
  have hpiece : ∀ p ∈ bitPieces (2 ^ 7 * q), ∃ j, 7 ≤ j ∧ p = 2 ^ j := fun p hp =>
    dvd_of_mem_bitPieces (Dvd.intro q rfl) hp
  refine ⟨_, fillersFromRem_eq _, ?_, fun f hf => ?_, ?_⟩ <;> rw [hT] at *
  · -- unpadding keeps the order of the pieces
    refine List.Pairwise.map _ (fun p p' h => h) ((bitPieces_strictly_increasing _).imp_of_mem ?_)
    intro p p' hp hp' hlt
    obtain ⟨j, hj, rfl⟩ := hpiece p hp
    obtain ⟨j', hj', rfl⟩ := hpiece p' hp'
    rw [unpadded_two_pow hj, unpadded_two_pow hj']
    have : 2 ^ (j - 7) < 2 ^ (j' - 7) :=
      Nat.pow_lt_pow_right (by norm_num) (by have := (Nat.pow_lt_pow_iff_right (show 1 < 2 by norm_num)).1 hlt; omega)
    omega
  · obtain ⟨p, hp, rfl⟩ := List.mem_map.1 hf
    obtain ⟨j, hj, rfl⟩ := hpiece p hp
    refine ⟨j - 7, unpadded_two_pow hj, ?_⟩
    rw [unpadded_two_pow hj, padded, Nat.mul_div_cancel_left _ (by norm_num), Nat.pow_add,
      show (2 : ℕ) ^ 7 = 128 by norm_num]
    omega
  · have h := sum_map_unpadded (bitPieces (2 ^ 7 * q)) fun p hp => by
      obtain ⟨j, hj, rfl⟩ := hpiece p hp
      exact Nat.pow_dvd_pow 2 hj
    rw [sum_bitPieces] at h
    omega

/-- **The padded size wraps.**  `127 · 2 ^ 57` is a multiple of `127` that a `uint64` holds,
but its padded size `2 ^ 64` is `0` as a `uint64`: it gets no fillers, which add up to `0`. -/
theorem fillersFromRem_wraps :
    127 ∣ 127 * 2 ^ 57 ∧ 127 * 2 ^ 57 < 2 ^ 64 ∧ padded (127 * 2 ^ 57) = 2 ^ 64 ∧
      fillersFromRem (127 * 2 ^ 57) = .ok [] := by
  decide

/-- **Padding and filler pieces.**  `GetRequiredPadding` from a length that is a multiple of
`128` to a power-of-two piece from `128` up: powers of two from `128` up, increasing, under the
piece in total, bringing the length to a multiple of it, each at a multiple of its own size.
`fillersFromRem` of a multiple of `127` whose padded size fits a `uint64`: valid pieces,
increasing, adding up to it. -/
theorem requiredPadding_fillers_spec :
    (∀ oldLength k : ℕ, 128 ∣ oldLength → 7 ≤ k → k < 64 →
      (getRequiredPadding oldLength (2 ^ k)).1.Pairwise (· < ·) ∧
      (∀ p ∈ (getRequiredPadding oldLength (2 ^ k)).1, ∃ j, 7 ≤ j ∧ p = 2 ^ j) ∧
      (getRequiredPadding oldLength (2 ^ k)).2 = (getRequiredPadding oldLength (2 ^ k)).1.sum ∧
      (getRequiredPadding oldLength (2 ^ k)).2 < 2 ^ k ∧
      2 ^ k ∣ oldLength + (getRequiredPadding oldLength (2 ^ k)).2 ∧
      ∀ P₁ p P₂, (getRequiredPadding oldLength (2 ^ k)).1 = P₁ ++ p :: P₂ → p ∣ oldLength + P₁.sum) ∧
    (∀ input : ℕ, 127 ∣ input → padded input < 2 ^ 64 →
      ∃ fillers, fillersFromRem input = .ok fillers ∧ fillers.Pairwise (· < ·) ∧
        (∀ f ∈ fillers, ∃ j, f = 127 * 2 ^ j ∧ padded f = 2 ^ (j + 7)) ∧ fillers.sum = input) :=
  ⟨fun _ _ h128 hk7 hk => getRequiredPadding_spec h128 hk7 hk,
    fun _ h127 hfit => fillersFromRem_valid h127 hfit⟩

/-- A sector filled to `128` bytes before a `1024`-byte piece, and a remainder of `381` bytes. -/
theorem requiredPadding_fillers_spec_small :
    getRequiredPadding 128 (2 ^ 10) = ([128, 256, 512], 896) ∧
      2 ^ 10 ∣ 128 + (getRequiredPadding 128 (2 ^ 10)).2 ∧
      fillersFromRem 381 = .ok [127, 254] ∧
      ∃ fillers, fillersFromRem 381 = .ok fillers ∧ fillers.sum = 381 := by
  obtain ⟨-, -, -, -, hdvd, -⟩ := requiredPadding_fillers_spec.1 128 10 (by norm_num) (by norm_num)
    (by norm_num)
  obtain ⟨fillers, hf, -, -, hsum⟩ := requiredPadding_fillers_spec.2 381 (by norm_num) (by decide)
  exact ⟨by decide, hdvd, by decide, fillers, hf, hsum⟩

end Sealing

end Lotus
