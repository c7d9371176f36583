import Mathlib

/-!
# Rejoining shifted words

A bit stream stored in `w`-bit words and shifted by `s` bits is stored as
`(a <<< s) ||| (b >>> (w - s))`: the low `w - s` bits of `a` on top of the high `s` bits of the
word `b` before it.  Shifting back the other way and taking the missing bits from the neighbour
gives `a` again, whatever the neighbours are (`shiftLeft_join`, `shiftRight_join`).  These are the
two halves of every round trip through such a repacking.
-/

namespace BitShift

variable {w : ℕ} (a b c : BitVec w) {s : ℕ}

/-- Undo a shift up by `s`: the low bits come from `a`'s own word, the high bits from the next. -/
theorem shiftLeft_join (hs : s ≤ w) :
    (((a <<< s) ||| (b >>> (w - s))) >>> s) ||| (((c <<< s) ||| (a >>> (w - s))) <<< (w - s)) =
      a := by
  ext i hi
  simp only [BitVec.getElem_or, BitVec.getElem_shiftLeft, BitVec.getElem_ushiftRight,
    BitVec.getLsbD_or, BitVec.getLsbD_shiftLeft, BitVec.getLsbD_ushiftRight]
  -- the bits below `w - s` survive the shift back; the others come from the next word
  by_cases h : i < w - s
  · have h1 : s + i < w := by omega
    have h2 : ¬ s + i < s := by omega
    simp [h, h1, h2, BitVec.getLsbD_of_ge b (w - s + (s + i)) (by omega), hi]
  · have h1 : ¬ s + i < w := by omega
    have h2 : i - (w - s) < s := by omega
    have h3 : w - s + (i - (w - s)) = i := by omega
    simp [h, h1, h2, h3, BitVec.getLsbD_of_ge b (w - s + (s + i)) (by omega), hi]

/-- Undo a shift down by `s`, the mirror image of `shiftLeft_join`. -/
theorem shiftRight_join (hs : s ≤ w) :
    (((a >>> s) ||| (b <<< (w - s))) <<< s) ||| (((c >>> s) ||| (a <<< (w - s))) >>> (w - s)) =
      a := by
  ext i hi
  simp only [BitVec.getElem_or, BitVec.getElem_shiftLeft, BitVec.getElem_ushiftRight,
    BitVec.getLsbD_or, BitVec.getLsbD_shiftLeft, BitVec.getLsbD_ushiftRight]
  by_cases h : i < s
  · have h1 : w - s + i < w := by omega
    have h2 : ¬ w - s + i < w - s := by omega
    have h3 : w - s + i - (w - s) = i := by omega
    simp [h, h1, h2, h3, BitVec.getLsbD_of_ge c (s + (w - s + i)) (by omega), hi]
  · have h1 : ¬ w - s + i < w := by omega
    have h2 : i - s < w - s := by omega
    have h3 : s + (i - s) = i := by omega
    simp [h, h1, h2, h3, BitVec.getLsbD_of_ge c (s + (w - s + i)) (by omega), hi]

end BitShift
