import Mathlib

/-!
# Go's `int64` over `ℤ`

Go's `int64` arithmetic wraps in two's complement, and `Int.bmod x (2 ^ 64)` is exactly that
wrap: its values are `[-2^63, 2^63)`.  A model keeps machine integers as `ℤ` and applies `int64`
to the exact result of each operation, so that the one place overflow could matter is visible.
`(*big.Int).Int64` keeps the low 64 bits of the magnitude and restores the sign, again with
`int64` wrapping; that is `bigInt64`.  Unsigned `uint64` arithmetic is `uint64`, the exact result
taken modulo `2 ^ 64`, and `onesCount64`, `trailingZeros64`, `len32`, `len64` and
`leadingZeros64` are `math/bits`' functions on it.  The idiom `1 << (63 - bits.LeadingZeros64(x))`
is the highest power of two in a nonzero `x` (`one_shiftLeft_leadingZeros64`).

Both are the identity on values an `int64` holds, which is all later proofs use: they prove the
operands are in range and then rewrite the wraps away (`int64_of_inRange`, `bigInt64_of_inRange`).
Go's conversion `int(x)` of a `uint64` on a 64-bit machine is `int64 x` as well: the same bits
read as a signed number, `x` below `2^63` and negative from there on.
-/

namespace GoInt

/-- The value an `int64` operation returns when its exact result is `x`. -/
def int64 (x : ℤ) : ℤ :=
  x.bmod (2 ^ 64)

/-- The values of Go's `int64`. -/
def InRange (x : ℤ) : Prop :=
  -2 ^ 63 ≤ x ∧ x < 2 ^ 63

lemma int64_of_inRange {x : ℤ} (h : InRange x) : int64 x = x := by
  obtain ⟨hlo, hhi⟩ := h
  apply Int.bmod_eq_of_le
  · norm_num
    exact hlo
  · norm_num
    exact hhi

/-- Go's `int(x)` of a `uint64` below `2^63` is `x`. -/
lemma int64_natCast_of_lt {x : ℕ} (h : x < 2 ^ 63) : int64 x = x :=
  int64_of_inRange ⟨by omega, by exact_mod_cast h⟩

/-- Go's `int(x)` of a `uint64` is never above `x`. -/
lemma int64_natCast_le (x : ℕ) : int64 x ≤ x := by
  rcases lt_or_ge x (2 ^ 63) with h | h
  · rw [int64_natCast_of_lt h]
  · have hlt : int64 x < 2 ^ 63 := by
      unfold int64
      exact lt_of_lt_of_le (Int.bmod_lt (by norm_num)) (by norm_num)
    have : (2 : ℤ) ^ 63 ≤ x := by exact_mod_cast h
    omega

/-- Go's `int64` division `x / y`: truncated towards zero, and wrapping (`MinInt64 / -1`); `none`
for a zero divisor, where Go panics. -/
def div64 (x y : ℤ) : Option ℤ :=
  if y = 0 then none else some (int64 (x.tdiv y))

/-- A non-negative `int64` over a positive divisor is the floor quotient. -/
lemma div64_of_nonneg {x y : ℤ} (hx : 0 ≤ x) (hx' : x < 2 ^ 63) (hy : 0 < y) :
    div64 x y = some (x / y) := by
  have hle : x / y ≤ x := Int.ediv_le_self y hx
  have hnn : 0 ≤ x / y := Int.ediv_nonneg hx hy.le
  rw [div64, if_neg hy.ne', Int.tdiv_eq_ediv_of_nonneg hx, int64_of_inRange ⟨by omega, by omega⟩]

/-- `(*big.Int).Int64`: `v := int64(low64(x.abs)); if x.neg { v = -v }`. -/
def bigInt64 (x : ℤ) : ℤ :=
  let v := int64 ((x.natAbs % 2 ^ 64 : ℕ) : ℤ)
  if x < 0 then int64 (-v) else v

lemma bigInt64_of_inRange {x : ℤ} (h0 : 0 ≤ x) (h : x < 2 ^ 63) : bigInt64 x = x := by
  have habs : ((x.natAbs % 2 ^ 64 : ℕ) : ℤ) = x := by omega
  simp only [bigInt64, habs, int64_of_inRange ⟨by omega, h⟩, if_neg (not_lt.mpr h0)]

/-- The value a `uint64` operation returns when its exact result is `x`. -/
def uint64 (x : ℤ) : ℕ :=
  (x % 2 ^ 64).toNat

lemma uint64_of_lt {x : ℕ} (h : x < 2 ^ 64) : uint64 x = x := by
  unfold uint64
  omega

/-- `uint64(-x - 1)` of a negative `int64` is `-1 - x` exactly, `MinInt64` included, whose
negation wraps. -/
lemma uint64_int64_neg_sub_one {x : ℤ} (h : InRange x) (hx : x < 0) :
    uint64 (int64 (int64 (-x) - 1)) = (-1 - x).toNat := by
  obtain ⟨hlo, -⟩ := h
  rcases lt_or_eq_of_le hlo with hlt | rfl
  · -- `-x` is an `int64`, and so is `-x - 1`
    have hneg : int64 (-x) = -x := int64_of_inRange ⟨by omega, by omega⟩
    rw [hneg, int64_of_inRange ⟨by omega, by omega⟩, uint64]
    omega
  · -- `MinInt64`: its negation wraps to itself, and one less wraps back to `MaxInt64`
    decide

/-- `bits.OnesCount64`: the number of one bits. -/
def onesCount64 (x : ℕ) : ℕ :=
  ((List.range 64).filter fun i => x.testBit i).length

/-- `bits.TrailingZeros64`: the number of trailing zero bits, `64` for `0`. -/
def trailingZeros64 (x : ℕ) : ℕ :=
  ((List.range 64).find? fun i => x.testBit i).getD 64

/-- `bits.Len32`: the number of bits a `uint32` needs, the least `k` with `x < 2 ^ k`. -/
def len32 (x : ℕ) : ℕ :=
  ((List.range 33).find? fun k => x < 2 ^ k).getD 32

/-- `bits.Len64`: the number of bits a `uint64` needs, `0` for `0`. -/
def len64 (x : ℕ) : ℕ :=
  if x % 2 ^ 64 = 0 then 0 else Nat.log2 (x % 2 ^ 64) + 1

/-- `bits.LeadingZeros64`: the number of leading zero bits, `64` for `0`. -/
def leadingZeros64 (x : ℕ) : ℕ :=
  64 - len64 x

/-- `1 << (63 - bits.LeadingZeros64(x))` is the highest power of two in a nonzero `uint64`. -/
lemma one_shiftLeft_leadingZeros64 {x : ℕ} (h0 : x ≠ 0) (h : x < 2 ^ 64) :
    1 <<< (63 - leadingZeros64 x) = 2 ^ Nat.log2 x := by
  have hlog : Nat.log2 x < 64 := (Nat.log2_lt h0).2 h
  unfold leadingZeros64 len64
  rw [Nat.mod_eq_of_lt h, if_neg h0, Nat.one_shiftLeft]
  congr 1
  omega

end GoInt
