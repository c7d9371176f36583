import Mathlib
import Lotus.Lib.GoInt
import Lotus.Chain.Types.Message

/-!
# Gas outputs (`chain/vm/burn.go`)

`ComputeGasOverestimationBurn gasUsed gasLimit` splits the unused gas `gasLimit - gasUsed` into a
refund and a burn that grows with the overestimation; `ComputeGasOutputs` prices the gas into
the five amounts `ApplyMessage` pays out of the gas holder.

The first is `int64` code with one `big.Int` step.  For every `gasUsed` and `gasLimit` with
`0 ≤ gasUsed ≤ gasLimit ≤ BlockGasLimit` none of its operations overflows, and it computes the
unbounded-integer split `overestimationBurn` (`computeGasOverestimationBurn_eq`).  Everything else
is proved about that split: it lies in `[0, gasLimit - gasUsed]` and is monotone in `gasLimit`.
`computeGasOutputs_eq` gives the five amounts in closed form; the refund is what is left of
`gasLimit * feeCap`, and it is nonnegative because the miner tip is capped at
`feeCap - baseFeeToPay` and the burn by the unused gas.
-/

namespace Lotus

open GoInt

def gasOveruseNum : ℤ := 11
def gasOveruseDenom : ℤ := 10

/-- `ComputeGasOverestimationBurn`, returning `(refund, burn)`; `overuse` is the source's `over`,
a keyword here.  Go's `/` on `int64` truncates (`Int.tdiv`); `big.Div` is Euclidean (`/` on
`ℤ`). -/
def computeGasOverestimationBurn (gasUsed gasLimit : ℤ) : ℤ × ℤ :=
  if gasUsed = 0 then (0, gasLimit)
  else
    let overuse :=
      int64 (gasLimit - int64 (Int.tdiv (int64 (gasOveruseNum * gasUsed)) gasOveruseDenom))
    if overuse < 0 then (int64 (gasLimit - gasUsed), 0)
    else
      let overuse := if overuse > gasUsed then gasUsed else overuse
      let gasToBurn := int64 (gasLimit - gasUsed) * overuse / gasUsed
      (int64 (int64 (gasLimit - gasUsed) - bigInt64 gasToBurn), bigInt64 gasToBurn)

/-- The gas `ComputeGasOverestimationBurn` burns, computed without overflow:
`(gasLimit - gasUsed) * min (gasLimit - 11 * gasUsed / 10, gasUsed) / gasUsed`, and nothing when
the limit is within 10% of the gas used. -/
def overestimationBurn (gasUsed gasLimit : ℤ) : ℤ :=
  if gasUsed = 0 then gasLimit
  else if gasLimit - gasOveruseNum * gasUsed / gasOveruseDenom < 0 then 0
  else (gasLimit - gasUsed) * min (gasLimit - gasOveruseNum * gasUsed / gasOveruseDenom) gasUsed
    / gasUsed

section Range

variable {gasUsed gasLimit : ℤ}

/-- The quotient of the burn formula lies in `[0, gasLimit - gasUsed]` once `overuse` is clamped to
`[0, gasUsed]`. -/
lemma burnQuot_mem (overuse : ℤ) (hpos : 0 < gasUsed) (hle : gasUsed ≤ gasLimit) (h0 : 0 ≤ overuse)
    (hover : overuse ≤ gasUsed) :
    0 ≤ (gasLimit - gasUsed) * overuse / gasUsed ∧
      (gasLimit - gasUsed) * overuse / gasUsed ≤ gasLimit - gasUsed := by
  have hunused : 0 ≤ gasLimit - gasUsed := by omega
  constructor
  · exact Int.ediv_nonneg (mul_nonneg hunused h0) hpos.le
  · exact Int.ediv_le_of_le_mul hpos (mul_le_mul_of_nonneg_left hover hunused)

@[simp] lemma overestimationBurn_zero : overestimationBurn 0 gasLimit = gasLimit := by
  simp [overestimationBurn]

lemma overestimationBurn_of_lt (hpos : 0 < gasUsed)
    (hlt : gasLimit < gasOveruseNum * gasUsed / gasOveruseDenom) :
    overestimationBurn gasUsed gasLimit = 0 := by
  simp only [overestimationBurn, if_neg hpos.ne', if_pos (sub_neg.mpr hlt)]

lemma overestimationBurn_of_le (hpos : 0 < gasUsed)
    (hge : gasOveruseNum * gasUsed / gasOveruseDenom ≤ gasLimit) :
    overestimationBurn gasUsed gasLimit =
      (gasLimit - gasUsed) * min (gasLimit - gasOveruseNum * gasUsed / gasOveruseDenom) gasUsed
        / gasUsed := by
  simp only [overestimationBurn, if_neg hpos.ne', if_neg (not_lt.mpr (sub_nonneg.mpr hge))]

/-- The burn is at most the unused gas, so the refund `gasLimit - gasUsed - burn` is
nonnegative too. -/
theorem overestimationBurn_mem (h0 : 0 ≤ gasUsed) (hle : gasUsed ≤ gasLimit) :
    0 ≤ overestimationBurn gasUsed gasLimit ∧
      overestimationBurn gasUsed gasLimit ≤ gasLimit - gasUsed := by
  rcases h0.eq_or_lt with hz | hpos
  · subst hz
    simp only [overestimationBurn_zero]
    omega
  by_cases hlt : gasLimit < gasOveruseNum * gasUsed / gasOveruseDenom
  · rw [overestimationBurn_of_lt hpos hlt]
    omega
  · rw [overestimationBurn_of_le hpos (not_lt.mp hlt)]
    exact burnQuot_mem _ hpos hle (le_min (by omega) h0) (min_le_right _ _)

/-- **The burn grows with the gas limit**, for a fixed amount of gas used. -/
theorem overestimationBurn_mono {gasLimit₁ gasLimit₂ : ℤ} (h0 : 0 ≤ gasUsed)
    (hle : gasUsed ≤ gasLimit₁) (h12 : gasLimit₁ ≤ gasLimit₂) :
    overestimationBurn gasUsed gasLimit₁ ≤ overestimationBurn gasUsed gasLimit₂ := by
  rcases h0.eq_or_lt with hz | hpos
  · subst hz
    simpa only [overestimationBurn_zero] using h12
  by_cases hlt : gasLimit₁ < gasOveruseNum * gasUsed / gasOveruseDenom
  · rw [overestimationBurn_of_lt hpos hlt]
    exact (overestimationBurn_mem h0 (hle.trans h12)).1
  -- past the 10% margin both factors of the numerator grow with the limit
  have hge₁ := not_lt.mp hlt
  have hge₂ : gasOveruseNum * gasUsed / gasOveruseDenom ≤ gasLimit₂ := hge₁.trans h12
  rw [overestimationBurn_of_le hpos hge₁, overestimationBurn_of_le hpos hge₂]
  apply Int.ediv_le_ediv hpos
  apply mul_le_mul (by omega) (min_le_min_right _ (by omega)) (le_min (by omega) h0) (by omega)

/-- The int64 code computes the unbounded split on every block-valid gas limit. -/
theorem computeGasOverestimationBurn_eq (h0 : 0 ≤ gasUsed) (hle : gasUsed ≤ gasLimit)
    (hmax : gasLimit ≤ blockGasLimit) :
    computeGasOverestimationBurn gasUsed gasLimit =
      (gasLimit - gasUsed - overestimationBurn gasUsed gasLimit,
        overestimationBurn gasUsed gasLimit) := by
  have hmax' : gasLimit ≤ 10000000000 := hmax
  unfold computeGasOverestimationBurn overestimationBurn
  by_cases hz : gasUsed = 0
  · simp [hz]
  simp only [if_neg hz, gasOveruseNum, gasOveruseDenom]
  -- every intermediate value is below `11 * BlockGasLimit`, far inside `int64`
  have hmul : int64 (11 * gasUsed) = 11 * gasUsed := int64_of_inRange ⟨by omega, by omega⟩
  have hdiv : Int.tdiv (11 * gasUsed) 10 = 11 * gasUsed / 10 :=
    Int.tdiv_eq_ediv_of_nonneg (by omega)
  have hdiv' : int64 (11 * gasUsed / 10) = 11 * gasUsed / 10 :=
    int64_of_inRange ⟨by omega, by omega⟩
  have hover : int64 (gasLimit - 11 * gasUsed / 10) = gasLimit - 11 * gasUsed / 10 :=
    int64_of_inRange ⟨by omega, by omega⟩
  have hsub : int64 (gasLimit - gasUsed) = gasLimit - gasUsed := int64_of_inRange ⟨by omega, by omega⟩
  simp only [hmul, hdiv, hdiv', hover, hsub]
  by_cases hneg : gasLimit - 11 * gasUsed / 10 < 0
  · simp [hneg]
  -- the code clamps `overuse` with an `if`, the unbounded split with `min`
  have hclamp : (if gasLimit - 11 * gasUsed / 10 > gasUsed then gasUsed
      else gasLimit - 11 * gasUsed / 10) = min (gasLimit - 11 * gasUsed / 10) gasUsed := by
    rw [min_def]
    split_ifs <;> omega
  obtain ⟨hq0, hq⟩ :=
    burnQuot_mem (min (gasLimit - 11 * gasUsed / 10) gasUsed) (by omega) hle (by omega)
      (min_le_right _ _)
  have hrefund : int64 (gasLimit - gasUsed -
      (gasLimit - gasUsed) * min (gasLimit - 11 * gasUsed / 10) gasUsed / gasUsed) =
      gasLimit - gasUsed - (gasLimit - gasUsed) * min (gasLimit - 11 * gasUsed / 10) gasUsed /
        gasUsed :=
    int64_of_inRange ⟨by omega, by omega⟩
  simp only [if_neg hneg, hclamp, bigInt64_of_inRange hq0 (by omega), hrefund]
  simp [hneg]

end Range

/-! ## Gas outputs -/

/-- `GasOutputs`: `GasRefund` and `GasBurned` count gas, the other five are token amounts. -/
structure GasOutputs where
  baseFeeBurn : ℤ
  overEstimationBurn : ℤ
  minerPenalty : ℤ
  minerTip : ℤ
  refund : ℤ
  gasRefund : ℤ
  gasBurned : ℤ
  deriving DecidableEq, Repr

def zeroGasOutputs : GasOutputs :=
  ⟨0, 0, 0, 0, 0, 0, 0⟩

/-- `ComputeGasOutputs`. -/
def computeGasOutputs (gasUsed gasLimit baseFee feeCap gasPremium : ℤ)
    (chargeNetworkFee : Bool) : GasOutputs :=
  let out := zeroGasOutputs
  let baseFeeToPay := if baseFee > feeCap then feeCap else baseFee
  let out := if baseFee > feeCap then { out with minerPenalty := (baseFee - feeCap) * gasUsed }
    else out
  let out := if chargeNetworkFee then { out with baseFeeBurn := baseFeeToPay * gasUsed } else out
  let minerTip := if baseFeeToPay + gasPremium > feeCap then feeCap - baseFeeToPay else gasPremium
  let out := { out with minerTip := minerTip * gasLimit }
  let burn := computeGasOverestimationBurn gasUsed gasLimit
  let out := { out with gasRefund := burn.1, gasBurned := burn.2 }
  let out := if out.gasBurned ≠ 0 then
      { out with
        overEstimationBurn := baseFeeToPay * out.gasBurned
        minerPenalty := out.minerPenalty + (baseFee - baseFeeToPay) * out.gasBurned }
    else out
  let requiredFunds := gasLimit * feeCap
  { out with refund := requiredFunds - out.baseFeeBurn - out.minerTip - out.overEstimationBurn }

section Outputs

variable (gasUsed gasLimit baseFee feeCap gasPremium : ℤ) (chargeNetworkFee : Bool)

/-- **`ComputeGasOutputs` in closed form.**  The fee charged per unit of gas is
`min baseFee feeCap`; the rest of the base fee is the miner's penalty, on the gas used and on the
gas burned alike. -/
theorem computeGasOutputs_eq :
    computeGasOutputs gasUsed gasLimit baseFee feeCap gasPremium chargeNetworkFee =
      let baseFeeToPay := min baseFee feeCap
      let burn := computeGasOverestimationBurn gasUsed gasLimit
      let baseFeeBurn := if chargeNetworkFee then baseFeeToPay * gasUsed else 0
      let minerTip := min gasPremium (feeCap - baseFeeToPay) * gasLimit
      { baseFeeBurn := baseFeeBurn
        overEstimationBurn := baseFeeToPay * burn.2
        minerPenalty := (baseFee - baseFeeToPay) * (gasUsed + burn.2)
        minerTip := minerTip
        refund := gasLimit * feeCap - baseFeeBurn - minerTip - baseFeeToPay * burn.2
        gasRefund := burn.1
        gasBurned := burn.2 } := by
  have hpay : (if baseFee > feeCap then feeCap else baseFee) = min baseFee feeCap := by
    rw [min_def]
    split_ifs <;> omega
  have htip : (if min baseFee feeCap + gasPremium > feeCap then feeCap - min baseFee feeCap
      else gasPremium) = min gasPremium (feeCap - min baseFee feeCap) := by
    rw [min_def gasPremium]
    split_ifs <;> omega
  simp only [computeGasOutputs, hpay, htip]
  -- the penalty on the gas used is the uncharged part of the base fee, zero below the cap
  rcases le_or_gt baseFee feeCap with hle | hgt
  · simp only [gt_iff_lt, if_neg (not_lt.mpr hle), min_eq_left hle, sub_self, zero_mul]
    split_ifs <;> simp_all [zeroGasOutputs]
  · simp only [gt_iff_lt, if_pos hgt, min_eq_right hgt.le]
    split_ifs <;> simp_all [zeroGasOutputs, mul_add]

/-- The four payouts add up to what the gas holder is given, `gasLimit * feeCap`: the refund is
computed as the remainder. -/
lemma computeGasOutputs_sum :
    let out := computeGasOutputs gasUsed gasLimit baseFee feeCap gasPremium chargeNetworkFee
    out.baseFeeBurn + out.minerTip + out.overEstimationBurn + out.refund = gasLimit * feeCap := by
  simp only [computeGasOutputs_eq]
  ring

/-- **No amount is negative**, for every block-valid gas limit with `gasUsed` in range, every
nonnegative base fee and every premium between zero and the fee cap. -/
theorem computeGasOutputs_nonneg (hb : 0 ≤ baseFee) (hp : 0 ≤ gasPremium)
    (hpc : gasPremium ≤ feeCap) (h0 : 0 ≤ gasUsed) (hle : gasUsed ≤ gasLimit)
    (hmax : gasLimit ≤ blockGasLimit) :
    let out := computeGasOutputs gasUsed gasLimit baseFee feeCap gasPremium chargeNetworkFee
    0 ≤ out.baseFeeBurn ∧ 0 ≤ out.minerTip ∧ 0 ≤ out.overEstimationBurn ∧ 0 ≤ out.refund ∧
      0 ≤ out.minerPenalty := by
  obtain ⟨hburn0, hburn⟩ := overestimationBurn_mem h0 hle
  simp only [computeGasOutputs_eq, computeGasOverestimationBurn_eq h0 hle hmax]
  set burned := overestimationBurn gasUsed gasLimit
  set baseFeeToPay := min baseFee feeCap
  set tip := min gasPremium (feeCap - baseFeeToPay)
  have hpay0 : 0 ≤ baseFeeToPay := le_min hb (hp.trans hpc)
  have hpay : baseFeeToPay ≤ feeCap := min_le_right _ _
  have htip0 : 0 ≤ tip := le_min hp (by omega)
  -- the tip is capped at what the fee cap leaves over the base fee
  have htip : tip * gasLimit ≤ (feeCap - baseFeeToPay) * gasLimit :=
    mul_le_mul_of_nonneg_right (min_le_right _ _) (by omega)
  have hbaseFeeBurn : (if chargeNetworkFee then baseFeeToPay * gasUsed else 0) ≤
      baseFeeToPay * gasUsed := by
    split_ifs
    · exact le_rfl
    · exact mul_nonneg hpay0 h0
  have hover : baseFeeToPay * burned ≤ baseFeeToPay * (gasLimit - gasUsed) :=
    mul_le_mul_of_nonneg_left hburn hpay0
  refine ⟨?_, mul_nonneg htip0 (by omega), mul_nonneg hpay0 hburn0, ?_,
    mul_nonneg (sub_nonneg.mpr (min_le_left _ _)) (by omega)⟩
  · split_ifs
    · exact mul_nonneg hpay0 h0
    · exact le_rfl
  · have hsplit : gasLimit * feeCap = baseFeeToPay * gasUsed + (feeCap - baseFeeToPay) * gasLimit +
        baseFeeToPay * (gasLimit - gasUsed) := by ring
    linarith

end Outputs

end Lotus
