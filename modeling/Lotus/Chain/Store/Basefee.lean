import Lotus.Chain.Messagepool.Pruning
import Lotus.Lib.GoInt

/-!
# The next base fee (`chain/store/basefee.go`)

`ComputeNextBaseFee` moves the parent base fee towards the gas the tipset used: `delta` is the
gas limit used per block (scaled by `PackingEfficiencyDenom / PackingEfficiencyNum` before the
Smoke upgrade) less `BlockGasTarget`, computed in `int64`; it is capped at `±BlockGasTarget`, the
change is `baseFee * delta / BlockGasTarget / BaseFeeMaxChangeDenom` in big integers, with
flooring division, and the result is at least `MinimumBaseFee`.

The `int64` operations wrap (`GoInt.int64`), and a divisor that wraps to zero makes Go panic,
which is `none`.  The part after `delta` is `applyDelta`.

**Bounds.**  Whatever `delta` is, the capped change lies between `-⌈b/8⌉` and `⌊b/8⌋`, so every
result is at least `MinimumBaseFee` and, above it, within 12.5% of the parent base fee
(`applyDelta_bounds`).

**No overflow in a real tipset.**  For at most 18446 blocks and at most `BlockMessageLimit`
messages of `BlockGasLimit` gas per block, no `int64` operation wraps and `delta` is the exact
quotient (`baseFeeDelta_eq`); the result then grows with the gas used (`exactDelta_mono`).  Past
those bounds, but before the Smoke upgrade (after it the gas per block cannot wrap,
`baseFeeDelta_eq_of_smoke`), `5 * gasLimitUsed` wraps: a larger gas limit can lower the
base fee, and 2^62 blocks make the divisor wrap to zero (`computeNextBaseFee_not_mono`).
-/

namespace Lotus

namespace Store

open GoInt MessagePool

/-- `build.BlockGasTarget`. -/
def blockGasTarget : ℤ := blockGasLimit / 2

/-- `build.BaseFeeMaxChangeDenom`: a change of at most 12.5%. -/
def baseFeeMaxChangeDenom : ℤ := 8

/-- `build.PackingEfficiencyNum`. -/
def packingEfficiencyNum : ℤ := 4

/-- `build.PackingEfficiencyDenom`. -/
def packingEfficiencyDenom : ℤ := 5

/-- `build.UpgradeSmokeHeight` on mainnet. -/
def upgradeSmokeHeight : ℤ := 51000

/-- `build.BlockMessageLimit`. -/
def blockMessageLimit : ℤ := 10000

/-- The `delta` of `ComputeNextBaseFee`, in `int64`. -/
def baseFeeDelta (gasLimitUsed noOfBlocks epoch : ℤ) : Option ℤ :=
  let q :=
    if epoch > upgradeSmokeHeight then div64 gasLimitUsed noOfBlocks
    else div64 (int64 (packingEfficiencyDenom * gasLimitUsed)) (int64 (noOfBlocks * packingEfficiencyNum))
  q.map fun q => int64 (q - blockGasTarget)

/-- Capping `delta` at `±BlockGasTarget` caps the change at 12.5%. -/
def capDelta (delta : ℤ) : ℤ :=
  let delta := if delta > blockGasTarget then blockGasTarget else delta
  if delta < -blockGasTarget then -blockGasTarget else delta

/-- The rest of `ComputeNextBaseFee`, from `delta`. -/
def applyDelta (baseFee delta : ℤ) : ℤ :=
  let delta := capDelta delta
  let change := baseFee * delta / blockGasTarget / baseFeeMaxChangeDenom
  let nextBaseFee := baseFee + change
  if nextBaseFee < minimumBaseFee then minimumBaseFee else nextBaseFee

/-- `ComputeNextBaseFee(baseFee, gasLimitUsed, noOfBlocks, epoch)`. -/
def computeNextBaseFee (baseFee gasLimitUsed noOfBlocks epoch : ℤ) : Option ℤ :=
  (baseFeeDelta gasLimitUsed noOfBlocks epoch).map (applyDelta baseFee)

/-- The `delta` of `ComputeNextBaseFee` in exact arithmetic. -/
def exactDelta (gasLimitUsed noOfBlocks epoch : ℤ) : ℤ :=
  if epoch > upgradeSmokeHeight then gasLimitUsed / noOfBlocks - blockGasTarget
  else packingEfficiencyDenom * gasLimitUsed / (noOfBlocks * packingEfficiencyNum) - blockGasTarget

/-! ## Bounds -/

lemma capDelta_bounds (delta : ℤ) :
    -blockGasTarget ≤ capDelta delta ∧ capDelta delta ≤ blockGasTarget := by
  unfold capDelta
  dsimp only
  split_ifs <;> simp only [blockGasTarget, blockGasLimit] at * <;> omega

lemma capDelta_mono {delta delta' : ℤ} (h : delta ≤ delta') : capDelta delta ≤ capDelta delta' := by
  unfold capDelta
  dsimp only
  split_ifs <;> omega

/-- A change of `b * delta / BlockGasTarget / 8` with `delta` capped is at most an eighth of `b`,
rounded down, and at least minus an eighth, rounded up. -/
lemma change_bounds {b d : ℤ} (hb : 0 ≤ b) (hd : -blockGasTarget ≤ d ∧ d ≤ blockGasTarget) :
    -((b + 7) / 8) ≤ b * d / blockGasTarget / baseFeeMaxChangeDenom ∧
      b * d / blockGasTarget / baseFeeMaxChangeDenom ≤ b / 8 := by
  have hlo : b * -blockGasTarget ≤ b * d := mul_le_mul_of_nonneg_left hd.1 hb
  have hhi : b * d ≤ b * blockGasTarget := mul_le_mul_of_nonneg_left hd.2 hb
  generalize b * d = x at hlo hhi ⊢
  simp only [blockGasTarget, blockGasLimit, baseFeeMaxChangeDenom] at hlo hhi ⊢
  omega

/-- **Every next base fee is at least the minimum, and above it within 12.5%.** -/
theorem applyDelta_bounds {b : ℤ} (hb : 0 ≤ b) (delta : ℤ) :
    minimumBaseFee ≤ applyDelta b delta ∧
      (minimumBaseFee < applyDelta b delta →
        b - (b + 7) / 8 ≤ applyDelta b delta ∧ applyDelta b delta ≤ b + b / 8) := by
  have hc := change_bounds hb (capDelta_bounds delta)
  unfold applyDelta
  dsimp only
  split_ifs with hmin
  · exact ⟨le_rfl, fun h => absurd h (lt_irrefl _)⟩
  · exact ⟨not_lt.mp hmin, fun _ => ⟨by omega, by omega⟩⟩

/-- The next base fee grows with `delta`. -/
lemma applyDelta_mono {b : ℤ} (hb : 0 ≤ b) {delta delta' : ℤ} (h : delta ≤ delta') :
    applyDelta b delta ≤ applyDelta b delta' := by
  have hcap := capDelta_mono h
  have hchange : b * capDelta delta / blockGasTarget / baseFeeMaxChangeDenom ≤
      b * capDelta delta' / blockGasTarget / baseFeeMaxChangeDenom := by
    apply Int.ediv_le_ediv (by decide)
    apply Int.ediv_le_ediv (by decide)
    exact mul_le_mul_of_nonneg_left hcap hb
  unfold applyDelta
  dsimp only
  split_ifs <;> omega

/-! ## `delta` without overflow -/

/-- **After the Smoke upgrade no `int64` operation wraps**, for any number of blocks and any
gas used an `int64` holds that is not negative: the gas per block is below `2^63`. -/
theorem baseFeeDelta_eq_of_smoke {g n epoch : ℤ} (hsmoke : upgradeSmokeHeight < epoch)
    (hn : 1 ≤ n) (hg : 0 ≤ g) (hg' : g < 2 ^ 63) :
    baseFeeDelta g n epoch = some (exactDelta g n epoch) := by
  have hq : 0 ≤ g / n ∧ g / n ≤ g := ⟨Int.ediv_nonneg hg (by omega), Int.ediv_le_self n hg⟩
  unfold baseFeeDelta exactDelta
  rw [if_pos hsmoke, if_pos hsmoke, div64_of_nonneg hg hg' (by omega), Option.map_some,
    int64_of_inRange ⟨by simp only [blockGasTarget, blockGasLimit]; omega,
      by simp only [blockGasTarget, blockGasLimit]; omega⟩]

/-- **No `int64` operation wraps** for at most 18446 blocks and the gas of full blocks. -/
theorem baseFeeDelta_eq {g n : ℤ} (epoch : ℤ) (hn : 1 ≤ n) (hn' : n ≤ 18446) (hg : 0 ≤ g)
    (hgmax : g ≤ n * blockMessageLimit * blockGasLimit) :
    baseFeeDelta g n epoch = some (exactDelta g n epoch) := by
  simp only [blockMessageLimit, blockGasLimit] at hgmax
  by_cases hsmoke : upgradeSmokeHeight < epoch
  · -- after the Smoke upgrade: the gas per block
    exact baseFeeDelta_eq_of_smoke hsmoke hn hg (by omega)
  -- before it: `5 * gasLimitUsed` and `4 * noOfBlocks` fit
  have h5 : 0 ≤ packingEfficiencyDenom * g := by simp only [packingEfficiencyDenom]; omega
  have h5' : packingEfficiencyDenom * g < 2 ^ 63 := by simp only [packingEfficiencyDenom]; omega
  have h4 : 0 < n * packingEfficiencyNum := by simp only [packingEfficiencyNum]; omega
  have hq : 0 ≤ packingEfficiencyDenom * g / (n * packingEfficiencyNum) ∧
      packingEfficiencyDenom * g / (n * packingEfficiencyNum) ≤ packingEfficiencyDenom * g :=
    ⟨Int.ediv_nonneg h5 h4.le, Int.ediv_le_self _ h5⟩
  unfold baseFeeDelta exactDelta
  rw [if_neg hsmoke, if_neg hsmoke, int64_of_inRange ⟨by omega, h5'⟩,
    int64_of_inRange ⟨by omega, by simp only [packingEfficiencyNum]; omega⟩,
    div64_of_nonneg h5 h5' h4, Option.map_some,
    int64_of_inRange ⟨by simp only [blockGasTarget, blockGasLimit]; omega,
      by simp only [blockGasTarget, blockGasLimit]; omega⟩]

/-- The exact `delta` grows with the gas used. -/
lemma exactDelta_mono {g g' n : ℤ} (epoch : ℤ) (hn : 1 ≤ n) (h : g ≤ g') :
    exactDelta g n epoch ≤ exactDelta g' n epoch := by
  unfold exactDelta
  split_ifs
  · have := Int.ediv_le_ediv (by omega : (0 : ℤ) < n) h
    omega
  · have := Int.ediv_le_ediv (by simp only [packingEfficiencyNum]; omega : 0 < n * packingEfficiencyNum)
      (mul_le_mul_of_nonneg_left h (by decide : (0 : ℤ) ≤ packingEfficiencyDenom))
    omega

/-! ## `ComputeNextBaseFee` -/

/-- Where `delta` is computed exactly for both gas amounts, the next base fee grows with the gas
used. -/
lemma computeNextBaseFee_mono_of_exact {b g g' n epoch : ℤ} (hb : 0 ≤ b) (hn : 1 ≤ n)
    (hgg' : g ≤ g') (hd : baseFeeDelta g n epoch = some (exactDelta g n epoch))
    (hd' : baseFeeDelta g' n epoch = some (exactDelta g' n epoch)) :
    ∃ next next', computeNextBaseFee b g n epoch = some next ∧
      computeNextBaseFee b g' n epoch = some next' ∧ next ≤ next' :=
  ⟨_, _, by rw [computeNextBaseFee, hd, Option.map_some],
    by rw [computeNextBaseFee, hd', Option.map_some], applyDelta_mono hb (exactDelta_mono epoch hn hgg')⟩

/-- **The next base fee.**  For every parent base fee of at least `MinimumBaseFee`: every result
is at least `MinimumBaseFee`, and above it within `[b - ⌈b/8⌉, b + ⌊b/8⌋]`; and for at most
18446 blocks and gas limits up to that of full blocks, and after the Smoke upgrade for any number
of blocks and any gas limit an `int64` holds, `delta` is computed without overflow and the result
does not decrease as the gas used grows. -/
theorem computeNextBaseFee_spec {b : ℤ} (hb : minimumBaseFee ≤ b) :
    (∀ g n epoch next, computeNextBaseFee b g n epoch = some next →
      minimumBaseFee ≤ next ∧ (minimumBaseFee < next → b - (b + 7) / 8 ≤ next ∧ next ≤ b + b / 8)) ∧
    (∀ {g g' n : ℤ} (epoch : ℤ), 1 ≤ n → n ≤ 18446 → 0 ≤ g → g ≤ g' →
      g' ≤ n * blockMessageLimit * blockGasLimit →
        baseFeeDelta g n epoch = some (exactDelta g n epoch) ∧
          ∃ next next', computeNextBaseFee b g n epoch = some next ∧
            computeNextBaseFee b g' n epoch = some next' ∧ next ≤ next') ∧
    ∀ {g g' n epoch : ℤ}, upgradeSmokeHeight < epoch → 1 ≤ n → 0 ≤ g → g ≤ g' → g' < 2 ^ 63 →
      baseFeeDelta g n epoch = some (exactDelta g n epoch) ∧
        ∃ next next', computeNextBaseFee b g n epoch = some next ∧
          computeNextBaseFee b g' n epoch = some next' ∧ next ≤ next' := by
  have hb0 : 0 ≤ b := le_trans (by decide) hb
  refine ⟨fun g n epoch next h => ?_, fun epoch hn hn' hg hgg' hg' => ?_,
    fun hsmoke hn hg hgg' hg' => ?_⟩
  · obtain ⟨delta, -, rfl⟩ := Option.map_eq_some_iff.mp h
    exact applyDelta_bounds hb0 delta
  · have hd := baseFeeDelta_eq epoch hn hn' hg (le_trans hgg' hg')
    exact ⟨hd, computeNextBaseFee_mono_of_exact hb0 hn hgg' hd
      (baseFeeDelta_eq epoch hn hn' (le_trans hg hgg') hg')⟩
  · have hd := baseFeeDelta_eq_of_smoke hsmoke hn hg (lt_of_le_of_lt hgg' hg')
    exact ⟨hd, computeNextBaseFee_mono_of_exact hb0 hn hgg' hd
      (baseFeeDelta_eq_of_smoke hsmoke hn (le_trans hg hgg') hg')⟩

/-- At a parent base fee of 800. -/
theorem computeNextBaseFee_spec_800 :
    (∀ g n epoch next, computeNextBaseFee 800 g n epoch = some next →
      minimumBaseFee ≤ next ∧ (minimumBaseFee < next → 800 - (800 + 7) / 8 ≤ next ∧ next ≤ 800 + 800 / 8)) ∧
    (∀ {g g' n : ℤ} (epoch : ℤ), 1 ≤ n → n ≤ 18446 → 0 ≤ g → g ≤ g' →
      g' ≤ n * blockMessageLimit * blockGasLimit →
        baseFeeDelta g n epoch = some (exactDelta g n epoch) ∧
          ∃ next next', computeNextBaseFee 800 g n epoch = some next ∧
            computeNextBaseFee 800 g' n epoch = some next' ∧ next ≤ next') ∧
    ∀ {g g' n epoch : ℤ}, upgradeSmokeHeight < epoch → 1 ≤ n → 0 ≤ g → g ≤ g' → g' < 2 ^ 63 →
      baseFeeDelta g n epoch = some (exactDelta g n epoch) ∧
        ∃ next next', computeNextBaseFee 800 g n epoch = some next ∧
          computeNextBaseFee 800 g' n epoch = some next' ∧ next ≤ next' :=
  computeNextBaseFee_spec (by decide)

/-- Before the Smoke upgrade, `5 * gasLimitUsed` wraps for a gas limit of `2 * 10^18` in one block,
and the base fee falls by 12.5% where `10^10` raises it by 12.5%; 2^62 blocks make the divisor
`4 * noOfBlocks` wrap to zero; and at 18447 full blocks `5 * gasLimitUsed` wraps. -/
theorem computeNextBaseFee_not_mono :
    computeNextBaseFee 800 10000000000 1 0 = some 900 ∧
      computeNextBaseFee 800 2000000000000000000 1 0 = some 700 ∧
      computeNextBaseFee 800 0 4611686018427387904 0 = none ∧
      baseFeeDelta 1844700000000000000 18447 0 ≠ some (exactDelta 1844700000000000000 18447 0) := by
  decide

end Store

end Lotus
