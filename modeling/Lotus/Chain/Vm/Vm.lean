import Mathlib
import Lotus.Lib.Run
import Lotus.Chain.Vm.Burn

/-!
# Paying for gas (`chain/vm/vm.go`, `chain/vm/runtime.go`)

`ApplyMessage` moves `GasLimit * GasFeeCap` from the sender into a fresh gas-holder actor before
running the message, and afterwards pays the holder out in four transfers: the base-fee burn and
the overestimation burn to the burnt-funds actor, the tip to the reward actor and the refund back
to the sender; it fails with "gas handling math is wrong" unless the holder is then empty.

The state a transfer touches is a `GasLedger`: the balances of the state tree's actors and the
holder's balance.  `MutateActor` fails only on a missing actor, and the three recipients always
exist (the sender was just loaded), so the model's transfers fail only where the source's checks
refuse: a negative amount, or a holder short of funds.

The amounts come from `ComputeGasOutputs` on the gas the runtime reports.  The runtime's meter
(`chargeGasInternal`) never lets `gasUsed` pass `gasAvailable = GasLimit`
(`run_charges_meterInv`), and `ApplyMessage` clamps it below at zero, so the gas used is always
in `[0, GasLimit]` (`applyMessage_gasUsed_mem`).  In that range every transfer succeeds, the holder
ends at exactly zero, and what the recipients gain is exactly what the holder held
(`settleGas_ok`).
-/

namespace Lotus

open GoInt

/-- `builtin.BurntFundsActorAddr`. -/
def burntFundsActorAddr : Address := ⟨"t099"⟩

/-- `reward.Address`. -/
def rewardAddress : Address := ⟨"t02"⟩

/-- The balances a gas transfer touches: the actors of the state tree, and the gas holder. -/
structure GasLedger where
  balance : Address → ℤ
  gasHolder : ℤ

/-- `deductFunds`. -/
def deductFunds (balance amt : ℤ) : Except String ℤ :=
  if balance < amt then .error "not enough funds" else .ok (balance - amt)

/-- `depositFunds`. -/
def depositFunds (balance amt : ℤ) : ℤ :=
  balance + amt

namespace GasLedger

/-- `VM.transferToGasHolder`. -/
def transferToGasHolder (l : GasLedger) (addr : Address) (amt : ℤ) : Except String GasLedger :=
  if amt < 0 then .error "attempted to transfer negative value to gas holder"
  else
    match deductFunds (l.balance addr) amt with
    | .error e => .error e
    | .ok b => .ok ⟨Function.update l.balance addr b, depositFunds l.gasHolder amt⟩

/-- `VM.transferFromGasHolder`. -/
def transferFromGasHolder (l : GasLedger) (addr : Address) (amt : ℤ) : Except String GasLedger :=
  if amt < 0 then .error "attempted to transfer negative value from gas holder"
  else if amt = 0 then .ok l
  else
    match deductFunds l.gasHolder amt with
    | .error e => .error e
    | .ok h => .ok ⟨Function.update l.balance addr (depositFunds (l.balance addr) amt), h⟩

/-- The payout of `ApplyMessage`, from the base-fee burn to the check that the holder is empty. -/
def settleGas (l : GasLedger) (fromAddr : Address) (out : GasOutputs) :
    Except String GasLedger := do
  let l ← (l.transferFromGasHolder burntFundsActorAddr out.baseFeeBurn).mapError
    ("failed to burn base fee: " ++ ·)
  let l ← (l.transferFromGasHolder rewardAddress out.minerTip).mapError
    ("failed to give miner gas reward: " ++ ·)
  let l ← (l.transferFromGasHolder burntFundsActorAddr out.overEstimationBurn).mapError
    ("failed to burn overestimation fee: " ++ ·)
  -- refund unused gas
  let l ← (l.transferFromGasHolder fromAddr out.refund).mapError ("failed to refund gas: " ++ ·)
  if l.gasHolder ≠ 0 then throw "gas handling math is wrong"
  return l

variable (l : GasLedger) (addr : Address) {amt : ℤ}

lemma transferToGasHolder_ok (h0 : 0 ≤ amt) (hle : amt ≤ l.balance addr) :
    l.transferToGasHolder addr amt =
      .ok ⟨Function.update l.balance addr (l.balance addr - amt), l.gasHolder + amt⟩ := by
  simp only [transferToGasHolder, if_neg (not_lt.mpr h0), deductFunds, if_neg (not_lt.mpr hle)]
  rfl

/-- A transfer of a nonnegative amount the holder covers succeeds; a zero amount changes
nothing, which the closed form covers too. -/
lemma transferFromGasHolder_ok (h0 : 0 ≤ amt) (hle : amt ≤ l.gasHolder) :
    l.transferFromGasHolder addr amt =
      .ok ⟨Function.update l.balance addr (l.balance addr + amt), l.gasHolder - amt⟩ := by
  simp only [transferFromGasHolder, if_neg (not_lt.mpr h0)]
  rcases h0.eq_or_lt with rfl | hpos
  · simp
  · simp only [if_neg hpos.ne', deductFunds, if_neg (not_lt.mpr hle)]
    rfl

/-- A deposit of `amt` into one actor of `S` adds `amt` to the total over `S`. -/
lemma sum_update_add (balance : Address → ℤ) {S : Finset Address} (h : addr ∈ S) (amt : ℤ) :
    ∑ a ∈ S, Function.update balance addr (balance addr + amt) a = ∑ a ∈ S, balance a + amt := by
  rw [Finset.sum_update_of_mem h, Finset.sum_eq_add_sum_sdiff_singleton_of_mem h]
  omega

/-- **The payout succeeds and empties the holder** when the four amounts are nonnegative and add
up to what it holds; the recipients then gain exactly that. -/
theorem settleGas_ok (fromAddr : Address) (out : GasOutputs) (hb : 0 ≤ out.baseFeeBurn)
    (ht : 0 ≤ out.minerTip) (ho : 0 ≤ out.overEstimationBurn) (hr : 0 ≤ out.refund)
    (hsum : out.baseFeeBurn + out.minerTip + out.overEstimationBurn + out.refund = l.gasHolder) :
    ∃ balance, l.settleGas fromAddr out = .ok ⟨balance, 0⟩ ∧
      ∀ S : Finset Address, burntFundsActorAddr ∈ S → rewardAddress ∈ S → fromAddr ∈ S →
        ∑ a ∈ S, balance a = ∑ a ∈ S, l.balance a + l.gasHolder := by
  unfold settleGas
  rw [transferFromGasHolder_ok _ _ hb (by omega)]
  dsimp only [Except.mapError, bind, Except.bind]
  rw [transferFromGasHolder_ok _ _ ht (by dsimp only; omega)]
  dsimp only [Except.mapError, bind, Except.bind]
  rw [transferFromGasHolder_ok _ _ ho (by dsimp only; omega)]
  dsimp only [Except.mapError, bind, Except.bind]
  rw [transferFromGasHolder_ok _ _ hr (by dsimp only; omega)]
  dsimp only [Except.mapError, bind, Except.bind]
  have hzero : l.gasHolder - out.baseFeeBurn - out.minerTip - out.overEstimationBurn - out.refund
      = 0 := by omega
  simp only [hzero, ne_eq, not_true_eq_false, if_false]
  refine ⟨_, rfl, fun S hburnt hreward hfrom => ?_⟩
  -- each payout is a deposit into a member of `S`
  rw [sum_update_add _ _ hfrom, sum_update_add _ _ hburnt, sum_update_add _ _ hreward,
    sum_update_add _ _ hburnt]
  omega

end GasLedger

/-- `gascost` in `ApplyMessage`: `BigMul(NewInt(uint64(msg.GasLimit)), msg.GasFeeCap)`. -/
def gasCost (msg : Message) : ℤ :=
  (msg.gasLimit % 2 ^ 64) * msg.gasFeeCap

/-- The withdrawal of `ApplyMessage` into a fresh, empty gas holder; it runs once the sender's
balance has been checked against `gasCost`. -/
def withdrawGas (balance : Address → ℤ) (msg : Message) : Except String GasLedger :=
  (GasLedger.transferToGasHolder ⟨balance, 0⟩ msg.fromAddr (gasCost msg)).mapError
    ("failed to withdraw gas funds: " ++ ·)

lemma gasCost_eq {msg : Message} (h0 : 0 ≤ msg.gasLimit) (hmax : msg.gasLimit ≤ blockGasLimit) :
    gasCost msg = msg.gasLimit * msg.gasFeeCap := by
  have hlt : msg.gasLimit < 2 ^ 64 := lt_of_le_of_lt hmax (by decide)
  rw [gasCost, Int.emod_eq_of_lt h0 hlt]

/-- The withdrawal succeeds once the sender covers `gasCost`, and leaves exactly that in the
holder. -/
lemma withdrawGas_ok (balance : Address → ℤ) {msg : Message} (h0 : 0 ≤ gasCost msg)
    (hle : gasCost msg ≤ balance msg.fromAddr) :
    withdrawGas balance msg =
      .ok ⟨Function.update balance msg.fromAddr (balance msg.fromAddr - gasCost msg),
        gasCost msg⟩ := by
  unfold withdrawGas
  rw [GasLedger.transferToGasHolder_ok _ _ h0 hle]
  simp [Except.mapError]

/-! ## The runtime's gas meter -/

/-- The gas fields of a `Runtime`; `makeRuntime` starts them at `0` and `msg.GasLimit`. -/
structure GasMeter where
  gasUsed : ℤ
  gasAvailable : ℤ

/-- `Runtime.chargeGasInternal`: a charge that does not fit pins `gasUsed` at `gasAvailable`
and fails with `SysErrOutOfGas`. -/
def chargeGasInternal (rt : GasMeter) (toUse : ℤ) : GasMeter × Option String :=
  -- overflow safe
  if rt.gasUsed > int64 (rt.gasAvailable - toUse) then
    ({ rt with gasUsed := rt.gasAvailable },
      some ("not enough gas: used=" ++ toString rt.gasUsed ++ ", available=" ++
        toString rt.gasAvailable ++ ", use=" ++ toString toUse))
  else ({ rt with gasUsed := int64 (rt.gasUsed + toUse) }, none)

/-- The meter's invariant: the gas used stays in `[0, gasAvailable]`, and `gasAvailable` is an
`int64`. -/
def MeterInv (rt : GasMeter) : Prop :=
  0 ≤ rt.gasUsed ∧ rt.gasUsed ≤ rt.gasAvailable ∧ rt.gasAvailable < 2 ^ 63

@[simp] lemma chargeGasInternal_gasAvailable (rt : GasMeter) (toUse : ℤ) :
    (chargeGasInternal rt toUse).1.gasAvailable = rt.gasAvailable := by
  unfold chargeGasInternal
  split_ifs <;> rfl

lemma chargeGasInternal_meterInv {rt : GasMeter} {toUse : ℤ} (h : MeterInv rt)
    (h0 : 0 ≤ toUse) (h1 : toUse < 2 ^ 63) : MeterInv (chargeGasInternal rt toUse).1 := by
  obtain ⟨hu, hua, ha⟩ := h
  have hsub : int64 (rt.gasAvailable - toUse) = rt.gasAvailable - toUse :=
    int64_of_inRange ⟨by omega, by omega⟩
  by_cases hover : rt.gasUsed > rt.gasAvailable - toUse
  · simp only [MeterInv, chargeGasInternal, hsub, if_pos hover]
    omega
  · -- the charge fits, so the sum is below `gasAvailable` and does not wrap
    have hadd : int64 (rt.gasUsed + toUse) = rt.gasUsed + toUse :=
      int64_of_inRange ⟨by omega, by omega⟩
    simp only [MeterInv, chargeGasInternal, hsub, if_neg hover, hadd]
    omega

/-- **The gas `ApplyMessage` prices lies in `[0, GasLimit]`**: after any sequence of
nonnegative `int64` charges on the meter `makeRuntime` builds, the clamped `gasUsed` is at least
zero and at most the message's gas limit. -/
theorem applyMessage_gasUsed_mem (msg : Message) (charges : List ℤ) (h0 : 0 ≤ msg.gasLimit)
    (hmax : msg.gasLimit ≤ blockGasLimit) (hc : ∀ t ∈ charges, 0 ≤ t ∧ t < 2 ^ 63) :
    let rt := Run.run (fun rt toUse => (chargeGasInternal rt toUse).1) ⟨0, msg.gasLimit⟩ charges
    let gasUsed := if rt.gasUsed < 0 then 0 else rt.gasUsed
    0 ≤ gasUsed ∧ gasUsed ≤ msg.gasLimit := by
  have hinit : MeterInv ⟨0, msg.gasLimit⟩ := ⟨le_rfl, h0, lt_of_le_of_lt hmax (by decide)⟩
  -- no charge changes `gasAvailable`, so the meter's bound stays the message's gas limit
  obtain ⟨⟨hu, hua, -⟩, havail⟩ := Run.run_invariant_mem
    (P := fun rt => MeterInv rt ∧ rt.gasAvailable = msg.gasLimit)
    (fun rt toUse hrt ht => ⟨chargeGasInternal_meterInv hrt.1 ht.1 ht.2, by simp [hrt.2]⟩)
    charges ⟨hinit, rfl⟩ hc
  dsimp only
  rw [if_neg (not_lt.mpr hu)]
  exact ⟨hu, hua.trans havail.le⟩

/-- A transfer's meter charged twice, the second time past its gas limit. -/
theorem applyMessage_gasUsed_mem_outOfGas :
    let rt := Run.run (fun rt toUse => (chargeGasInternal rt toUse).1) ⟨0, 1000000⟩
      [500000, 600000]
    let gasUsed := if rt.gasUsed < 0 then 0 else rt.gasUsed
    0 ≤ gasUsed ∧ gasUsed ≤ 1000000 :=
  applyMessage_gasUsed_mem ⟨0, ⟨"t01000"⟩, ⟨"t01001"⟩, 0, 1, 1000000, 100, 10, 0, []⟩
    [500000, 600000] (by decide) (by decide) (by decide)

/-! ## Gas accounting of a message -/

/-- **Gas accounting neither mints nor destroys funds.**  For a message that passes
`ValidForBlockInclusion`, a nonnegative base fee and gas used in `[0, GasLimit]`: the unused gas
splits into a nonnegative refund and burn, and the burn grows with the gas limit; the five
amounts of `ComputeGasOutputs` are nonnegative and the four payouts add up to
`GasLimit * GasFeeCap`; the withdrawal leaves exactly that in the holder, and from a holder with
exactly that the payout succeeds, ends with an empty holder and credits the recipients with what
it held. -/
theorem applyMessage_gas_accounting (msg : Message) (minGas : ℤ) (version : ℕ)
    (hv : msg.validForBlockInclusion minGas version = .ok ()) (baseFee gasUsed : ℤ)
    (chargeNetworkFee : Bool) (hb : 0 ≤ baseFee) (h0 : 0 ≤ gasUsed)
    (hle : gasUsed ≤ msg.gasLimit) :
    let split := computeGasOverestimationBurn gasUsed msg.gasLimit
    let out := computeGasOutputs gasUsed msg.gasLimit baseFee msg.gasFeeCap msg.gasPremium
      chargeNetworkFee
    (0 ≤ split.1 ∧ 0 ≤ split.2 ∧ split.1 + split.2 = msg.gasLimit - gasUsed) ∧
    (∀ gasLimit₁ gasLimit₂, gasUsed ≤ gasLimit₁ → gasLimit₁ ≤ gasLimit₂ →
      gasLimit₂ ≤ blockGasLimit →
        (computeGasOverestimationBurn gasUsed gasLimit₁).2 ≤
          (computeGasOverestimationBurn gasUsed gasLimit₂).2) ∧
    (0 ≤ out.baseFeeBurn ∧ 0 ≤ out.minerTip ∧ 0 ≤ out.overEstimationBurn ∧ 0 ≤ out.refund ∧
      0 ≤ out.minerPenalty) ∧
    out.baseFeeBurn + out.minerTip + out.overEstimationBurn + out.refund =
      msg.gasLimit * msg.gasFeeCap ∧
    (∀ balance : Address → ℤ, gasCost msg ≤ balance msg.fromAddr →
      ∃ l, withdrawGas balance msg = .ok l ∧ l.gasHolder = msg.gasLimit * msg.gasFeeCap) ∧
    (∀ l : GasLedger, l.gasHolder = msg.gasLimit * msg.gasFeeCap →
      ∃ balance, l.settleGas msg.fromAddr out = .ok ⟨balance, 0⟩ ∧
        ∀ S : Finset Address, burntFundsActorAddr ∈ S → rewardAddress ∈ S → msg.fromAddr ∈ S →
          ∑ a ∈ S, balance a = ∑ a ∈ S, l.balance a + l.gasHolder) := by
  intro split out
  have hg := Message.gasBounds_of_valid hv
  have hmax := hg.gasLimit_le
  have hL0 : 0 ≤ msg.gasLimit := h0.trans hle
  obtain ⟨hburn0, hburn⟩ := overestimationBurn_mem h0 hle
  obtain ⟨hbf, htip, hover, hrefund, hpen⟩ :=
    computeGasOutputs_nonneg gasUsed msg.gasLimit baseFee msg.gasFeeCap msg.gasPremium
      chargeNetworkFee hb hg.premium_nonneg hg.premium_le_feeCap h0 hle hmax
  have hsum := computeGasOutputs_sum gasUsed msg.gasLimit baseFee msg.gasFeeCap msg.gasPremium
    chargeNetworkFee
  refine ⟨?_, ?_, ⟨hbf, htip, hover, hrefund, hpen⟩, hsum, ?_, ?_⟩
  · have hsplit : split = _ := computeGasOverestimationBurn_eq h0 hle hmax
    rw [hsplit]
    exact ⟨by omega, hburn0, by omega⟩
  · intro gasLimit₁ gasLimit₂ h1 h12 h2
    rw [computeGasOverestimationBurn_eq h0 h1 (h12.trans h2),
      computeGasOverestimationBurn_eq h0 (h1.trans h12) h2]
    exact overestimationBurn_mono h0 h1 h12
  · intro balance hbal
    have hcost := gasCost_eq hL0 hmax
    have hcost0 : 0 ≤ gasCost msg :=
      hcost ▸ mul_nonneg hL0 (hg.premium_nonneg.trans hg.premium_le_feeCap)
    exact ⟨_, withdrawGas_ok balance hcost0 hbal, hcost⟩
  · intro l hl
    exact l.settleGas_ok msg.fromAddr out hbf htip hover hrefund (hsum.trans hl.symm)

/-- A transfer with a gas limit of 1,000,000 at a fee cap of 100 that uses 600,000 gas at a base
fee of 100. -/
theorem applyMessage_gas_accounting_transfer :
    let msg : Message := ⟨0, ⟨"t01000"⟩, ⟨"t01001"⟩, 0, 1, 1000000, 100, 10, 0, []⟩
    (msg.validForBlockInclusion 0 networkVersion7 = .ok () ∧ (0 : ℤ) ≤ 100 ∧ (0 : ℤ) ≤ 600000 ∧
      (600000 : ℤ) ≤ msg.gasLimit) ∧
    let out := computeGasOutputs 600000 msg.gasLimit 100 msg.gasFeeCap msg.gasPremium true
    out.baseFeeBurn + out.minerTip + out.overEstimationBurn + out.refund =
      msg.gasLimit * msg.gasFeeCap ∧ 0 ≤ out.refund := by
  intro msg
  have hv : msg.validForBlockInclusion 0 networkVersion7 = .ok () := by decide
  obtain ⟨-, -, ⟨-, -, -, hrefund, -⟩, hsum, -, -⟩ :=
    applyMessage_gas_accounting msg 0 networkVersion7 hv 100 600000 true (by decide) (by decide)
      (by decide)
  exact ⟨⟨hv, by decide, by decide, by decide⟩, hsum, hrefund⟩

end Lotus
