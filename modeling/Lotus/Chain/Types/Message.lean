import Mathlib

/-!
# Messages (`chain/types/message.go`, `build/params_shared_vals.go`)

The data every message-pool and VM model below reads: `Message` with the fields of the Go struct,
the constants `BlockGasLimit` and `TotalFilecoinInt`, `Message.RequiredFunds` and
`Message.ValidForBlockInclusion` with each of its error texts.

Integers follow their Go types: `uint64` fields (`Version`, `Nonce`, `Method`) are `ℕ`, the
`int64` field `GasLimit` and the big-integer token amounts are `ℤ`.  `RequiredFunds` converts
`GasLimit` with `uint64(...)`, which on a negative value wraps; that conversion is kept as
`% 2 ^ 64`.

An `Address` is its encoded string, and `address.Undef` is the empty one; only equality of
addresses is ever used.
-/

namespace Lotus

/-- `address.Address`: the encoded string; `Undef` is the zero value. -/
structure Address where
  str : String
  deriving DecidableEq, Repr

/-- `address.Undef`. -/
def Address.undef : Address := ⟨""⟩

/-- `build.ZeroAddress`, the BLS public key of all zeroes. -/
def zeroAddress : Address :=
  ⟨"f3yaaaaaaaaaaaaaaaaaaaaaaaaaaaaaaaaaaaaaaaaaaaaaaaaaaaaaaaaaaaaaaaaaaaaaaaaaaaby2smx7a"⟩

/-- `build.BlockGasLimit`. -/
def blockGasLimit : ℤ := 10000000000

/-- `types.TotalFilecoinInt = FromFil(build.FilBase)`: two billion FIL in attoFIL. -/
def totalFilecoinInt : ℤ := 2000000000 * 1000000000000000000

/-- `network.Version7`, from which sending to the zero address is refused. -/
def networkVersion7 : ℕ := 7

/-- `types.Message`; `toAddr` and `fromAddr` are the `To` and `From` fields. -/
structure Message where
  version : ℕ
  toAddr : Address
  fromAddr : Address
  nonce : ℕ
  value : ℤ
  gasLimit : ℤ
  gasFeeCap : ℤ
  gasPremium : ℤ
  method : ℕ
  params : List UInt8
  deriving DecidableEq, Repr

namespace Message

/-- `Message.RequiredFunds`: `GasFeeCap * uint64(GasLimit)`. -/
def requiredFunds (m : Message) : ℤ :=
  m.gasFeeCap * (m.gasLimit % 2 ^ 64)

/-- `Message.ValidForBlockInclusion`, with the text of each refusal.  `minGas` is the on-chain
cost of storing the message, which the caller computes from the price list. -/
def validForBlockInclusion (m : Message) (minGas : ℤ) (version : ℕ) : Except String Unit :=
  if m.version ≠ 0 then .error "'Version' unsupported"
  else if m.toAddr = Address.undef then .error "'To' address cannot be empty"
  else if m.toAddr = zeroAddress ∧ version ≥ networkVersion7 then .error "invalid 'To' address"
  else if m.fromAddr = Address.undef then .error "'From' address cannot be empty"
  else if m.value < 0 then .error "'Value' field cannot be negative"
  else if m.value > totalFilecoinInt then
    .error "'Value' field cannot be greater than total filecoin supply"
  else if m.gasFeeCap < 0 then .error "'GasFeeCap' field cannot be negative"
  else if m.gasPremium < 0 then .error "'GasPremium' field cannot be negative"
  else if m.gasPremium > m.gasFeeCap then .error "'GasFeeCap' less than 'GasPremium'"
  else if m.gasLimit > blockGasLimit then
    .error "'GasLimit' field cannot be greater than a block's gas limit"
  else if m.gasLimit < minGas then
    .error "'GasLimit' field cannot be less than the cost of storing a message on chain"
  else .ok ()

/-- What a message accepted for block inclusion guarantees about its gas fields. -/
structure GasBounds (m : Message) (minGas : ℤ) : Prop where
  premium_nonneg : 0 ≤ m.gasPremium
  premium_le_feeCap : m.gasPremium ≤ m.gasFeeCap
  minGas_le_gasLimit : minGas ≤ m.gasLimit
  gasLimit_le : m.gasLimit ≤ blockGasLimit

/-- Every message `ValidForBlockInclusion` accepts has its gas fields in range: the nine checks
before the last two are about other fields, and each of those two refuses one side. -/
lemma gasBounds_of_valid {m : Message} {minGas : ℤ} {version : ℕ}
    (h : m.validForBlockInclusion minGas version = .ok ()) : m.GasBounds minGas := by
  simp only [validForBlockInclusion] at h
  -- every check is an early refusal; passing all eleven leaves their negations
  repeat (split at h; · cases h)
  exact ⟨by linarith, by linarith, by linarith, by linarith⟩

/-- A message accepted for block inclusion names its sender. -/
lemma fromAddr_ne_undef_of_valid {m : Message} {minGas : ℤ} {version : ℕ}
    (h : m.validForBlockInclusion minGas version = .ok ()) : m.fromAddr ≠ Address.undef := by
  simp only [validForBlockInclusion] at h
  repeat (split at h; · cases h)
  assumption

end Message

/-- `crypto.SigType`. -/
inductive SigType
  | secp256k1
  | bls
  deriving DecidableEq, Repr

/-- `crypto.Signature`. -/
structure Signature where
  type : SigType
  data : List UInt8
  deriving DecidableEq, Repr

/-- `types.SignedMessage`. -/
structure SignedMessage where
  message : Message
  signature : Signature
  deriving DecidableEq, Repr

end Lotus
