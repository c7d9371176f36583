import Mathlib
import Lotus.Lib.GoInt

/-!
# Payment channel vouchers and the stored `ChannelInfo` (`paychmgr/store.go`)

A `SignedVoucher` is the specs-actors voucher: every field is kept, because the store compares
vouchers whole (`cborutil.Equals` on their encodings) and a voucher's signature covers all of
them.  Addresses and CIDs are numbers, `uint64` fields are natural numbers below `2 ^ 64`,
token amounts and epochs are integers, and a `nil` pointer is `none`.

`ChannelInfo` keeps the fields the voucher code reads or writes: the local `Control` address, the
stored vouchers in the order they were appended, and `NextLane`.  One channel is modelled, so
`ByAddress` always finds it; the datastore neither fails nor changes between the reads of one
locked call.
-/

namespace Lotus

namespace Paych

/-- `paych.Merge`. -/
structure Merge where
  lane : ℕ
  nonce : ℕ
  deriving DecidableEq, Repr

/-- `paych.ModVerifyParams`. -/
structure ModVerifyParams where
  actor : ℕ
  method : ℕ
  data : List UInt8
  deriving DecidableEq, Repr

/-- `crypto.Signature`. -/
structure Signature where
  type : ℕ
  data : List UInt8
  deriving DecidableEq, Repr

/-- `paych.SignedVoucher`. -/
structure SignedVoucher where
  channelAddr : ℕ
  timeLockMin : ℤ
  timeLockMax : ℤ
  secretPreimage : List UInt8
  extra : Option ModVerifyParams
  lane : ℕ
  nonce : ℕ
  amount : ℤ
  minSettleHeight : ℤ
  merges : List Merge
  signature : Option Signature
  deriving DecidableEq, Repr

/-- `SigningBytes`: the voucher encoded without its signature. -/
def SignedVoucher.signingBytes (sv : SignedVoucher) : SignedVoucher :=
  { sv with signature := none }

/-- `VoucherInfo`, without the `Proof` the code ignores. -/
structure VoucherInfo where
  voucher : SignedVoucher
  submitted : Bool
  deriving DecidableEq, Repr

/-- `ChannelInfo`: the fields the voucher code uses. -/
structure ChannelInfo where
  control : ℕ
  vouchers : List VoucherInfo
  nextLane : ℕ
  deriving DecidableEq, Repr

namespace ChannelInfo

/-- `infoForVoucher`: the first stored voucher equal to `sv`. -/
def infoForVoucher (ci : ChannelInfo) (sv : SignedVoucher) : Option VoucherInfo :=
  ci.vouchers.find? fun v => v.voucher == sv

/-- `hasVoucher`. -/
def hasVoucher (ci : ChannelInfo) (sv : SignedVoucher) : Bool :=
  (ci.infoForVoucher sv).isSome

/-- `wasVoucherSubmitted`. -/
def wasVoucherSubmitted (ci : ChannelInfo) (sv : SignedVoucher) : Except String Bool :=
  match ci.infoForVoucher sv with
  | none => .error "cannot submit voucher that has not been added to channel"
  | some vi => .ok vi.submitted

/-- `markVoucherSubmitted`: the stored voucher equal to `sv`, and every voucher of a lower nonce
on its lane, are marked submitted.  The pointer `infoForVoucher` returns is the first equal
entry, so that entry is the one marked. -/
def markVoucherSubmitted (ci : ChannelInfo) (sv : SignedVoucher) : Except String ChannelInfo :=
  match ci.vouchers.findIdx? (fun v => v.voucher == sv) with
  | none => .error "cannot submit voucher that has not been added to channel"
  | some i =>
    let vouchers := ci.vouchers.modify i fun vi => { vi with submitted := true }
    .ok { ci with vouchers := vouchers.map fun vi =>
      if vi.voucher.lane = sv.lane ∧ vi.voucher.nonce < sv.nonce then { vi with submitted := true }
      else vi }

end ChannelInfo

/-- `Store.AllocateLane`: the lane handed out, and the stored info with `NextLane++`. -/
def allocateLane (ci : ChannelInfo) : ℕ × ChannelInfo :=
  (ci.nextLane, { ci with nextLane := GoInt.uint64 (ci.nextLane + 1 : ℕ) })

/-- The lanes of the stored vouchers. -/
def ChannelInfo.lanes (ci : ChannelInfo) : List ℕ :=
  ci.vouchers.map fun v => v.voucher.lane

/-- Below the last `uint64`, `AllocateLane` hands out `NextLane` and moves it up by one. -/
theorem allocateLane_of_lt {ci : ChannelInfo} (h : ci.nextLane + 1 < 2 ^ 64) :
    allocateLane ci = (ci.nextLane, { ci with nextLane := ci.nextLane + 1 }) := by
  simp only [allocateLane, GoInt.uint64_of_lt h]

end Paych

end Lotus
