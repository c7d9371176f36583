import Mathlib

/-!
# Sector states and `SectorInfo` (`extern/storage-sealing/sector_state.go`, `types.go`)

`SectorState` is a string in the source; the model has one constructor for each named state,
`undefinedSectorState` being the empty string.  `SectorInfo` keeps the fields that the sealing
code modelled here reads or writes.  CIDs are numbers, byte strings are lists of bytes, and
pointers that may be `nil` are `Option`s.  A `ReturnState` is the state it names, and the empty
one is `none`.  The derived default value is Go's zero value.
-/

namespace Lotus

namespace Sealing

/-- `SectorState`. -/
inductive SectorState where
  | undefinedSectorState
  | empty
  | waitDeals
  | addPiece
  | packing
  | getTicket
  | preCommit1
  | preCommit2
  | preCommitting
  | preCommitWait
  | submitPreCommitBatch
  | preCommitBatchWait
  | waitSeed
  | committing
  | commitFinalize
  | commitFinalizeFailed
  | submitCommit
  | commitWait
  | submitCommitAggregate
  | commitAggregateWait
  | finalizeSector
  | proving
  | failedUnrecoverable
  | addPieceFailed
  | sealPreCommit1Failed
  | sealPreCommit2Failed
  | preCommitFailed
  | computeProofFailed
  | commitFailed
  | packingFailed
  | finalizeFailed
  | dealsExpired
  | recoverDealIDs
  | faulty
  | faultReported
  | faultedFinal
  | terminating
  | terminateWait
  | terminateFinality
  | terminateFailed
  | removing
  | removeFailed
  | removed
  deriving DecidableEq, Repr, Inhabited

/-- `abi.PieceInfo`. -/
structure PieceInfo where
  size : ℕ
  pieceCID : ℕ
  deriving DecidableEq, Repr, Inhabited

/-- `DealInfo`, with the one field the modelled code writes. -/
structure DealInfo where
  dealID : ℕ
  deriving DecidableEq, Repr, Inhabited

/-- `Piece`: a piece, and its deal unless it is a filler piece. -/
structure Piece where
  piece : PieceInfo
  dealInfo : Option DealInfo
  deriving DecidableEq, Repr, Inhabited

/-- `SectorInfo`.  `returnState` is the source's `Return`. -/
structure SectorInfo where
  state : SectorState
  sectorNumber : ℕ
  sectorType : ℤ
  creationTime : ℤ
  pieces : List Piece
  ticketValue : List UInt8
  ticketEpoch : ℤ
  preCommit1Out : List UInt8
  commD : Option ℕ
  commR : Option ℕ
  proof : List UInt8
  preCommitInfo : Option ℕ
  preCommitDeposit : ℤ
  preCommitMessage : Option ℕ
  preCommitTipSet : List UInt8
  preCommit2Fails : ℕ
  seedValue : List UInt8
  seedEpoch : ℤ
  commitMessage : Option ℕ
  invalidProofs : ℕ
  faultReportMsg : Option ℕ
  returnState : Option SectorState
  terminateMessage : Option ℕ
  terminatedAt : ℤ
  deriving DecidableEq, Repr, Inhabited

/-- `dealIDs`: the deal IDs of the sector's deal pieces. -/
def SectorInfo.dealIDs (s : SectorInfo) : List ℕ :=
  s.pieces.filterMap fun p => p.dealInfo.map DealInfo.dealID

end Sealing

end Lotus
