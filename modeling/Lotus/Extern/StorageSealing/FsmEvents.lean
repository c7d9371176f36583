import Lotus.Extern.StorageSealing.Types

/-!
# Sector events (`extern/storage-sealing/fsm_events.go`)

Every event type of the sealing state machine is a constructor of `SectorEvent`, with the fields
the source gives it (an embedded `error` is its text).  The planners match events by their Go
type, which is `SectorEvent.kind`.

An event is a `mutator` (its `apply` writes the fields it carries into the `SectorInfo`), a
`globalMutator` (`applyGlobal`, accepted in every state, which also says whether planning stops
there), or neither.  `SectorStartPacking` is the one `Ignorable` event.  No `apply` writes the
sector's state (`apply_state`); moving between states is the planners' business.

Two events read something besides their fields.  `SectorAddPiece` sets the creation time from the
clock when it is unset, and carries the clock value its `apply` reads.  `SectorUpdateDealIDs`
writes deal IDs by piece index and panics on an index out of range or a piece without a deal; the
model leaves such a piece alone.
-/

namespace Lotus

namespace Sealing

/-- The Go type of a sector event. -/
inductive EventKind where
  | sectorRestart
  | sectorFatalError
  | sectorForceState
  | sectorStart
  | sectorStartCC
  | sectorAddPiece
  | sectorPieceAdded
  | sectorAddPieceFailed
  | sectorStartPacking
  | sectorPacked
  | sectorTicket
  | sectorOldTicket
  | sectorPreCommit1
  | sectorPreCommit2
  | sectorPreCommitBatch
  | sectorPreCommitBatchSent
  | sectorPreCommitLanded
  | sectorSealPreCommit1Failed
  | sectorSealPreCommit2Failed
  | sectorChainPreCommitFailed
  | sectorPreCommitted
  | sectorSeedReady
  | sectorComputeProofFailed
  | sectorCommitFailed
  | sectorRetrySubmitCommit
  | sectorDealsExpired
  | sectorTicketExpired
  | sectorCommitted
  | sectorProofReady
  | sectorSubmitCommitAggregate
  | sectorCommitSubmitted
  | sectorCommitAggregateSent
  | sectorProving
  | sectorFinalized
  | sectorRetryFinalize
  | sectorFinalizeFailed
  | sectorRetrySealPreCommit1
  | sectorRetrySealPreCommit2
  | sectorRetryPreCommit
  | sectorRetryWaitSeed
  | sectorRetryPreCommitWait
  | sectorRetryComputeProof
  | sectorRetryInvalidProof
  | sectorRetryCommitWait
  | sectorInvalidDealIDs
  | sectorUpdateDealIDs
  | sectorFaulty
  | sectorFaultReported
  | sectorFaultedFinal
  | sectorTerminate
  | sectorTerminating
  | sectorTerminated
  | sectorTerminateFailed
  | sectorRemove
  | sectorRemoved
  | sectorRemoveFailed
  deriving DecidableEq, Repr

/-- A sector event, with its fields. -/
inductive SectorEvent where
  | sectorRestart
  | sectorFatalError (error : String)
  | sectorForceState (state : SectorState)
  | sectorStart (id : ℕ) (sectorType : ℤ)
  | sectorStartCC (id : ℕ) (sectorType : ℤ)
  | sectorAddPiece (now : ℤ)
  | sectorPieceAdded (newPieces : List Piece)
  | sectorAddPieceFailed (error : String)
  | sectorStartPacking
  | sectorPacked (fillerPieces : List PieceInfo)
  | sectorTicket (ticketValue : List UInt8) (ticketEpoch : ℤ)
  | sectorOldTicket
  | sectorPreCommit1 (preCommit1Out : List UInt8)
  | sectorPreCommit2 (sealed unsealed : ℕ)
  | sectorPreCommitBatch
  | sectorPreCommitBatchSent (message : ℕ)
  | sectorPreCommitLanded (tipSet : List UInt8)
  | sectorSealPreCommit1Failed (error : String)
  | sectorSealPreCommit2Failed (error : String)
  | sectorChainPreCommitFailed (error : String)
  | sectorPreCommitted (message : ℕ) (preCommitDeposit : ℤ) (preCommitInfo : ℕ)
  | sectorSeedReady (seedValue : List UInt8) (seedEpoch : ℤ)
  | sectorComputeProofFailed (error : String)
  | sectorCommitFailed (error : String)
  | sectorRetrySubmitCommit
  | sectorDealsExpired (error : String)
  | sectorTicketExpired (error : String)
  | sectorCommitted (proof : List UInt8)
  | sectorProofReady (proof : List UInt8)
  | sectorSubmitCommitAggregate
  | sectorCommitSubmitted (message : ℕ)
  | sectorCommitAggregateSent (message : ℕ)
  | sectorProving
  | sectorFinalized
  | sectorRetryFinalize
  | sectorFinalizeFailed (error : String)
  | sectorRetrySealPreCommit1
  | sectorRetrySealPreCommit2
  | sectorRetryPreCommit
  | sectorRetryWaitSeed
  | sectorRetryPreCommitWait
  | sectorRetryComputeProof
  | sectorRetryInvalidProof
  | sectorRetryCommitWait
  | sectorInvalidDealIDs (returnState : Option SectorState)
  | sectorUpdateDealIDs (updates : List (ℕ × ℕ))
  | sectorFaulty
  | sectorFaultReported (reportMsg : ℕ)
  | sectorFaultedFinal
  | sectorTerminate
  | sectorTerminating (message : Option ℕ)
  | sectorTerminated (terminatedAt : ℤ)
  | sectorTerminateFailed (error : String)
  | sectorRemove
  | sectorRemoved
  | sectorRemoveFailed (error : String)
  deriving DecidableEq, Repr

namespace SectorEvent

/-- `reflect.TypeOf` of the event. -/
def kind : SectorEvent → EventKind
  | sectorRestart => .sectorRestart
  | sectorFatalError _ => .sectorFatalError
  | sectorForceState _ => .sectorForceState
  | sectorStart .. => .sectorStart
  | sectorStartCC .. => .sectorStartCC
  | sectorAddPiece _ => .sectorAddPiece
  | sectorPieceAdded _ => .sectorPieceAdded
  | sectorAddPieceFailed _ => .sectorAddPieceFailed
  | sectorStartPacking => .sectorStartPacking
  | sectorPacked _ => .sectorPacked
  | sectorTicket .. => .sectorTicket
  | sectorOldTicket => .sectorOldTicket
  | sectorPreCommit1 _ => .sectorPreCommit1
  | sectorPreCommit2 .. => .sectorPreCommit2
  | sectorPreCommitBatch => .sectorPreCommitBatch
  | sectorPreCommitBatchSent _ => .sectorPreCommitBatchSent
  | sectorPreCommitLanded _ => .sectorPreCommitLanded
  | sectorSealPreCommit1Failed _ => .sectorSealPreCommit1Failed
  | sectorSealPreCommit2Failed _ => .sectorSealPreCommit2Failed
  | sectorChainPreCommitFailed _ => .sectorChainPreCommitFailed
  | sectorPreCommitted .. => .sectorPreCommitted
  | sectorSeedReady .. => .sectorSeedReady
  | sectorComputeProofFailed _ => .sectorComputeProofFailed
  | sectorCommitFailed _ => .sectorCommitFailed
  | sectorRetrySubmitCommit => .sectorRetrySubmitCommit
  | sectorDealsExpired _ => .sectorDealsExpired
  | sectorTicketExpired _ => .sectorTicketExpired
  | sectorCommitted _ => .sectorCommitted
  | sectorProofReady _ => .sectorProofReady
  | sectorSubmitCommitAggregate => .sectorSubmitCommitAggregate
  | sectorCommitSubmitted _ => .sectorCommitSubmitted
  | sectorCommitAggregateSent _ => .sectorCommitAggregateSent
  | sectorProving => .sectorProving
  | sectorFinalized => .sectorFinalized
  | sectorRetryFinalize => .sectorRetryFinalize
  | sectorFinalizeFailed _ => .sectorFinalizeFailed
  | sectorRetrySealPreCommit1 => .sectorRetrySealPreCommit1
  | sectorRetrySealPreCommit2 => .sectorRetrySealPreCommit2
  | sectorRetryPreCommit => .sectorRetryPreCommit
  | sectorRetryWaitSeed => .sectorRetryWaitSeed
  | sectorRetryPreCommitWait => .sectorRetryPreCommitWait
  | sectorRetryComputeProof => .sectorRetryComputeProof
  | sectorRetryInvalidProof => .sectorRetryInvalidProof
  | sectorRetryCommitWait => .sectorRetryCommitWait
  | sectorInvalidDealIDs _ => .sectorInvalidDealIDs
  | sectorUpdateDealIDs _ => .sectorUpdateDealIDs
  | sectorFaulty => .sectorFaulty
  | sectorFaultReported _ => .sectorFaultReported
  | sectorFaultedFinal => .sectorFaultedFinal
  | sectorTerminate => .sectorTerminate
  | sectorTerminating _ => .sectorTerminating
  | sectorTerminated _ => .sectorTerminated
  | sectorTerminateFailed _ => .sectorTerminateFailed
  | sectorRemove => .sectorRemove
  | sectorRemoved => .sectorRemoved
  | sectorRemoveFailed _ => .sectorRemoveFailed

/-- `state.Pieces[i].DealInfo.DealID = id`. -/
def setDealID (pieces : List Piece) (update : ℕ × ℕ) : List Piece :=
  pieces.modify update.1 fun p => { p with dealInfo := p.dealInfo.map fun _ => ⟨update.2⟩ }

/-- `apply` of a `mutator`; the events whose `apply` is empty, and those that are no mutator,
leave the sector as it is. -/
def apply : SectorEvent → SectorInfo → SectorInfo
  | sectorStart id ty, s => { s with sectorNumber := id, sectorType := ty }
  | sectorStartCC id ty, s => { s with sectorNumber := id, sectorType := ty }
  | sectorAddPiece now, s => if s.creationTime = 0 then { s with creationTime := now } else s
  | sectorPieceAdded newPieces, s => { s with pieces := s.pieces ++ newPieces }
  -- filler pieces don't have deals associated with them
  | sectorPacked fillerPieces, s =>
    { s with pieces := s.pieces ++ fillerPieces.map fun p => ⟨p, none⟩ }
  | sectorTicket value epoch, s => { s with ticketEpoch := epoch, ticketValue := value }
  | sectorPreCommit1 out, s => { s with preCommit1Out := out, preCommit2Fails := 0 }
  | sectorPreCommit2 sealed unsealed, s => { s with commD := some unsealed, commR := some sealed }
  | sectorPreCommitBatchSent message, s => { s with preCommitMessage := some message }
  | sectorPreCommitLanded tipSet, s => { s with preCommitTipSet := tipSet }
  | sectorSealPreCommit1Failed _, s => { s with invalidProofs := 0, preCommit2Fails := 0 }
  | sectorSealPreCommit2Failed _, s =>
    { s with invalidProofs := 0, preCommit2Fails := (s.preCommit2Fails + 1) % 2 ^ 64 }
  | sectorPreCommitted message deposit info, s =>
    { s with preCommitMessage := some message, preCommitDeposit := deposit,
             preCommitInfo := some info }
  | sectorSeedReady value epoch, s => { s with seedEpoch := epoch, seedValue := value }
  | sectorCommitted proof, s => { s with proof := proof }
  | sectorProofReady proof, s => { s with proof := proof }
  | sectorCommitSubmitted message, s => { s with commitMessage := some message }
  | sectorCommitAggregateSent message, s => { s with commitMessage := some message }
  | sectorRetryComputeProof, s => { s with invalidProofs := (s.invalidProofs + 1) % 2 ^ 64 }
  | sectorRetryInvalidProof, s => { s with invalidProofs := (s.invalidProofs + 1) % 2 ^ 64 }
  | sectorInvalidDealIDs ret, s => { s with returnState := ret }
  | sectorUpdateDealIDs updates, s => { s with pieces := updates.foldl setDealID s.pieces }
  | sectorFaultReported reportMsg, s => { s with faultReportMsg := some reportMsg }
  | sectorTerminating message, s => { s with terminateMessage := message }
  | sectorTerminated at', s => { s with terminatedAt := at' }
  | _, s => s

/-- `applyGlobal` of a `globalMutator`: the new sector, and whether event processing stops;
`none` for the other events. -/
def applyGlobal : SectorEvent → SectorInfo → Option (SectorInfo × Bool)
  | sectorRestart, s => some (s, false)
  | sectorFatalError _, s => some (s, true)
  | sectorForceState st, s => some ({ s with state := st }, true)
  | sectorTerminate, s => some ({ s with state := .terminating }, true)
  | sectorRemove, s => some ({ s with state := .removing }, true)
  | _, _ => none

/-- The events that implement `Ignorable`. -/
def ignorable : SectorEvent → Bool
  | sectorStartPacking => true
  | _ => false

/-- No `apply` moves the sector to another state. -/
@[simp]
theorem apply_state (e : SectorEvent) (s : SectorInfo) : (e.apply s).state = s.state := by
  cases e
  case sectorAddPiece now =>
    -- the one `apply` with a branch
    by_cases h : s.creationTime = 0 <;> simp only [apply, h, if_true, if_false]
  all_goals rfl

/-- A global event that does not stop planning leaves the sector as it is. -/
theorem applyGlobal_continue {e : SectorEvent} {s s' : SectorInfo}
    (h : e.applyGlobal s = some (s', false)) : s' = s := by
  cases e <;> simp only [applyGlobal, Option.some.injEq, Prod.mk.injEq, reduceCtorEq, and_false,
    and_true] at h
  exact h.symm

end SectorEvent

end Sealing

end Lotus
