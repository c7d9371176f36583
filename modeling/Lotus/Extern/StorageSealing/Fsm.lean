import Lotus.Lib.Planner
import Lotus.Extern.StorageSealing.FsmEvents

/-!
# The sealing state machine's planners (`extern/storage-sealing/fsm.go`)

`fsmPlanners` gives each sector state its planner.  Almost all are `planOne` of a list of
transitions: a global event is applied and ends the call; an event whose type has a transition
is applied and then either moves the sector (`on`, `onReturning`: the call ends) or leaves it
where it is (`apply`: the call goes on); an `Ignorable` event is skipped; any other event is an
error.  The final states accept only global events (`final`).  `Committing` has a planner of its
own, `planCommitting`, which keeps consuming events after it has moved the sector.

`go-statemachine` hands a planner every queued event.  Delivering them one at a time instead
gives the same sector and the same outcome as long as no batch makes `planCommitting` go on past
an event that took the sector out of `Committing` (`planBatched_eq_planSingle_of_handoffFree`).
Such a batch is planned under `Committing`'s rules where one at a time it would be planned under
the rules of the new state; a stray `SectorStartPacking` after `SectorCommitted` is skipped one at
a time but fails the batch (`planCommitting_batch_diverges`).

Errors are the values the source formats into its messages.
-/

namespace Lotus

namespace Sealing

open StateMachine

/-- The errors of the planners, with what their messages name. -/
inductive PlanError where
  /-- "planner for state %s received unexpected event %T (%+v)" -/
  | unexpectedEvent (state : SectorState) (kind : EventKind)
  /-- "return state not set" -/
  | returnStateNotSet
  /-- "planCommitting got event of unknown type %T, events: %+v" -/
  | unknownCommittingEvent (kind : EventKind)
  /-- "didn't expect any events in state %s, got %+v" -/
  | noEventsExpected (state : SectorState)
  deriving DecidableEq, Repr

/-- What a transition of `planOne` does once its event is applied: `on` moves the sector,
`apply` leaves it and lets planning go on, `onReturning` moves it to its return state. -/
inductive Transition where
  | on (next : SectorState)
  | apply
  | onReturning
  deriving DecidableEq, Repr

/-- The `next` function of a transition: the new sector, whether planning goes on, and the
error. -/
def Transition.next : Transition → SectorInfo → SectorInfo × Bool × Option PlanError
  | .on next, state => ({ state with state := next }, false, none)
  | .apply, state => (state, true, none)
  | .onReturning, state =>
    match state.returnState with
    | none => (state, false, some .returnStateNotSet)
    | some ret => ({ state with state := ret, returnState := none }, false, none)

/-- `on(mut, next)`. -/
def on (kind : EventKind) (next : SectorState) : EventKind × Transition :=
  (kind, .on next)

/-- `apply(mut)`: like `on`, but doesn't change state. -/
def apply (kind : EventKind) : EventKind × Transition :=
  (kind, .apply)

/-- `onReturning(mut)`. -/
def onReturning (kind : EventKind) : EventKind × Transition :=
  (kind, .onReturning)

/-- `planOne(ts...)`. -/
def planOne (ts : List (EventKind × Transition)) : Planner SectorEvent SectorInfo PlanError
  | [], state => ⟨state, 0, none⟩
  | event :: events, state =>
    match event.applyGlobal state with
    | some (state, _) => ⟨state, 1, none⟩
    | none =>
      match ts.find? (fun t => t.1 == event.kind) with
      | some (_, next) =>
        let (state, more, err) := next.next (event.apply state)
        if err.isSome || !more then ⟨state, 1, err⟩
        else (planOne ts events state).shift
      | none =>
        if event.ignorable then (planOne ts events state).shift
        else ⟨state, 1, some (.unexpectedEvent state.state event.kind)⟩

/-- `planCommitting`. -/
def planCommitting : Planner SectorEvent SectorInfo PlanError
  | [], state => ⟨state, 0, none⟩
  | event :: events, state =>
    match event.applyGlobal state with
    | some (state, true) => ⟨state, 1, none⟩
    | some (state, false) => (planCommitting events state).shift
    | none =>
      match event with
      -- the normal case
      | .sectorCommitted _ =>
        (planCommitting events { event.apply state with state := .submitCommit }).shift
      -- early finalize
      | .sectorProofReady _ =>
        (planCommitting events { event.apply state with state := .commitFinalize }).shift
      -- seed changed, or it didn't
      | .sectorSeedReady seedValue seedEpoch =>
        if seedEpoch = state.seedEpoch ∧ seedValue = state.seedValue then
          (planCommitting events state).shift
        else ⟨{ event.apply state with state := .committing }, 1, none⟩
      | .sectorComputeProofFailed _ =>
        (planCommitting events { state with state := .computeProofFailed }).shift
      | .sectorSealPreCommit1Failed _ =>
        (planCommitting events { state with state := .sealPreCommit1Failed }).shift
      | .sectorCommitFailed _ =>
        (planCommitting events { state with state := .commitFailed }).shift
      | .sectorRetryCommitWait =>
        (planCommitting events { state with state := .commitWait }).shift
      | _ => ⟨state, 0, some (.unknownCommittingEvent event.kind)⟩

/-- `final`. -/
def final : Planner SectorEvent SectorInfo PlanError
  | event :: _, state =>
    match event.applyGlobal state with
    | some (state, _) => ⟨state, 1, none⟩
    | none => ⟨state, 0, some (.noEventsExpected state.state)⟩
  | [], state => ⟨state, 0, some (.noEventsExpected state.state)⟩

/-- `fsmPlanners`. -/
def fsmPlanners : SectorState → Planner SectorEvent SectorInfo PlanError
  -- Sealing
  | .undefinedSectorState => planOne [on .sectorStart .waitDeals, on .sectorStartCC .packing]
  -- deprecated
  | .empty => planOne [on .sectorAddPiece .addPiece, on .sectorStartPacking .packing]
  | .waitDeals => planOne [on .sectorAddPiece .addPiece, on .sectorStartPacking .packing]
  | .addPiece => planOne [on .sectorPieceAdded .waitDeals, apply .sectorStartPacking,
      apply .sectorAddPiece, on .sectorAddPieceFailed .addPieceFailed]
  | .packing => planOne [on .sectorPacked .getTicket]
  | .getTicket => planOne [on .sectorTicket .preCommit1, on .sectorCommitFailed .commitFailed]
  | .preCommit1 => planOne [on .sectorPreCommit1 .preCommit2,
      on .sectorSealPreCommit1Failed .sealPreCommit1Failed,
      on .sectorDealsExpired .dealsExpired, on .sectorInvalidDealIDs .recoverDealIDs,
      on .sectorOldTicket .getTicket]
  | .preCommit2 => planOne [on .sectorPreCommit2 .preCommitting,
      on .sectorSealPreCommit2Failed .sealPreCommit2Failed,
      on .sectorSealPreCommit1Failed .sealPreCommit1Failed]
  | .preCommitting => planOne [on .sectorPreCommitBatch .submitPreCommitBatch,
      on .sectorPreCommitted .preCommitWait,
      on .sectorSealPreCommit1Failed .sealPreCommit1Failed,
      on .sectorChainPreCommitFailed .preCommitFailed, on .sectorPreCommitLanded .waitSeed,
      on .sectorDealsExpired .dealsExpired, on .sectorInvalidDealIDs .recoverDealIDs]
  | .submitPreCommitBatch => planOne [on .sectorPreCommitBatchSent .preCommitBatchWait,
      on .sectorSealPreCommit1Failed .sealPreCommit1Failed,
      on .sectorChainPreCommitFailed .preCommitFailed, on .sectorPreCommitLanded .waitSeed,
      on .sectorDealsExpired .dealsExpired, on .sectorInvalidDealIDs .recoverDealIDs]
  | .preCommitBatchWait => planOne [on .sectorChainPreCommitFailed .preCommitFailed,
      on .sectorPreCommitLanded .waitSeed, on .sectorRetryPreCommit .preCommitting]
  | .preCommitWait => planOne [on .sectorChainPreCommitFailed .preCommitFailed,
      on .sectorPreCommitLanded .waitSeed, on .sectorRetryPreCommit .preCommitting]
  | .waitSeed => planOne [on .sectorSeedReady .committing,
      on .sectorChainPreCommitFailed .preCommitFailed]
  | .committing => planCommitting
  | .commitFinalize => planOne [on .sectorFinalized .submitCommit,
      on .sectorFinalizeFailed .commitFinalizeFailed]
  | .submitCommit => planOne [on .sectorCommitSubmitted .commitWait,
      on .sectorSubmitCommitAggregate .submitCommitAggregate,
      on .sectorCommitFailed .commitFailed]
  | .submitCommitAggregate => planOne [on .sectorCommitAggregateSent .commitWait,
      on .sectorCommitFailed .commitFailed, on .sectorRetrySubmitCommit .submitCommit]
  | .commitWait => planOne [on .sectorProving .finalizeSector,
      on .sectorCommitFailed .commitFailed, on .sectorRetrySubmitCommit .submitCommit]
  | .commitAggregateWait => planOne [on .sectorProving .finalizeSector,
      on .sectorCommitFailed .commitFailed, on .sectorRetrySubmitCommit .submitCommit]
  | .finalizeSector => planOne [on .sectorFinalized .proving,
      on .sectorFinalizeFailed .finalizeFailed]
  -- Sealing errors
  | .addPieceFailed => planOne []
  | .sealPreCommit1Failed => planOne [on .sectorRetrySealPreCommit1 .preCommit1]
  | .sealPreCommit2Failed => planOne [on .sectorRetrySealPreCommit1 .preCommit1,
      on .sectorRetrySealPreCommit2 .preCommit2]
  | .preCommitFailed => planOne [on .sectorRetryPreCommit .preCommitting,
      on .sectorRetryPreCommitWait .preCommitWait, on .sectorRetryWaitSeed .waitSeed,
      on .sectorSealPreCommit1Failed .sealPreCommit1Failed, on .sectorPreCommitLanded .waitSeed,
      on .sectorDealsExpired .dealsExpired, on .sectorInvalidDealIDs .recoverDealIDs]
  | .computeProofFailed => planOne [on .sectorRetryComputeProof .committing,
      on .sectorSealPreCommit1Failed .sealPreCommit1Failed]
  | .commitFinalizeFailed => planOne [on .sectorRetryFinalize .commitFinalize]
  | .commitFailed => planOne [on .sectorSealPreCommit1Failed .sealPreCommit1Failed,
      on .sectorRetryWaitSeed .waitSeed, on .sectorRetryComputeProof .committing,
      on .sectorRetryInvalidProof .committing, on .sectorRetryPreCommitWait .preCommitWait,
      on .sectorChainPreCommitFailed .preCommitFailed, on .sectorRetryPreCommit .preCommitting,
      on .sectorRetryCommitWait .commitWait, on .sectorRetrySubmitCommit .submitCommit,
      on .sectorDealsExpired .dealsExpired, on .sectorInvalidDealIDs .recoverDealIDs,
      on .sectorTicketExpired .removing]
  | .finalizeFailed => planOne [on .sectorRetryFinalize .finalizeSector]
  -- deprecated
  | .packingFailed => planOne []
  | .dealsExpired => planOne []
  | .recoverDealIDs => planOne [onReturning .sectorUpdateDealIDs]
  -- Post-seal
  | .proving => planOne [on .sectorFaultReported .faultReported, on .sectorFaulty .faulty]
  | .terminating => planOne [on .sectorTerminating .terminateWait,
      on .sectorTerminateFailed .terminateFailed]
  | .terminateWait => planOne [on .sectorTerminated .terminateFinality,
      on .sectorTerminateFailed .terminateFailed]
  | .terminateFinality => planOne [on .sectorTerminateFailed .terminateFailed]
  | .terminateFailed => planOne []
  | .removing => planOne [on .sectorRemoved .removed, on .sectorRemoveFailed .removeFailed]
  | .removeFailed => planOne []
  | .faulty => planOne [on .sectorFaultReported .faultReported]
  -- not really supported right now
  | .faultReported => final
  | .faultedFinal => final
  | .removed => final
  | .failedUnrecoverable => final

/-! ## One step of each planner -/

/-- A transition that lets planning go on is `apply`, which leaves the sector as it is. -/
theorem Transition.next_continue {t : Transition} {s s' : SectorInfo} {err : Option PlanError}
    (h : t.next s = (s', true, err)) : s' = s ∧ err = none := by
  cases t with
  | on next => cases h
  | apply =>
    simp only [Transition.next, Prod.mk.injEq, true_and] at h
    exact ⟨h.1.symm, h.2.symm⟩
  | onReturning =>
    unfold Transition.next at h
    cases hr : s.returnState <;> simp only [hr] at h <;> cases h

/-- `planOne` on `e :: es` either stops after `e`, as it does on `e` alone, or takes `e`
without moving the sector and plans `es`. -/
theorem planOne_step (ts : List (EventKind × Transition)) (e : SectorEvent)
    (es : List SectorEvent) (s : SectorInfo) :
    (planOne ts (e :: es) s = planOne ts [e] s ∧ (planOne ts [e] s).processed = 1) ∨
      ∃ s', s'.state = s.state ∧ planOne ts [e] s = ⟨s', 1, none⟩ ∧
        planOne ts (e :: es) s = (planOne ts es s').shift := by
  cases hg : e.applyGlobal s with
  | some r =>
    -- a global event ends the call
    obtain ⟨s', b⟩ := r
    left
    simp only [planOne, hg, and_self]
  | none =>
    cases hf : ts.find? (fun t => t.1 == e.kind) with
    | some t =>
      rcases hn : t.2.next (e.apply s) with ⟨s', more, err⟩
      by_cases hstop : (err.isSome || !more) = true
      · left
        simp only [planOne, hg, hf, hn, hstop, if_true, and_self]
      · -- only `apply` lets planning go on, and it leaves the state alone
        right
        have hgo : err = none ∧ more = true := by simpa using hstop
        obtain ⟨rfl, rfl⟩ := hgo
        obtain ⟨rfl, -⟩ := Transition.next_continue hn
        refine ⟨e.apply s, SectorEvent.apply_state e s, ?_, ?_⟩ <;>
          simp only [planOne, hg, hf, hn, hstop] <;> rfl
    | none =>
      by_cases hi : e.ignorable = true
      · right
        refine ⟨s, rfl, ?_, ?_⟩ <;> simp only [planOne, hg, hf, hi, if_true]
        rfl
      · left
        simp only [planOne, hg, hf, hi, Bool.false_eq_true, if_false, and_self]

/-- The events on which `planCommitting` moves the sector out of `Committing` and goes on. -/
def SectorEvent.leavesCommitting : SectorEvent → Bool
  | .sectorCommitted _ | .sectorProofReady _ | .sectorComputeProofFailed _
  | .sectorSealPreCommit1Failed _ | .sectorCommitFailed _ | .sectorRetryCommitWait => true
  | _ => false

/-- `planCommitting` on `e :: es` either stops after `e` (consuming it unless it fails), or takes
`e` and plans `es`; it moves the sector only on the events that leave `Committing`. -/
theorem planCommitting_step (e : SectorEvent) (es : List SectorEvent) (s : SectorInfo) :
    (planCommitting (e :: es) s = planCommitting [e] s ∧ (planCommitting [e] s).processed ≤ 1 ∧
        ((planCommitting [e] s).err = none → (planCommitting [e] s).processed = 1)) ∨
      ∃ s', (s'.state = s.state ∨ e.leavesCommitting = true) ∧
        planCommitting [e] s = ⟨s', 1, none⟩ ∧
        planCommitting (e :: es) s = (planCommitting es s').shift := by
  cases hg : e.applyGlobal s with
  | some r =>
    obtain ⟨s', stop⟩ := r
    cases stop with
    | true =>
      left
      simp only [planCommitting, hg, Nat.le_refl, imp_self, and_self]
    | false =>
      -- `SectorRestart`: planning goes on in `Committing`
      right
      refine ⟨s', Or.inl (by rw [SectorEvent.applyGlobal_continue hg]), ?_, ?_⟩ <;>
        simp only [planCommitting, hg]
      rfl
  | none =>
    cases e
    case sectorSeedReady value epoch =>
      by_cases hseed : epoch = s.seedEpoch ∧ value = s.seedValue
      · -- the seed didn't change: planning goes on
        right
        obtain ⟨rfl, rfl⟩ := hseed
        refine ⟨s, Or.inl rfl, ?_, ?_⟩ <;> simp only [planCommitting, hg, and_self, if_true]
        rfl
      · left
        simp only [planCommitting, hg, hseed, if_false, Nat.le_refl, imp_self, and_self]
    -- the global events are not here; of the others, six leave `Committing` and go on, and
    -- the rest are unknown to `planCommitting`
    all_goals first
      | exact Or.inr ⟨_, Or.inr rfl, rfl, rfl⟩
      | exact Or.inl ⟨rfl, Nat.zero_le 1, fun h => by cases h⟩
      | cases hg

/-- `final` stops after the first event, consuming it unless it fails. -/
theorem final_step (e : SectorEvent) (es : List SectorEvent) (s : SectorInfo) :
    final (e :: es) s = final [e] s ∧ (final [e] s).processed ≤ 1 ∧
      ((final [e] s).err = none → (final [e] s).processed = 1) := by
  cases hg : e.applyGlobal s with
  | some r =>
    obtain ⟨s', b⟩ := r
    simp only [final, hg, Nat.le_refl, imp_self, and_self]
  | none => simp only [final, hg, Nat.zero_le, reduceCtorEq, false_imp_iff, and_self]

/-! ## What each planner consumes -/

theorem planOne_bounded (ts : List (EventKind × Transition)) :
    ∀ (es : List SectorEvent) (s : SectorInfo), (planOne ts es s).processed ≤ es.length
  | [], _ => Nat.le_refl 0
  | e :: es, s => by
    rcases planOne_step ts e es s with ⟨h, h1⟩ | ⟨s', -, -, h⟩
    · rw [h, h1]
      exact Nat.succ_le_succ (Nat.zero_le _)
    · rw [h, PlanResult.shift_processed]
      exact Nat.succ_le_succ (planOne_bounded ts es s')

theorem planCommitting_bounded :
    ∀ (es : List SectorEvent) (s : SectorInfo), (planCommitting es s).processed ≤ es.length
  | [], _ => Nat.le_refl 0
  | e :: es, s => by
    rcases planCommitting_step e es s with ⟨h, h1, -⟩ | ⟨s', -, -, h⟩
    · rw [h]
      exact Nat.le_trans h1 (Nat.succ_le_succ (Nat.zero_le _))
    · rw [h, PlanResult.shift_processed]
      exact Nat.succ_le_succ (planCommitting_bounded es s')

theorem final_bounded : ∀ (es : List SectorEvent) (s : SectorInfo), (final es s).processed ≤ es.length
  | [], _ => Nat.le_refl 0
  | e :: es, s => by
    obtain ⟨h, h1, -⟩ := final_step e es s
    rw [h]
    exact Nat.le_trans h1 (Nat.succ_le_succ (Nat.zero_le _))

/-- Every state's planner is a `planOne`, `final`, or `planCommitting`. -/
theorem fsmPlanners_cases (st : SectorState) :
    (∃ ts, fsmPlanners st = planOne ts) ∨ fsmPlanners st = final ∨
      fsmPlanners st = planCommitting ∧ st = .committing := by
  cases st <;> first
    | exact Or.inl ⟨_, rfl⟩
    | exact Or.inr (Or.inl rfl)
    | exact Or.inr (Or.inr ⟨rfl, rfl⟩)

theorem fsmPlanners_bounded : Bounded fsmPlanners SectorInfo.state := by
  intro s es
  rcases fsmPlanners_cases s.state with ⟨ts, h⟩ | h | ⟨h, -⟩
  · rw [h]
    exact planOne_bounded ts es s
  · rw [h]
    exact final_bounded es s
  · rw [h]
    exact planCommitting_bounded es s

theorem fsmPlanners_progress : Progress fsmPlanners SectorInfo.state := by
  intro s e es herr
  rcases fsmPlanners_cases s.state with ⟨ts, h⟩ | h | ⟨h, -⟩
  · rw [h]
    rcases planOne_step ts e es s with ⟨h1, h2⟩ | ⟨s', -, -, h1⟩
    · simp [h1, h2]
    · simp [h1]
  · rw [h] at herr ⊢
    obtain ⟨h1, -, h2⟩ := final_step e es s
    rw [h1] at herr ⊢
    simp [h2 herr]
  · rw [h] at herr ⊢
    rcases planCommitting_step e es s with ⟨h1, -, h2⟩ | ⟨s', -, -, h1⟩
    · rw [h1] at herr ⊢
      simp [h2 herr]
    · simp [h1]

/-! ## Batched and one-at-a-time planning -/

/-- Every planner but `Committing`'s is stepwise, and `Committing`'s is unless it is handed more
events after one that leaves `Committing`. -/
theorem fsmPlanners_stepwiseAt (s : SectorInfo) (e : SectorEvent) (es : List SectorEvent)
    (h : ¬(s.state = .committing ∧ e.leavesCommitting = true ∧ es ≠ [])) :
    StepwiseAt fsmPlanners SectorInfo.state s e es := by
  unfold StepwiseAt
  rcases fsmPlanners_cases s.state with ⟨ts, hts⟩ | hfin | ⟨hpc, hcom⟩
  · rw [hts]
    rcases planOne_step ts e es s with ⟨h1, -⟩ | ⟨s', hs', h1, h2⟩
    · exact Or.inl h1
    · exact Or.inr ⟨by rw [h1], by rw [h1]; exact hs', by rw [h2, h1]⟩
  · rw [hfin]
    exact Or.inl (final_step e es s).1
  · rw [hpc]
    rcases planCommitting_step e es s with ⟨h1, -⟩ | ⟨s', hs', h1, h2⟩
    · exact Or.inl h1
    · -- an event that leaves `Committing` is fine only as the last one
      by_cases hes : es = []
      · subst hes
        exact Or.inl rfl
      · have hstay : s'.state = s.state :=
          hs'.resolve_right fun hl => h ⟨hcom, hl, hes⟩
        exact Or.inr ⟨by rw [h1], by rw [h1]; exact hstay, by rw [h2, h1]⟩

/-- Along the one-at-a-time run from `s`, no event but the last is one that takes the sector out
of `Committing`. -/
def committingHandoffFree : SectorInfo → List SectorEvent → Bool
  | _, [] => true
  | s, e :: es =>
    !(s.state == .committing && e.leavesCommitting && !es.isEmpty) &&
      match (fsmPlanners s.state [e] s).err with
      | some _ => true
      | none => committingHandoffFree (fsmPlanners s.state [e] s).state es

theorem allStepwise_of_handoffFree :
    ∀ (es : List SectorEvent) (s : SectorInfo), committingHandoffFree s es = true →
      AllStepwise fsmPlanners SectorInfo.state s es
  | [], _, _ => trivial
  | e :: es, s, h => by
    simp only [committingHandoffFree, Bool.and_eq_true, Bool.not_eq_true'] at h
    obtain ⟨hfree, hrest⟩ := h
    refine ⟨fsmPlanners_stepwiseAt s e es ?_, fun herr => ?_⟩
    · rintro ⟨hc, hl, hes⟩
      simp [hc, hl, hes] at hfree
    · rw [herr] at hrest
      exact allStepwise_of_handoffFree es _ hrest

/-- Planning a batch agrees with planning its events one at a time, in the final sector and in
the error, whenever `Committing` is never handed an event after one that leaves it. -/
theorem planBatched_eq_planSingle_of_handoffFree (s : SectorInfo) (es : List SectorEvent)
    (h : committingHandoffFree s es = true) :
    planBatched fsmPlanners SectorInfo.state es s = planSingle fsmPlanners SectorInfo.state es s :=
  planBatched_eq_planSingle fsmPlanners_progress fsmPlanners_bounded es s
    (allStepwise_of_handoffFree es s h)

/-- The sealing path from `Packing` to `SectorCommitted`, as one batch. -/
theorem planBatched_eq_planSingle_of_handoffFree_sealing :
    let s : SectorInfo := { (default : SectorInfo) with state := .packing }
    let es := [SectorEvent.sectorPacked [], .sectorTicket [] 0, .sectorPreCommit1 [],
      .sectorPreCommit2 0 0, .sectorPreCommitted 0 0 0, .sectorPreCommitLanded [],
      .sectorSeedReady [1] 5, .sectorCommitted []]
    committingHandoffFree s es = true ∧
      planBatched fsmPlanners SectorInfo.state es s = planSingle fsmPlanners SectorInfo.state es s := by
  intro s es
  have h : committingHandoffFree s es = true := by decide
  exact ⟨h, planBatched_eq_planSingle_of_handoffFree s es h⟩

/-- In `Committing`, `SectorCommitted` followed by a stray `SectorStartPacking` fails as a batch,
since `planCommitting` goes on and does not know the event, while one at a time the second event
reaches `SubmitCommit`'s planner, which ignores it. -/
theorem planCommitting_batch_diverges :
    let s : SectorInfo := { (default : SectorInfo) with state := .committing }
    let es := [SectorEvent.sectorCommitted [], .sectorStartPacking]
    planBatched fsmPlanners SectorInfo.state es s =
        ({ s with state := .submitCommit }, some (.unknownCommittingEvent .sectorStartPacking)) ∧
      planSingle fsmPlanners SectorInfo.state es s = ({ s with state := .submitCommit }, none) := by
  intro s es
  constructor
  · have herr : (fsmPlanners s.state es s).err =
        some (.unknownCommittingEvent .sectorStartPacking) := by decide
    rw [planBatched_cons_of_err fsmPlanners SectorInfo.state herr]
    decide
  · decide

end Sealing

end Lotus
