import Mathlib
import Lotus.Lib.Run

/-!
# The call tracker of the sector-storage manager (`extern/sector-storage/manager_calltracker.go`)

A sealing call of the `Manager` (`SealPreCommit1` and its siblings) first asks `getWork` whether
the same work (`WorkID`: the method and its parameters) is already tracked.  If not, it begins a
work record in the statestore, schedules the work, and `startWork` records the worker's call
for it; otherwise it only waits.  Either way `waitWork` then waits for the result, which the
worker delivers with `returnResult` (or `Abort`): into `results` when the call is mapped to its
work (`callToWork`), into the buffered channel `callRes[call]` when it is not yet.  Waiters of
one work share a close-only channel `waitRes[wid]`, closed when the result comes in.

The manager's critical sections (each holding `workLk`) are the steps; a caller is a process
whose phase says where its sealing call is, and the worker's returns come at any point.  Channels
are numbered, and a closed one stays closed.  The statestore holds the work records; each step
names the statestore calls that fail in it.  A second `Unlock` of `workLk` is a fatal error of
the process (`fatal`).  `WorkID`s and `CallID`s are numbers, the call `0` being the zero
`CallID`; a work record keeps the fields the tracker reads, not the hostname or start time.

**What holds.**  An open wait channel belongs to a work with no result, and a caller blocked on
a channel waits on a closed one or on the work's current one; so once a work's result is in,
every caller blocked for it can go on (`runManager_blocked_closed`).

**What does not.**  Two waiters of one work both wake on its channel and the first deletes the
result, so the second returns a zero result; a failing `End` on the early exit of `waitWork`
unlocks `workLk` twice; and a start error marks the work done without ending it, so the next
call for the same work is told to wait, and then fails (`calltracker_failures`).
-/

namespace Lotus

namespace SectorStorage

/-- `WorkStatus`. -/
inductive WorkStatus
  | started
  | running
  | done
  deriving DecidableEq

/-- `WorkState`: the fields the call tracker reads. -/
structure WorkState where
  status : WorkStatus
  workerCall : ℕ
  workError : String
  deriving DecidableEq

/-- `result`: the call's output (`nil` is `none`) and error. -/
structure Result where
  r : Option ℕ
  err : Option String
  deriving DecidableEq

/-- A result that is only an error. -/
def failure (e : String) : Result :=
  ⟨none, some e⟩

/-- The statestore calls of the tracker. -/
inductive StoreCall
  | has
  | begin
  | get
  | mutate
  /-- `End`. -/
  | finish
  deriving DecidableEq

/-- Where a caller's sealing call is. -/
inductive Phase
  | idle
  /-- `getWork` returned `wait = false`: sector lock, scheduling, then the worker. -/
  | scheduling
  /-- About to call `waitWork`. -/
  | waiting
  /-- In `waitWork`, on the channel `ch`, having read the work's call `workerCall`. -/
  | blocked (ch workerCall : ℕ)
  /-- The deferred `cancel` is still to run. -/
  | returning (res : Result)
  | returned (res : Result)
  deriving DecidableEq

/-- A caller: its work, and whether `getWork` gave it the tracking `cancel`. -/
structure Caller where
  wid : ℕ
  tracked : Bool
  phase : Phase
  deriving DecidableEq

/-- The manager's tracking state, its callers, and whether `workLk` was unlocked twice. -/
structure Manager where
  work : ℕ → Option WorkState
  results : ℕ → Option Result
  callToWork : ℕ → Option ℕ
  /-- `callRes`: a channel of capacity one, and what it holds. -/
  callRes : ℕ → Option (Option Result)
  waitRes : ℕ → Option ℕ
  closed : ℕ → Bool
  nextCh : ℕ
  callers : ℕ → Caller
  fatal : Bool

/-- What happens: a step of a caller, or a return from the worker. -/
inductive Op
  | getWork (c wid : ℕ) (fails : List StoreCall)
  /-- The sector lock or the scheduler fails before the worker is called. -/
  | schedFails (c : ℕ) (e : String)
  /-- The worker's call for the work returns `callID` and `err`, and `startWork` records it. -/
  | startWork (c callID : ℕ) (err : Option String) (fails : List StoreCall)
  | waitWork (c : ℕ) (fails : List StoreCall)
  /-- The waiter's channel is closed and it runs on. -/
  | wake (c : ℕ) (fails : List StoreCall)
  /-- The waiter's context is cancelled. -/
  | ctxDone (c : ℕ)
  | returnResult (callID : ℕ) (res : Result) (fails : List StoreCall)
  /-- The deferred `cancel` of the caller. -/
  | cancel (c : ℕ) (fails : List StoreCall)

namespace Manager

/-- `NewManager`: nothing tracked, no caller started. -/
def init : Manager :=
  ⟨fun _ => none, fun _ => none, fun _ => none, fun _ => none, fun _ => none, fun _ => false, 0,
    fun _ => ⟨0, false, .idle⟩, false⟩

/-- The caller moves to another phase. -/
def setPhase (m : Manager) (c : ℕ) (p : Phase) : Manager :=
  { m with callers := Function.update m.callers c { m.callers c with phase := p } }

/-- `m.work.Get(wid).Mutate(f)`: no new store when the store fails or holds no record. -/
def mutateWork (fails : List StoreCall) (work : ℕ → Option WorkState) (wid : ℕ)
    (f : WorkState → WorkState) : Option (ℕ → Option WorkState) :=
  if StoreCall.mutate ∈ fails then none
  else (work wid).map fun ws => Function.update work wid (some (f ws))

/-- `m.work.Get(wid).End()`: no new store when the store fails or holds no record. -/
def endWork (fails : List StoreCall) (work : ℕ → Option WorkState) (wid : ℕ) :
    Option (ℕ → Option WorkState) :=
  if StoreCall.finish ∈ fails then none else (work wid).map fun _ => Function.update work wid none

/-- `getWork` of caller `c` for work `wid`. -/
def getWork (c wid : ℕ) (fails : List StoreCall) (m : Manager) : Manager :=
  if StoreCall.has ∈ fails then
    { m with callers := Function.update m.callers c (⟨wid, false,
      .returned (failure "getWork: failed to check if the task is already tracked")⟩ : Caller) }
  else
    match m.work wid with
    | none =>
      if StoreCall.begin ∈ fails then
        { m with callers := Function.update m.callers c (⟨wid, false,
          .returned (failure "getWork: failed to track task start")⟩ : Caller) }
      else
        { m with
          work := Function.update m.work wid (some ⟨.started, 0, ""⟩)
          callers := Function.update m.callers c ⟨wid, true, .scheduling⟩ }
    -- already started: wait for it
    | some _ => { m with callers := Function.update m.callers c ⟨wid, false, .waiting⟩ }

/-- `startWork` of caller `c` with what the worker's call returned. -/
def startWork (c callID : ℕ) (err : Option String) (fails : List StoreCall) (m : Manager) :
    Manager :=
  let wid := (m.callers c).wid
  match err with
  | some e =>
    match mutateWork fails m.work wid fun ws => { ws with status := .done, workError := e } with
    | some work => { m with work }.setPhase c (.returning (failure e))
    | none => m.setPhase c (.returning (failure "failed to start work and to track the error"))
  | none =>
    match mutateWork fails m.work wid fun ws =>
        { ws with
          status := if (m.results wid).isSome then .done else .running
          workerCall := callID } with
    | some work =>
      { m with work, callToWork := Function.update m.callToWork callID (some wid) }.setPhase c
        .waiting
    | none => m.setPhase c (.returning (failure "registering running work"))

/-- `done` of `waitWork`: the result, the call's mapping and the work record go. -/
def workDone (fails : List StoreCall) (wid workerCall : ℕ) (m : Manager) : Manager :=
  let m := { m with
    results := Function.update m.results wid none
    callToWork := Function.update m.callToWork workerCall none }
  match endWork fails m.work wid with
  | some work => { m with work }
  -- "marking work as done" is logged
  | none => m

/-- `waitWork` of caller `c`, up to its wait on the channel. -/
def waitWork (c : ℕ) (fails : List StoreCall) (m : Manager) : Manager :=
  let wid := (m.callers c).wid
  match (if StoreCall.get ∈ fails then none else m.work wid) with
  | none => m.setPhase c (.returning (failure "getting work status"))
  | some ws =>
    if ws.status = .started then
      m.setPhase c (.returning (failure "waitWork called for work in 'started' state"))
    else if m.callToWork ws.workerCall ≠ some wid then
      m.setPhase c (.returning (failure "wrong callToWork mapping for call"))
    else
      match m.callRes ws.workerCall with
      | some (some res) =>
        let m := { m with callToWork := Function.update m.callToWork ws.workerCall none }
        match endWork fails m.work wid with
        | some work =>
          { m with work, callRes := Function.update m.callRes ws.workerCall none }.setPhase c
            (.returning res)
        -- `workLk` is unlocked when `End` fails, and again after the result is read
        | none =>
          { m with callRes := Function.update m.callRes ws.workerCall none, fatal := true }.setPhase
            c (.returning res)
      | some none =>
        { m with callToWork := Function.update m.callToWork ws.workerCall none }.setPhase c
          (.returning (failure "something else in waiting on callRes"))
      | none =>
        match m.results wid with
        | some res => (m.workDone fails wid ws.workerCall).setPhase c (.returning res)
        | none =>
          match m.waitRes wid with
          | some ch => m.setPhase c (.blocked ch ws.workerCall)
          | none =>
            { m with waitRes := Function.update m.waitRes wid (some m.nextCh),
                     nextCh := m.nextCh + 1 }.setPhase c (.blocked m.nextCh ws.workerCall)

/-- `waitWork` of caller `c` after its channel was closed: whatever is in `results` now. -/
def wakeWork (c workerCall : ℕ) (fails : List StoreCall) (m : Manager) : Manager :=
  let wid := (m.callers c).wid
  (m.workDone fails wid workerCall).setPhase c (.returning ((m.results wid).getD ⟨none, none⟩))

/-- The waiters of `wid` are woken: its channel is closed and forgotten. -/
def wakeWaiters (wid : ℕ) (m : Manager) : Manager :=
  match m.waitRes wid with
  | some ch => { m with closed := Function.update m.closed ch true,
                        waitRes := Function.update m.waitRes wid none }
  | none => m

/-- `returnResult` of the worker for `callID`; its errors go back to the worker. -/
def returnResult (callID : ℕ) (res : Result) (fails : List StoreCall) (m : Manager) : Manager :=
  match m.callToWork callID with
  | none =>
    match m.callRes callID with
    -- "callRes channel already has a response"
    | some (some _) => m
    | _ => { m with callRes := Function.update m.callRes callID (some (some res)) }
  | some wid =>
    -- "result for call already reported"
    if (m.results wid).isSome then m
    else
      let m := { m with results := Function.update m.results wid (some res) }
      let m := match mutateWork fails m.work wid fun ws => { ws with status := .done } with
        | some work => { m with work }
        | none => m
      m.wakeWaiters wid

/-- `Abort`. -/
def abort (callID : ℕ) (fails : List StoreCall) (m : Manager) : Manager :=
  m.returnResult callID (failure "task aborted") fails

/-- The deferred `cancel` of caller `c`: the one from `getWork` ends a work still `started`. -/
def cancelWork (c : ℕ) (res : Result) (fails : List StoreCall) (m : Manager) : Manager :=
  let cl := m.callers c
  let m' :=
    if !cl.tracked || StoreCall.has ∈ fails then m
    else
      match m.work cl.wid with
      | none => m
      | some ws =>
        if StoreCall.get ∈ fails then m
        else if ws.status = .started then
          match endWork fails m.work cl.wid with
          | some work => { m with work }
          | none => m
        -- "cancel called on work in 'done' state", or in 'running' state
        else m
  m'.setPhase c (.returned res)

/-- One step; a step of a caller not in the phase for it changes nothing. -/
def step (m : Manager) : Op → Manager
  | .getWork c wid fails => if (m.callers c).phase = .idle then m.getWork c wid fails else m
  | .schedFails c e =>
    if (m.callers c).phase = .scheduling then m.setPhase c (.returning (failure e)) else m
  | .startWork c callID err fails =>
    if (m.callers c).phase = .scheduling then m.startWork c callID err fails else m
  | .waitWork c fails => if (m.callers c).phase = .waiting then m.waitWork c fails else m
  | .wake c fails =>
    match (m.callers c).phase with
    | .blocked ch workerCall => if m.closed ch then m.wakeWork c workerCall fails else m
    | _ => m
  | .ctxDone c =>
    match (m.callers c).phase with
    | .blocked _ _ => m.setPhase c (.returning (failure "waiting for work result: context canceled"))
    | _ => m
  | .returnResult callID res fails => m.returnResult callID res fails
  | .cancel c fails =>
    match (m.callers c).phase with
    | .returning res => m.cancelWork c res fails
    | _ => m

end Manager

/-- The manager after the steps, from `NewManager`. -/
def runManager (ops : List Op) : Manager :=
  Run.run Manager.step Manager.init ops

/-! ## Waiters and their channels -/

/-- What the wait channels keep: channels from `nextCh` on are not yet made, an open channel of
`waitRes` belongs to a work with no result and to no other work, and a blocked caller waits on a
closed channel or on its work's current one. -/
structure ChannelInv (m : Manager) : Prop where
  fresh : ∀ ch, m.nextCh ≤ ch → m.closed ch = false
  waitRes_open : ∀ wid ch, m.waitRes wid = some ch →
    m.results wid = none ∧ m.closed ch = false ∧ ch < m.nextCh
  waitRes_inj : ∀ wid wid' ch, m.waitRes wid = some ch → m.waitRes wid' = some ch → wid = wid'
  blocked : ∀ c ch wc, (m.callers c).phase = .blocked ch wc →
    m.closed ch = true ∨ m.waitRes (m.callers c).wid = some ch

namespace Manager

theorem channelInv_init : ChannelInv init where
  fresh _ _ := rfl
  waitRes_open _ _ h := by cases h
  waitRes_inj _ _ _ h := by cases h
  blocked _ _ _ h := by cases h

@[simp] theorem setPhase_callers_self (m : Manager) (c : ℕ) (p : Phase) :
    (m.setPhase c p).callers c = { m.callers c with phase := p } := by
  simp [setPhase]

theorem setPhase_callers_of_ne (m : Manager) {c c' : ℕ} (p : Phase) (h : c' ≠ c) :
    (m.setPhase c p).callers c' = m.callers c' := by
  simp [setPhase, Function.update_of_ne h]

/-- Moving a caller to a phase other than `blocked` keeps the invariant. -/
theorem channelInv_setPhase {m : Manager} (hm : ChannelInv m) (c : ℕ) (p : Phase)
    (hp : ∀ ch wc, p ≠ .blocked ch wc) : ChannelInv (m.setPhase c p) := by
  refine ⟨hm.fresh, hm.waitRes_open, hm.waitRes_inj, fun c' ch wc hc' => ?_⟩
  by_cases hcc : c' = c
  · subst hcc
    rw [setPhase_callers_self] at hc'
    exact absurd hc' (hp ch wc)
  · rw [setPhase_callers_of_ne m p hcc] at hc' ⊢
    exact hm.blocked c' ch wc hc'

/-- The invariant reads neither the work records nor the calls' maps. -/
theorem channelInv_of_eq {m m' : Manager} (hm : ChannelInv m) (hn : m'.nextCh = m.nextCh)
    (hc : m'.closed = m.closed) (hw : m'.waitRes = m.waitRes) (hcl : m'.callers = m.callers)
    (hr : ∀ wid ch, m.waitRes wid = some ch → m.results wid = none → m'.results wid = none) :
    ChannelInv m' := by
  refine ⟨fun ch h => ?_, fun wid ch h => ?_, fun wid wid' ch h h' => ?_, fun c ch wc h => ?_⟩
  · rw [hc]
    exact hm.fresh ch (hn ▸ h)
  · rw [hw] at h
    obtain ⟨h1, h2, h3⟩ := hm.waitRes_open wid ch h
    exact ⟨hr wid ch h h1, hc ▸ h2, hn ▸ h3⟩
  · rw [hw] at h h'
    exact hm.waitRes_inj wid wid' ch h h'
  · rw [hcl] at h ⊢
    rw [hc, hw]
    exact hm.blocked c ch wc h

theorem channelInv_workDone {m : Manager} (hm : ChannelInv m) (fails : List StoreCall)
    (wid wc : ℕ) : ChannelInv (m.workDone fails wid wc) := by
  have hr : ∀ w ch, m.waitRes w = some ch → m.results w = none →
      (Function.update m.results wid none) w = none := by
    intro w _ _ hw
    by_cases hww : w = wid
    · subst hww
      simp
    · rw [Function.update_of_ne hww]
      exact hw
  dsimp only [workDone]
  split <;> exact channelInv_of_eq hm rfl rfl rfl rfl hr

theorem channelInv_getWork {m : Manager} (hm : ChannelInv m) (c wid : ℕ)
    (fails : List StoreCall) (hidle : (m.callers c).phase = .idle) :
    ChannelInv (m.getWork c wid fails) := by
  -- the caller was idle, so it was not blocked, and it does not get blocked
  have hcaller : ∀ (cl : Caller), (∀ ch wc, cl.phase ≠ .blocked ch wc) →
      ChannelInv { m with callers := Function.update m.callers c cl } := by
    intro cl hcl
    refine ⟨hm.fresh, hm.waitRes_open, hm.waitRes_inj, fun c' ch wc hc' => ?_⟩
    by_cases hcc : c' = c
    · subst hcc
      simp only [Function.update_self] at hc'
      exact absurd hc' (hcl ch wc)
    · simp only [Function.update_of_ne hcc] at hc' ⊢
      exact hm.blocked c' ch wc hc'
  have hwork : ∀ (w : ℕ → Option WorkState) (cl : Caller), (∀ ch wc, cl.phase ≠ .blocked ch wc) →
      ChannelInv { m with work := w, callers := Function.update m.callers c cl } := fun w cl hcl =>
    channelInv_of_eq (hcaller cl hcl) rfl rfl rfl rfl fun _ _ _ h => h
  dsimp only [getWork]
  split
  · exact hcaller _ fun _ _ => by simp
  · split
    · split
      · exact hcaller _ fun _ _ => by simp
      · exact hwork _ _ fun _ _ => by simp
    · exact hcaller _ fun _ _ => by simp

theorem channelInv_startWork {m : Manager} (hm : ChannelInv m) (c callID : ℕ)
    (err : Option String) (fails : List StoreCall) : ChannelInv (m.startWork c callID err fails) := by
  have hkeep : ∀ (m' : Manager), ChannelInv m' → ∀ p, (∀ ch wc, p ≠ .blocked ch wc) →
      ChannelInv (m'.setPhase c p) := fun m' h p hp => channelInv_setPhase h c p hp
  dsimp only [startWork]
  split
  · split
    · refine hkeep _ ?_ _ fun _ _ => by simp
      exact channelInv_of_eq hm rfl rfl rfl rfl fun _ _ _ h => h
    · exact hkeep _ hm _ fun _ _ => by simp
  · split
    · refine hkeep _ ?_ _ fun _ _ => by simp
      exact channelInv_of_eq hm rfl rfl rfl rfl fun _ _ _ h => h
    · exact hkeep _ hm _ fun _ _ => by simp

/-- A caller blocks on its work's current channel, or on a new one when there is none; either way
there is no result for the work. -/
theorem channelInv_waitWork {m : Manager} (hm : ChannelInv m) (c : ℕ) (fails : List StoreCall) :
    ChannelInv (m.waitWork c fails) := by
  have hret : ∀ (m' : Manager), ChannelInv m' → ∀ res,
      ChannelInv (m'.setPhase c (.returning res)) := fun m' h res =>
    channelInv_setPhase h c _ fun _ _ => by simp
  dsimp only [waitWork]
  split
  · exact hret _ hm _
  · rename_i ws _
    split
    · exact hret _ hm _
    · split
      · exact hret _ hm _
      · split
        · split
          · refine hret _ ?_ _
            exact channelInv_of_eq hm rfl rfl rfl rfl fun _ _ _ h => h
          · refine hret _ ?_ _
            exact channelInv_of_eq hm rfl rfl rfl rfl fun _ _ _ h => h
        · refine hret _ ?_ _
          exact channelInv_of_eq hm rfl rfl rfl rfl fun _ _ _ h => h
        · split
          · exact hret _ (channelInv_workDone hm _ _ _) _
          · rename_i hres
            split
            · -- wait on the channel already there
              rename_i ch hch
              refine ⟨hm.fresh, hm.waitRes_open, hm.waitRes_inj, fun c' ch' wc hc' => ?_⟩
              by_cases hcc : c' = c
              · subst hcc
                simp only [setPhase_callers_self, Phase.blocked.injEq] at hc' ⊢
                rw [← hc'.1]
                exact .inr hch
              · rw [setPhase_callers_of_ne m _ hcc] at hc' ⊢
                exact hm.blocked c' ch' wc hc'
            · -- a new channel, open and not used by any work
              rename_i hnone
              refine ⟨fun ch h => hm.fresh ch (by simp only [setPhase] at h; omega),
                fun wid ch h => ?_, fun wid wid' ch h h' => ?_, fun c' ch' wc hc' => ?_⟩
              · simp only [setPhase] at h ⊢
                by_cases hw : wid = (m.callers c).wid
                · subst hw
                  simp only [Function.update_self, Option.some.injEq] at h
                  subst h
                  exact ⟨hres, hm.fresh _ (Nat.le_refl _), Nat.lt_succ_self _⟩
                · rw [Function.update_of_ne hw] at h
                  obtain ⟨h1, h2, h3⟩ := hm.waitRes_open wid ch h
                  exact ⟨h1, h2, by omega⟩
              · simp only [setPhase] at h h'
                by_cases hw : wid = (m.callers c).wid
                · by_cases hw' : wid' = (m.callers c).wid
                  · rw [hw, hw']
                  · subst hw
                    simp only [Function.update_self, Option.some.injEq] at h
                    rw [Function.update_of_ne hw'] at h'
                    exact absurd (hm.waitRes_open wid' ch h').2.2 (by omega)
                · rw [Function.update_of_ne hw] at h
                  by_cases hw' : wid' = (m.callers c).wid
                  · subst hw'
                    simp only [Function.update_self, Option.some.injEq] at h'
                    exact absurd (hm.waitRes_open wid ch h).2.2 (by omega)
                  · rw [Function.update_of_ne hw'] at h'
                    exact hm.waitRes_inj wid wid' ch h h'
              · by_cases hcc : c' = c
                · subst hcc
                  simp only [setPhase_callers_self, Phase.blocked.injEq] at hc'
                  simp only [setPhase, Function.update_self]
                  rw [← hc'.1]
                  exact .inr rfl
                · rw [setPhase_callers_of_ne _ _ hcc] at hc' ⊢
                  rcases hm.blocked c' ch' wc hc' with hcl | hwr
                  · exact .inl hcl
                  · right
                    simp only [setPhase]
                    by_cases hw : (m.callers c').wid = (m.callers c).wid
                    · rw [hw] at hwr
                      rw [hnone] at hwr
                      cases hwr
                    · rw [Function.update_of_ne hw]
                      exact hwr

theorem channelInv_wakeWork {m : Manager} (hm : ChannelInv m) (c wc : ℕ)
    (fails : List StoreCall) : ChannelInv (m.wakeWork c wc fails) :=
  channelInv_setPhase (channelInv_workDone hm fails _ wc) c _ fun _ _ => by simp

/-- Closing the channel of `wid`, in a manager that differs from an invariant one only in the
result of `wid`, leaves no open channel for `wid` and the callers blocked for it on a closed one. -/
theorem channelInv_wakeWaiters {m m₁ : Manager} (hm : ChannelInv m) (wid : ℕ)
    (hn : m₁.nextCh = m.nextCh) (hc : m₁.closed = m.closed) (hw : m₁.waitRes = m.waitRes)
    (hcl : m₁.callers = m.callers) (hr : ∀ w, w ≠ wid → m₁.results w = m.results w) :
    ChannelInv (m₁.wakeWaiters wid) := by
  unfold wakeWaiters
  split
  · rename_i ch hch
    rw [hw] at hch
    refine ⟨fun ch' h => ?_, fun wid' ch' h => ?_, fun w w' ch' h h' => ?_, fun c ch' wc h => ?_⟩
    · simp only at h ⊢
      rw [hn] at h
      rw [hc]
      by_cases hch' : ch' = ch
      · subst hch'
        exact absurd (hm.waitRes_open wid _ hch).2.2 (by omega)
      · rw [Function.update_of_ne hch']
        exact hm.fresh ch' h
    · simp only at h ⊢
      rw [hw] at h
      have hne : wid' ≠ wid := by
        rintro rfl
        simp at h
      rw [Function.update_of_ne hne] at h
      obtain ⟨h1, h2, h3⟩ := hm.waitRes_open wid' ch' h
      have hch' : ch' ≠ ch := by
        rintro rfl
        exact hne (hm.waitRes_inj _ _ _ h hch)
      rw [hr wid' hne, hc, Function.update_of_ne hch', hn]
      exact ⟨h1, h2, h3⟩
    · simp only at h h'
      rw [hw] at h h'
      have hne : w ≠ wid := by
        rintro rfl
        simp at h
      have hne' : w' ≠ wid := by
        rintro rfl
        simp at h'
      rw [Function.update_of_ne hne] at h
      rw [Function.update_of_ne hne'] at h'
      exact hm.waitRes_inj w w' ch' h h'
    · simp only at h ⊢
      rw [hcl] at h ⊢
      rw [hc, hw]
      rcases hm.blocked c ch' wc h with hcl' | hwr
      · left
        by_cases hch' : ch' = ch
        · subst hch'
          simp
        · rw [Function.update_of_ne hch']
          exact hcl'
      · by_cases hwid : (m.callers c).wid = wid
        · -- the caller waits for this work: its channel is the one being closed
          left
          rw [hwid, hch, Option.some.injEq] at hwr
          subst hwr
          simp
        · right
          rw [Function.update_of_ne hwid]
          exact hwr
  · rename_i hnone
    rw [hw] at hnone
    refine channelInv_of_eq hm hn hc hw hcl fun w ch hwch hw' => ?_
    -- no channel for `wid`, so its result does not matter
    have hww : w ≠ wid := by
      rintro rfl
      rw [hnone] at hwch
      cases hwch
    rw [hr w hww]
    exact hw'

theorem channelInv_returnResult {m : Manager} (hm : ChannelInv m) (callID : ℕ) (res : Result)
    (fails : List StoreCall) : ChannelInv (m.returnResult callID res fails) := by
  dsimp only [returnResult]
  split
  · split
    · exact hm
    · exact channelInv_of_eq hm rfl rfl rfl rfl fun _ _ _ h => h
  · rename_i wid _
    split
    · exact hm
    · refine channelInv_wakeWaiters hm wid (by split <;> rfl) (by split <;> rfl)
        (by split <;> rfl) (by split <;> rfl) fun w hw => ?_
      split <;> exact Function.update_of_ne hw _ _

theorem channelInv_cancelWork {m : Manager} (hm : ChannelInv m) (c : ℕ) (res : Result)
    (fails : List StoreCall) : ChannelInv (m.cancelWork c res fails) := by
  dsimp only [cancelWork]
  refine channelInv_setPhase ?_ c _ fun _ _ => by simp
  split
  · exact hm
  · split
    · exact hm
    · split
      · exact hm
      · split
        · split
          · exact channelInv_of_eq hm rfl rfl rfl rfl fun _ _ _ h => h
          · exact hm
        · exact hm

theorem channelInv_step {m : Manager} (hm : ChannelInv m) (op : Op) : ChannelInv (m.step op) := by
  cases op with
  | getWork c wid fails =>
    simp only [step]
    split
    · exact channelInv_getWork hm c wid fails ‹_›
    · exact hm
  | schedFails c e =>
    simp only [step]
    split
    · exact channelInv_setPhase hm c _ fun _ _ => by simp
    · exact hm
  | startWork c callID err fails =>
    simp only [step]
    split
    · exact channelInv_startWork hm c callID err fails
    · exact hm
  | waitWork c fails =>
    simp only [step]
    split
    · exact channelInv_waitWork hm c fails
    · exact hm
  | wake c fails =>
    simp only [step]
    split
    · split
      · exact channelInv_wakeWork hm c _ fails
      · exact hm
    · exact hm
  | ctxDone c =>
    simp only [step]
    split
    · exact channelInv_setPhase hm c _ fun _ _ => by simp
    · exact hm
  | returnResult callID res fails => exact channelInv_returnResult hm callID res fails
  | cancel c fails =>
    simp only [step]
    split
    · exact channelInv_cancelWork hm c _ fails
    · exact hm

end Manager

theorem runManager_channelInv (ops : List Op) : ChannelInv (runManager ops) :=
  Run.run_invariant (P := ChannelInv) (fun _ op hm => Manager.channelInv_step hm op) ops
    Manager.channelInv_init

/-- Along every run, once a work's result is in, every caller blocked for the work waits on a
closed channel, so it can go on. -/
theorem runManager_blocked_closed (ops : List Op) {c ch wc : ℕ} {res : Result}
    (hblocked : ((runManager ops).callers c).phase = .blocked ch wc)
    (hres : (runManager ops).results ((runManager ops).callers c).wid = some res) :
    (runManager ops).closed ch = true := by
  have hinv := runManager_channelInv ops
  rcases hinv.blocked c ch wc hblocked with hcl | hwr
  · exact hcl
  · -- an open channel belongs to a work with no result
    have hnone := (hinv.waitRes_open _ ch hwr).1
    rw [hres] at hnone
    cases hnone

/-- Two callers wait for work `1`, and its worker call `7` returns. -/
def twoWaitersRun : List Op :=
  [.getWork 0 1 [], .getWork 1 1 [], .startWork 0 7 none [], .waitWork 1 [], .waitWork 0 [],
    .returnResult 7 ⟨some 42, none⟩ []]

theorem runManager_blocked_closed_twoWaiters :
    ((runManager twoWaitersRun).callers 1).phase = .blocked 0 7 ∧
      (runManager twoWaitersRun).results ((runManager twoWaitersRun).callers 1).wid =
        some ⟨some 42, none⟩ ∧
      (runManager twoWaitersRun).closed 0 = true :=
  ⟨by decide, by decide,
    @runManager_blocked_closed _ 1 0 7 ⟨some 42, none⟩ (by decide) (by decide)⟩

/-! ## Zero results, a double unlock, and a work that cannot be started again -/

/-- Two callers wait for work `1`, whose worker call `7` returns `42`: the first to wake takes
the result and the second returns a zero result.  A worker result that comes before `startWork`
records the call is found in `callRes`, and when `End` then fails, `workLk` is unlocked twice.
And when the worker's call fails to start, the work is left `done`: a later call for it is told
to wait, and `waitWork` fails for want of a call mapped to it. -/
theorem calltracker_failures :
    (runManager [.getWork 0 1 [], .getWork 1 1 [], .startWork 0 7 none [], .waitWork 1 [],
        .waitWork 0 [], .returnResult 7 ⟨some 42, none⟩ [], .wake 0 [], .wake 1 []]).callers 0 =
        ⟨1, true, .returning ⟨some 42, none⟩⟩ ∧
      (runManager [.getWork 0 1 [], .getWork 1 1 [], .startWork 0 7 none [], .waitWork 1 [],
        .waitWork 0 [], .returnResult 7 ⟨some 42, none⟩ [], .wake 0 [], .wake 1 []]).callers 1 =
        ⟨1, false, .returning ⟨none, none⟩⟩ ∧
      (runManager [.getWork 0 1 [], .returnResult 7 ⟨some 42, none⟩ [], .startWork 0 7 none [],
        .waitWork 0 [.finish]]).fatal = true ∧
      (runManager [.getWork 0 1 [], .startWork 0 7 (some "worker failed") [], .cancel 0 [],
        .getWork 1 1 []]).callers 1 = ⟨1, false, .waiting⟩ ∧
      (runManager [.getWork 0 1 [], .startWork 0 7 (some "worker failed") [], .cancel 0 [],
        .getWork 1 1 [], .waitWork 1 []]).callers 1 =
        ⟨1, false, .returning (failure "wrong callToWork mapping for call")⟩ := by
  refine ⟨?_, ?_, ?_, ?_, ?_⟩ <;> decide

end SectorStorage

end Lotus
