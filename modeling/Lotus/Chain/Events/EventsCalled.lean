import Lotus.Chain.Events.EventsHeight
import Lotus.Lib.Run

/-!
# Called and StateChanged triggers of chain events (`chain/events/events_called.go`)

`Called` and `StateChanged` register a trigger with `onHeadChanged`: a confidence `c`, a
timeout height `T`, and a matcher run on every applied tipset.  A match seen at height `h` is
queued under its trigger height `h + c` (`queueForConfidence`), and under `h` for reverts; the
handler gets it once the loop of `processHeadChangeEvent` reaches `h + c`
(`applyWithConfidence`).  A trigger that has seen no event by `T + c` has its handler called
with no data (`applyTimeouts`).

`Events.headChange` refuses a change with no applied tipset, and otherwise runs the height
triggers first, which moves the tipset cache, and then `processHeadChangeEvent` over the same
cache; `observeChanges` and its observers are left out.  The message matchers see the messages
of the parent tipset as `messagesForTs` reads them: block by block, each CID once.
The callbacks are recorded, as for the height triggers: the `k`-th call of a run gets the answer
`respond k`, so that any handler, stateful or not, is one `respond`.  Go maps become association
lists, iterated in the order their keys were added, one of the orders Go may take.  Epochs are
integers: `NoTimeout + confidence` does not wrap.

**The timeout path.**  `applyTimeouts(ts)` looks up `timeouts[ts.Height()]`, not the height of
the loop, and runs once for every height from the last tipset's to `ts`'s: at least twice per
applied tipset, with nothing cleared in between.  A handler that answers `more = true` on its
timeout is called again at once (`timeout_fires_twice`), and a timeout height that is a null
round is never looked up (`timeout_skipped_at_null_round`).

**Reverts.**  After the reverts, `lastTs` is the last reverted tipset, not the common ancestor,
and the state matchers compare it with the first applied tipset
(`stateMatch_after_revert`).
-/

namespace Lotus

namespace Events

/-- `NoTimeout`, the largest `int64`. -/
def noTimeout : ℤ := 2 ^ 63 - 1

/-- `NoHeight`. -/
def noHeight : ℤ := -1

/-- `handlerInfo` without its two callbacks; `timeout` is the timeout height plus the
confidence. -/
structure HandlerInfo where
  confidence : ℤ
  timeout : ℤ
  disabled : Bool
  deriving DecidableEq

/-- `eventData`: a message a `MsgMatchFunc` matched, or a change a `StateMatchFunc` reported. -/
inductive EventData (μ σ : Type*)
  | msg (m : μ)
  | state (d : σ)
  deriving DecidableEq

/-- `queuedEvent`: an event of trigger `trigger` seen at height `h`. -/
structure QueuedEvent (μ σ : Type*) where
  trigger : ℕ
  prevH : ℤ
  h : ℤ
  data : EventData μ σ
  called : Bool
  deriving DecidableEq

/-- A call of a trigger's callbacks or of its state matcher. -/
inductive HcCall (α μ σ : Type*)
  /-- The `EventHandler` of trigger `tid`; `data` is `none` on the timeout path. -/
  | handle (tid : ℕ) (data : Option (EventData μ σ)) (prevTs ts : Option α) (h : ℤ)
  /-- The `RevertHandler` of trigger `tid` with the reverted tipset. -/
  | revert (tid : ℕ) (ts : α)
  /-- The `StateMatchFunc` of trigger `tid` on the old and the new tipset. -/
  | stateMatch (tid : ℕ) (oldTs newTs : α)
  deriving DecidableEq

/-- `hcEvents` and the calls its callbacks have received; the two matcher tables are the ids they
hold.  `confQueue` maps a trigger height to the events by the height they were seen at;
`timeouts` maps a timeout height to the number of handled events of each trigger. -/
structure HcEvents (α μ σ : Type*) where
  lastTs : α
  ctr : ℕ
  triggers : ℕ → Option HandlerInfo
  confQueue : ℤ → List (ℤ × List (QueuedEvent μ σ))
  revertQueue : ℤ → List ℤ
  timeouts : ℤ → Option (List (ℕ × ℕ))
  stateMatchers : List ℕ
  msgMatchers : List ℕ
  calls : List (HcCall α μ σ)

/-- What the owners of the triggers and the chain answer: the `k`-th handler call of a run, each
trigger's `StateMatchFunc` and `MsgMatchFunc`, `ChainGetTipSet(ts.Parents())`, and
`ChainGetBlockMessages` on each block of a tipset, its BLS messages and its secp ones. -/
structure Callbacks (α μ σ : Type*) where
  respond : ℕ → Except String Bool
  matchState : ℕ → α → α → Except String (Option σ)
  parent : α → Except String α
  blockMessages : α → List (Except String (List μ × List μ))
  matchMsg : ℕ → μ → Except String Bool

/-- `m[k] = append(m[k], v)` on a map of slices. -/
def appendAt {κ β : Type*} [DecidableEq κ] (k : κ) (v : β) :
    List (κ × List β) → List (κ × List β)
  | [] => [(k, [v])]
  | (k', vs) :: rest => if k' = k then (k', vs ++ [v]) :: rest else (k', vs) :: appendAt k v rest

/-- `touts[tid]++`. -/
def bump (tid : ℕ) : List (ℕ × ℕ) → List (ℕ × ℕ)
  | [] => [(tid, 1)]
  | (t, n) :: rest => if t = tid then (t, n + 1) :: rest else (t, n) :: bump tid rest

/-- The heights of `for at := lo; at <= hi; at++`. -/
def heightsBetween (lo hi : ℤ) : List ℤ :=
  (List.range (hi - lo + 1).toNat).map fun i => lo + i

namespace HcEvents

variable {α μ σ : Type*} (api : ChainAPI α) (cb : Callbacks α μ σ) (tsc : TipSetCache α)

/-- `e.tsc.get(h)` where its error is only logged: the tipset is then `nil`. -/
def getOrNil (h : ℤ) : Option α :=
  match tsc.get api h with
  | .ok ts => ts
  | .error _ => none

/-- `event.called = true` for the `k`-th event seen at `origH`. -/
def setCalled (origH : ℤ) (k : ℕ) (byOrigH : List (ℤ × List (QueuedEvent μ σ))) :
    List (ℤ × List (QueuedEvent μ σ)) :=
  byOrigH.map fun (o, evs) =>
    if o = origH then (o, evs.modify k fun ev => { ev with called := true }) else (o, evs)

/-- The handler has been called: the call is recorded. -/
def record (s : HcEvents α μ σ) (c : HcCall α μ σ) : HcEvents α μ σ :=
  { s with calls := s.calls ++ [c] }

/-- The loop body of `handleReverts` for one trigger height: the revert handlers of the events
seen at the reverted height that were handled, and the events go. -/
def revertAt (ts : α) (s : HcEvents α μ σ) (triggerH : ℤ) : HcEvents α μ σ :=
  let h := api.height ts
  let toRevert := ((s.confQueue triggerH).lookup h).getD []
  { s with
    calls := s.calls ++ (toRevert.filter (·.called)).map fun ev => .revert ev.trigger ts
    confQueue := Function.update s.confQueue triggerH ((s.confQueue triggerH).filter (·.1 ≠ h)) }

/-- `handleReverts`. -/
def handleReverts (ts : α) (s : HcEvents α μ σ) : HcEvents α μ σ :=
  let h := api.height ts
  let s := (s.revertQueue h).foldl (revertAt api ts) s
  { s with revertQueue := Function.update s.revertQueue h [] }

/-- `queueForConfidence`; no run queues an event of an unregistered trigger, whose `nil` handler
the code would dereference. -/
def queueForConfidence (tid : ℕ) (data : EventData μ σ) (prevTs : Option α) (ts : α)
    (s : HcEvents α μ σ) : HcEvents α μ σ :=
  match s.triggers tid with
  | none => s
  | some trigger =>
    let prevH := match prevTs with
      | some p => api.height p
      | none => noHeight
    let appliedH := api.height ts
    let triggerH := appliedH + trigger.confidence
    { s with
      confQueue := Function.update s.confQueue triggerH
        (appendAt appliedH ⟨tid, prevH, appliedH, data, false⟩ (s.confQueue triggerH))
      revertQueue := Function.update s.revertQueue appliedH
        (s.revertQueue appliedH ++ [triggerH]) }

/-- The loop body of `applyWithConfidence` at `height` for the `k`-th event seen at `origH`. -/
def applyEvent (height origH : ℤ) (triggerTs : Option α) (s : HcEvents α μ σ)
    (ev : QueuedEvent μ σ) (k : ℕ) : HcEvents α μ σ :=
  if ev.called then s
  else
    match s.triggers ev.trigger with
    | none => s
    | some trigger =>
      if trigger.disabled then s
      else
        -- a state change has a previous tipset; when the cache cannot give it the event waits
        let prevTs : Except String (Option α) :=
          if ev.prevH ≠ noHeight then tsc.get api ev.prevH else .ok none
        match prevTs with
        | .error _ => s
        | .ok prevTs =>
          let answer := cb.respond s.calls.length
          let s := s.record (.handle ev.trigger (some ev.data) prevTs triggerTs height)
          match answer with
          | .error _ => s
          | .ok more =>
            { s with
              confQueue := Function.update s.confQueue height
                (setCalled origH k (s.confQueue height))
              timeouts := Function.update s.timeouts trigger.timeout
                ((s.timeouts trigger.timeout).map (bump ev.trigger))
              triggers := Function.update s.triggers ev.trigger
                (some { trigger with disabled := !more }) }

/-- `applyWithConfidence(ts, height)`; `ts` is not read. -/
def applyWithConfidence (height : ℤ) (s : HcEvents α μ σ) : HcEvents α μ σ :=
  (s.confQueue height).foldl (fun s (origH, events) =>
    let triggerTs := getOrNil api tsc origH
    events.zipIdx.foldl (fun s (ev, k) => applyEvent api cb tsc height origH triggerTs s ev k) s) s

/-- `runtime error: invalid memory address or nil pointer dereference`. -/
def nilTipSet : String :=
  "runtime error: invalid memory address or nil pointer dereference"

/-- The loop body of `applyTimeouts(ts)` for trigger `tid` with `calls` handled events.  A failed
handler is logged with `timeoutTs.Height()`, which a `nil` tipset does not survive. -/
def timeoutTrigger (ts : α) (s : HcEvents α μ σ) (tid calls : ℕ) :
    HcEvents α μ σ × Except String Unit :=
  if calls > 0 then (s, .ok ())
  else
    match s.triggers tid with
    | none => (s, .ok ())
    | some trigger =>
      if trigger.disabled then (s, .ok ())
      else
        let timeoutTs := getOrNil api tsc (api.height ts - trigger.confidence)
        let answer := cb.respond s.calls.length
        let s := s.record (.handle tid none none timeoutTs (api.height ts))
        match answer with
        | .ok more =>
          ({ s with
              triggers :=
                Function.update s.triggers tid (some { trigger with disabled := !more }) },
            .ok ())
        | .error _ =>
          match timeoutTs with
          | some _ => (s, .ok ())
          | none => (s, .error nilTipSet)

/-- `applyTimeouts(ts)`: the timeouts filed under the height of `ts`. -/
def applyTimeouts (ts : α) (s : HcEvents α μ σ) : HcEvents α μ σ × Except String Unit :=
  match s.timeouts (api.height ts) with
  | none => (s, .ok ())
  | some triggers =>
    Run.forUntilError (fun tc s => timeoutTrigger api cb tsc ts s tc.1 tc.2) triggers s

/-- `checkStateChanges(oldTs, newTs)`: every state matcher is run; the changes, by trigger. -/
def checkStateChanges (oldTs newTs : α) (s : HcEvents α μ σ) :
    List (ℕ × σ) × HcEvents α μ σ :=
  (s.stateMatchers.filterMap fun tid =>
      match cb.matchState tid oldTs newTs with
      | .ok (some d) => some (tid, d)
      | _ => none,
    { s with calls := s.calls ++ s.stateMatchers.map fun tid => .stateMatch tid oldTs newTs })

/-- The loop body of `messagesForTs` for one message: the seen CIDs and the messages consumed;
a message is consumed unless its CID was seen. -/
def consumeNew [DecidableEq μ] (acc : List μ × List μ) (m : μ) : List μ × List μ :=
  if m ∈ acc.1 then acc else (m :: acc.1, acc.2 ++ [m])

/-- `messagesForTs(ts)`: block by block, the BLS messages and then the secp ones, each CID once;
a block whose messages cannot be read is logged and skipped.  A message stands for its CID. -/
def messagesForTs [DecidableEq μ] (ts : α) : List μ :=
  ((cb.blockMessages ts).foldl (fun acc r =>
    match r with
    | .error _ => acc
    | .ok (bls, secpk) => secpk.foldl consumeNew (bls.foldl consumeNew acc)) ([], [])).2

/-- `checkNewCalls(ts)`: the messages of the parent tipset each matcher matched, by trigger; a
matcher that fails is logged and counts as no match. -/
def checkNewCalls [DecidableEq μ] (ts : α) (s : HcEvents α μ σ) :
    Except String (List (ℕ × List μ)) :=
  match cb.parent ts with
  | .error e => .error e
  | .ok pts =>
    .ok ((messagesForTs cb pts).foldl (fun res m =>
      s.msgMatchers.foldl (fun res tid =>
        if cb.matchMsg tid m = .ok true then appendAt tid m res else res) res) [])

/-- The loop body of `processHeadChangeEvent` for one height: the events and the timeouts. -/
def applyHeight (ts : α) (h : ℤ) (s : HcEvents α μ σ) :
    HcEvents α μ σ × Except String Unit :=
  applyTimeouts api cb tsc ts (applyWithConfidence api cb tsc h s)

/-- The loop body of `processHeadChangeEvent` for one applied tipset. -/
def applyTipSet [DecidableEq μ] (ts : α) (s : HcEvents α μ σ) :
    HcEvents α μ σ × Except String Unit :=
  let changes := checkStateChanges cb s.lastTs ts s
  let s := changes.1.foldl
    (fun s tc => queueForConfidence api tc.1 (.state tc.2) (some s.lastTs) ts s) changes.2
  match checkNewCalls cb ts s with
  | .error e => (s, .error e)
  | .ok newCalls =>
    let s := newCalls.foldl (fun s tc =>
      tc.2.foldl (fun s m => queueForConfidence api tc.1 (.msg m) none ts s) s) s
    match Run.forUntilError (applyHeight api cb tsc ts)
        (heightsBetween (api.height s.lastTs) (api.height ts)) s with
    | (s, .ok ()) => ({ s with lastTs := ts }, .ok ())
    | (s, .error e) => (s, .error e)

/-- `processHeadChangeEvent(rev, app)`. -/
def processHeadChangeEvent [DecidableEq μ] (rev app : List α) (s : HcEvents α μ σ) :
    HcEvents α μ σ × Except String Unit :=
  let s := rev.foldl (fun s ts => { handleReverts api ts s with lastTs := ts }) s
  Run.forUntilError (applyTipSet api cb tsc) app s

/-- `onHeadChanged`, given the answer of the `CheckFunc` on the best tipset: the new trigger's
id. -/
def onHeadChanged (check : Except String (Bool × Bool)) (confidence timeout : ℤ)
    (s : HcEvents α μ σ) : Except String (ℕ × HcEvents α μ σ) :=
  match tsc.best api with
  | .error e => .error ("error getting best tipset: " ++ e)
  | .ok ts =>
    match check with
    | .error e => .error ("called check error (h: " ++ toString (api.height ts) ++ "): " ++ e)
    | .ok (done, more) =>
      let timeout := if done then noTimeout else timeout
      let id := s.ctr
      .ok (id, { s with
        ctr := s.ctr + 1
        triggers := Function.update s.triggers id
          (some ⟨confidence, timeout + confidence, !more⟩)
        timeouts :=
          if timeout ≠ noTimeout then
            Function.update s.timeouts (timeout + confidence)
              (some (((s.timeouts (timeout + confidence)).getD []).filter (·.1 ≠ id) ++
                [(id, 0)]))
          else s.timeouts })

/-- `StateChanged`: the trigger, and its state matcher. -/
def stateChanged (check : Except String (Bool × Bool)) (confidence timeout : ℤ)
    (s : HcEvents α μ σ) : HcEvents α μ σ × Except String Unit :=
  match onHeadChanged api tsc check confidence timeout s with
  | .error e => (s, .error e)
  | .ok (id, s) => ({ s with stateMatchers := s.stateMatchers ++ [id] }, .ok ())

/-- `Called`: the trigger, and its message matcher. -/
def called (check : Except String (Bool × Bool)) (confidence timeout : ℤ)
    (s : HcEvents α μ σ) : HcEvents α μ σ × Except String Unit :=
  match onHeadChanged api tsc check confidence timeout s with
  | .error e => (s, .error e)
  | .ok (id, s) => ({ s with msgMatchers := s.msgMatchers ++ [id] }, .ok ())

/-- `newHCEvents`, once the first head notification has set `lastTs`. -/
def start (ts : α) : HcEvents α μ σ :=
  ⟨ts, 0, fun _ => none, fun _ => [], fun _ => [], fun _ => none, [], [], []⟩

/-- Trigger `tid` is registered and not disabled. -/
def Enabled (s : HcEvents α μ σ) (tid : ℕ) : Prop :=
  ∃ trigger, s.triggers tid = some trigger ∧ trigger.disabled = false

/-- The calls of trigger `tid`'s handler on its timeout path. -/
def timeoutCalls (tid : ℕ) (calls : List (HcCall α μ σ)) : ℕ :=
  calls.countP fun c =>
    match c with
    | .handle t none _ _ _ => decide (t = tid)
    | _ => false

@[simp] theorem timeoutCalls_append (tid : ℕ) (l₁ l₂ : List (HcCall α μ σ)) :
    timeoutCalls tid (l₁ ++ l₂) = timeoutCalls tid l₁ + timeoutCalls tid l₂ :=
  List.countP_append

@[simp] theorem timeoutCalls_nil (tid : ℕ) : timeoutCalls tid ([] : List (HcCall α μ σ)) = 0 :=
  rfl

theorem timeoutCalls_mono {tid : ℕ} {l₁ l₂ : List (HcCall α μ σ)} (h : l₁ <+: l₂) :
    timeoutCalls tid l₁ ≤ timeoutCalls tid l₂ :=
  h.sublist.countP_le

@[simp] theorem record_calls (s : HcEvents α μ σ) (c : HcCall α μ σ) :
    (s.record c).calls = s.calls ++ [c] := rfl

/-! ## The timeout path

When every handler asks for more, the timeout path only adds calls: the queues, the timeouts and
the last tipset stay, and no trigger is disabled. -/

section Timeouts

variable {cb}

/-- What the timeout path leaves of a state when every handler asks for more. -/
structure TimeoutFrame (s s' : HcEvents α μ σ) : Prop where
  lastTs : s'.lastTs = s.lastTs
  confQueue : s'.confQueue = s.confQueue
  timeouts : s'.timeouts = s.timeouts
  calls : s.calls <+: s'.calls
  enabled : ∀ tid, s.Enabled tid → s'.Enabled tid

theorem TimeoutFrame.refl (s : HcEvents α μ σ) : TimeoutFrame s s :=
  ⟨rfl, rfl, rfl, List.prefix_refl _, fun _ h => h⟩

theorem TimeoutFrame.trans {s₁ s₂ s₃ : HcEvents α μ σ} (h₁ : TimeoutFrame s₁ s₂)
    (h₂ : TimeoutFrame s₂ s₃) : TimeoutFrame s₁ s₃ :=
  ⟨h₂.lastTs.trans h₁.lastTs, h₂.confQueue.trans h₁.confQueue,
    h₂.timeouts.trans h₁.timeouts, h₁.calls.trans h₂.calls,
    fun tid h => h₂.enabled tid (h₁.enabled tid h)⟩

/-- A handler that asked for more leaves its trigger enabled, and the others as they were. -/
theorem enabled_update {s : HcEvents α μ σ} {tid t : ℕ} (trigger : HandlerInfo)
    (h : s.Enabled t) :
    Enabled
      { s with
        triggers :=
          Function.update s.triggers tid (some { trigger with disabled := false }) } t := by
  by_cases ht : t = tid
  · subst ht
    exact ⟨_, Function.update_self .., rfl⟩
  · obtain ⟨trig, htrig, hd⟩ := h
    exact ⟨trig, by simpa only [Function.update_of_ne ht] using htrig, hd⟩

theorem timeoutTrigger_frame (hmore : ∀ k, cb.respond k = .ok true) (ts : α)
    (s : HcEvents α μ σ) (tid n : ℕ) :
    (timeoutTrigger api cb tsc ts s tid n).2 = .ok () ∧
      TimeoutFrame s (timeoutTrigger api cb tsc ts s tid n).1 := by
  unfold timeoutTrigger
  split_ifs with hn
  · exact ⟨rfl, .refl s⟩
  cases htr : s.triggers tid with
  | none => exact ⟨rfl, .refl s⟩
  | some trigger =>
    dsimp only
    split_ifs with hd
    · exact ⟨rfl, .refl s⟩
    rw [hmore]
    refine ⟨rfl, rfl, rfl, rfl, List.prefix_append _ _, fun t ht => ?_⟩
    exact enabled_update trigger ht

/-- An enabled trigger with no handled event reaches its handler on its timeout path. -/
theorem timeoutTrigger_fires (hmore : ∀ k, cb.respond k = .ok true) (ts : α)
    {s : HcEvents α μ σ} {tid : ℕ} (hen : s.Enabled tid) :
    timeoutCalls tid s.calls < timeoutCalls tid (timeoutTrigger api cb tsc ts s tid 0).1.calls := by
  obtain ⟨trigger, htr, hd⟩ := hen
  simp [timeoutTrigger, htr, hd, hmore, timeoutCalls]

theorem timeoutLoop_frame (hmore : ∀ k, cb.respond k = .ok true) (ts : α)
    (l : List (ℕ × ℕ)) (s : HcEvents α μ σ) :
    (Run.forUntilError (fun tc s => timeoutTrigger api cb tsc ts s tc.1 tc.2) l s).2 = .ok () ∧
      TimeoutFrame s
        (Run.forUntilError (fun tc s => timeoutTrigger api cb tsc ts s tc.1 tc.2) l s).1 :=
  Run.forUntilError_ok (P := TimeoutFrame s)
    (fun tc _ h => ⟨(timeoutTrigger_frame api tsc hmore ts _ tc.1 tc.2).1,
      h.trans (timeoutTrigger_frame api tsc hmore ts _ tc.1 tc.2).2⟩) l s (.refl s)

theorem applyTimeouts_frame (hmore : ∀ k, cb.respond k = .ok true) (ts : α)
    (s : HcEvents α μ σ) :
    (applyTimeouts api cb tsc ts s).2 = .ok () ∧
      TimeoutFrame s (applyTimeouts api cb tsc ts s).1 := by
  unfold applyTimeouts
  split
  · exact ⟨rfl, .refl s⟩
  · exact timeoutLoop_frame api tsc hmore ts _ s

theorem timeoutLoop_fires (hmore : ∀ k, cb.respond k = .ok true) (ts : α) {tid : ℕ} :
    ∀ (l : List (ℕ × ℕ)) (s : HcEvents α μ σ), (tid, 0) ∈ l → s.Enabled tid →
      timeoutCalls tid s.calls < timeoutCalls tid
        (Run.forUntilError (fun tc s => timeoutTrigger api cb tsc ts s tc.1 tc.2) l s).1.calls
  | [], _, hmem, _ => absurd hmem List.not_mem_nil
  | tc :: l, s, hmem, hen => by
    obtain ⟨hok, hframe⟩ := timeoutTrigger_frame api tsc hmore ts s tc.1 tc.2
    rw [Run.forUntilError_cons_of_ok hok]
    rcases List.mem_cons.mp hmem with rfl | hmem
    · -- the trigger's own entry fires here; the rest of the loop only adds calls
      exact lt_of_lt_of_le (timeoutTrigger_fires api tsc hmore ts hen)
        (timeoutCalls_mono (timeoutLoop_frame api tsc hmore ts l _).2.calls)
    · exact lt_of_le_of_lt (timeoutCalls_mono hframe.calls)
        (timeoutLoop_fires hmore ts l _ hmem (hframe.enabled tid hen))

theorem applyTimeouts_fires (hmore : ∀ k, cb.respond k = .ok true) (ts : α)
    {s : HcEvents α μ σ} {l : List (ℕ × ℕ)} (hl : s.timeouts (api.height ts) = some l)
    {tid : ℕ} (hmem : (tid, 0) ∈ l) (hen : s.Enabled tid) :
    timeoutCalls tid s.calls < timeoutCalls tid (applyTimeouts api cb tsc ts s).1.calls := by
  rw [applyTimeouts, hl]
  exact timeoutLoop_fires api tsc hmore ts l s hmem hen

theorem applyWithConfidence_of_nil {h : ℤ} {s : HcEvents α μ σ} (hq : s.confQueue h = []) :
    applyWithConfidence api cb tsc h s = s := by
  simp [applyWithConfidence, hq]

@[simp] theorem length_heightsBetween (lo hi : ℤ) :
    (heightsBetween lo hi).length = (hi - lo + 1).toNat := by
  simp [heightsBetween]

/-- With nothing queued, the loop of `processHeadChangeEvent` for `ts` runs the timeout path of
`ts`'s height once per height it goes through. -/
theorem applyHeights_fires (hmore : ∀ k, cb.respond k = .ok true) (ts : α)
    {l : List (ℕ × ℕ)} {tid : ℕ} (hmem : (tid, 0) ∈ l) :
    ∀ (hs : List ℤ) (s : HcEvents α μ σ), (∀ h, s.confQueue h = []) →
      s.timeouts (api.height ts) = some l → s.Enabled tid →
      (Run.forUntilError (applyHeight api cb tsc ts) hs s).2 = .ok () ∧
        TimeoutFrame s (Run.forUntilError (applyHeight api cb tsc ts) hs s).1 ∧
        timeoutCalls tid s.calls + hs.length ≤
          timeoutCalls tid (Run.forUntilError (applyHeight api cb tsc ts) hs s).1.calls
  | [], s, _, _, _ => ⟨rfl, .refl s, by simp [Run.forUntilError]⟩
  | h :: hs, s, hq, hl, hen => by
    have happ : applyHeight api cb tsc ts h s = applyTimeouts api cb tsc ts s := by
      rw [applyHeight, applyWithConfidence_of_nil api tsc (hq h)]
    obtain ⟨hok, hframe⟩ := applyTimeouts_frame api tsc hmore ts s
    have hfire := applyTimeouts_fires api tsc hmore ts hl hmem hen
    rw [Run.forUntilError_cons_of_ok (by rw [happ]; exact hok), happ]
    obtain ⟨hok', hframe', hcount⟩ := applyHeights_fires hmore ts hmem hs _
      (fun h => by rw [hframe.confQueue]; exact hq h) (by rw [hframe.timeouts]; exact hl)
      (hframe.enabled tid hen)
    refine ⟨hok', hframe.trans hframe', ?_⟩
    rw [List.length_cons]
    omega

theorem checkStateChanges_of_none (hnone : ∀ tid a b, cb.matchState tid a b = .ok none)
    (oldTs newTs : α) (s : HcEvents α μ σ) :
    checkStateChanges cb oldTs newTs s =
      ([], { s with
        calls := s.calls ++ s.stateMatchers.map fun tid => .stateMatch tid oldTs newTs }) := by
  simp [checkStateChanges, hnone]

theorem checkNewCalls_of_nil [DecidableEq μ] {ts pts : α} (hparent : cb.parent ts = .ok pts)
    {s : HcEvents α μ σ} (hmsg : s.msgMatchers = []) : checkNewCalls cb ts s = .ok [] := by
  simp only [checkNewCalls, hparent, hmsg, List.foldl_nil, List.foldl_fixed]

/-- An applied tipset with no state change and no message matcher, when nothing is queued: an
enabled trigger with no handled event whose timeout height is the tipset's reaches its handler
on the timeout path once for every height from the last tipset's to this one's. -/
theorem applyTipSet_fires [DecidableEq μ] (hmore : ∀ k, cb.respond k = .ok true)
    (hnone : ∀ tid a b, cb.matchState tid a b = .ok none) {ts pts : α}
    (hparent : cb.parent ts = .ok pts) {s : HcEvents α μ σ} (hmsg : s.msgMatchers = [])
    (hq : ∀ h, s.confQueue h = []) {l : List (ℕ × ℕ)}
    (hl : s.timeouts (api.height ts) = some l) {tid : ℕ} (hmem : (tid, 0) ∈ l)
    (hen : s.Enabled tid) :
    (applyTipSet api cb tsc ts s).2 = .ok () ∧
      timeoutCalls tid s.calls + (api.height ts - api.height s.lastTs + 1).toNat ≤
        timeoutCalls tid (applyTipSet api cb tsc ts s).1.calls := by
  -- the matchers only add their calls, and nothing is queued
  obtain ⟨hok, -, hcount⟩ := applyHeights_fires api tsc hmore ts hmem
    (heightsBetween (api.height s.lastTs) (api.height ts))
    { s with calls := s.calls ++ s.stateMatchers.map fun tid => .stateMatch tid s.lastTs ts }
    hq hl hen
  rw [length_heightsBetween] at hcount
  simp (disch := exact hmsg) only [applyTipSet, checkStateChanges_of_none hnone, List.foldl_nil,
    checkNewCalls_of_nil hparent]
  split
  · rename_i heq
    rw [heq] at hcount
    exact ⟨rfl, le_trans (Nat.add_le_add_right (timeoutCalls_mono (List.prefix_append _ _)) _)
      hcount⟩
  · rename_i heq
    rw [heq] at hok
    cases hok

end Timeouts

/-! ## Calls are only added

Every step of `processHeadChangeEvent` only adds calls, whatever the callbacks answer. -/

section Calls

variable {api cb tsc}

theorem foldl_calls_eq {ι : Type*} {f : HcEvents α μ σ → ι → HcEvents α μ σ}
    (hf : ∀ s i, (f s i).calls = s.calls) (l : List ι) (s : HcEvents α μ σ) :
    (l.foldl f s).calls = s.calls :=
  Run.run_invariant (P := fun s' : HcEvents α μ σ => s'.calls = s.calls)
    (fun _ i h => (hf _ i).trans h) l rfl

theorem foldl_calls_prefix {ι : Type*} {f : HcEvents α μ σ → ι → HcEvents α μ σ}
    (hf : ∀ s i, s.calls <+: (f s i).calls) (l : List ι) (s : HcEvents α μ σ) :
    s.calls <+: (l.foldl f s).calls :=
  Run.run_invariant (P := fun s' : HcEvents α μ σ => s.calls <+: s'.calls)
    (fun _ i h => h.trans (hf _ i)) l (List.prefix_refl _)

theorem queueForConfidence_calls (tid : ℕ) (data : EventData μ σ) (prevTs : Option α) (ts : α)
    (s : HcEvents α μ σ) : (queueForConfidence api tid data prevTs ts s).calls = s.calls := by
  unfold queueForConfidence
  split <;> rfl

theorem applyEvent_calls (height origH : ℤ) (triggerTs : Option α) (s : HcEvents α μ σ)
    (ev : QueuedEvent μ σ) (k : ℕ) :
    s.calls <+: (applyEvent api cb tsc height origH triggerTs s ev k).calls := by
  unfold applyEvent
  split
  · exact List.prefix_refl _
  split
  · exact List.prefix_refl _
  split
  · exact List.prefix_refl _
  dsimp only
  split
  · exact List.prefix_refl _
  split <;> exact List.prefix_append _ _

theorem applyWithConfidence_calls (h : ℤ) (s : HcEvents α μ σ) :
    s.calls <+: (applyWithConfidence api cb tsc h s).calls :=
  foldl_calls_prefix (fun s₁ _ => foldl_calls_prefix (fun _ _ => applyEvent_calls ..) _ s₁) _ s

theorem timeoutTrigger_calls (ts : α) (s : HcEvents α μ σ) (tid n : ℕ) :
    s.calls <+: (timeoutTrigger api cb tsc ts s tid n).1.calls := by
  unfold timeoutTrigger
  split_ifs
  · exact List.prefix_refl _
  split
  · exact List.prefix_refl _
  split_ifs
  · exact List.prefix_refl _
  dsimp only
  split
  · exact List.prefix_append _ _
  · split <;> exact List.prefix_append _ _

theorem forUntilError_calls {ι : Type*}
    {body : ι → HcEvents α μ σ → HcEvents α μ σ × Except String Unit}
    (hbody : ∀ i s, s.calls <+: (body i s).1.calls) (l : List ι) (s : HcEvents α μ σ) :
    s.calls <+: (Run.forUntilError body l s).1.calls :=
  Run.forUntilError_invariant (P := fun s' : HcEvents α μ σ => s.calls <+: s'.calls)
    (fun i _ hp => hp.trans (hbody i _)) l s (List.prefix_refl _)

theorem applyHeight_calls (ts : α) (h : ℤ) (s : HcEvents α μ σ) :
    s.calls <+: (applyHeight api cb tsc ts h s).1.calls := by
  have hconf : s.calls <+: (applyWithConfidence api cb tsc h s).calls :=
    applyWithConfidence_calls h s
  unfold applyHeight
  refine hconf.trans ?_
  unfold applyTimeouts
  split
  · exact List.prefix_refl _
  · exact forUntilError_calls (fun (tc : ℕ × ℕ) s => timeoutTrigger_calls ts s tc.1 tc.2) _ _

/-- The state matchers are run first, on the last tipset and the applied one; the rest of the
step only adds calls. -/
theorem applyTipSet_calls [DecidableEq μ] (ts : α) (s : HcEvents α μ σ) :
    s.calls ++ s.stateMatchers.map (fun tid => .stateMatch tid s.lastTs ts) <+:
      (applyTipSet api cb tsc ts s).1.calls := by
  -- queueing adds no call
  have hstate := foldl_calls_eq fun (s : HcEvents α μ σ) (tc : ℕ × σ) =>
    @queueForConfidence_calls α μ σ api tc.1 (.state tc.2) (some s.lastTs) ts s
  have hmsgs := foldl_calls_eq fun (s : HcEvents α μ σ) (tc : ℕ × List μ) =>
    foldl_calls_eq (fun (s : HcEvents α μ σ) (m : μ) =>
      @queueForConfidence_calls α μ σ api tc.1 (.msg m) none ts s) tc.2 s
  unfold applyTipSet
  dsimp only
  split
  · rw [hstate]
    exact List.prefix_refl _
  · -- the loop over the heights, failed or not, only adds calls
    split
    all_goals
      rename_i heq
      have hfst := congrArg Prod.fst heq
      dsimp only at hfst ⊢
      rw [← hfst]
      refine List.IsPrefix.trans ?_ (forUntilError_calls (applyHeight_calls ts) _ _)
      rw [hmsgs, hstate]
      exact List.prefix_refl _

theorem applyTipSets_calls [DecidableEq μ] (app : List α) (s : HcEvents α μ σ) :
    s.calls <+: (Run.forUntilError (applyTipSet api cb tsc) app s).1.calls :=
  forUntilError_calls (fun ts s => (List.prefix_append _ _).trans (applyTipSet_calls ts s)) app s

end Calls

/-! ## Reverts and null rounds -/

section Reverts

variable {api cb tsc}

/-- After the reverts, `lastTs` is the last tipset reverted. -/
theorem reverts_lastTs : ∀ (rev : List α) (s : HcEvents α μ σ),
    (rev.foldl (fun s ts => { handleReverts api ts s with lastTs := ts }) s).lastTs =
      rev.getLast?.getD s.lastTs
  | [], _ => rfl
  | ts :: rev, s => by
    rw [List.foldl_cons, reverts_lastTs rev, List.getLast?_cons]
    rfl

theorem handleReverts_stateMatchers (ts : α) (s : HcEvents α μ σ) :
    (handleReverts api ts s).stateMatchers = s.stateMatchers :=
  -- a revert only touches the calls and the queues
  @Run.run_invariant _ _ (revertAt api ts) (fun s' => s'.stateMatchers = s.stateMatchers)
    (fun _ _ h => h) _ s rfl

theorem reverts_stateMatchers (rev : List α) (s : HcEvents α μ σ) :
    (rev.foldl (fun s ts => { handleReverts api ts s with lastTs := ts }) s).stateMatchers =
      s.stateMatchers :=
  @Run.run_invariant _ _ (fun s ts => { handleReverts api ts s with lastTs := ts })
    (fun s' => s'.stateMatchers = s.stateMatchers)
    (fun s' ts h => (handleReverts_stateMatchers ts s').trans h) rev s rfl

/-- The first tipset applied after reverts is compared, by every state matcher, with the last
tipset reverted: a tipset of the abandoned fork, not the applied tipset's parent. -/
theorem stateMatch_after_revert [DecidableEq μ] (rev : List α) (ts : α) (app : List α) (s : HcEvents α μ σ)
    {tid : ℕ} (htid : tid ∈ s.stateMatchers) :
    HcCall.stateMatch tid (rev.getLast?.getD s.lastTs) ts ∈
      (processHeadChangeEvent api cb tsc rev (ts :: app) s).1.calls := by
  simp only [processHeadChangeEvent]
  set s₁ := rev.foldl (fun s ts => { handleReverts api ts s with lastTs := ts }) s
  -- the first applied tipset runs the matchers; the rest of the loop only adds calls
  have hfirst : s₁.calls ++ s₁.stateMatchers.map (fun tid => .stateMatch tid s₁.lastTs ts) <+:
      (Run.forUntilError (applyTipSet api cb tsc) (ts :: app) s₁).1.calls := by
    rcases Run.forUntilError_cons_fst (applyTipSet api cb tsc) ts app s₁ with h | h
    · rw [h]
      exact applyTipSet_calls ts s₁
    · rw [h]
      exact (applyTipSet_calls ts s₁).trans (applyTipSets_calls app _)
  apply hfirst.subset
  rw [reverts_lastTs, reverts_stateMatchers]
  simp [htid]

theorem applyHeights_quiet (ts : α) {s : HcEvents α μ σ} (hq : ∀ h, s.confQueue h = [])
    (hl : s.timeouts (api.height ts) = none) :
    ∀ hs : List ℤ, Run.forUntilError (applyHeight api cb tsc ts) hs s = (s, .ok ())
  | [] => rfl
  | h :: hs => by
    rw [Run.forUntilError, applyHeight, applyWithConfidence_of_nil api tsc (hq h), applyTimeouts,
      hl]
    exact applyHeights_quiet ts hq hl hs

/-- With nothing queued and no change the matchers see, a tipset at whose height no timeout is
filed calls no handler, though the loop goes through every height from the last tipset's: the
timeout of a trigger filed at a null round in between is passed over. -/
theorem timeout_skipped_at_null_round [DecidableEq μ]
    (hnone : ∀ tid a b, cb.matchState tid a b = .ok none) {ts pts : α}
    (hparent : cb.parent ts = .ok pts) {s : HcEvents α μ σ}
    (hmsg : s.msgMatchers = []) (hq : ∀ h, s.confQueue h = [])
    (hl : s.timeouts (api.height ts) = none) :
    applyTipSet api cb tsc ts s =
      ({ s with
        lastTs := ts
        calls := s.calls ++ s.stateMatchers.map fun tid => .stateMatch tid s.lastTs ts },
        .ok ()) := by
  simp (disch := exact hmsg) only [applyTipSet, checkStateChanges_of_none hnone, List.foldl_nil,
    checkNewCalls_of_nil hparent]
  rw [applyHeights_quiet
    (s := { s with calls := s.calls ++ s.stateMatchers.map fun tid => .stateMatch tid s.lastTs ts })
    ts hq hl]

end Reverts

end HcEvents

/-- `Events`: the height triggers and the hcEvents, over the height triggers' tipset cache. -/
structure EventsState (α μ σ : Type*) where
  heights : HeightEvents α
  hc : HcEvents α μ σ

/-- What happens to the events. -/
inductive EventsOp (α : Type*)
  /-- `Events.headChange` with the reverted and the applied tipsets. -/
  | headChange (rev app : List α)
  /-- `StateChanged`, with the answer of its `CheckFunc`. -/
  | stateChanged (check : Except String (Bool × Bool)) (confidence timeout : ℤ)
  /-- `Called`, with the answer of its `CheckFunc`. -/
  | called (check : Except String (Bool × Bool)) (confidence timeout : ℤ)

namespace EventsState

variable {α μ σ : Type*} [DecidableEq α] (api : ChainAPI α) (gcConfidence : ℤ)
  (cb : Callbacks α μ σ)

/-- `NewEventsWithConfidence` after the first notification of `listenHeadChangesOnce`. -/
def start (ts : α) : EventsState α μ σ :=
  ⟨HeightEvents.step api gcConfidence HeightEvents.init (.current ts), HcEvents.start ts⟩

/-- `Events.headChange`: a change that applies nothing is refused before the lock is taken;
otherwise the height triggers, then `processHeadChangeEvent` over the cache they left. -/
def headChange [DecidableEq μ] (rev app : List α) (e : EventsState α μ σ) :
    EventsState α μ σ × Except String Unit :=
  if app.length = 0 then (e, .error "events.headChange expected at least one applied tipset")
  else
    match e.heights.headChange api gcConfidence rev app with
    | (heights, .error err) => ({ e with heights }, .error err)
    | (heights, .ok ()) =>
      let r := e.hc.processHeadChangeEvent api cb heights.tsc rev app
      (⟨heights, r.1⟩, r.2)

/-- One operation; the errors are returned to the caller, and only logged by the listener. -/
def step [DecidableEq μ] (e : EventsState α μ σ) : EventsOp α → EventsState α μ σ
  | .headChange rev app => (e.headChange api gcConfidence cb rev app).1
  | .stateChanged check confidence timeout =>
    { e with hc := (e.hc.stateChanged api e.heights.tsc check confidence timeout).1 }
  | .called check confidence timeout =>
    { e with hc := (e.hc.called api e.heights.tsc check confidence timeout).1 }

/-! ## A fresh `Events` -/

section Fresh

variable {api gcConfidence}

theorem start_best (hgc : 1 ≤ gcConfidence) (ts₀ : α) :
    (start api gcConfidence ts₀ : EventsState α μ σ).heights.tsc.best api = .ok ts₀ := by
  obtain ⟨n, hn⟩ : ∃ n, gcConfidence.toNat = n + 1 := ⟨gcConfidence.toNat - 1, by omega⟩
  simp [start, HeightEvents.step, HeightEvents.init, TipSetCache.add, TipSetCache.empty,
    TipSetCache.head, TipSetCache.push, hn, TipSetCache.best]

/-- With no height trigger, a child of the first head goes through the height triggers. -/
theorem start_headChange_child (hgc : 2 ≤ gcConfidence) {ts₀ ts₁ : α}
    (h : api.height ts₀ + 1 = api.height ts₁) :
    ((start api gcConfidence ts₀ : EventsState α μ σ).heights.headChange api gcConfidence []
      [ts₁]).2 = .ok () := by
  obtain ⟨n, hn⟩ : ∃ n, gcConfidence.toNat = n + 2 := ⟨gcConfidence.toNat - 2, by omega⟩
  simp [start, HeightEvents.step, HeightEvents.init, TipSetCache.add, TipSetCache.empty,
    TipSetCache.head, TipSetCache.push, hn, HeightEvents.headChange, HeightEvents.headChangeAt,
    Run.forUntilError, HeightEvents.applyTipSet, HeightEvents.applyAt, HeightEvents.applyNullRounds,
    TipSetCache.get, TipSetCache.tail, ← h]

/-- `StateChanged` on a fresh `Events`, with a check that is not done and wants more: trigger 0,
enabled, its timeout filed at `T + c`. -/
theorem stateChanged_start (hgc : 1 ≤ gcConfidence) {c T : ℤ} (hT : T ≠ noTimeout)
    (ts₀ : α) :
    ((start api gcConfidence ts₀ : EventsState α μ σ).hc.stateChanged api
      (start api gcConfidence ts₀ : EventsState α μ σ).heights.tsc (.ok (false, true)) c T).1 =
      { HcEvents.start ts₀ with
        ctr := 1
        triggers := Function.update (fun _ => none) 0 (some ⟨c, T + c, false⟩)
        timeouts := Function.update (fun _ => none) (T + c) (some [(0, 0)])
        stateMatchers := [0] } := by
  rw [HcEvents.stateChanged, HcEvents.onHeadChanged, start_best hgc]
  simp [hT, start, HcEvents.start]

end Fresh

end EventsState

/-- A `StateChanged` trigger whose check is not done, on a fresh `Events` whose head is just
under its timeout height `T + c`; the head's child at `T + c` has no change the matchers see.  A
handler that asks for more on its timeout has it called twice for that one tipset. -/
theorem timeout_fires_twice [DecidableEq α] [DecidableEq μ] (api : ChainAPI α)
    (gcConfidence : ℤ) (cb : Callbacks α μ σ) (hgc : 2 ≤ gcConfidence) {c T : ℤ} (hT : T ≠ noTimeout)
    {ts₀ ts₁ : α} (h₀ : api.height ts₀ + 1 = api.height ts₁)
    (h₁ : api.height ts₁ = T + c) (hnone : ∀ tid a b, cb.matchState tid a b = .ok none)
    {pts : α} (hparent : cb.parent ts₁ = .ok pts) (hmore : ∀ k, cb.respond k = .ok true) :
    2 ≤ HcEvents.timeoutCalls 0 (Run.run (EventsState.step api gcConfidence cb)
      (EventsState.start api gcConfidence ts₀)
      [.stateChanged (.ok (false, true)) c T, .headChange [] [ts₁]]).hc.calls := by
  have hc₁ := @EventsState.stateChanged_start α μ σ _ api gcConfidence
    (show 1 ≤ gcConfidence by omega) c T hT ts₀
  -- the height triggers take the child
  rcases hh : (EventsState.start api gcConfidence ts₀ : EventsState α μ σ).heights.headChange
    api gcConfidence [] [ts₁] with ⟨heights, r⟩
  have hr : r = .ok () := by
    have := EventsState.start_headChange_child (μ := μ) (σ := σ) hgc h₀
    rw [hh] at this
    exact this
  subst hr
  -- the timeout path of trigger 0 runs at the head's height and at the child's
  obtain ⟨hok, hcount⟩ := HcEvents.applyTipSet_fires api heights.tsc hmore hnone hparent
    (s := { HcEvents.start ts₀ with
        ctr := 1
        triggers := Function.update (fun _ => none) 0 (some ⟨c, T + c, false⟩)
        timeouts := Function.update (fun _ => none) (T + c) (some [(0, 0)])
        stateMatchers := [0] }) rfl (fun _ => rfl) (l := [(0, 0)]) (by simp [h₁])
    (List.mem_singleton_self (0, 0)) ⟨⟨c, T + c, false⟩, by simp, rfl⟩
  simp only [Run.run, List.foldl, EventsState.step, hc₁, EventsState.headChange, hh,
    HcEvents.processHeadChangeEvent, Run.forUntilError_cons_of_ok hok]
  simpa [Run.forUntilError, HcEvents.start, ← h₀] using hcount

/-- A chain whose tipsets are their heights. -/
def heightChain : ChainAPI ℤ :=
  ⟨id, fun h _ => .ok h, .ok 0⟩

/-- A trigger owner that always asks for more and whose matchers never match. -/
def alwaysMore : Callbacks ℤ ℕ ℕ :=
  ⟨fun _ => .ok true, fun _ _ _ => .ok none, fun h => .ok (h - 1), fun _ => [],
    fun _ _ => .ok false⟩

theorem timeout_fires_twice_heightChain :
    2 ≤ HcEvents.timeoutCalls 0 (Run.run (EventsState.step heightChain 2 alwaysMore)
      (EventsState.start heightChain 2 5)
      [.stateChanged (.ok (false, true)) 1 5, .headChange [] [6]]).hc.calls :=
  timeout_fires_twice heightChain 2 alwaysMore (by decide) (by simp [noTimeout]) rfl rfl
    (fun _ _ _ => rfl) rfl (fun _ => rfl)

/-- The head at `7` is reverted and a tipset at `7` applied: the state matcher of trigger `0`
compares the applied tipset with the reverted one, not with its parent at `6`. -/
theorem stateMatch_after_revert_sameHeight :
    HcCall.stateMatch 0 7 7 ∈ (HcEvents.processHeadChangeEvent heightChain alwaysMore
      TipSetCache.empty [7] [7] { HcEvents.start 7 with stateMatchers := [0] }).1.calls :=
  HcEvents.stateMatch_after_revert [7] 7 [] _ List.mem_cons_self

/-- Trigger `0` has its timeout filed at `6`, a null round between the head at `5` and the tipset
applied at `7`: no handler is called. -/
theorem timeout_skipped_at_null_round_six :
    let s : HcEvents ℤ ℕ ℕ := { HcEvents.start 5 with
      triggers := Function.update (fun _ => none) 0 (some ⟨1, 6, false⟩)
      timeouts := Function.update (fun _ => none) 6 (some [(0, 0)]) }
    HcEvents.applyTipSet heightChain alwaysMore TipSetCache.empty 7 s =
      ({ s with
        lastTs := 7
        calls := s.calls ++ s.stateMatchers.map fun tid => .stateMatch tid s.lastTs 7 }, .ok ()) :=
  HcEvents.timeout_skipped_at_null_round (fun _ _ _ => rfl) rfl rfl (fun _ => rfl) (by decide)

end Events

end Lotus
