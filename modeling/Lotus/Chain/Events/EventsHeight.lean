import Mathlib
import Lotus.Chain.Events.Tscache
import Lotus.Lib.Run

/-!
# Height triggers of chain events (`chain/events/events_height.go`)

`ChainAt(hnd, rev, confidence, h)` asks for `hnd` to be called once the chain reaches
`h + confidence`, and `rev` if the chain is then rolled back under `h`.  `heightEvents` files each
trigger twice: under its height `h` (`htHeights`, for reverts) and under its trigger height
`h + confidence` (`htTriggerHeights`, for applies).  `headChangeAt` reverts tipsets one by one,
calling the revert handlers filed under each reverted height and under the null rounds just below
it, then applies tipsets one by one, calling the handlers filed under each applied height and
the null rounds below it.  A trigger's `called` flag is set when `headChangeAt` calls its
handler and cleared when it calls its revert handler.

The callbacks are recorded: the state holds the list of calls made so far.  Operations are
atomic: `ChainAt` and head changes come one after another, as `Events.headChange` holds the lock
and `listenHeadChangesOnce` delivers changes in order.  A handler's error is only logged, except
in `ChainAt`'s own immediate call, whose error is returned, and the caller decides it
(`handlerFails`).  The ring of the tipset cache has `gcConfidence` slots, as `NewEvents` makes it;
`observeChanges` and the message events of `Events.headChange` are left out.  A trigger id that
is filed but not registered would make the code dereference a nil handler; no run files one
(`CalledInv.unregistered`), and the model skips it.

**What the flags guarantee.**  Along every run, the `called` flag of each trigger says whether
the last call `headChangeAt` made for it was its handler, and `headChangeAt` never calls a
trigger's handler twice without its revert handler in between (`runEvents_calledInv`).

**What they do not.**  The revert handlers of every trigger filed under a reverted height are
called, applied or not, and the apply loop stops at the first trigger of a height already
called, skipping those behind it.  So a trigger can see its revert handler with no handler call
before it, and a trigger whose height was reverted can stay unapplied while the chain is back at
its trigger height (`revert_before_apply_and_reapply_skipped`).
-/

namespace Lotus

namespace Events

/-- A registered trigger, `heightHandler`, without its two callbacks. -/
structure HeightHandler where
  confidence : ℤ
  called : Bool

/-- A call of a trigger's callbacks. -/
inductive Call (α : Type*)
  /-- `HeightHandler` of trigger `id`, from `headChangeAt`, with the tipset at the trigger's
  height and the height it fired at. -/
  | handle (id : ℕ) (ts : α) (h : ℤ)
  /-- `HeightHandler` called by `ChainAt` itself, with the tipset at the trigger's height when the
  cache has it and the height of the head. -/
  | immediate (ts : Option α) (h : ℤ)
  /-- `RevertHandler` of trigger `id`, with the reverted tipset. -/
  | revert (id : ℕ) (ts : α)
  deriving DecidableEq

/-- `heightEvents`, and the calls its callbacks have received. -/
structure HeightEvents (α : Type*) where
  tsc : TipSetCache α
  ctr : ℕ
  heightTriggers : ℕ → Option HeightHandler
  htTriggerHeights : ℤ → List ℕ
  htHeights : ℤ → List ℕ
  calls : List (Call α)

/-- What happens to the height events. -/
inductive Op (α : Type*)
  /-- The first notification of `listenHeadChangesOnce`: the current head is added to the cache. -/
  | current (ts : α)
  /-- `Events.headChange` with the reverted and the applied tipsets. -/
  | headChange (rev app : List α)
  /-- `ChainAt` of a trigger at height `h`. -/
  | chainAt (confidence h : ℤ) (handlerFails : Bool)

namespace HeightEvents

variable {α : Type*} (api : ChainAPI α) (gcConfidence : ℤ)

/-- A callback of trigger `tid` has been called: the call is recorded and the flag set. -/
def callTrigger (s : HeightEvents α) (tid : ℕ) (hnd : HeightHandler) (call : Call α)
    (called : Bool) : HeightEvents α :=
  { s with
    calls := s.calls ++ [call]
    heightTriggers := Function.update s.heightTriggers tid (some { hnd with called }) }

@[simp] theorem callTrigger_ctr (s : HeightEvents α) (tid : ℕ) (hnd : HeightHandler)
    (call : Call α) (called : Bool) : (s.callTrigger tid hnd call called).ctr = s.ctr := rfl

@[simp] theorem callTrigger_calls (s : HeightEvents α) (tid : ℕ) (hnd : HeightHandler)
    (call : Call α) (called : Bool) : (s.callTrigger tid hnd call called).calls = s.calls ++ [call] :=
  rfl

@[simp] theorem callTrigger_heightTriggers (s : HeightEvents α) (tid : ℕ) (hnd : HeightHandler)
    (call : Call α) (called : Bool) :
    (s.callTrigger tid hnd call called).heightTriggers =
      Function.update s.heightTriggers tid (some { hnd with called }) := rfl

/-- The body of `revert`: the revert handler of trigger `tid` with the reverted tipset. -/
def revertTrigger (ts : α) (s : HeightEvents α) (tid : ℕ) : HeightEvents α :=
  match s.heightTriggers tid with
  | some hnd => s.callTrigger tid hnd (.revert tid ts) false
  | none => s

/-- `revert` of `headChangeAt`: every trigger filed under height `h`. -/
def revertAt (h : ℤ) (ts : α) (s : HeightEvents α) : HeightEvents α :=
  Run.run (revertTrigger ts) s (s.htHeights h)

/-- The loop of `headChangeAt` under a reverted tipset: `revert` at each null round below it,
down to the first tipset. -/
def revertNullRounds (ts : α) : ℕ → ℤ → HeightEvents α → HeightEvents α × Except String Unit
  | 0, _, s => (s, .error "out of fuel")
  | fuel + 1, subh, s =>
    match s.tsc.get api subh with
    | .error e => (s, .error e)
    | .ok (some _) => (s, .ok ())
    | .ok none => revertNullRounds ts fuel (subh - 1) (s.revertAt subh ts)

variable [DecidableEq α]

/-- One reverted tipset of `headChangeAt`. -/
def revertTipSet (ts : α) (s : HeightEvents α) : HeightEvents α × Except String Unit :=
  let s := s.revertAt (api.height ts) ts
  match s.revertNullRounds api ts (s.tsc.slots.length + 1) (api.height ts - 1) with
  | (s, .error e) => (s, .error e)
  | (s, .ok ()) =>
    match s.tsc.revert ts with
    | .error e => (s, .error e)
    | .ok tsc => ({ s with tsc }, .ok ())

/-- `apply` of `headChangeAt` at height `h`: the triggers filed under `h`, in order, each called
with the tipset at its own height, until the first one already called. -/
def applyAt (h : ℤ) : List ℕ → HeightEvents α → HeightEvents α × Except String Unit
  | [], s => (s, .ok ())
  | tid :: tids, s =>
    match s.heightTriggers tid with
    | none => applyAt h tids s
    | some hnd =>
      -- `if hnd.called { return nil }`: the triggers after it are not looked at
      if hnd.called then (s, .ok ())
      else
        match s.tsc.getNonNull api (h - hnd.confidence) with
        | .error e => (s, .error e)
        | .ok incTs => applyAt h tids (s.callTrigger tid hnd (.handle tid incTs h) true)

/-- The loop of `headChangeAt` under an applied tipset: `apply` at each null round below it,
down to the first tipset. -/
def applyNullRounds : ℕ → ℤ → HeightEvents α → HeightEvents α × Except String Unit
  | 0, _, s => (s, .error "out of fuel")
  | fuel + 1, subh, s =>
    match s.tsc.get api subh with
    | .error e => (s, .error e)
    | .ok (some _) => (s, .ok ())
    | .ok none =>
      match s.applyAt api subh (s.htTriggerHeights subh) with
      | (s, .error e) => (s, .error e)
      | (s, .ok ()) => applyNullRounds fuel (subh - 1) s

/-- One applied tipset of `headChangeAt`. -/
def applyTipSet (ts : α) (s : HeightEvents α) : HeightEvents α × Except String Unit :=
  match s.tsc.add api gcConfidence.toNat ts with
  | .error e => (s, .error e)
  | .ok tsc =>
    let s := { s with tsc }
    match s.applyAt api (api.height ts) (s.htTriggerHeights (api.height ts)) with
    | (s, .error e) => (s, .error e)
    | (s, .ok ()) => s.applyNullRounds api (s.tsc.slots.length + 1) (api.height ts - 1)

/-- `headChangeAt`: the reverts, then the applies, up to the first error. -/
def headChangeAt (rev app : List α) (s : HeightEvents α) : HeightEvents α × Except String Unit :=
  match Run.forUntilError (revertTipSet api) rev s with
  | (s, .error e) => (s, .error e)
  | (s, .ok ()) => Run.forUntilError (applyTipSet api gcConfidence) app s

/-- `Events.headChange`, as far as the height triggers go. -/
def headChange (rev app : List α) (s : HeightEvents α) : HeightEvents α × Except String Unit :=
  if app = [] then (s, .error "events.headChange expected at least one applied tipset")
  else s.headChangeAt api gcConfidence rev app

/-- The trigger is filed under its height and its trigger height, with the next id. -/
def register (confidence h : ℤ) (s : HeightEvents α) : HeightEvents α :=
  { s with
    ctr := s.ctr + 1
    heightTriggers := Function.update s.heightTriggers s.ctr (some ⟨confidence, false⟩)
    htHeights := Function.update s.htHeights h (s.htHeights h ++ [s.ctr])
    htTriggerHeights := Function.update s.htTriggerHeights (h + confidence)
      (s.htTriggerHeights (h + confidence) ++ [s.ctr]) }

/-- The end of `ChainAt`: no trigger when the head is `gcConfidence` past the trigger height. -/
def registerUnlessFinal (bestH confidence h : ℤ) (s : HeightEvents α) :
    HeightEvents α × Except String Unit :=
  if bestH ≥ h + confidence + gcConfidence then (s, .ok ()) else (s.register confidence h, .ok ())

/-- `ChainAt`.  The head is read again after the immediate call, and is the same. -/
def chainAt (confidence h : ℤ) (handlerFails : Bool) (s : HeightEvents α) :
    HeightEvents α × Except String Unit :=
  match s.tsc.best api with
  | .error e => (s, .error ("error getting best tipset: " ++ e))
  | .ok best =>
    if api.height best ≥ h + confidence then
      -- the chain is past the trigger height already: the handler is called at once
      let s := { s with calls := s.calls ++ [.immediate (s.tsc.getNonNull api h).toOption
        (api.height best)] }
      if handlerFails then (s, .error "HeightHandler failed")
      else s.registerUnlessFinal gcConfidence (api.height best) confidence h
    else s.registerUnlessFinal gcConfidence (api.height best) confidence h

/-- One operation; the errors are returned to the caller, and only logged by the listener. -/
def step (s : HeightEvents α) : Op α → HeightEvents α
  | .current ts =>
    match s.tsc.add api gcConfidence.toNat ts with
    | .ok tsc => { s with tsc }
    | .error _ => s
  | .headChange rev app => (s.headChange api gcConfidence rev app).1
  | .chainAt confidence h handlerFails => (s.chainAt api gcConfidence confidence h handlerFails).1

/-- `NewEvents`: nothing filed, nothing cached. -/
def init : HeightEvents α :=
  ⟨TipSetCache.empty, 0, fun _ => none, fun _ => [], fun _ => [], []⟩

end HeightEvents

variable {α : Type*} (api : ChainAPI α) (gcConfidence : ℤ)

/-! ## The `called` flags -/

/-- What a call says of trigger `id`: `true` for its handler from `headChangeAt`, `false` for its
revert handler. -/
def Call.of (id : ℕ) : Call α → Option Bool
  | .handle i _ _ => if i = id then some true else none
  | .revert i _ => if i = id then some false else none
  | .immediate _ _ => none

/-- The calls `headChangeAt` made for trigger `id`, in order. -/
def callsOf (calls : List (Call α)) (id : ℕ) : List Bool :=
  calls.filterMap (Call.of id)

/-- What the run keeps of the triggers: ids from `ctr` on are neither registered nor called, the
`called` flag of a trigger is whether the last call made for it was its handler, and no two
handler calls of a trigger come one after the other. -/
structure CalledInv (s : HeightEvents α) : Prop where
  unregistered : ∀ id, s.ctr ≤ id → s.heightTriggers id = none
  uncalled : ∀ id, s.ctr ≤ id → callsOf s.calls id = []
  called_eq : ∀ id hnd, s.heightTriggers id = some hnd → hnd.called = (callsOf s.calls id).getLastD false
  alternates : ∀ id, (callsOf s.calls id).IsChain fun a b => (a && b) = false

namespace HeightEvents

variable {api gcConfidence}

@[simp]
theorem callsOf_append_singleton (calls : List (Call α)) (c : Call α) (id : ℕ) :
    callsOf (calls ++ [c]) id = callsOf calls id ++ (c.of id).toList := by
  cases h : c.of id <;> simp [callsOf, List.filterMap_append, h]

theorem calledInv_init : CalledInv (init : HeightEvents α) where
  unregistered _ _ := rfl
  uncalled _ _ := rfl
  called_eq _ _ h := by cases h
  alternates _ := List.IsChain.nil

/-- The invariant does not read the cache. -/
@[simp]
theorem calledInv_tsc (s : HeightEvents α) (tsc : TipSetCache α) :
    CalledInv { s with tsc } ↔ CalledInv s :=
  ⟨fun h => ⟨h.1, h.2, h.3, h.4⟩, fun h => ⟨h.1, h.2, h.3, h.4⟩⟩

/-- A call of a registered trigger's callback keeps the invariant, as long as a handler call comes
when the trigger is not called. -/
theorem calledInv_callTrigger {s : HeightEvents α} {tid : ℕ} {hnd : HeightHandler}
    {call : Call α} {b : Bool} (hs : CalledInv s) (hhnd : s.heightTriggers tid = some hnd)
    (hof : ∀ id, call.of id = if id = tid then some b else none)
    (hfirst : b = true → hnd.called = false) : CalledInv (s.callTrigger tid hnd call b) := by
  have htid : tid < s.ctr := by
    by_contra hge
    rw [hs.unregistered tid (by omega)] at hhnd
    cases hhnd
  have hcalls : ∀ id, callsOf (s.callTrigger tid hnd call b).calls id =
      callsOf s.calls id ++ if id = tid then [b] else [] := by
    intro id
    simp only [callTrigger_calls, callsOf_append_singleton, hof]
    split_ifs <;> rfl
  refine ⟨fun id hid => ?_, fun id hid => ?_, fun id hnd' hid => ?_, fun id => ?_⟩
  · rw [callTrigger_ctr] at hid
    rw [callTrigger_heightTriggers, Function.update_of_ne (show id ≠ tid by omega)]
    exact hs.unregistered id hid
  · rw [callTrigger_ctr] at hid
    rw [hcalls, if_neg (by omega), List.append_nil]
    exact hs.uncalled id hid
  · by_cases hid' : id = tid
    · subst hid'
      simp only [callTrigger_heightTriggers, Function.update_self, Option.some.injEq] at hid
      rw [← hid, hcalls, if_pos rfl, List.getLastD_eq_getLast?, List.getLast?_append]
      rfl
    · rw [callTrigger_heightTriggers, Function.update_of_ne hid'] at hid
      rw [hcalls, if_neg hid', List.append_nil]
      exact hs.called_eq id hnd' hid
  · rw [hcalls]
    split_ifs with hid'
    · -- the new call follows the last one made for the trigger
      refine List.isChain_append.mpr ⟨hs.alternates id, List.isChain_singleton b, ?_⟩
      intro x hx y hy
      simp only [List.head?_cons, Option.mem_def, Option.some.injEq] at hy
      subst hid' hy
      have hlast := hs.called_eq id hnd hhnd
      rw [List.getLastD_eq_getLast?, hx, Option.getD_some] at hlast
      cases b <;> simp_all
    · rw [List.append_nil]
      exact hs.alternates id

theorem calledInv_revertTrigger {s : HeightEvents α} (hs : CalledInv s) (ts : α) (tid : ℕ) :
    CalledInv (s.revertTrigger ts tid) := by
  unfold revertTrigger
  split
  · exact calledInv_callTrigger hs ‹_› (fun id => by simp [Call.of, eq_comm]) (by simp)
  · exact hs

theorem calledInv_revertAt {s : HeightEvents α} (hs : CalledInv s) (h : ℤ) (ts : α) :
    CalledInv (s.revertAt h ts) :=
  Run.run_invariant (P := CalledInv) (fun _ tid hs => calledInv_revertTrigger hs ts tid) _ hs

theorem calledInv_revertNullRounds (ts : α) :
    ∀ (fuel : ℕ) (subh : ℤ) {s : HeightEvents α}, CalledInv s →
      CalledInv (s.revertNullRounds api ts fuel subh).1
  | 0, _, _, hs => hs
  | fuel + 1, subh, s, hs => by
    unfold revertNullRounds
    split
    · exact hs
    · exact hs
    · exact calledInv_revertNullRounds ts fuel (subh - 1) (calledInv_revertAt hs subh ts)

/-- `apply` calls a trigger's handler only when the trigger is not called. -/
theorem calledInv_applyAt (h : ℤ) :
    ∀ (tids : List ℕ) {s : HeightEvents α}, CalledInv s → CalledInv (s.applyAt api h tids).1
  | [], _, hs => hs
  | tid :: tids, s, hs => by
    unfold applyAt
    split
    · exact calledInv_applyAt h tids hs
    · rename_i hnd hhnd
      split
      · exact hs
      · rename_i hcalled
        split
        · exact hs
        · refine calledInv_applyAt h tids (calledInv_callTrigger hs hhnd ?_ fun _ => ?_)
          · intro id
            simp [Call.of, eq_comm]
          · simpa using hcalled

theorem calledInv_applyNullRounds :
    ∀ (fuel : ℕ) (subh : ℤ) {s : HeightEvents α}, CalledInv s →
      CalledInv (s.applyNullRounds api fuel subh).1
  | 0, _, _, hs => hs
  | fuel + 1, subh, s, hs => by
    have happ : CalledInv (s.applyAt api subh (s.htTriggerHeights subh)).1 :=
      calledInv_applyAt subh _ hs
    unfold applyNullRounds
    split
    · exact hs
    · exact hs
    · split
      · rename_i heq
        rw [heq] at happ
        exact happ
      · rename_i heq
        rw [heq] at happ
        exact calledInv_applyNullRounds fuel (subh - 1) happ

theorem calledInv_applyTipSet {s : HeightEvents α} (hs : CalledInv s) (ts : α) :
    CalledInv (s.applyTipSet api gcConfidence ts).1 := by
  dsimp only [applyTipSet]
  split
  · exact hs
  · rename_i tsc _
    have happ : CalledInv ({ s with tsc }.applyAt api (api.height ts)
        ({ s with tsc }.htTriggerHeights (api.height ts))).1 :=
      calledInv_applyAt (api.height ts) _ ((calledInv_tsc s tsc).mpr hs)
    split
    · rename_i heq
      rw [heq] at happ
      exact happ
    · rename_i heq
      rw [heq] at happ
      exact calledInv_applyNullRounds _ _ happ

/-- Registration files a fresh id, with no call made for it yet. -/
theorem calledInv_register {s : HeightEvents α} (hs : CalledInv s) (confidence h : ℤ) :
    CalledInv (s.register confidence h) := by
  refine ⟨fun id hid => ?_, fun id hid => hs.uncalled id (by simp [register] at hid; omega),
    fun id hnd hid => ?_, hs.alternates⟩
  · simp only [register] at hid ⊢
    rw [Function.update_of_ne (by omega)]
    exact hs.unregistered id (by omega)
  · simp only [register] at hid ⊢
    by_cases hid' : id = s.ctr
    · subst hid'
      simp only [Function.update_self, Option.some.injEq] at hid
      rw [← hid, hs.uncalled _ le_rfl]
      rfl
    · rw [Function.update_of_ne hid'] at hid
      exact hs.called_eq id hnd hid

theorem calledInv_registerUnlessFinal {s : HeightEvents α} (hs : CalledInv s)
    (bestH confidence h : ℤ) : CalledInv (s.registerUnlessFinal gcConfidence bestH confidence h).1 := by
  unfold registerUnlessFinal
  split
  · exact hs
  · exact calledInv_register hs confidence h

/-- `ChainAt`'s own call is not one of `headChangeAt`'s. -/
theorem calledInv_immediate {s : HeightEvents α} (hs : CalledInv s) (ts : Option α) (h : ℤ) :
    CalledInv { s with calls := s.calls ++ [.immediate ts h] } := by
  have hcalls : ∀ id, callsOf (s.calls ++ [.immediate ts h]) id = callsOf s.calls id := by
    intro id
    simp [Call.of]
  exact ⟨hs.unregistered, fun id hid => (hcalls id).trans (hs.uncalled id hid),
    fun id hnd hid => (hs.called_eq id hnd hid).trans (by rw [hcalls]),
    fun id => (hcalls id) ▸ hs.alternates id⟩

theorem calledInv_chainAt {s : HeightEvents α} (hs : CalledInv s) (confidence h : ℤ)
    (handlerFails : Bool) : CalledInv (s.chainAt api gcConfidence confidence h handlerFails).1 := by
  dsimp only [chainAt]
  split
  · exact hs
  · split
    · have himm := calledInv_immediate hs (s.tsc.getNonNull api h).toOption
        (api.height ‹α›)
      split
      · exact himm
      · exact calledInv_registerUnlessFinal himm _ _ _
    · exact calledInv_registerUnlessFinal hs _ _ _

variable [DecidableEq α]

theorem calledInv_revertTipSet {s : HeightEvents α} (hs : CalledInv s) (ts : α) :
    CalledInv (s.revertTipSet api ts).1 := by
  have hnull : CalledInv ((s.revertAt (api.height ts) ts).revertNullRounds api ts
      ((s.revertAt (api.height ts) ts).tsc.slots.length + 1) (api.height ts - 1)).1 :=
    calledInv_revertNullRounds ts _ _ (calledInv_revertAt hs (api.height ts) ts)
  dsimp only [revertTipSet]
  split
  · rename_i heq
    rw [heq] at hnull
    exact hnull
  · rename_i heq
    rw [heq] at hnull
    split
    · exact hnull
    · exact (calledInv_tsc _ _).mpr hnull

theorem calledInv_headChange {s : HeightEvents α} (hs : CalledInv s) (rev app : List α) :
    CalledInv (s.headChange api gcConfidence rev app).1 := by
  have hrev : CalledInv (Run.forUntilError (revertTipSet api) rev s).1 :=
    Run.forUntilError_invariant (P := CalledInv) (fun ts s hs => calledInv_revertTipSet hs ts) rev s hs
  unfold headChange headChangeAt
  split
  · exact hs
  · split
    · rename_i heq
      rw [heq] at hrev
      exact hrev
    · rename_i heq
      rw [heq] at hrev
      exact Run.forUntilError_invariant (P := CalledInv)
        (fun ts s hs => calledInv_applyTipSet hs ts) app _ hrev

theorem calledInv_step {s : HeightEvents α} (hs : CalledInv s) (op : Op α) :
    CalledInv (s.step api gcConfidence op) := by
  cases op with
  | current ts =>
    simp only [step]
    split
    · exact (calledInv_tsc _ _).mpr hs
    · exact hs
  | headChange rev app => exact calledInv_headChange hs rev app
  | chainAt confidence h handlerFails => exact calledInv_chainAt hs confidence h handlerFails

end HeightEvents

variable [DecidableEq α]

/-- The height events after the operations, from `NewEvents`. -/
def runEvents (ops : List (Op α)) : HeightEvents α :=
  Run.run (HeightEvents.step api gcConfidence) HeightEvents.init ops

/-- Along every run, the `called` flag of each trigger says whether the last call `headChangeAt`
made for it was its handler, and `headChangeAt` never calls a trigger's handler twice without
its revert handler in between. -/
theorem runEvents_calledInv (ops : List (Op α)) : CalledInv (runEvents api gcConfidence ops) :=
  Run.run_invariant (P := CalledInv) (fun _ op hs => HeightEvents.calledInv_step hs op) ops
    HeightEvents.calledInv_init

/-! ## Reverts and skipped applies -/

/-- Tipsets as a height and a fork number, over a chain that answers every height with the
tipset of fork `0`. -/
def forkChain : ChainAPI (ℤ × ℕ) where
  height := Prod.fst
  getTipSetByHeight h _ := .ok (h, 0)
  chainHead := .error "no chain head"

/-- A trigger at height `5` with confidence `2`, registered with the head at `6` and never
applied, has its revert handler called when `5` is reverted.  And of two triggers filed under
trigger height `5`, one at height `4` with confidence `1` and, behind it, one at height `5`,
both are applied at `5`; reverting `5` reverts the second only, and when the chain is back at
`5` the first, still called, stops the apply loop before the second. -/
theorem revert_before_apply_and_reapply_skipped :
    (runEvents forkChain 100 [.current (4, 0), .headChange [] [(5, 0), (6, 0)], .chainAt 2 5 false,
        .headChange [(6, 0), (5, 0)] [(5, 1)]]).calls = [.revert 0 (5, 0)] ∧
      (runEvents forkChain 100 [.current (3, 0), .chainAt 1 4 false, .chainAt 0 5 false,
        .headChange [] [(4, 0), (5, 0)], .headChange [(5, 0)] [(5, 1)]]).calls =
        [.handle 0 (4, 0) 5, .handle 1 (5, 0) 5, .revert 1 (5, 0)] ∧
      (runEvents forkChain 100 [.current (3, 0), .chainAt 1 4 false, .chainAt 0 5 false,
        .headChange [] [(4, 0), (5, 0)], .headChange [(5, 0)] [(5, 1)]]).tsc.head = some (5, 1) := by
  refine ⟨?_, ?_, ?_⟩ <;> decide

end Events

end Lotus
