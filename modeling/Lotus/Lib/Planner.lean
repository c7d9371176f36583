import Mathlib

/-!
# Event planners of a state machine, batched and one event at a time

An event-driven state machine in the style of `go-statemachine` keeps a queue of events and a
table of planners, one for each kind of state.  A planner is handed the queued events, consumes a
prefix of them while mutating the state, and reports how many it consumed and whether it failed.
The machine then plans the events left over in the new state.

Two ways of delivering the same events are compared: batched (`planBatched`: the planner of the
current state gets every queued event) and one at a time (`planSingle`: each event alone, in
order).  They agree when the planner of each state, given an event followed by more events,
either stops after the first (or fails on it) exactly as it does on that event alone, or takes
the first event without leaving the states it plans for and goes on with the rest
(`StepwiseAt`).  A planner that takes an event into another state and then goes on consuming
events under its own rules breaks this, and then the two deliveries can disagree.

The theorem `planBatched_eq_planSingle` needs two facts of the planners: one that consumes
nothing has failed (`Progress`), and none consumes more events than it is given (`Bounded`).
-/

namespace StateMachine

/-- What one call of a planner leaves: the state it mutated, how many events it consumed, and
its error. -/
structure PlanResult (S Err : Type*) where
  state : S
  processed : ℕ
  err : Option Err

/-- A planner: it consumes a prefix of the events, mutating the state. -/
abbrev Planner (E S Err : Type*) := List E → S → PlanResult S Err

variable {E S K Err : Type*}

/-- The result of a planner that consumed one more event before the call it returns. -/
def PlanResult.shift (r : PlanResult S Err) : PlanResult S Err :=
  { r with processed := r.processed + 1 }

@[simp]
theorem PlanResult.shift_state (r : PlanResult S Err) : r.shift.state = r.state := rfl

@[simp]
theorem PlanResult.shift_processed (r : PlanResult S Err) : r.shift.processed = r.processed + 1 :=
  rfl

@[simp]
theorem PlanResult.shift_err (r : PlanResult S Err) : r.shift.err = r.err := rfl

variable (table : K → Planner E S Err) (key : S → K)

/-- Batched delivery: the planner of the current state gets all the events, and those it did
not consume are planned again in the new state.  An error stops the machine; so does a planner
that consumes nothing (the events stay queued). -/
def planBatched : List E → S → S × Option Err
  | [], s => (s, none)
  | e :: es, s =>
    let r := table (key s) (e :: es) s
    match r.err with
    | some err => (r.state, some err)
    | none =>
      if _h : r.processed = 0 then (r.state, none)
      else planBatched ((e :: es).drop r.processed) r.state
termination_by es _ => es.length
decreasing_by
  have hp : (table (key s) (e :: es) s).processed ≠ 0 := _h
  simp only [List.length_drop, List.length_cons]
  omega

/-- One-at-a-time delivery: the planner of the current state gets each event alone.  An error
stops the machine. -/
def planSingle : List E → S → S × Option Err
  | [], s => (s, none)
  | e :: es, s =>
    let r := table (key s) [e] s
    match r.err with
    | some err => (r.state, some err)
    | none => planSingle es r.state

/-- A planner that consumes nothing from a non-empty queue has failed. -/
def Progress : Prop :=
  ∀ s e es, (table (key s) (e :: es) s).err = none → (table (key s) (e :: es) s).processed ≠ 0

/-- No planner consumes more events than it is given. -/
def Bounded : Prop :=
  ∀ s es, (table (key s) es s).processed ≤ es.length

/-- Given `e` and then `es`, the planner of `s` does what it does on `e` alone, or takes `e`
without leaving the planner's states and goes on with `es` as it would on `es` alone. -/
def StepwiseAt (s : S) (e : E) (es : List E) : Prop :=
  let r := table (key s) [e] s
  table (key s) (e :: es) s = r ∨
    r.err = none ∧ key r.state = key s ∧ table (key s) (e :: es) s = (table (key s) es r.state).shift

/-- `StepwiseAt` at every event of the one-at-a-time run from `s`. -/
def AllStepwise : S → List E → Prop
  | _, [] => True
  | s, e :: es =>
    StepwiseAt table key s e es ∧
      ((table (key s) [e] s).err = none → AllStepwise (table (key s) [e] s).state es)

theorem planBatched_cons_of_err {e : E} {es : List E} {s : S} {err : Err}
    (h : (table (key s) (e :: es) s).err = some err) :
    planBatched table key (e :: es) s = ((table (key s) (e :: es) s).state, some err) := by
  rw [planBatched.eq_2]
  simp only [h]

theorem planBatched_cons_of_ok {e : E} {es : List E} {s : S}
    (h : (table (key s) (e :: es) s).err = none)
    (hp : (table (key s) (e :: es) s).processed ≠ 0) :
    planBatched table key (e :: es) s =
      planBatched table key ((e :: es).drop (table (key s) (e :: es) s).processed)
        (table (key s) (e :: es) s).state := by
  rw [planBatched.eq_2]
  simp only [h, hp, dite_false]

variable {table key}

/-- A planner that stops after the first event, without error, has consumed exactly that
event. -/
theorem processed_single (hprog : Progress table key) (hbound : Bounded table key) {s : S} {e : E}
    (h : (table (key s) [e] s).err = none) : (table (key s) [e] s).processed = 1 := by
  have h1 := hbound s [e]
  have h0 := hprog s e [] h
  simp only [List.length_singleton] at h1
  omega

/-- A planner that does on `e :: es` what it does on `e` alone hands the rest to the next
call. -/
theorem planBatched_of_same (hprog : Progress table key) (hbound : Bounded table key) {e : E}
    {es : List E} {s : S} (hsame : table (key s) (e :: es) s = table (key s) [e] s) :
    planBatched table key (e :: es) s =
      match (table (key s) [e] s).err with
      | some err => ((table (key s) [e] s).state, some err)
      | none => planBatched table key es (table (key s) [e] s).state := by
  cases herr : (table (key s) [e] s).err with
  | some err =>
    rw [planBatched_cons_of_err table key (by rw [hsame]; exact herr), hsame]
  | none =>
    have hp := processed_single hprog hbound herr
    rw [planBatched_cons_of_ok table key (by rw [hsame]; exact herr) (by rw [hsame, hp]; simp),
      hsame, hp, List.drop_one, List.tail_cons]

/-- A planner that takes `e` and goes on with `es` in the same kind of state makes the call the
batched run would make next on `es`. -/
theorem planBatched_of_shift (hprog : Progress table key) {e e' : E} {es : List E} {s s' : S}
    (hkey : key s' = key s)
    (hshift : table (key s) (e :: e' :: es) s = (table (key s) (e' :: es) s').shift) :
    planBatched table key (e :: e' :: es) s = planBatched table key (e' :: es) s' := by
  set q := table (key s') (e' :: es) s' with hq
  have hshift' : table (key s) (e :: e' :: es) s = q.shift := by rw [hshift, hq, hkey]
  cases hqerr : q.err with
  | some err =>
    rw [planBatched_cons_of_err table key (by rw [hshift']; exact hqerr),
      planBatched_cons_of_err table key hqerr, hshift']
    rfl
  | none =>
    have hqp : q.processed ≠ 0 := hprog s' e' es hqerr
    rw [planBatched_cons_of_ok table key (by rw [hshift']; exact hqerr) (by simp [hshift']),
      planBatched_cons_of_ok table key hqerr hqp, hshift', ← hq]
    simp only [PlanResult.shift_processed, PlanResult.shift_state, List.drop_succ_cons]

/-- Batched and one-at-a-time delivery agree on every run along which the planners are
stepwise. -/
theorem planBatched_eq_planSingle (hprog : Progress table key) (hbound : Bounded table key) :
    ∀ (es : List E) (s : S), AllStepwise table key s es →
      planBatched table key es s = planSingle table key es s
  | [], s, _ => by rw [planBatched, planSingle]
  | [e], s, ⟨_, hrest⟩ => by
    -- a last event is planned alone either way
    rw [planSingle, planBatched_of_same hprog hbound rfl]
    cases herr : (table (key s) [e] s).err with
    | some err => rfl
    | none => exact planBatched_eq_planSingle hprog hbound [] _ (hrest herr)
  | e :: e' :: es, s, ⟨hstep, hrest⟩ => by
    rw [planSingle]
    rcases hstep with hsame | ⟨hok, hkey, hshift⟩
    · rw [planBatched_of_same hprog hbound hsame]
      cases herr : (table (key s) [e] s).err with
      | some err => rfl
      | none => exact planBatched_eq_planSingle hprog hbound (e' :: es) _ (hrest herr)
    · rw [planBatched_of_shift hprog hkey hshift]
      simp only [hok]
      exact planBatched_eq_planSingle hprog hbound (e' :: es) _ (hrest hok)

end StateMachine
