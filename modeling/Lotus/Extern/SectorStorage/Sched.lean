import Mathlib
import Lotus.Lib.Run
import Lotus.Lib.GoSort

/-!
# Assigning queued requests to worker windows (`extern/sector-storage/sched.go`)

The scheduler keeps its requests in `schedQueue`, sorted by `requestQueue.Less`, and the open
windows of its workers in `openWindows`.  `trySched` finds, for each queued request, the windows
whose worker can take it on an empty window and whose selector accepts it (step 1), walks the
queue in order and gives each request to the first of its windows with room left (step 2),
removes the requests it gave out from the queue (by index, from the last one), and sends each
window that got work to its worker (step 3).

What `trySched` reads from outside is a `SchedEnv`: the resource table (`needRes`), the
selectors' answers (`selOk`, and `prefer`, the order of the acceptable windows after the shuffle
and the stable sort by `Cmp`), and `sort.Sort`, a parameter: each result says what it needs of
it, and Go 1.16's own sort is `GoSort.sort`.  Resources are natural numbers: the sums `trySched`
forms are of the resources of one window's tasks and of one worker, far below `2 ^ 64`, where
Go's `uint64` sums would wrap.

**What holds.**  `requestQueue.Less` is the lexicographic order of a key: whether the task
type's order is negative, the priority (highest first), the order, and the sector number; so it
is a strict weak order (`requestQueue_less_strictWeakOrder`), as `sort.Sort` needs.  Every window sent to a worker holds the sum
of its tasks' resources, and that sum fits the worker (`trySched_sent_within`).

**What does not.**  `Remove` moves the last request into the hole and sorts the queue again, so
the indices recorded before the removals are right only if that sort keeps requests that compare
equal in place.  A sort that swaps two equal requests makes the second removal take the wrong
one: a scheduled request stays queued and an unscheduled one is dropped
(`trySched_drops_unscheduled`).  Go's own sort does so from thirteen requests on, where it
partitions instead of sorting by insertion (`trySched_drops_unscheduled_goSort`).
-/

namespace Lotus

namespace SectorStorage

/-! ## The request order -/

/-- `sealtasks.TaskType`. -/
inductive TaskType
  | addPiece
  | preCommit1
  | preCommit2
  | commit1
  | commit2
  | finalize
  | fetch
  | unseal
  deriving DecidableEq

/-- `order`: lower goes first, and the negative ones before all others. -/
def TaskType.order : TaskType → ℤ
  | .addPiece => 6
  | .preCommit1 => 5
  | .preCommit2 => 4
  | .commit2 => 3
  | .commit1 => 2
  | .unseal => 1
  | .fetch => -1
  | .finalize => -2

/-- `MuchLess`: whether exactly one of the two orders is negative (the sign of `oa^ob`), and
whether `a`'s order is the lower. -/
def TaskType.muchLess (a b : TaskType) : Bool × Bool :=
  (decide ((a.order < 0) ≠ (b.order < 0)), decide (a.order < b.order))

/-- `TaskType.Less`. -/
def TaskType.less (a b : TaskType) : Bool :=
  decide (a.order < b.order)

/-- A `workerRequest`: the fields the queue order reads, and the request's identity (its
pointer). -/
structure WorkerRequest where
  id : ℕ
  taskType : TaskType
  priority : ℤ
  sector : ℕ
  deriving DecidableEq

/-- `requestQueue.Less`. -/
def WorkerRequest.less (a b : WorkerRequest) : Bool :=
  if (a.taskType.muchLess b.taskType).1 then (a.taskType.muchLess b.taskType).2
  else if a.priority ≠ b.priority then decide (a.priority > b.priority)
  else if a.taskType ≠ b.taskType then a.taskType.less b.taskType
  else decide (a.sector < b.sector)

/-- Sorted by `requestQueue.Less`: no request is less than one before it. -/
def QueueSorted (q : List WorkerRequest) : Prop :=
  q.Pairwise fun a b => b.less a = false

instance (q : List WorkerRequest) : Decidable (QueueSorted q) :=
  inferInstanceAs (Decidable (q.Pairwise _))

theorem TaskType.order_injective : Function.Injective TaskType.order := by
  intro a b h
  cases a <;> cases b <;> simp_all [TaskType.order]

/-- What `requestQueue.Less` compares, most significant first: whether the task type's order is
negative, the priority (highest first), the task type's order, and the sector number. -/
def WorkerRequest.key (r : WorkerRequest) : ℕ ×ₗ ℤ ×ₗ ℤ ×ₗ ℕ :=
  toLex (if r.taskType.order < 0 then 0 else 1,
    toLex (-r.priority, toLex (r.taskType.order, r.sector)))

/-- `requestQueue.Less` is the lexicographic order of `key`. -/
theorem WorkerRequest.less_eq_key (a b : WorkerRequest) : a.less b = decide (a.key < b.key) := by
  simp only [WorkerRequest.less, TaskType.muchLess, TaskType.less, WorkerRequest.key,
    Prod.Lex.toLex_lt_toLex]
  -- of one sign, the priority decides, then the task type, which its order names, then the sector
  have hsame : (if a.priority ≠ b.priority then decide (a.priority > b.priority)
      else if a.taskType ≠ b.taskType then decide (a.taskType.order < b.taskType.order)
      else decide (a.sector < b.sector)) =
      decide (-a.priority < -b.priority ∨ -a.priority = -b.priority ∧
        (a.taskType.order < b.taskType.order ∨
          a.taskType.order = b.taskType.order ∧ a.sector < b.sector)) := by
    by_cases hp : a.priority = b.priority
    · by_cases ht : a.taskType = b.taskType
      · simp [hp, ht]
      · have ho : a.taskType.order ≠ b.taskType.order := fun h => ht (TaskType.order_injective h)
        simp [hp, ht, ho]
    · simp only [ne_eq, hp, not_false_eq_true, if_true, gt_iff_lt, neg_lt_neg_iff, neg_inj,
        false_and, or_false]
  -- of two signs, `MuchLess` puts the negative order first, as the first component does
  by_cases ha : a.taskType.order < 0 <;> by_cases hb : b.taskType.order < 0
  · simpa [ha, hb] using hsame
  · simp [ha, hb]
    omega
  · simp [ha, hb]
    omega
  · simpa [ha, hb] using hsame

/-- **The queue order is a strict weak order**, as `sort.Sort` needs of `Less`: no request is
less than itself, `Less` is transitive, and so is comparing equal. -/
theorem requestQueue_less_strictWeakOrder :
    IsStrictWeakOrder WorkerRequest fun a b => a.less b = true where
  irrefl a := by simp [WorkerRequest.less_eq_key]
  trans a b c := by
    simp only [WorkerRequest.less_eq_key, decide_eq_true_eq]
    exact lt_trans
  incomp_trans a b c := by
    simp only [WorkerRequest.less_eq_key, decide_eq_true_eq, not_lt]
    rintro ⟨hab, hba⟩ ⟨hbc, hcb⟩
    exact ⟨le_trans hbc hab, le_trans hba hcb⟩

/-- A `sort.Sort`: the stable merge sort by `key`. -/
def keySort (l : List WorkerRequest) : List WorkerRequest :=
  l.mergeSort fun a b => decide (a.key ≤ b.key)

/-! ## Resources -/

/-- `Resources`. -/
structure Resources where
  minMemory : ℕ
  maxMemory : ℕ
  maxParallelism : ℤ
  canGPU : Bool
  baseMinMemory : ℕ

/-- `Threads`: `-1` is all but 8% of the worker's threads, at least one. -/
def Resources.threads (r : Resources) (wcpus : ℕ) : ℕ :=
  if r.maxParallelism = -1 then
    if wcpus * 92 / 100 = 0 then wcpus else wcpus * 92 / 100
  else (r.maxParallelism % 2 ^ 64).toNat

/-- `storiface.WorkerResources`; of the GPUs only whether there are any is read. -/
structure WorkerResources where
  memPhysical : ℕ
  memSwap : ℕ
  memReserved : ℕ
  cpus : ℕ
  gpus : List String

/-- `storiface.WorkerInfo`, without the hostname. -/
structure WorkerInfo where
  ignoreResources : Bool
  resources : WorkerResources

/-- `activeResources`. -/
structure ActiveResources where
  memUsedMin : ℕ
  memUsedMax : ℕ
  gpuUsed : Bool
  cpuUse : ℕ

/-- Nothing allocated. -/
def ActiveResources.zero : ActiveResources :=
  ⟨0, 0, false, 0⟩

/-- `add`. -/
def ActiveResources.add (a : ActiveResources) (wr : WorkerResources) (r : Resources) :
    ActiveResources where
  memUsedMin := a.memUsedMin + r.minMemory
  memUsedMax := a.memUsedMax + r.maxMemory
  gpuUsed := a.gpuUsed || r.canGPU
  cpuUse := a.cpuUse + r.threads wr.cpus

/-- `canHandleRequest`. -/
def ActiveResources.canHandleRequest (a : ActiveResources) (needRes : Resources)
    (info : WorkerInfo) : Bool :=
  if info.ignoreResources then true
  else if info.resources.memReserved + a.memUsedMin + needRes.minMemory + needRes.baseMinMemory >
      info.resources.memPhysical then false
  else if info.resources.memReserved + a.memUsedMax + needRes.maxMemory + needRes.baseMinMemory >
      info.resources.memSwap + info.resources.memPhysical then false
  else if a.cpuUse + needRes.threads info.resources.cpus > info.resources.cpus then false
  else if info.resources.gpus ≠ [] ∧ needRes.canGPU ∧ a.gpuUsed then false
  else true

/-! ## The scheduler -/

/-- `workerHandle`: what `trySched` reads of a worker. -/
structure WorkerHandle where
  info : WorkerInfo
  enabled : Bool

/-- `schedWindow`. -/
structure SchedWindow where
  allocated : ActiveResources
  todo : List WorkerRequest

/-- The scheduler: its queue, the worker of each open window, and its workers. -/
structure Scheduler where
  schedQueue : List WorkerRequest
  openWindows : List ℕ
  workers : ℕ → Option WorkerHandle

/-- The resource table, the selectors' answers, and `sort.Sort`. -/
structure SchedEnv where
  needRes : WorkerRequest → Resources
  selOk : WorkerRequest → ℕ → Bool
  prefer : WorkerRequest → List ℕ → List ℕ
  sort : List WorkerRequest → List WorkerRequest

variable (env : SchedEnv)

/-- `requestQueue.Push`. -/
def push (q : List WorkerRequest) (x : WorkerRequest) : List WorkerRequest :=
  env.sort (q ++ [x])

/-- `requestQueue.Remove(i)`: the last request moves into the hole, and the queue is sorted
again. -/
def removeAt (q : List WorkerRequest) (i : ℕ) : List WorkerRequest :=
  match q.getLast? with
  | some last => env.sort ((q.set i last).dropLast)
  | none => q

namespace Scheduler

/-- The worker info of an open window. -/
def windowInfo (s : Scheduler) (wnd : ℕ) : Option WorkerInfo :=
  (s.openWindows[wnd]?).bind fun w => (s.workers w).map (·.info)

/-- Step 1 for one request: the windows whose worker is enabled, could take the request on an
empty window, and is accepted by the selector, in the order the selector prefers. -/
def acceptableWindows (s : Scheduler) (task : WorkerRequest) : List ℕ :=
  env.prefer task (s.openWindows.zipIdx.filterMap fun (w, wnd) =>
    match s.workers w with
    | some worker =>
      if worker.enabled && ActiveResources.zero.canHandleRequest (env.needRes task) worker.info &&
        env.selOk task wnd then some wnd else none
    -- "worker referenced by windowRequest not found"
    | none => none)

/-- The first of the windows whose allocation can take the request. -/
def selectWindow (s : Scheduler) (windows : ℕ → SchedWindow) (task : WorkerRequest) :
    List ℕ → Option (ℕ × WorkerInfo)
  | [] => none
  | wnd :: rest =>
    match s.windowInfo wnd with
    | some info =>
      if (windows wnd).allocated.canHandleRequest (env.needRes task) info then some (wnd, info)
      else selectWindow s windows task rest
    | none => selectWindow s windows task rest

/-- Step 2 for the request at `sqi`: it goes to the selected window and its index to
`rmQueue`. -/
def assign (s : Scheduler) (st : (ℕ → SchedWindow) × List ℕ) (sqi : ℕ) :
    (ℕ → SchedWindow) × List ℕ :=
  match s.schedQueue[sqi]? with
  | none => st
  | some task =>
    match s.selectWindow env st.1 task (s.acceptableWindows env task) with
    -- all windows full
    | none => st
    | some (wnd, info) =>
      (Function.update st.1 wnd
        ⟨(st.1 wnd).allocated.add info.resources (env.needRes task), (st.1 wnd).todo ++ [task]⟩,
        st.2 ++ [sqi])

/-- Step 2: the windows as filled, and `rmQueue`. -/
def fillWindows (s : Scheduler) : (ℕ → SchedWindow) × List ℕ :=
  Run.run (s.assign env) (fun _ => ⟨.zero, []⟩, []) (List.range s.schedQueue.length)

/-- `trySched`: the scheduler after it, and the windows sent to workers with their indices. -/
def trySched (s : Scheduler) : Scheduler × List (ℕ × SchedWindow) :=
  if s.openWindows.length = 0 ∨ s.schedQueue.length = 0 then (s, [])
  else
    let windows := (s.fillWindows env).1
    let rmQueue := (s.fillWindows env).2
    -- `for i := len(rmQueue) - 1; i >= 0; i--`
    let queue := rmQueue.reverse.foldl (removeAt env) s.schedQueue
    if rmQueue.length = 0 then ({ s with schedQueue := queue }, [])
    else
      ({ s with
          schedQueue := queue
          openWindows := (s.openWindows.zipIdx.filter fun (_, wnd) => (windows wnd).todo = []).map
            (·.1) },
        (List.range s.openWindows.length).filterMap fun wnd =>
          if (windows wnd).todo ≠ [] then some (wnd, windows wnd) else none)

end Scheduler

/-- What happens to the scheduler: a request is queued, or `trySched` runs. -/
inductive SchedOp
  | push (req : WorkerRequest)
  | trySched

/-- One operation of `runSched`. -/
def schedStep (s : Scheduler) : SchedOp → Scheduler
  | .push req => { s with schedQueue := push env s.schedQueue req }
  | .trySched => (s.trySched env).1

/-! ## Windows fit their workers -/

/-- The allocation of a window fits the worker: the memory and threads of `canHandleRequest`,
and the GPU taken by at most one task. -/
def Within (info : WorkerInfo) (a : ActiveResources) : Prop :=
  info.ignoreResources ∨
    (info.resources.memReserved + a.memUsedMin ≤ info.resources.memPhysical ∧
      info.resources.memReserved + a.memUsedMax ≤
        info.resources.memSwap + info.resources.memPhysical ∧
      a.cpuUse ≤ info.resources.cpus)

/-- What step 2 keeps of a window: its allocation is the sum of its tasks, and fits its worker;
when the worker has GPUs, at most one of the tasks uses one. -/
def WindowOk (s : Scheduler) (wnd : ℕ) (w : SchedWindow) : Prop :=
  w.todo = [] ∧ w.allocated = .zero ∨
    ∃ info, s.windowInfo wnd = some info ∧
      w.allocated = w.todo.foldl (fun a t => a.add info.resources (env.needRes t)) .zero ∧
      Within info w.allocated ∧
      w.allocated.gpuUsed = w.todo.any (fun t => (env.needRes t).canGPU) ∧
      (info.ignoreResources = false → info.resources.gpus ≠ [] →
        (w.todo.filter fun t => (env.needRes t).canGPU).length ≤ 1)

theorem within_add {a : ActiveResources} {r : Resources} {info : WorkerInfo}
    (h : a.canHandleRequest r info = true) : Within info (a.add info.resources r) := by
  unfold ActiveResources.canHandleRequest at h
  unfold Within ActiveResources.add
  split at h
  · exact .inl ‹_›
  · right
    split_ifs at h with h1 h2 h3
    dsimp only
    refine ⟨by omega, by omega, by omega⟩

/-- A GPU task goes only to a window whose worker has no GPU or whose GPU is free. -/
theorem gpu_free_of_canHandle {a : ActiveResources} {r : Resources} {info : WorkerInfo}
    (h : a.canHandleRequest r info = true) (hign : info.ignoreResources = false)
    (hgpus : info.resources.gpus ≠ []) (hgpu : r.canGPU = true) : a.gpuUsed = false := by
  unfold ActiveResources.canHandleRequest at h
  rw [if_neg (by simp [hign])] at h
  split_ifs at h with h1 h2 h3 h4
  cases hu : a.gpuUsed
  · rfl
  · exact absurd ⟨hgpus, hgpu, hu⟩ h4

namespace Scheduler

/-- The window `selectWindow` picks is an open window with a worker, and can take the request. -/
theorem selectWindow_spec {s : Scheduler} {windows : ℕ → SchedWindow} {task : WorkerRequest}
    {wnd : ℕ} {info : WorkerInfo} :
    ∀ {l : List ℕ}, s.selectWindow env windows task l = some (wnd, info) →
      s.windowInfo wnd = some info ∧
        (windows wnd).allocated.canHandleRequest (env.needRes task) info = true
  | [], h => by cases h
  | w :: rest, h => by
    unfold selectWindow at h
    split at h
    · rename_i info' hinfo
      split at h
      · cases h
        exact ⟨hinfo, ‹_›⟩
      · exact selectWindow_spec h
    · exact selectWindow_spec h

/-- Giving a request to a window that can take it keeps the window fitting its worker. -/
theorem windowOk_add {s : Scheduler} {wnd : ℕ} {w : SchedWindow} {task : WorkerRequest}
    {info : WorkerInfo} (hw : WindowOk env s wnd w) (hinfo : s.windowInfo wnd = some info)
    (hcan : w.allocated.canHandleRequest (env.needRes task) info = true) :
    WindowOk env s wnd ⟨w.allocated.add info.resources (env.needRes task), w.todo ++ [task]⟩ := by
  rcases hw with ⟨htodo, hzero⟩ | ⟨info', hinfo', hsum, -, hgpuUsed, hcount⟩
  · -- the window was empty
    right
    refine ⟨info, hinfo, ?_, within_add hcan, ?_, fun _ _ => ?_⟩
    · simp [htodo, hzero]
    · simp [htodo, hzero, ActiveResources.add, ActiveResources.zero]
    · simp only [htodo, List.nil_append]
      exact Nat.le_trans (List.length_filter_le _ _) (by simp)
  · rw [hinfo] at hinfo'
    cases hinfo'
    right
    refine ⟨info, hinfo, ?_, within_add hcan, ?_, fun hign hgpus => ?_⟩
    · rw [List.foldl_append, ← hsum]
      rfl
    · simp [ActiveResources.add, hgpuUsed, List.any_append]
    · -- a GPU task is taken only while no task of the window uses the GPU
      rw [List.filter_append, List.length_append]
      by_cases hgpu : (env.needRes task).canGPU = true
      · have hfree := gpu_free_of_canHandle hcan hign hgpus hgpu
        rw [hgpuUsed] at hfree
        have hnone : w.todo.filter (fun t => (env.needRes t).canGPU) = [] := by
          rw [List.filter_eq_nil_iff]
          intro t ht
          simpa using List.any_eq_false.mp hfree t ht
        simp [hnone, hgpu]
      · simpa [hgpu] using hcount hign hgpus

/-- Step 2 keeps every window fitting its worker. -/
theorem windowOk_assign {s : Scheduler} {st : (ℕ → SchedWindow) × List ℕ}
    (hst : ∀ wnd, WindowOk env s wnd (st.1 wnd)) (sqi : ℕ) :
    ∀ wnd, WindowOk env s wnd ((s.assign env st sqi).1 wnd) := by
  intro wnd
  unfold assign
  split
  · exact hst wnd
  · split
    · exact hst wnd
    · rename_i task _ wnd' info hsel
      obtain ⟨hinfo, hcan⟩ := selectWindow_spec env hsel
      by_cases hw : wnd = wnd'
      · subst hw
        simp only [Function.update_self]
        exact windowOk_add env (hst wnd) hinfo hcan
      · simp only [Function.update_of_ne hw]
        exact hst wnd

theorem windowOk_fillWindows (s : Scheduler) (wnd : ℕ) :
    WindowOk env s wnd ((s.fillWindows env).1 wnd) :=
  Run.run_invariant (P := fun st : (ℕ → SchedWindow) × List ℕ => ∀ wnd, WindowOk env s wnd (st.1 wnd))
    (fun _ sqi hst => windowOk_assign env hst sqi) _ (fun _ => .inl ⟨rfl, rfl⟩) wnd

end Scheduler

/-- A worker with one GPU and four threads, and three requests: two `Commit2`s, then an
add-piece. -/
def gpuScheduler : Scheduler where
  schedQueue := [⟨0, .commit2, 0, 1⟩, ⟨1, .commit2, 0, 2⟩, ⟨2, .addPiece, 0, 3⟩]
  openWindows := [0]
  workers w := if w = 0 then some ⟨⟨false, ⟨100, 0, 0, 4, ["gpu0"]⟩⟩, true⟩ else none

/-- A `Commit2` uses the GPU; every request takes one thread and 10 bytes. -/
def gpuEnv : SchedEnv where
  needRes t := if t.taskType = .commit2 then ⟨10, 10, 1, true, 0⟩ else ⟨10, 10, 1, false, 0⟩
  selOk _ _ := true
  prefer _ l := l
  sort := keySort

/-- Every window `trySched` sends to a worker holds the sum of its tasks' resources, which fits
the worker, with at most one GPU task when the worker has GPUs and minds its resources. -/
theorem trySched_sent_within (s : Scheduler) {wnd : ℕ} {w : SchedWindow}
    (hsent : (wnd, w) ∈ (s.trySched env).2) :
    ∃ info, s.windowInfo wnd = some info ∧
      w.allocated = w.todo.foldl (fun a t => a.add info.resources (env.needRes t)) .zero ∧
      Within info w.allocated ∧
      (info.ignoreResources = false → info.resources.gpus ≠ [] →
        (w.todo.filter fun t => (env.needRes t).canGPU).length ≤ 1) := by
  unfold Scheduler.trySched at hsent
  split at hsent
  · cases hsent
  · dsimp only at hsent
    split at hsent
    · cases hsent
    · -- a sent window got work, so it is not an empty one
      obtain ⟨wnd', -, hsome⟩ := List.mem_filterMap.mp hsent
      split at hsome
      · rename_i hne
        cases hsome
        rcases Scheduler.windowOk_fillWindows env s wnd with ⟨htodo, -⟩ | ⟨info, h1, h2, h3, -, h5⟩
        · exact absurd htodo hne
        · exact ⟨info, h1, h2, h3, h5⟩
      · cases hsome

/-- The window gets the first `Commit2` and the add-piece: the second `Commit2` finds the GPU
taken. -/
theorem trySched_sent_within_gpu :
    ∃ info, gpuScheduler.windowInfo 0 = some info ∧
      (⟨20, 20, true, 2⟩ : ActiveResources) = [⟨0, .commit2, 0, 1⟩, ⟨2, .addPiece, 0, 3⟩].foldl
        (fun a t => a.add info.resources (gpuEnv.needRes t)) .zero ∧
      Within info ⟨20, 20, true, 2⟩ ∧
      (info.ignoreResources = false → info.resources.gpus ≠ [] →
        ([⟨0, .commit2, 0, 1⟩, ⟨2, .addPiece, 0, 3⟩].filter
          fun t => (gpuEnv.needRes t).canGPU).length ≤ 1) :=
  trySched_sent_within gpuEnv gpuScheduler (by
    rw [show (gpuScheduler.trySched gpuEnv).2 =
      [(0, ⟨⟨20, 20, true, 2⟩, [⟨0, .commit2, 0, 1⟩, ⟨2, .addPiece, 0, 3⟩]⟩)] from rfl]
    exact List.mem_singleton_self _)

/-! ## A sort that swaps equal requests -/

/-- Puts `x` in a sorted queue after the requests that are not more than it. -/
def insertAfterTies (x : WorkerRequest) : List WorkerRequest → List WorkerRequest
  | [] => [x]
  | y :: ys => if x.less y then x :: y :: ys else y :: insertAfterTies x ys

/-- Insertion sort from the back, each request going after the equal ones behind it: requests
that compare equal come out in reverse. -/
def sortTiesReversed : List WorkerRequest → List WorkerRequest
  | [] => []
  | x :: xs => insertAfterTies x (sortTiesReversed xs)

/-- Three requests: two unseals of sector `5` that compare equal, then an add-piece; one open
window on a worker that ignores resources. -/
def tieScheduler : Scheduler where
  schedQueue := [⟨0, .unseal, 0, 5⟩, ⟨1, .unseal, 0, 5⟩, ⟨2, .addPiece, 0, 9⟩]
  openWindows := [0]
  workers w := if w = 0 then some ⟨⟨true, ⟨0, 0, 0, 1, []⟩⟩, true⟩ else none

/-- The selector refuses the second unseal, and `sort.Sort` swaps equal requests. -/
def tieEnv : SchedEnv where
  needRes _ := ⟨0, 0, 1, false, 0⟩
  selOk t _ := t.id ≠ 1
  prefer _ l := l
  sort := sortTiesReversed

/-- The first unseal and the add-piece go to the window; removing index `2` sorts the two
unseals into the other order, so removing index `0` drops the second, unscheduled, unseal and
leaves the first, scheduled one, in the queue. -/
theorem trySched_drops_unscheduled :
    QueueSorted tieScheduler.schedQueue ∧
      (sortTiesReversed [⟨0, .unseal, 0, 5⟩, ⟨1, .unseal, 0, 5⟩]).Perm
        [⟨0, .unseal, 0, 5⟩, ⟨1, .unseal, 0, 5⟩] ∧
      QueueSorted (sortTiesReversed [⟨0, .unseal, 0, 5⟩, ⟨1, .unseal, 0, 5⟩]) ∧
      (tieScheduler.trySched tieEnv).2.map (·.2.todo) = [[⟨0, .unseal, 0, 5⟩, ⟨2, .addPiece, 0, 9⟩]] ∧
      (tieScheduler.trySched tieEnv).1.schedQueue = [⟨0, .unseal, 0, 5⟩] := by
  refine ⟨?_, ?_, ?_, ?_, ?_⟩ <;> decide

/-- Fourteen queued unseals on one open window: the first of sector `0`, the other thirteen of
sector `1`, which compare equal. -/
def goScheduler : Scheduler where
  schedQueue := (List.range 14).map fun i => ⟨i, .unseal, 0, if i = 0 then 0 else 1⟩
  openWindows := [0]
  workers w := if w = 0 then some ⟨⟨true, ⟨0, 0, 0, 1, []⟩⟩, true⟩ else none

/-- The selector takes the requests `1` and `2`, and `sort.Sort` is Go's. -/
def goEnv : SchedEnv where
  needRes _ := ⟨0, 0, 1, false, 0⟩
  selOk t _ := t.id = 1 ∨ t.id = 2
  prefer _ l := l
  sort := GoSort.sort WorkerRequest.less

/-- With Go's own `sort.Sort`: removing index `2` sorts thirteen requests, more than the insertion
sort takes, and the partition swaps the equal requests at indices `1` and `6`; removing index `1`
then drops request `6`, never scheduled, and request `1`, scheduled, stays queued. -/
theorem trySched_drops_unscheduled_goSort :
    QueueSorted goScheduler.schedQueue ∧
      (goScheduler.trySched goEnv).2.map (·.2.todo) =
        [[⟨1, .unseal, 0, 1⟩, ⟨2, .unseal, 0, 1⟩]] ∧
      QueueSorted (goScheduler.trySched goEnv).1.schedQueue ∧
      ⟨1, .unseal, 0, 1⟩ ∈ (goScheduler.trySched goEnv).1.schedQueue ∧
      ⟨6, .unseal, 0, 1⟩ ∉ (goScheduler.trySched goEnv).1.schedQueue := by
  refine ⟨?_, ?_, ?_, ?_, ?_⟩ <;> decide

end SectorStorage

end Lotus
