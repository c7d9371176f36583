import Lotus.Extern.SectorStorage.Sched
import Lotus.Lib.Interleave

/-!
# A worker's windows and resources (`extern/sector-storage/sched_worker.go`)

`schedWorker` holds the windows the scheduler sent to its worker (`activeWindows`), the number
of windows it asked for and did not yet use up (`windowsRequested`), and two resource counters of
the worker: `preparing`, for the tasks whose `prepare` step runs, and `active`, for those that hold
the worker's resources through `withResources`.  `workerCompactWindows` moves each window's tasks
that the window before it can still take into that window, in order, and drops the windows left
empty; `processAssignedWindows` starts, window by window, the first task `preparing` can take, and
does not free the window's allocation, on purpose.  Each started task is a goroutine: `prepare`
fails and frees `preparing`, or succeeds and waits in `withResources` until `active` can take it,
then its callback frees `preparing`, and at its end `active` is freed.

The goroutines are modelled by their phase; the operations are the atomic steps between the
locks, in any order.  `firstStarted` is ghost state: the tasks started from the first window,
which its allocation still counts.

**What holds, for a worker that minds its resources.**  Along every run, every window's allocation
is the sum of its tasks' resources, the first window's counting also the tasks started from it,
and fits the worker; `preparing` and `active` are the sums over the tasks in their phases, so
no `free` takes more than is there; and on a worker with GPUs at most one task of each counts the
GPU, and `gpuUsed` says whether one does (`schedWorker_run`).  Compaction keeps the tasks, moves
each time a sublist of a window's tasks, in order, to the end of the window before it, and lowers
`windowsRequested` by the number of windows it drops (`workerCompactWindows_spec`).

**What does not.**  `gpuUsed` is a flag, and `free` clears it for any GPU task.  On a worker
without GPUs a window may hold two GPU tasks; when compaction moves one of them down, the window
keeps the other with `gpuUsed` false (`compact_clears_gpuUsed`).
-/

namespace Lotus

namespace SectorStorage

/-- `free`: the GPU is marked free whenever a GPU task is freed. -/
def ActiveResources.free (a : ActiveResources) (wr : WorkerResources) (r : Resources) :
    ActiveResources where
  memUsedMin := a.memUsedMin - r.minMemory
  memUsedMax := a.memUsedMax - r.maxMemory
  gpuUsed := if r.canGPU then false else a.gpuUsed
  cpuUse := a.cpuUse - r.threads wr.cpus

/-- How far the goroutine of a started task has got. -/
inductive TaskPhase
  /-- `preparing.add` is done, and `prepare` runs or has succeeded. -/
  | preparing
  /-- `withResources` added the task to `active`; its callback has not yet freed `preparing`. -/
  | acquired
  /-- The callback freed `preparing`; `work` runs. -/
  | working
  /-- `prepare` failed, or `withResources` freed `active`. -/
  | done
  deriving DecidableEq

/-- `schedWorker` and its `workerHandle`, with the goroutines of the tasks it started. -/
structure SchedWorker where
  activeWindows : List SchedWindow
  windowsRequested : ℤ
  preparing : ActiveResources
  active : ActiveResources
  started : List (WorkerRequest × TaskPhase)
  firstStarted : List WorkerRequest

/-- What happens to a worker. -/
inductive WorkerOp
  /-- A window from the scheduler, to which it offered these tasks in turn; a window that took
  none is not sent. -/
  | receive (tasks : List WorkerRequest)
  /-- `workerCompactWindows`. -/
  | compact
  /-- `processAssignedWindows`. -/
  | process
  /-- The `prepare` step of started task `g` fails. -/
  | prepareFailed (g : ℕ)
  /-- `withResources` of started task `g` finds room in `active`. -/
  | acquire (g : ℕ)
  /-- The callback of started task `g` frees `preparing`. -/
  | startWork (g : ℕ)
  /-- Started task `g` ends, and `withResources` frees `active`. -/
  | finish (g : ℕ)

variable (env : SchedEnv) (info : WorkerInfo)

/-- A window built by the scheduler: each task that `canHandleRequest` lets in is added. -/
def buildWindow (tasks : List WorkerRequest) : SchedWindow :=
  tasks.foldl (fun w t =>
    if w.allocated.canHandleRequest (env.needRes t) info then
      ⟨w.allocated.add info.resources (env.needRes t), w.todo ++ [t]⟩
    else w) ⟨.zero, []⟩

/-! ## `workerCompactWindows` -/

/-- The loop over `window.todo`: each task that `lower` can take moves to it, and is freed from
`window`'s allocation; `moved` collects the indices. -/
def moveLoop (lower : SchedWindow) (alloc : ActiveResources) (moved : List ℕ) :
    List (WorkerRequest × ℕ) → SchedWindow × ActiveResources × List ℕ
  | [] => (lower, alloc, moved)
  | (todo, ti) :: rest =>
    if lower.allocated.canHandleRequest (env.needRes todo) info then
      moveLoop ⟨lower.allocated.add info.resources (env.needRes todo), lower.todo ++ [todo]⟩
        (alloc.free info.resources (env.needRes todo)) (moved ++ [ti]) rest
    else moveLoop lower alloc moved rest

/-- The loop that builds `newTodo`: a task goes when its index is the next of `moved`. -/
def keepLoop : List ℕ → List (WorkerRequest × ℕ) → List WorkerRequest
  | _, [] => []
  | [], (t, _) :: rest => t :: keepLoop [] rest
  | m :: ms, (t, i) :: rest => if m = i then keepLoop ms rest else t :: keepLoop (m :: ms) rest

/-- One turn of the outer loop: `window` over the window `lower` before it. -/
def compactPair (lower window : SchedWindow) : SchedWindow × SchedWindow :=
  match moveLoop env info lower window.allocated [] window.todo.zipIdx with
  | (lower', alloc, moved) =>
    (lower', ⟨alloc, if moved.length > 0 then keepLoop moved window.todo.zipIdx else window.todo⟩)

/-- The outer loop, from the first window: each window over the one before it, as that one is
after its own turn. -/
def compactLoop : SchedWindow → List SchedWindow → List SchedWindow
  | lower, [] => [lower]
  | lower, window :: rest =>
    match compactPair env info lower window with
    | (lower', window') => lower' :: compactLoop window' rest

/-- The first loop of `workerCompactWindows`, over all the windows. -/
def compactWindows : List SchedWindow → List SchedWindow
  | [] => []
  | w :: rest => compactLoop env info w rest

/-- `workerCompactWindows`: compaction, then the windows left empty go, and `windowsRequested`
goes down by their number.  When the first window goes, no task of the new first one has
started. -/
def workerCompactWindows (s : SchedWorker) : SchedWorker :=
  let windows := compactWindows env info s.activeWindows
  let compacted := (windows.filter fun w => w.todo.isEmpty).length
  { s with
    activeWindows := windows.filter fun w => !w.todo.isEmpty
    windowsRequested := s.windowsRequested - compacted
    firstStarted := if (windows.head?.map fun w => w.todo.isEmpty) = some false then s.firstStarted
      else [] }

/-! ## `processAssignedWindows` and the goroutines -/

/-- `startProcessingTask`: the task is added to `preparing`, and its goroutine starts. -/
def startProcessingTask (s : SchedWorker) (req : WorkerRequest) : SchedWorker :=
  { s with
    preparing := s.preparing.add info.resources (env.needRes req)
    started := s.started ++ [(req, .preparing)] }

/-- The loops of `processAssignedWindows`, on fuel: the windows in order, in the first the first
task that `preparing` can take; a window whose tasks all started goes, and `windowsRequested`
with it; a window with none that fits ends both loops. -/
def processLoop : ℕ → SchedWorker → SchedWorker
  | 0, s => s
  | fuel + 1, s =>
    match s.activeWindows with
    | [] => s
    | w :: ws =>
      match w.todo with
      | [] =>
        processLoop fuel
          { s with activeWindows := ws, windowsRequested := s.windowsRequested - 1, firstStarted := [] }
      | _ :: _ =>
        match w.todo.zipIdx.find? fun p => s.preparing.canHandleRequest (env.needRes p.1) info with
        | none => s
        | some (todo, tidx) =>
          -- the window's allocation is not freed
          processLoop fuel
            { startProcessingTask env info s todo with
              activeWindows := ⟨w.allocated, w.todo.eraseIdx tidx⟩ :: ws
              firstStarted := s.firstStarted ++ [todo] }

/-- The number of turns `processAssignedWindows` can take: one per task and one per window. -/
def processFuel (s : SchedWorker) : ℕ :=
  (s.activeWindows.map fun w => w.todo.length + 1).sum

/-- `processAssignedWindows`. -/
def processAssignedWindows (s : SchedWorker) : SchedWorker :=
  processLoop env info (processFuel s) s

/-- Goroutine `g`, in phase `p`, moves to phase `q` and applies `f` to the worker; otherwise
nothing happens. -/
def advanceTask (s : SchedWorker) (g : ℕ) (p q : TaskPhase)
    (f : SchedWorker → Resources → SchedWorker) : SchedWorker :=
  match s.started[g]? with
  | some (req, phase) =>
    if phase = p then { f s (env.needRes req) with started := s.started.set g (req, q) } else s
  | none => s

/-- One operation on the worker; an operation a goroutine is not ready for does nothing, as
`withResources` waits while `active` cannot take the task. -/
def step (s : SchedWorker) : WorkerOp → SchedWorker
  | .receive tasks =>
    -- "Nothing scheduled here, keep the window open"
    if (buildWindow env info tasks).todo.isEmpty then s
    else { s with activeWindows := s.activeWindows ++ [buildWindow env info tasks] }
  | .compact => workerCompactWindows env info s
  | .process => processAssignedWindows env info s
  | .prepareFailed g =>
    advanceTask env s g .preparing .done fun s r => { s with preparing := s.preparing.free info.resources r }
  | .acquire g =>
    match s.started[g]? with
    | some (req, .preparing) =>
      if s.active.canHandleRequest (env.needRes req) info then
        { s with
          active := s.active.add info.resources (env.needRes req)
          started := s.started.set g (req, .acquired) }
      else s
    | _ => s
  | .startWork g =>
    advanceTask env s g .acquired .working fun s r => { s with preparing := s.preparing.free info.resources r }
  | .finish g =>
    advanceTask env s g .working .done fun s r => { s with active := s.active.free info.resources r }

/-- A worker before its first window. -/
def SchedWorker.init : SchedWorker :=
  ⟨[], 0, .zero, .zero, [], []⟩

/-- The worker after `ops`. -/
def runWorker (ops : List WorkerOp) : SchedWorker :=
  Run.run (step env info) SchedWorker.init ops

/-! ## What the counters count -/

/-- The started tasks whose goroutine is in one of the phases `ps`. -/
def inPhase (started : List (WorkerRequest × TaskPhase)) (ps : List TaskPhase) : List WorkerRequest :=
  (started.filter fun e => decide (e.2 ∈ ps)).map Prod.fst

/-- `a` counts exactly the tasks `ts`: memory and threads are their sums, and on a worker with
GPUs at most one of them uses the GPU, and `gpuUsed` says whether one does. -/
structure Counts (a : ActiveResources) (ts : List WorkerRequest) : Prop where
  memUsedMin : a.memUsedMin = (ts.map fun t => (env.needRes t).minMemory).sum
  memUsedMax : a.memUsedMax = (ts.map fun t => (env.needRes t).maxMemory).sum
  cpuUse : a.cpuUse = (ts.map fun t => (env.needRes t).threads info.resources.cpus).sum
  gpu : info.resources.gpus ≠ [] →
    a.gpuUsed = ts.any (fun t => (env.needRes t).canGPU) ∧
      (ts.filter fun t => (env.needRes t).canGPU).length ≤ 1

/-- Freeing `r` takes no more than `a` holds: the source's unsigned subtractions do not wrap. -/
def FreeFits (a : ActiveResources) (r : Resources) : Prop :=
  r.minMemory ≤ a.memUsedMin ∧ r.maxMemory ≤ a.memUsedMax ∧ r.threads info.resources.cpus ≤ a.cpuUse

/-- A window's allocation fits the worker and counts the tasks `ts`. -/
def Holds (ts : List WorkerRequest) (w : SchedWindow) : Prop :=
  Within info w.allocated ∧ Counts env info w.allocated ts

/-- The windows of a worker hold their tasks, the first window also the tasks `first` started
from it; with no window, no task is counted for one. -/
def WindowsHold (first : List WorkerRequest) : List SchedWindow → Prop
  | [] => first = []
  | w :: ws => Holds env info (first ++ w.todo) w ∧ ∀ w' ∈ ws, Holds env info w'.todo w'

/-- The invariant of a worker's runs: the windows hold, the tasks counted for the first window
were started, and the two counters count the tasks in their phases. -/
structure WorkerInv (s : SchedWorker) : Prop where
  windows : WindowsHold env info s.firstStarted s.activeWindows
  firstStarted : s.firstStarted.Sublist (s.started.map Prod.fst)
  preparing : Counts env info s.preparing (inPhase s.started [.preparing, .acquired])
  active : Counts env info s.active (inPhase s.started [.acquired, .working])

/-! ### Lists -/

/-- A list is its `i`-th element in front of the others. -/
lemma perm_cons_eraseIdx {α : Type*} {l : List α} {i : ℕ} {x : α} (h : l[i]? = some x) :
    l.Perm (x :: l.eraseIdx i) := by
  obtain ⟨hi, rfl⟩ := List.getElem?_eq_some_iff.mp h
  have hl : l = l.take i ++ l[i] :: l.drop (i + 1) := by
    rw [← List.drop_eq_getElem_cons hi, List.take_append_drop]
  rw [List.eraseIdx_eq_take_drop_succ]
  nth_rewrite 1 [hl]
  exact List.perm_middle

/-- Setting the `i`-th element to `b` trades `a` for `b` in every filter. -/
lemma perm_filter_set {α : Type*} [DecidableEq α] {l : List α} {i : ℕ} {a b : α}
    (h : l[i]? = some a) (P : α → Bool) :
    (l.filter P ++ [b].filter P).Perm ((l.set i b).filter P ++ [a].filter P) := by
  obtain ⟨hi, rfl⟩ := List.getElem?_eq_some_iff.mp h
  have hl : l = l.take i ++ l[i] :: l.drop (i + 1) := by
    rw [← List.drop_eq_getElem_cons hi, List.take_append_drop]
  have hset : l.set i b = l.take i ++ b :: l.drop (i + 1) := by
    rw [List.set_eq_take_append_cons_drop, if_pos hi]
  rw [hset]
  nth_rewrite 1 [hl]
  rw [List.perm_iff_count]
  intro x
  simp only [List.filter_append, List.filter_cons, List.filter_nil, List.count_append]
  split_ifs <;> simp only [List.count_cons, List.count_nil] <;> omega

variable {env info}

lemma inPhase_append (l : List (WorkerRequest × TaskPhase)) (ps : List TaskPhase)
    (req : WorkerRequest) (p : TaskPhase) :
    inPhase (l ++ [(req, p)]) ps = inPhase l ps ++ if p ∈ ps then [req] else [] := by
  simp only [inPhase, List.filter_append, List.filter_cons, List.filter_nil, decide_eq_true_eq,
    List.map_append]
  split_ifs <;> rfl

/-- Moving goroutine `g` from phase `p` to `q` trades `req` in the phases `ps`. -/
lemma inPhase_set {l : List (WorkerRequest × TaskPhase)} {g : ℕ} {req : WorkerRequest}
    {p : TaskPhase} (h : l[g]? = some (req, p)) (q : TaskPhase) (ps : List TaskPhase) :
    (inPhase l ps ++ if q ∈ ps then [req] else []).Perm
      (inPhase (l.set g (req, q)) ps ++ if p ∈ ps then [req] else []) := by
  have := (perm_filter_set (b := (req, q)) h fun e : WorkerRequest × TaskPhase => decide (e.2 ∈ ps)).map Prod.fst
  simp only [List.map_append, List.filter_cons, List.filter_nil, decide_eq_true_eq] at this
  simp only [inPhase]
  split_ifs at this ⊢ <;> simpa using this

/-! ### Counting -/

lemma counts_zero : Counts env info .zero [] :=
  ⟨rfl, rfl, rfl, fun _ => ⟨rfl, by simp⟩⟩

lemma Counts.perm {a : ActiveResources} {ts ts' : List WorkerRequest} (h : Counts env info a ts)
    (hp : ts.Perm ts') : Counts env info a ts' where
  memUsedMin := h.memUsedMin.trans (hp.map _).sum_nat
  memUsedMax := h.memUsedMax.trans (hp.map _).sum_nat
  cpuUse := h.cpuUse.trans (hp.map _).sum_nat
  gpu hg := ⟨(h.gpu hg).1.trans hp.any_eq, (hp.filter _).length_eq ▸ (h.gpu hg).2⟩

/-- Adding a task the counter can take, on a worker that minds its resources. -/
lemma Counts.add {a : ActiveResources} {ts : List WorkerRequest} (h : Counts env info a ts)
    (hign : info.ignoreResources = false) {t : WorkerRequest}
    (hcan : a.canHandleRequest (env.needRes t) info = true) :
    Counts env info (a.add info.resources (env.needRes t)) (ts ++ [t]) where
  memUsedMin := by simp [ActiveResources.add, h.memUsedMin]
  memUsedMax := by simp [ActiveResources.add, h.memUsedMax]
  cpuUse := by simp [ActiveResources.add, h.cpuUse]
  gpu hg := by
    obtain ⟨hused, hone⟩ := h.gpu hg
    refine ⟨by simp [ActiveResources.add, hused], ?_⟩
    by_cases hgpu : (env.needRes t).canGPU = true
    · -- a GPU task comes in only while no task of the counter uses the GPU
      have hfree := gpu_free_of_canHandle hcan hign hg hgpu
      rw [hused] at hfree
      have hnone : ts.filter (fun t => (env.needRes t).canGPU) = [] := by
        rw [List.filter_eq_nil_iff]
        intro t' ht'
        simpa using List.any_eq_false.mp hfree t' ht'
      simp [hnone, hgpu]
    · simpa [hgpu] using hone

/-- A task counted is at most what is there: freeing it takes nothing that is not. -/
lemma Counts.freeFits {a : ActiveResources} {ts : List WorkerRequest} (h : Counts env info a ts)
    {t : WorkerRequest} (ht : t ∈ ts) : FreeFits info a (env.needRes t) := by
  have h' := h.perm (List.perm_cons_erase ht)
  simp only [FreeFits, h'.memUsedMin, h'.memUsedMax, h'.cpuUse, List.map_cons, List.sum_cons]
  omega

/-- Freeing a task counted. -/
lemma Counts.free {a : ActiveResources} {t : WorkerRequest} {ts : List WorkerRequest}
    (h : Counts env info a (t :: ts)) :
    Counts env info (a.free info.resources (env.needRes t)) ts where
  memUsedMin := by
    simp only [ActiveResources.free, h.memUsedMin, List.map_cons, List.sum_cons]
    omega
  memUsedMax := by
    simp only [ActiveResources.free, h.memUsedMax, List.map_cons, List.sum_cons]
    omega
  cpuUse := by
    simp only [ActiveResources.free, h.cpuUse, List.map_cons, List.sum_cons]
    omega
  gpu hg := by
    obtain ⟨hused, hone⟩ := h.gpu hg
    by_cases hgpu : (env.needRes t).canGPU = true
    · -- the GPU task freed was the only one
      have hnone : ts.filter (fun t => (env.needRes t).canGPU) = [] := by
        simp only [List.filter_cons, hgpu, if_true, List.length_cons] at hone
        exact List.eq_nil_of_length_eq_zero (by omega)
      rw [List.filter_eq_nil_iff] at hnone
      refine ⟨?_, by simp [List.filter_eq_nil_iff.mpr hnone]⟩
      simp only [ActiveResources.free, hgpu, if_true]
      exact (List.any_eq_false.mpr fun t' ht' => by simpa using hnone t' ht').symm
    · simp only [List.filter_cons, hgpu, Bool.false_eq_true, if_false] at hone
      simp only [ActiveResources.free, hgpu, Bool.false_eq_true, if_false, hused, List.any_cons,
        Bool.false_or]
      exact ⟨trivial, hone⟩

lemma Within.free {a : ActiveResources} (h : Within info a) (r : Resources) :
    Within info (a.free info.resources r) := by
  rcases h with h | ⟨h1, h2, h3⟩
  · exact .inl h
  · exact .inr ⟨by simp only [ActiveResources.free]; omega, by simp only [ActiveResources.free]; omega,
      by simp only [ActiveResources.free]; omega⟩

/-- A window that takes a task it has room for still holds. -/
lemma Holds.push {ts : List WorkerRequest} {w : SchedWindow} (h : Holds env info ts w)
    (hign : info.ignoreResources = false) {t : WorkerRequest}
    (hcan : w.allocated.canHandleRequest (env.needRes t) info = true) :
    Holds env info (ts ++ [t]) ⟨w.allocated.add info.resources (env.needRes t), w.todo ++ [t]⟩ :=
  ⟨within_add hcan, h.2.add hign hcan⟩

/-! ### The goroutines

A goroutine's move from phase `p` to phase `q` trades its task in the tasks of the phases `ps`
a counter counts: the task stays counted, leaves or enters. -/

section Goroutine

variable {l : List (WorkerRequest × TaskPhase)} {g : ℕ} {req : WorkerRequest} {p q : TaskPhase}
  {a : ActiveResources} {ps : List TaskPhase}

lemma Counts.set_stay (hc : Counts env info a (inPhase l ps)) (hg : l[g]? = some (req, p))
    (hpq : p ∈ ps ↔ q ∈ ps) : Counts env info a (inPhase (l.set g (req, q)) ps) := by
  have hperm := inPhase_set hg q ps
  by_cases hp : p ∈ ps
  · rw [if_pos hp, if_pos (hpq.mp hp), List.perm_append_right_iff] at hperm
    exact hc.perm hperm
  · rw [if_neg hp, if_neg (mt hpq.mpr hp), List.append_nil, List.append_nil] at hperm
    exact hc.perm hperm

lemma Counts.set_leave (hc : Counts env info a (inPhase l ps)) (hg : l[g]? = some (req, p))
    (hp : p ∈ ps) (hq : q ∉ ps) :
    Counts env info (a.free info.resources (env.needRes req)) (inPhase (l.set g (req, q)) ps) := by
  have hperm := inPhase_set hg q ps
  rw [if_pos hp, if_neg hq, List.append_nil] at hperm
  exact (hc.perm (hperm.trans (List.perm_append_singleton _ _))).free

lemma Counts.set_enter (hc : Counts env info a (inPhase l ps)) (hg : l[g]? = some (req, p))
    (hign : info.ignoreResources = false) (hp : p ∉ ps) (hq : q ∈ ps)
    (hcan : a.canHandleRequest (env.needRes req) info = true) :
    Counts env info (a.add info.resources (env.needRes req)) (inPhase (l.set g (req, q)) ps) := by
  have hperm := inPhase_set hg q ps
  rw [if_pos hq, if_neg hp, List.append_nil] at hperm
  exact (hc.add hign hcan).perm hperm

/-- Moving a goroutine keeps the tasks started. -/
lemma map_fst_set (hg : l[g]? = some (req, p)) (q : TaskPhase) :
    (l.set g (req, q)).map Prod.fst = l.map Prod.fst := by
  obtain ⟨hlt, hget⟩ := List.getElem?_eq_some_iff.mp hg
  have hlt' : g < (l.map Prod.fst).length := by simpa using hlt
  have hreq : (l.map Prod.fst)[g] = req := by simp [hget]
  rw [List.map_set, ← hreq, List.set_getElem_self]

end Goroutine

lemma windowsHold_nil_iff {ws : List SchedWindow} :
    WindowsHold env info [] ws ↔ ∀ w ∈ ws, Holds env info w.todo w := by
  cases ws with
  | nil => simp [WindowsHold]
  | cons w ws => simp [WindowsHold]

/-! ## Compaction -/

/-- What compaction does to the windows' tasks: each window in turn gives the window before it,
as that one is by then, a sublist of its tasks, in their order, at its end, and keeps the
others in their order. -/
inductive MovesDown : List (List WorkerRequest) → List (List WorkerRequest) → Prop
  | nil : MovesDown [] []
  | single (lower : List WorkerRequest) : MovesDown [lower] [lower]
  | cons {lower window mv kept : List WorkerRequest} {rest out : List (List WorkerRequest)} :
      Interleave window mv kept → MovesDown (kept :: rest) out →
        MovesDown (lower :: window :: rest) ((lower ++ mv) :: out)

/-- Compaction keeps the tasks. -/
lemma MovesDown.perm {ws out : List (List WorkerRequest)} (h : MovesDown ws out) :
    out.flatten.Perm ws.flatten := by
  induction h with
  | nil => exact .nil
  | single lower => exact .refl _
  | @cons lower window mv kept rest out hsplit _ ih =>
    -- the tasks moved come back to their window, and the window is whole again
    simp only [List.flatten_cons, List.append_assoc]
    refine (ih.append_left mv).append_left lower |>.trans ?_
    rw [List.flatten_cons, ← List.append_assoc mv]
    exact (hsplit.perm.symm.append_right _).append_left lower

lemma MovesDown.length_eq {ws out : List (List WorkerRequest)} (h : MovesDown ws out) :
    out.length = ws.length := by
  induction h with
  | nil => rfl
  | single lower => rfl
  | cons _ _ ih => simpa using ih

/-- With distinct indices, `keepLoop` keeps exactly the tasks that were not moved. -/
lemma keepLoop_eq {l mv kept : List (WorkerRequest × ℕ)} (h : Interleave l mv kept)
    (hnd : (l.map Prod.snd).Nodup) : keepLoop (mv.map Prod.snd) l = kept.map Prod.fst := by
  induction h with
  | nil => rfl
  | left x _ ih =>
    obtain ⟨t, i⟩ := x
    rw [List.map_cons, List.nodup_cons] at hnd
    simp only [List.map_cons, keepLoop, if_true]
    exact ih hnd.2
  | @right x l mv kept hsplit ih =>
    obtain ⟨t, i⟩ := x
    rw [List.map_cons, List.nodup_cons] at hnd
    cases mv with
    | nil => simp only [List.map_nil, List.map_cons, keepLoop, ← ih hnd.2]
    | cons m ms =>
      -- the next index moved is further on, so it is not this one
      have hm : m.2 ≠ i := by
        intro hmi
        apply hnd.1
        rw [← hmi]
        exact List.mem_map.mpr ⟨m, hsplit.sublist_left.subset List.mem_cons_self, rfl⟩
      simp only [List.map_cons, keepLoop, if_neg hm, ← ih hnd.2]

/-- The inner loop of compaction: the tasks it moves and those it keeps split the window's tasks
in order; the window before takes the moved ones and still holds, and the window's allocation,
freed of them, counts the kept ones. -/
lemma moveLoop_spec (hign : info.ignoreResources = false) (l : List (WorkerRequest × ℕ)) :
    ∀ {lower lower' : SchedWindow} {alloc alloc' : ActiveResources} {moved moved' : List ℕ}
      {first rem : List WorkerRequest},
    moveLoop env info lower alloc moved l = (lower', alloc', moved') →
    Holds env info (first ++ lower.todo) lower → Within info alloc →
    Counts env info alloc (rem ++ l.map Prod.fst) →
    ∃ mv kept, Interleave l mv kept ∧ lower'.todo = lower.todo ++ mv.map Prod.fst ∧
      moved' = moved ++ mv.map Prod.snd ∧ Holds env info (first ++ lower'.todo) lower' ∧
      Within info alloc' ∧ Counts env info alloc' (rem ++ kept.map Prod.fst) := by
  induction l with
  | nil =>
    intro lower lower' alloc alloc' moved moved' first rem hrun hlow hw hc
    simp only [moveLoop, Prod.mk.injEq] at hrun
    obtain ⟨rfl, rfl, rfl⟩ := hrun
    exact ⟨[], [], .nil, by simp, by simp, hlow, hw, hc⟩
  | cons p rest ih =>
    obtain ⟨t, i⟩ := p
    intro lower lower' alloc alloc' moved moved' first rem hrun hlow hw hc
    rw [moveLoop] at hrun
    split_ifs at hrun with hcan
    · -- `t` moves down: the window before takes it, and this window frees it
      have hlow' := hlow.push hign hcan
      rw [List.append_assoc] at hlow'
      have hc' : Counts env info alloc (t :: (rem ++ rest.map Prod.fst)) :=
        hc.perm (by simp [List.perm_middle])
      obtain ⟨mv, kept, hsplit, htodo, hmoved, hl, hw', hc''⟩ :=
        ih hrun hlow' (hw.free _) hc'.free
      exact ⟨(t, i) :: mv, kept, .left _ hsplit, by simpa using htodo, by simpa using hmoved, hl,
        hw', hc''⟩
    · -- `t` stays
      have hc' : Counts env info alloc ((rem ++ [t]) ++ rest.map Prod.fst) := by simpa using hc
      obtain ⟨mv, kept, hsplit, htodo, hmoved, hl, hw', hc''⟩ := ih hrun hlow hw hc'
      exact ⟨mv, (t, i) :: kept, .right _ hsplit, htodo, hmoved, hl, hw', by simpa using hc''⟩

/-- One turn of compaction: the window before takes a sublist of the window's tasks, in order,
at its end, the window keeps the others in order, and both still hold. -/
lemma compactPair_spec (hign : info.ignoreResources = false) {lower window : SchedWindow}
    {first : List WorkerRequest} (hlow : Holds env info (first ++ lower.todo) lower)
    (hwin : Holds env info window.todo window) :
    ∃ mv kept, Interleave window.todo mv kept ∧
      (compactPair env info lower window).1.todo = lower.todo ++ mv ∧
      (compactPair env info lower window).2.todo = kept ∧
      Holds env info (first ++ (compactPair env info lower window).1.todo)
        (compactPair env info lower window).1 ∧
      Holds env info (compactPair env info lower window).2.todo (compactPair env info lower window).2 := by
  have hfst := List.zipIdx_map_fst 0 window.todo
  unfold compactPair
  generalize hrun : moveLoop env info lower window.allocated [] window.todo.zipIdx = r
  obtain ⟨lower', alloc, moved⟩ := r
  have hc : Counts env info window.allocated ([] ++ window.todo.zipIdx.map Prod.fst) := by
    simpa [hfst] using hwin.2
  obtain ⟨mv, kept, hsplit, htodo, hmoved, hl, hw', hc'⟩ := moveLoop_spec hign _ hrun hlow hwin.1 hc
  -- both branches of the source keep the tasks not moved: with none moved, that is all of them
  have hkept : (if moved.length > 0 then keepLoop moved window.todo.zipIdx else window.todo) =
      kept.map Prod.fst := by
    split_ifs with hpos
    · rw [hmoved, List.nil_append]
      exact keepLoop_eq hsplit (by rw [List.zipIdx_map_snd]; exact List.nodup_range')
    · have hmv : mv = [] := by simpa [hmoved] using hpos
      subst hmv
      rw [hsplit.eq_of_nil_left, hfst]
  refine ⟨mv.map Prod.fst, kept.map Prod.fst, hfst ▸ hsplit.map Prod.fst, htodo, hkept, hl, ?_⟩
  exact ⟨hw', by simpa [hkept] using hc'⟩

/-- The outer loop of compaction moves tasks down as `MovesDown` says, and the windows still
hold, the first one also the tasks started from it. -/
lemma compactLoop_spec (hign : info.ignoreResources = false) (rest : List SchedWindow) :
    ∀ {lower : SchedWindow} {first : List WorkerRequest},
    Holds env info (first ++ lower.todo) lower → (∀ w ∈ rest, Holds env info w.todo w) →
    MovesDown (lower.todo :: rest.map SchedWindow.todo)
        ((compactLoop env info lower rest).map SchedWindow.todo) ∧
      WindowsHold env info first (compactLoop env info lower rest) := by
  induction rest with
  | nil =>
    intro lower first hlow _
    exact ⟨.single _, hlow, by simp⟩
  | cons window rest ih =>
    intro lower first hlow hrest
    obtain ⟨mv, kept, hsplit, hlow', hkept, hl, hw⟩ :=
      compactPair_spec hign hlow (hrest window List.mem_cons_self)
    have hw' : Holds env info ([] ++ (compactPair env info lower window).2.todo)
        (compactPair env info lower window).2 := by simpa using hw
    obtain ⟨hmoves, hhold⟩ := ih hw' fun w hw => hrest w (List.mem_cons_of_mem _ hw)
    simp only [compactLoop, List.map_cons]
    refine ⟨?_, hl, (windowsHold_nil_iff.mp hhold)⟩
    rw [hlow']
    exact .cons hsplit (hkept ▸ hmoves)

lemma compactWindows_spec (hign : info.ignoreResources = false) {ws : List SchedWindow}
    {first : List WorkerRequest} (h : WindowsHold env info first ws) :
    MovesDown (ws.map SchedWindow.todo) ((compactWindows env info ws).map SchedWindow.todo) ∧
      WindowsHold env info first (compactWindows env info ws) := by
  cases ws with
  | nil => exact ⟨.nil, h⟩
  | cons w rest => exact compactLoop_spec hign rest h.1 h.2

/-- Dropping the empty windows: the first window's started tasks go with it. -/
lemma WindowsHold.filter {first : List WorkerRequest} {ws : List SchedWindow}
    (h : WindowsHold env info first ws) :
    WindowsHold env info (if (ws.head?.map fun w => w.todo.isEmpty) = some false then first else [])
      (ws.filter fun w => !w.todo.isEmpty) := by
  cases ws with
  | nil => simp [WindowsHold]
  | cons w ws =>
    obtain ⟨hw, hws⟩ := h
    cases he : w.todo.isEmpty
    · simp only [List.head?_cons, Option.map_some, he, if_true, List.filter_cons, Bool.not_false]
      exact ⟨hw, fun w' hw' => hws w' (List.mem_of_mem_filter hw')⟩
    · simp only [List.head?_cons, Option.map_some, he, Option.some.injEq, Bool.true_eq_false,
        if_false, List.filter_cons, Bool.not_true]
      exact windowsHold_nil_iff.mpr fun w' hw' => hws w' (List.mem_of_mem_filter hw')

/-- `workerCompactWindows`: the tasks move down as `MovesDown` says and the windows left empty
go, `windowsRequested` with them, and the windows still hold. -/
lemma workerCompactWindows_spec (hign : info.ignoreResources = false) {s : SchedWorker}
    (hs : WindowsHold env info s.firstStarted s.activeWindows) :
    (∃ out, MovesDown (s.activeWindows.map SchedWindow.todo) out ∧
      (workerCompactWindows env info s).activeWindows.map SchedWindow.todo =
        out.filter fun ts => !ts.isEmpty) ∧
    (workerCompactWindows env info s).windowsRequested = s.windowsRequested -
      ((s.activeWindows.length : ℤ) - (workerCompactWindows env info s).activeWindows.length) ∧
    WindowsHold env info (workerCompactWindows env info s).firstStarted
      (workerCompactWindows env info s).activeWindows := by
  obtain ⟨hmoves, hhold⟩ := compactWindows_spec hign hs
  have hlen := hmoves.length_eq
  simp only [List.length_map] at hlen
  refine ⟨⟨_, hmoves, by simp [workerCompactWindows, List.filter_map, Function.comp_def]⟩, ?_,
    hhold.filter⟩
  -- the windows dropped are those left empty
  have hsplit := List.length_eq_length_filter_add (l := compactWindows env info s.activeWindows)
    fun w => w.todo.isEmpty
  simp only [workerCompactWindows]
  omega

/-! ## The invariant along a run -/

variable {s : SchedWorker}

lemma workerInv_init : WorkerInv env info SchedWorker.init :=
  ⟨rfl, .slnil, counts_zero, counts_zero⟩

/-- A window the scheduler fills counts its tasks, and fits the worker once it holds one. -/
lemma buildWindow_holds (hign : info.ignoreResources = false) (tasks : List WorkerRequest) :
    Counts env info (buildWindow env info tasks).allocated (buildWindow env info tasks).todo ∧
      ((buildWindow env info tasks).todo ≠ [] → Within info (buildWindow env info tasks).allocated) := by
  -- the loop adds a task only when `canHandleRequest` lets it in
  refine Run.run_invariant
    (P := fun w : SchedWindow => Counts env info w.allocated w.todo ∧
      (w.todo ≠ [] → Within info w.allocated)) ?_ tasks ⟨counts_zero, fun h => absurd rfl h⟩
  rintro w t ⟨hc, hw⟩
  split_ifs with hcan
  · exact ⟨hc.add hign hcan, fun _ => within_add hcan⟩
  · exact ⟨hc, hw⟩

lemma WindowsHold.snoc {first : List WorkerRequest} {ws : List SchedWindow} {w : SchedWindow}
    (h : WindowsHold env info first ws) (hw : Holds env info w.todo w) :
    WindowsHold env info first (ws ++ [w]) := by
  cases ws with
  | nil =>
    have hfirst : first = [] := h
    subst hfirst
    exact ⟨hw, by simp⟩
  | cons w₀ ws =>
    obtain ⟨h₀, hws⟩ := h
    refine ⟨h₀, fun w' hw' => ?_⟩
    rcases List.mem_append.mp hw' with hw' | hw'
    · exact hws w' hw'
    · rw [List.mem_singleton.mp hw']
      exact hw

lemma WorkerInv.receive (h : WorkerInv env info s) (hign : info.ignoreResources = false)
    (tasks : List WorkerRequest) : WorkerInv env info (step env info s (.receive tasks)) := by
  simp only [step]
  split_ifs with hempty
  · exact h
  · obtain ⟨hc, hw⟩ := buildWindow_holds hign tasks
    have hne : (buildWindow env info tasks).todo ≠ [] := by simpa using hempty
    exact ⟨h.windows.snoc ⟨hw hne, hc⟩, h.firstStarted, h.preparing, h.active⟩

lemma WorkerInv.compact (h : WorkerInv env info s) (hign : info.ignoreResources = false) :
    WorkerInv env info (workerCompactWindows env info s) := by
  refine ⟨(workerCompactWindows_spec hign h.windows).2.2, ?_, h.preparing, h.active⟩
  -- the tasks counted for the first window are kept, or none are
  simp only [workerCompactWindows]
  split_ifs
  · exact h.firstStarted
  · exact List.nil_sublist _

/-- The first window goes once all its tasks started. -/
lemma WorkerInv.pop (h : WorkerInv env info s) {w : SchedWindow} {ws : List SchedWindow}
    (hw : s.activeWindows = w :: ws) (n : ℤ) :
    WorkerInv env info { s with activeWindows := ws, windowsRequested := n, firstStarted := [] } := by
  have hwin := h.windows
  rw [hw] at hwin
  exact ⟨windowsHold_nil_iff.mpr hwin.2, List.nil_sublist _, h.preparing, h.active⟩

/-- Starting a task of the first window: `preparing` counts it, and so does the first window,
which keeps its allocation, now among its started tasks. -/
lemma WorkerInv.start (h : WorkerInv env info s) (hign : info.ignoreResources = false)
    {w : SchedWindow} {ws : List SchedWindow} (hw : s.activeWindows = w :: ws)
    {todo : WorkerRequest} {tidx : ℕ}
    (hfind : w.todo.zipIdx.find? (fun p => s.preparing.canHandleRequest (env.needRes p.1) info) =
      some (todo, tidx)) :
    WorkerInv env info { startProcessingTask env info s todo with
      activeWindows := ⟨w.allocated, w.todo.eraseIdx tidx⟩ :: ws
      firstStarted := s.firstStarted ++ [todo] } := by
  have hcan : s.preparing.canHandleRequest (env.needRes todo) info = true := by
    simpa using List.find?_some hfind
  have hget : w.todo[tidx]? = some todo :=
    List.mk_mem_zipIdx_iff_getElem?.mp (List.mem_of_find?_eq_some hfind)
  have hwin := h.windows
  rw [hw] at hwin
  obtain ⟨⟨hwithin, hc⟩, hws⟩ := hwin
  refine ⟨⟨⟨hwithin, hc.perm ?_⟩, hws⟩, ?_, ?_, ?_⟩
  · exact ((perm_cons_eraseIdx hget).append_left _).trans (by simp)
  · simpa [startProcessingTask] using h.firstStarted.append (List.Sublist.refl [todo])
  · simp only [startProcessingTask]
    rw [inPhase_append, if_pos (by decide)]
    exact h.preparing.add hign hcan
  · simp only [startProcessingTask]
    rw [inPhase_append, if_neg (by decide), List.append_nil]
    exact h.active

lemma processLoop_inv (hign : info.ignoreResources = false) (fuel : ℕ) :
    ∀ {s : SchedWorker}, WorkerInv env info s → WorkerInv env info (processLoop env info fuel s) := by
  induction fuel with
  | zero => exact fun h => h
  | succ fuel ih =>
    intro s h
    rw [processLoop]
    split
    · exact h
    · rename_i w ws hw
      split
      · -- the first window's tasks all started
        exact ih (h.pop hw _)
      · split
        · exact h
        · rename_i todo tidx hfind
          exact ih (h.start hign hw hfind)

/-- A goroutine's move keeps the invariant when it does in the case the move happens. -/
lemma WorkerInv.advance (h : WorkerInv env info s) {g : ℕ} {p q : TaskPhase}
    {f : SchedWorker → Resources → SchedWorker}
    (hf : ∀ req, s.started[g]? = some (req, p) →
      WorkerInv env info { f s (env.needRes req) with started := s.started.set g (req, q) }) :
    WorkerInv env info (advanceTask env s g p q f) := by
  unfold advanceTask
  split
  · rename_i req phase hg
    split_ifs with hp
    · subst hp
      exact hf req hg
    · exact h
  · exact h

/-- A goroutine's move leaves the windows and the started tasks as they were; what is left to
show is what each counter counts. -/
lemma WorkerInv.set (h : WorkerInv env info s) {g : ℕ} {req : WorkerRequest} {p : TaskPhase}
    (hg : s.started[g]? = some (req, p)) (q : TaskPhase) {prep act : ActiveResources}
    (hprep : Counts env info prep (inPhase (s.started.set g (req, q)) [.preparing, .acquired]))
    (hact : Counts env info act (inPhase (s.started.set g (req, q)) [.acquired, .working])) :
    WorkerInv env info { s with preparing := prep, active := act, started := s.started.set g (req, q) } :=
  ⟨h.windows, by simpa only [map_fst_set hg] using h.firstStarted, hprep, hact⟩

lemma WorkerInv.acquire (h : WorkerInv env info s) (hign : info.ignoreResources = false) (g : ℕ) :
    WorkerInv env info (step env info s (.acquire g)) := by
  simp only [step]
  split
  · rename_i req hg
    split_ifs with hcan
    · exact h.set hg .acquired (h.preparing.set_stay hg (by decide))
        (h.active.set_enter hg hign (by decide) (by decide) hcan)
    · exact h
  · exact h

/-- Every operation keeps the invariant. -/
lemma workerInv_step (hign : info.ignoreResources = false) (h : WorkerInv env info s) :
    ∀ op, WorkerInv env info (step env info s op)
  | .receive tasks => h.receive hign tasks
  | .compact => h.compact hign
  | .process => processLoop_inv hign _ h
  | .prepareFailed _ => by
    simp only [step]
    exact h.advance fun _ hg =>
      h.set hg .done (h.preparing.set_leave hg (by decide) (by decide))
        (h.active.set_stay hg (by decide))
  | .acquire g => h.acquire hign g
  | .startWork _ => by
    simp only [step]
    exact h.advance fun _ hg =>
      h.set hg .working (h.preparing.set_leave hg (by decide) (by decide))
        (h.active.set_stay hg (by decide))
  | .finish _ => by
    simp only [step]
    exact h.advance fun _ hg =>
      h.set hg .done (h.preparing.set_stay hg (by decide))
        (h.active.set_leave hg (by decide) (by decide))

lemma workerInv_run (hign : info.ignoreResources = false) (ops : List WorkerOp) :
    WorkerInv env info (runWorker env info ops) :=
  Run.run_invariant (P := WorkerInv env info) (fun _ op h => workerInv_step hign h op) ops
    workerInv_init

variable (env info) in
/-- Along every run of a worker that minds its resources: the windows hold, the first one also
the tasks started from it; `preparing` and `active` count the tasks in their phases, so each of
their tasks can be freed without wrapping; and a compaction from there moves tasks down as
`MovesDown` says, keeps them all, and lowers `windowsRequested` by the windows it drops. -/
theorem schedWorker_run (hign : info.ignoreResources = false) (ops : List WorkerOp) :
    let s := runWorker env info ops
    let s' := workerCompactWindows env info s
    WindowsHold env info s.firstStarted s.activeWindows ∧
      s.firstStarted.Sublist (s.started.map Prod.fst) ∧
      Counts env info s.preparing (inPhase s.started [.preparing, .acquired]) ∧
      Counts env info s.active (inPhase s.started [.acquired, .working]) ∧
      (∀ t ∈ inPhase s.started [.preparing, .acquired], FreeFits info s.preparing (env.needRes t)) ∧
      (∀ t ∈ inPhase s.started [.acquired, .working], FreeFits info s.active (env.needRes t)) ∧
      (∃ out, MovesDown (s.activeWindows.map SchedWindow.todo) out ∧
        s'.activeWindows.map SchedWindow.todo = out.filter fun ts => !ts.isEmpty) ∧
      (s'.activeWindows.map SchedWindow.todo).flatten.Perm (s.activeWindows.map SchedWindow.todo).flatten ∧
      s'.windowsRequested = s.windowsRequested - ((s.activeWindows.length : ℤ) - s'.activeWindows.length) := by
  intro s s'
  have h : WorkerInv env info s := workerInv_run hign ops
  obtain ⟨⟨out, hmoves, hout⟩, hreq, -⟩ := workerCompactWindows_spec hign h.windows
  -- the windows dropped are empty, so the tasks are those `MovesDown` keeps
  have hperm : (s'.activeWindows.map SchedWindow.todo).flatten.Perm
      (s.activeWindows.map SchedWindow.todo).flatten := by
    rw [hout, List.flatten_filter_not_isEmpty]
    exact hmoves.perm
  exact ⟨h.windows, h.firstStarted, h.preparing, h.active, fun _ ht => h.preparing.freeFits ht,
    fun _ ht => h.active.freeFits ht, ⟨out, hmoves, hout⟩, hperm, hreq⟩

/-- A worker with no GPU, memory for two of the tasks of `gpuTasks`, and ten threads. -/
def noGpuWorker : WorkerInfo :=
  ⟨false, ⟨25, 0, 0, 10, []⟩⟩

/-- Every task needs 10 of memory and one thread, and can use a GPU. -/
def gpuTasks : SchedEnv :=
  ⟨fun _ => ⟨10, 10, 1, true, 0⟩, fun _ _ => true, fun _ l => l, id⟩

/-- Three tasks of `gpuTasks`: one window with the first, then one with the other two. -/
def gpuTaskRun : List WorkerOp :=
  [.receive [⟨0, .addPiece, 0, 0⟩], .receive [⟨1, .addPiece, 0, 1⟩, ⟨2, .addPiece, 0, 2⟩], .compact]

example : (runWorker gpuTasks noGpuWorker gpuTaskRun).activeWindows.map
    (fun w => (w.todo.map WorkerRequest.id, w.allocated.gpuUsed)) = [([0, 1], true), ([2], false)] := by
  decide

theorem schedWorker_run_noGpu :
    noGpuWorker.ignoreResources = false ∧
      let s := runWorker gpuTasks noGpuWorker gpuTaskRun
      let s' := workerCompactWindows gpuTasks noGpuWorker s
      WindowsHold gpuTasks noGpuWorker s.firstStarted s.activeWindows ∧
        s.firstStarted.Sublist (s.started.map Prod.fst) ∧
        Counts gpuTasks noGpuWorker s.preparing (inPhase s.started [.preparing, .acquired]) ∧
        Counts gpuTasks noGpuWorker s.active (inPhase s.started [.acquired, .working]) ∧
        (∀ t ∈ inPhase s.started [.preparing, .acquired],
          FreeFits noGpuWorker s.preparing (gpuTasks.needRes t)) ∧
        (∀ t ∈ inPhase s.started [.acquired, .working],
          FreeFits noGpuWorker s.active (gpuTasks.needRes t)) ∧
        (∃ out, MovesDown (s.activeWindows.map SchedWindow.todo) out ∧
          s'.activeWindows.map SchedWindow.todo = out.filter fun ts => !ts.isEmpty) ∧
        (s'.activeWindows.map SchedWindow.todo).flatten.Perm
          (s.activeWindows.map SchedWindow.todo).flatten ∧
        s'.windowsRequested =
          s.windowsRequested - ((s.activeWindows.length : ℤ) - s'.activeWindows.length) :=
  ⟨rfl, schedWorker_run gpuTasks noGpuWorker rfl gpuTaskRun⟩

/-- On a worker without GPUs a window can keep a GPU task with `gpuUsed` false: the second window
of `gpuTaskRun` takes two GPU tasks, and compaction moves one down and frees it. -/
theorem compact_clears_gpuUsed :
    noGpuWorker.ignoreResources = false ∧ noGpuWorker.resources.gpus = [] ∧
      ∃ w ∈ (runWorker gpuTasks noGpuWorker gpuTaskRun).activeWindows,
        w.allocated.gpuUsed = false ∧ w.todo.any (fun t => (gpuTasks.needRes t).canGPU) = true := by
  decide

end SectorStorage

end Lotus
