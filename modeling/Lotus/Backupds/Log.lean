import Mathlib
import Lotus.Lib.Run

/-!
# The logged datastore wrapper (`lib/backupds`)

`backupds.Datastore` wraps a child datastore and keeps a log file beside it: a base snapshot
written by `Backup` when the file is created, then one `Entry` per logged write.  `RestoreInto`
replays the file into an empty datastore, snapshot first, with a `Put` per record.

The child is a map (`AList`), a log file is its base and its entries, and the wrapper's calls are
operations of a run: `Put`, `Delete`, and `Put`/`Delete`/`Commit` on batches, plus `Close`
followed by a new `Wrap` on the same child and log directory.  `runLog` writes the entries in
the order the calls send them, the file system does not fail, and the checks of `openLog` pass.
Timestamps and the log head's uuid are not read back; the log head value is an argument of the
re-wrap.  A re-wrap starts with no batches: a batch of the closed wrapper would block on its
`Put`.

**What replay restores.**  Replay of a file is the map of each key's last record
(`lookup_restoreInto`), and replay of a fresh snapshot is the child (`restoreInto_createLog`).
`Put` and a re-wrap keep replay equal to the child, compaction or not (`faithful_step`), so
along every run of those two the log is faithful (`run_faithful`).  `Delete` and batch `Delete`
write no entry, and a batch `Put` writes its entry before the batch is committed, if it ever is.
-/

namespace Lotus

namespace Backupds

variable {K V : Type*} [DecidableEq K]

/-- A log file: the `Backup` of the child written when it was created, then the entries
`runLog` appended, each a key with its value. -/
structure Logfile (K V : Type*) where
  base : List (Σ _ : K, V)
  entries : List (Σ _ : K, V)

/-- An operation recorded in a batch of the child. -/
inductive BatchOp (K V : Type*)
  | put (k : K) (v : V)
  | delete (k : K)

/-- The wrapper: the child, the current log file, and the operations recorded in each batch the
caller has obtained from `Batch` (indexed in the order it obtained them). -/
structure Datastore (K V : Type*) [DecidableEq K] where
  child : AList fun _ : K => V
  log : Logfile K V
  batches : ℕ → List (BatchOp K V)

/-- The wrapper's calls. -/
inductive Op (K V : Type*)
  | put (k : K) (v : V)
  | delete (k : K)
  | batchPut (b : ℕ) (k : K) (v : V)
  | batchDelete (b : ℕ) (k : K)
  | commit (b : ℕ)
  | reopen (lval : V)

/-- `compactThresh`. -/
def compactThresh : ℕ := 2

/-- `Backup`: the child's key/value pairs, as `Query` returns them. -/
def backup (child : AList fun _ : K => V) : List (Σ _ : K, V) :=
  child.entries

/-- `createLog`: a new file whose base is the backup of the child. -/
def createLog (child : AList fun _ : K => V) : Logfile K V :=
  ⟨backup child, []⟩

/-- `writeEntry`. -/
def Logfile.writeEntry (l : Logfile K V) (k : K) (v : V) : Logfile K V :=
  { l with entries := l.entries ++ [⟨k, v⟩] }

/-- `openLog`: the file is continued, unless it holds more than `compactThresh` times as many
entries as base values, when it is compacted into a new file made from the child. -/
def openLog (child : AList fun _ : K => V) (l : Logfile K V) : Logfile K V :=
  if l.entries.length > l.base.length * compactThresh then createLog child else l

/-- `writeLogHead`: the new head is logged and put into the child directly. -/
def writeLogHead (loghead : K) (lval : V) (d : Datastore K V) : Datastore K V :=
  { d with log := d.log.writeEntry loghead lval, child := d.child.insert loghead lval }

/-- `Commit` of a child batch: its operations in the order they were recorded. -/
def applyBatch (ops : List (BatchOp K V)) (child : AList fun _ : K => V) :
    AList fun _ : K => V :=
  ops.foldl (fun c op => match op with
    | .put k v => c.insert k v
    | .delete k => c.erase k) child

/-- `Wrap` with a log directory over a child: a new log from the child, or the existing one
opened, and then a new log head. -/
def wrap (loghead : K) (lval : V) (child : AList fun _ : K => V)
    (latest : Option (Logfile K V)) : Datastore K V :=
  let l := match latest with
    | none => createLog child
    | some l => openLog child l
  writeLogHead loghead lval ⟨child, l, fun _ => []⟩

/-- One call on the wrapper. -/
def step (loghead : K) (d : Datastore K V) : Op K V → Datastore K V
  -- `Put` logs, then writes the child
  | .put k v => { d with log := d.log.writeEntry k v, child := d.child.insert k v }
  -- `Delete` only writes the child
  | .delete k => { d with child := d.child.erase k }
  -- `bbatch.Put` logs at once and records the put in the child batch
  | .batchPut b k v =>
    { d with log := d.log.writeEntry k v,
             batches := Function.update d.batches b (d.batches b ++ [.put k v]) }
  -- `bbatch.Delete` only records the delete
  | .batchDelete b k =>
    { d with batches := Function.update d.batches b (d.batches b ++ [.delete k]) }
  | .commit b => { d with child := applyBatch (d.batches b) d.child }
  | .reopen lval => wrap loghead lval d.child (some d.log)

/-- Calls one after another. -/
def run (loghead : K) (d : Datastore K V) (ops : List (Op K V)) : Datastore K V :=
  Run.run (step loghead) d ops

/-- `RestoreInto` an empty datastore: a `Put` per record, the base first. -/
def restoreInto (l : Logfile K V) : AList fun _ : K => V :=
  (l.base ++ l.entries).foldl (fun m e => m.insert e.1 e.2) ∅

/-- Replaying the log reproduces the child, key by key. -/
def Faithful (d : Datastore K V) : Prop :=
  ∀ k, (restoreInto d.log).lookup k = d.child.lookup k

/-! ## Replay -/

/-- The fold of puts is the map of each key's last record. -/
theorem foldl_insert_eq_toAList (l : List (Σ _ : K, V)) :
    l.foldl (fun m e => m.insert e.1 e.2) (∅ : AList fun _ : K => V) = l.reverse.toAList := by
  induction l using List.reverseRecOn with
  | nil => rfl
  | append_singleton l e ih =>
    rw [List.foldl_append, ih, List.reverse_append]
    rfl

theorem lookup_restoreInto (l : Logfile K V) (k : K) :
    (restoreInto l).lookup k = (l.base ++ l.entries).reverse.dlookup k := by
  rw [restoreInto, foldl_insert_eq_toAList, AList.lookup_to_alist]

/-- A logged entry is replayed last. -/
theorem restoreInto_writeEntry (l : Logfile K V) (k : K) (v : V) :
    restoreInto (l.writeEntry k v) = (restoreInto l).insert k v := by
  simp [restoreInto, Logfile.writeEntry, List.foldl_append]

/-- Replay of a fresh log is the child it was made from. -/
theorem restoreInto_createLog (child : AList fun _ : K => V) (k : K) :
    (restoreInto (createLog child)).lookup k = child.lookup k := by
  rw [lookup_restoreInto]
  have hperm : child.entries.reverse.Perm child.entries := List.reverse_perm _
  have hnd : child.entries.reverse.NodupKeys := (List.perm_nodupKeys hperm).mpr child.nodupKeys
  simp only [createLog, backup, List.append_nil]
  exact List.perm_dlookup k hnd hperm

/-! ## Faithful runs -/

/-- The two calls that log every change they make to the child. -/
def Op.Logged : Op K V → Prop
  | .put _ _ => True
  | .reopen _ => True
  | _ => False

theorem faithful_writeLogHead {d : Datastore K V} (h : Faithful d) (loghead : K) (lval : V) :
    Faithful (writeLogHead loghead lval d) := by
  intro k
  simp only [writeLogHead, restoreInto_writeEntry]
  by_cases hk : k = loghead
  · subst hk
    simp [AList.lookup_insert]
  · simp [AList.lookup_insert_ne hk, h k]

/-- A re-wrap keeps replay equal to the child whether or not it compacts. -/
theorem faithful_reopen {d : Datastore K V} (h : Faithful d) (loghead : K) (lval : V) :
    Faithful (step loghead d (.reopen lval)) := by
  apply faithful_writeLogHead _ loghead lval
  intro k
  show (restoreInto (openLog d.child d.log)).lookup k = d.child.lookup k
  unfold openLog
  split
  · exact restoreInto_createLog d.child k
  · exact h k

/-- `Put` and a re-wrap keep replay equal to the child. -/
theorem faithful_step {d : Datastore K V} (h : Faithful d) (loghead : K) (op : Op K V)
    (hop : op.Logged) : Faithful (step loghead d op) := by
  cases op with
  -- a `Put` is logged and applied exactly as a log head is
  | put k v => exact faithful_writeLogHead h k v
  | reopen lval => exact faithful_reopen h loghead lval
  | _ => exact hop.elim

/-- A wrap on a new log directory starts faithful. -/
theorem faithful_wrap (loghead : K) (lval : V) (child : AList fun _ : K => V) :
    Faithful (wrap loghead lval child none) :=
  faithful_writeLogHead (fun k => restoreInto_createLog child k) loghead lval

/-- Along every run of `Put`s and re-wraps, replaying the current log reproduces the child. -/
theorem run_faithful (loghead : K) {d : Datastore K V} (h : Faithful d) (ops : List (Op K V))
    (hops : ∀ op ∈ ops, op.Logged) : Faithful (run loghead d ops) :=
  Run.run_invariant_mem (P := Faithful) (fun _ op hd hop => faithful_step hd loghead op hop)
    ops h hops

/-- A child holding one key, wrapped on a new log directory, then a `Put` and a re-wrap. -/
theorem run_faithful_putReopen :
    Faithful (run "loghead" (wrap "loghead" 0 (AList.singleton "a" 1) none)
      [.put "b" 2, .reopen 3] : Datastore String ℕ) :=
  run_faithful "loghead" (faithful_wrap "loghead" 0 _) _ (by simp [Op.Logged])

/-! ## What the log misses -/

/-- From any state of the wrapper: after a `Put` and a `Delete` of one key the child no longer
holds the key, yet replay of the log restores it; after a batch `Put` that is never committed the
child is unchanged, yet replay restores the key. -/
theorem delete_and_uncommitted_put_restored (loghead : K) (d : Datastore K V) (k : K) (v : V)
    (b : ℕ) :
    (run loghead d [.put k v, .delete k]).child.lookup k = none ∧
      (restoreInto (run loghead d [.put k v, .delete k]).log).lookup k = some v ∧
      (run loghead d [.batchPut b k v]).child = d.child ∧
      (restoreInto (run loghead d [.batchPut b k v]).log).lookup k = some v := by
  refine ⟨?_, ?_, rfl, ?_⟩
  · simp [run, step, AList.lookup_erase]
  · simp [run, step, restoreInto_writeEntry, AList.lookup_insert]
  · simp [run, step, restoreInto_writeEntry, AList.lookup_insert]

end Backupds

end Lotus
