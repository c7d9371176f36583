import Mathlib
import Lotus.Lib.Run

/-!
# The splitstore and its simple compaction (`blockstore/splitstore/splitstore.go`)

The splitstore keeps new blocks in a hotstore and older ones in a coldstore.  `Put` and
`PutMany` record each block's CID and the current epoch in the tracking store, then write the
blocks to the hotstore; before a head is known they write to the coldstore.  A head change far
enough past the base epoch starts `compactSimple`: it collects the tracked CIDs written at or
before the cold epoch and not reachable from the boundary (`collectCold`), copies their blocks
from the hotstore to the coldstore (`moveColdBlocks`), deletes them from the hotstore
(`purgeBlocks`) and from the tracking store (`purgeTracking`), and moves the base epoch.

`Put` calls and the compaction are processes.  A `Put` call's steps are its critical section
under `mx` and each of its store calls; the compaction's steps are the collection (the mark set,
the chain walk and the tracking store's `ForEach`, one read transaction), each CID of
`moveColdBlocks`, each batch of the two purges, and the closing housekeeping.  A step names the
store calls that fail in it; a failed step ends the compaction with its error, and a run may
stop anywhere.  A block is its CID (the stores are content addressed), and a blockstore is the
set of blocks it holds.  The warmup and `compactFull` are not modelled: the splitstore is warm.

**What holds.**  The compaction copies every block it collects to the coldstore before it
deletes any from the hotstore: a block it does not find in the hotstore ends it, since the
hotstore answers the blockstore's `ErrNotFound` and `moveColdBlocks` only forgives the
datastore's.  So every block a `Put` call returned `nil` for stays
readable through every later step of every interleaving (`put_blocks_kept`).
-/

namespace Lotus

namespace Splitstore

/-- `build.Finality`. -/
def finality : ℤ := 900

/-- `CompactionThreshold`. -/
def compactionThreshold : ℤ := 5 * finality

/-- `CompactionCold`. -/
def compactionCold : ℤ := finality

/-- `batchSize`. -/
def batchSize : ℕ := 16384

/-- The errors the splitstore tells apart: the blockstore's `ErrNotFound` (`go-ipfs-blockstore`),
the datastore's `ErrNotFound` (`go-datastore`), and any other. -/
inductive StoreError
  | blockNotFound
  | keyNotFound
  | other
  deriving DecidableEq

/-- The store calls of the steps. -/
inductive StoreCall
  | coldPut
  | trackerPut
  | hotPut
  | collect
  | hotGet
  | trackerDelete
  | coldPutMany
  | hotDeleteMany
  | trackerDeleteBatch
  | trackerSync
  deriving DecidableEq

/-- Where a `Put` or `PutMany` call is: before its critical section, having read the epoch, having
tracked its blocks, or returned (`nil` when `ok`). -/
inductive PutPhase
  | start
  | read (epoch : ℤ)
  | tracked
  | done (ok : Bool)
  deriving DecidableEq

/-- A `Put` call (one block) or a `PutMany` call. -/
structure PutCall (κ : Type) where
  blks : List κ
  phase : PutPhase
  deriving DecidableEq

/-- Where `compactSimple` is: collecting; in `moveColdBlocks` with the CIDs `rest` still to read
and the blocks `batch` not yet written; in the `i`-th batch of a purge; or closing. -/
inductive CompactPhase (κ : Type)
  | collect
  | move (cold rest batch : List κ)
  | purgeHot (cold : List κ) (i : ℕ)
  | purgeTracking (cold : List κ) (i : ℕ)
  | finish
  deriving DecidableEq

/-- A running `compactSimple`. -/
structure Compaction (κ : Type) where
  coldEpoch : ℤ
  phase : CompactPhase κ
  deriving DecidableEq

variable {κ : Type} [DecidableEq κ]

/-- The `SplitStore`: the two blockstores, the tracking store, the head's epoch, the base epoch,
the `Put` calls so far, and the compaction running (`compacting`). -/
structure SplitStore (κ : Type) [DecidableEq κ] where
  hot : Finset κ
  cold : Finset κ
  tracker : AList (fun _ : κ => ℤ)
  curTs : Option ℤ
  baseEpoch : ℤ
  puts : List (PutCall κ)
  compacting : Option (Compaction κ)

/-- A fresh splitstore after `Start`: empty stores, the head `curTs` if any, and the base epoch
the head's epoch. -/
def start (curTs : Option ℤ) : SplitStore κ :=
  ⟨∅, ∅, ∅, curTs, curTs.getD 0, [], none⟩

/-- A blockstore's `Get`. -/
def blockGet (bs : Finset κ) (c : κ) : Except StoreError κ :=
  if c ∈ bs then .ok c else .error .blockNotFound

/-- `SplitStore.Get`: the hotstore, and the coldstore when the hotstore has not the block. -/
def get (s : SplitStore κ) (c : κ) : Except StoreError κ :=
  match blockGet s.hot c with
  | .ok blk => .ok blk
  | .error .blockNotFound => blockGet s.cold c
  | .error e => .error e

/-- `SplitStore.Has`. -/
def has (s : SplitStore κ) (c : κ) : Bool :=
  decide (c ∈ s.hot) || decide (c ∈ s.cold)

/-! ## `Put` and `PutMany` -/

/-- `cold.Put` or `cold.PutMany` of a call's blocks. -/
def putCold (s : SplitStore κ) (blks : List κ) (fails : List StoreCall) : SplitStore κ × Bool :=
  if .coldPut ∈ fails then (s, false) else ({ s with cold := s.cold ∪ blks.toFinset }, true)

/-- `tracker.Put` or `tracker.PutBatch`: each CID written at `epoch`. -/
def trackAll (t : AList (fun _ : κ => ℤ)) (cids : List κ) (epoch : ℤ) :
    AList (fun _ : κ => ℤ) :=
  cids.foldl (fun t c => t.insert c epoch) t

/-- One step of a `Put` or `PutMany` call: the new state of the stores, and the call's phase. -/
def putStep (s : SplitStore κ) (p : PutCall κ) (fails : List StoreCall) :
    SplitStore κ × PutPhase :=
  match p.phase with
  | .start =>
    match s.curTs with
    | none =>
      let r := putCold s p.blks fails
      (r.1, .done r.2)
    | some epoch => (s, .read epoch)
  | .read epoch =>
    if .trackerPut ∈ fails then
      -- "error tracking CID in hotstore ...; falling back to coldstore"
      let r := putCold s p.blks fails
      (r.1, .done r.2)
    else ({ s with tracker := trackAll s.tracker p.blks epoch }, .tracked)
  | .tracked =>
    if .hotPut ∈ fails then (s, .done false)
    else ({ s with hot := s.hot ∪ p.blks.toFinset }, .done true)
  | .done ok => (s, .done ok)

/-- The step of the `i`-th call. -/
def stepPut (s : SplitStore κ) (i : ℕ) (fails : List StoreCall) : SplitStore κ :=
  match s.puts[i]? with
  | none => s
  | some p =>
    let r := putStep s p fails
    { r.1 with puts := s.puts.set i ⟨p.blks, r.2⟩ }

/-! ## `HeadChange` and `compactSimple` -/

/-- `HeadChange` with the applied head at `epoch`: compaction starts when none runs and the head is
more than `CompactionThreshold` past the base epoch. -/
def headChange (s : SplitStore κ) (epoch : ℤ) : SplitStore κ :=
  let s := { s with curTs := some epoch }
  match s.compacting with
  | some _ => s
  | none =>
    if epoch - s.baseEpoch > compactionThreshold then
      { s with compacting := some ⟨s.baseEpoch + compactionCold, .collect⟩ }
    else s

/-- The tracking store's `ForEach` of the collection: the CIDs written at or before `coldEpoch`
and not in the mark set. -/
def collectCold (t : AList (fun _ : κ => ℤ)) (coldEpoch : ℤ) (marked : List κ) : List κ :=
  t.entries.filterMap fun e =>
    if e.2 > coldEpoch then none
    else if e.1 ∈ marked then none
    else some e.1

/-- The `i`-th batch of `purgeBatch`, and whether it is the last. -/
def purgeChunk (cids : List κ) (i : ℕ) : List κ × Bool :=
  ((cids.drop (i * batchSize)).take batchSize, i * batchSize + batchSize ≥ cids.length)

/-- One step of `compactSimple`: the new state of the stores, and the next phase, `none` when the
compaction ends, with an error or not. -/
def compactionStep (s : SplitStore κ) (job : Compaction κ) (marked : List κ)
    (fails : List StoreCall) : SplitStore κ × Option (CompactPhase κ) :=
  match job.phase with
  | .collect =>
    if .collect ∈ fails then (s, none)
    else
      let cold := collectCold s.tracker job.coldEpoch marked
      (s, some (.move cold cold []))
  | .move cold (c :: rest) batch =>
    match (if .hotGet ∈ fails then .error .other else blockGet s.hot c) with
    | .error e =>
      -- only the datastore's `ErrNotFound` drops the tracker entry and goes on
      if e = .keyNotFound then
        if .trackerDelete ∈ fails then (s, none)
        else ({ s with tracker := s.tracker.erase c }, some (.move cold rest batch))
      else (s, none)
    | .ok blk =>
      let batch := batch ++ [blk]
      if batch.length = batchSize then
        if .coldPutMany ∈ fails then (s, none)
        else ({ s with cold := s.cold ∪ batch.toFinset }, some (.move cold rest []))
      else (s, some (.move cold rest batch))
  | .move cold [] batch =>
    if batch.length > 0 then
      if .coldPutMany ∈ fails then (s, none)
      else ({ s with cold := s.cold ∪ batch.toFinset }, some (.purgeHot cold 0))
    else (s, some (.purgeHot cold 0))
  | .purgeHot cold i =>
    if cold = [] then (s, some (.purgeTracking cold 0))
    else if .hotDeleteMany ∈ fails then (s, none)
    else
      let r := purgeChunk cold i
      ({ s with hot := s.hot \ r.1.toFinset },
        some (if r.2 then .purgeTracking cold 0 else .purgeHot cold (i + 1)))
  | .purgeTracking cold i =>
    if cold = [] then (s, some .finish)
    else if .trackerDeleteBatch ∈ fails then (s, none)
    else
      let r := purgeChunk cold i
      ({ s with tracker := r.1.foldl (fun t c => t.erase c) s.tracker },
        some (if r.2 then .finish else .purgeTracking cold (i + 1)))
  | .finish =>
    if .trackerSync ∈ fails then (s, none)
    else ({ s with baseEpoch := job.coldEpoch }, none)

/-- A step of the running compaction, if any. -/
def compactStep (s : SplitStore κ) (marked : List κ) (fails : List StoreCall) : SplitStore κ :=
  match s.compacting with
  | none => s
  | some job =>
    let r := compactionStep s job marked fails
    { r.1 with compacting := r.2.map fun ph => ⟨job.coldEpoch, ph⟩ }

/-- The steps of a run: a head change, a new `Put`/`PutMany` call, a step of a call, or a step of
the compaction, with the marked CIDs of its chain walk. -/
inductive Op (κ : Type)
  | headChange (epoch : ℤ)
  | put (blks : List κ)
  | putStep (i : ℕ) (fails : List StoreCall)
  | compactStep (marked : List κ) (fails : List StoreCall)

/-- One step of the splitstore. -/
def step (s : SplitStore κ) : Op κ → SplitStore κ
  | .headChange epoch => headChange s epoch
  | .put blks => { s with puts := s.puts ++ [⟨blks, .start⟩] }
  | .putStep i fails => stepPut s i fails
  | .compactStep marked fails => compactStep s marked fails

/-! ## Blocks are never lost -/

/-- What the compaction's phase needs of the coldstore: every CID it collected and has read is in
the batch or in the coldstore, and a purge deletes only blocks the coldstore holds. -/
def PhaseSafe (s : SplitStore κ) : CompactPhase κ → Prop
  | .move cold rest batch => ∀ c ∈ cold, c ∈ rest ∨ c ∈ batch ∨ c ∈ s.cold
  | .purgeHot cold _ => ∀ c ∈ cold, c ∈ s.cold
  | _ => True

/-- **The invariant**: every block a call returned `nil` for is held by one of the stores, and
the compaction's phase is safe. -/
structure Safe (s : SplitStore κ) : Prop where
  held : ∀ p ∈ s.puts, p.phase = .done true → ∀ c ∈ p.blks, c ∈ s.hot ∨ c ∈ s.cold
  phase : ∀ job, s.compacting = some job → PhaseSafe s job.phase

lemma PhaseSafe.mono {s s' : SplitStore κ} (hcold : s.cold ⊆ s'.cold) :
    ∀ {ph : CompactPhase κ}, PhaseSafe s ph → PhaseSafe s' ph
  | .move _ _ _, h => fun c hc => (h c hc).imp_right (Or.imp_right (@hcold c))
  | .purgeHot _ _, h => fun c hc => hcold (h c hc)
  | .collect, _ => trivial
  | .purgeTracking _ _, _ => trivial
  | .finish, _ => trivial

lemma safe_start (curTs : Option ℤ) : Safe (start curTs : SplitStore κ) where
  held p hp := by simp [start] at hp
  phase job hj := by simp [start] at hj

lemma safe_headChange {s : SplitStore κ} (hs : Safe s) (epoch : ℤ) : Safe (headChange s epoch) := by
  unfold headChange
  dsimp only
  cases hj : s.compacting with
  | some job => exact ⟨hs.held, fun job' hj' => hs.phase job' (hj.trans hj')⟩
  | none =>
    -- a compaction starts, in its first phase, or nothing does
    split_ifs
    · refine ⟨hs.held, fun job' hj' => ?_⟩
      cases hj'
      trivial
    · exact ⟨hs.held, fun job' hj' => by cases hj'⟩

/-- **A call's step** only adds to the stores, and it returns `nil` only with its blocks written,
or having returned `nil` before. -/
lemma putStep_spec (s : SplitStore κ) (p : PutCall κ) (fails : List StoreCall) :
    s.hot ⊆ (putStep s p fails).1.hot ∧ s.cold ⊆ (putStep s p fails).1.cold ∧
      (putStep s p fails).1.puts = s.puts ∧ (putStep s p fails).1.compacting = s.compacting ∧
      ((putStep s p fails).2 = .done true → p.phase = .done true ∨
        ∀ c ∈ p.blks, c ∈ (putStep s p fails).1.hot ∨ c ∈ (putStep s p fails).1.cold) := by
  obtain ⟨blks, phase⟩ := p
  cases phase with
  | start =>
    cases hts : s.curTs with
    | none =>
      -- no head yet: the blocks go to the coldstore
      by_cases hf : StoreCall.coldPut ∈ fails <;> simp +contextual [putStep, hts, putCold, hf]
    | some epoch => simp [putStep, hts]
  | read epoch =>
    by_cases ht : StoreCall.trackerPut ∈ fails
    · by_cases hf : StoreCall.coldPut ∈ fails <;> simp +contextual [putStep, ht, putCold, hf]
    · simp [putStep, ht]
  | tracked =>
    by_cases hf : StoreCall.hotPut ∈ fails <;> simp +contextual [putStep, hf]
  | done ok => simp +contextual [putStep]

lemma safe_stepPut {s : SplitStore κ} (hs : Safe s) (i : ℕ) (fails : List StoreCall) :
    Safe (stepPut s i fails) := by
  unfold stepPut
  cases hi : s.puts[i]? with
  | none => exact hs
  | some p =>
    obtain ⟨hhot, hcold, -, hcomp, hdone⟩ := putStep_spec s p fails
    -- a store that held a block still holds it
    have hmono : ∀ c, c ∈ s.hot ∨ c ∈ s.cold →
        c ∈ (putStep s p fails).1.hot ∨ c ∈ (putStep s p fails).1.cold :=
      fun c hc => hc.imp (@hhot c) (@hcold c)
    refine ⟨fun q hq hqd c hc => ?_, fun job hj => ?_⟩
    · rcases List.mem_or_eq_of_mem_set hq with hq | rfl
      · exact hmono c (hs.held q hq hqd c hc)
      · rcases hdone hqd with hpd | hheld
        · exact hmono c (hs.held p (List.mem_of_getElem? hi) hpd c hc)
        · exact hheld c hc
    · rw [hcomp] at hj
      exact (hs.phase job hj).mono hcold

/-- A step of the compaction keeps the calls, only adds to the coldstore, and keeps every block
held by one of the stores. -/
structure Keeps (s s' : SplitStore κ) : Prop where
  puts : s'.puts = s.puts
  cold : s.cold ⊆ s'.cold
  held : ∀ c, c ∈ s.hot ∨ c ∈ s.cold → c ∈ s'.hot ∨ c ∈ s'.cold

lemma keeps_refl (s : SplitStore κ) : Keeps s s :=
  ⟨rfl, subset_refl _, fun _ h => h⟩

/-- Writing to the coldstore keeps what is held. -/
lemma keeps_addCold (s : SplitStore κ) (blks : Finset κ) :
    Keeps s { s with cold := s.cold ∪ blks } :=
  ⟨rfl, Finset.subset_union_left, fun _ h => h.imp_right fun hc => Finset.mem_union_left _ hc⟩

/-- The hotstore never answers the datastore's `ErrNotFound`. -/
lemma blockGet_ne_keyNotFound (bs : Finset κ) (c : κ) : blockGet bs c ≠ .error .keyNotFound := by
  unfold blockGet
  split_ifs <;> simp

lemma blockGet_eq_ok {bs : Finset κ} {c blk : κ} (h : blockGet bs c = .ok blk) :
    blk = c ∧ c ∈ bs := by
  by_cases hc : c ∈ bs
  · simp only [blockGet, hc, if_true, Except.ok.injEq] at h
    exact ⟨h.symm, hc⟩
  · simp [blockGet, hc] at h

/-- **The compaction's step in `moveColdBlocks`**: a block read from the hotstore joins the
batch, written to the coldstore when the batch is full; a block missing from the hotstore ends
the compaction. -/
lemma compactionStep_move {s : SplitStore κ} {job : Compaction κ} {cold rest batch : List κ}
    {c : κ} (hphase : job.phase = .move cold (c :: rest) batch) (marked : List κ)
    (fails : List StoreCall) (hsafe : PhaseSafe s job.phase) :
    Keeps s (compactionStep s job marked fails).1 ∧
      ∀ ph, (compactionStep s job marked fails).2 = some ph →
        PhaseSafe (compactionStep s job marked fails).1 ph := by
  rw [hphase] at hsafe
  unfold compactionStep
  rw [hphase]
  dsimp only
  split
  · -- an error: only the datastore's `ErrNotFound` goes on, and the hotstore never answers it
    rename_i e he
    by_cases hk : e = .keyNotFound
    · subst hk
      exfalso
      by_cases hg : StoreCall.hotGet ∈ fails
      · rw [if_pos hg] at he
        cases he
      · rw [if_neg hg] at he
        exact blockGet_ne_keyNotFound _ _ he
    · rw [if_neg hk]
      exact ⟨keeps_refl s, fun ph h => by cases h⟩
  · rename_i blk hblk
    -- the block read is the one asked for
    have hc : blk = c := by
      by_cases hg : StoreCall.hotGet ∈ fails
      · rw [if_pos hg] at hblk
        cases hblk
      · rw [if_neg hg] at hblk
        exact (blockGet_eq_ok hblk).1
    subst hc
    split_ifs with hfull hf
    · exact ⟨keeps_refl s, fun ph h => by cases h⟩
    · refine ⟨keeps_addCold s _, fun ph h => ?_⟩
      cases h
      intro c' hc'
      rcases hsafe c' hc' with hr | hb | hcold
      · rcases List.mem_cons.mp hr with rfl | hr
        · simp
        · exact .inl hr
      · simp [hb]
      · simp [hcold]
    · refine ⟨keeps_refl s, fun ph h => ?_⟩
      cases h
      intro c' hc'
      rcases hsafe c' hc' with hr | hb | hcold
      · rcases List.mem_cons.mp hr with rfl | hr
        · simp
        · exact .inl hr
      · simp [hb]
      · exact .inr (.inr hcold)

/-- **Every step of the compaction keeps what is held**, and its next phase is safe. -/
lemma compactionStep_safe {s : SplitStore κ} {job : Compaction κ} (marked : List κ)
    (fails : List StoreCall) (hsafe : PhaseSafe s job.phase) :
    Keeps s (compactionStep s job marked fails).1 ∧
      ∀ ph, (compactionStep s job marked fails).2 = some ph →
        PhaseSafe (compactionStep s job marked fails).1 ph := by
  obtain ⟨coldEpoch, phase⟩ := job
  cases phase with
  | collect =>
    simp only [compactionStep]
    split_ifs
    · exact ⟨keeps_refl s, fun ph h => by cases h⟩
    · refine ⟨keeps_refl s, fun ph h => ?_⟩
      cases h
      exact fun c hc => .inl hc
  | move cold rest batch =>
    cases rest with
    | cons c rest => exact compactionStep_move rfl marked fails hsafe
    | nil =>
      -- the last batch is written: every block collected is in the coldstore
      simp only [compactionStep]
      split_ifs with hb hf
      · exact ⟨keeps_refl s, fun ph h => by cases h⟩
      · refine ⟨keeps_addCold s _, fun ph h => ?_⟩
        cases h
        intro c hc
        rcases hsafe c hc with hr | hb' | hcold
        · cases hr
        · simp [hb']
        · simp [hcold]
      · refine ⟨keeps_refl s, fun ph h => ?_⟩
        cases h
        intro c hc
        rcases hsafe c hc with hr | hb' | hcold
        · cases hr
        · have hbnil : batch = [] := List.eq_nil_of_length_eq_zero (by omega)
          rw [hbnil] at hb'
          cases hb'
        · exact hcold
  | purgeHot cold i =>
    simp only [compactionStep]
    -- a deleted block is one of the collected ones, all in the coldstore
    have hkeep : Keeps s { s with hot := s.hot \ (purgeChunk cold i).1.toFinset } := by
      refine ⟨rfl, subset_refl _, fun c hc => ?_⟩
      by_cases hchunk : c ∈ (purgeChunk cold i).1
      · exact .inr (hsafe c (List.mem_of_mem_drop (List.mem_of_mem_take hchunk)))
      · rcases hc with hh | hcold
        · exact .inl (Finset.mem_sdiff.mpr ⟨hh, by simpa using hchunk⟩)
        · exact .inr hcold
    split_ifs
    · exact ⟨keeps_refl s, fun ph h => by cases h; trivial⟩
    · exact ⟨keeps_refl s, fun ph h => by cases h⟩
    · exact ⟨hkeep, fun ph h => by cases h; trivial⟩
    · exact ⟨hkeep, fun ph h => by cases h; exact hsafe⟩
  | purgeTracking cold i =>
    simp only [compactionStep]
    split_ifs
    · exact ⟨keeps_refl s, fun ph h => by cases h; trivial⟩
    · exact ⟨keeps_refl s, fun ph h => by cases h⟩
    all_goals exact ⟨⟨rfl, subset_refl _, fun _ h => h⟩, fun ph h => by cases h; trivial⟩
  | finish =>
    simp only [compactionStep]
    split_ifs
    · exact ⟨keeps_refl s, fun ph h => by cases h⟩
    · exact ⟨⟨rfl, subset_refl _, fun _ h => h⟩, fun ph h => by cases h⟩

lemma safe_compactStep {s : SplitStore κ} (hs : Safe s) (marked : List κ)
    (fails : List StoreCall) : Safe (compactStep s marked fails) := by
  unfold compactStep
  cases hj : s.compacting with
  | none => exact hs
  | some job =>
    obtain ⟨hkeep, hnext⟩ := compactionStep_safe marked fails (hs.phase job hj)
    refine ⟨fun p hp hpd c hc => ?_, fun job' hj' => ?_⟩
    · rw [hkeep.puts] at hp
      exact hkeep.held c (hs.held p hp hpd c hc)
    · obtain ⟨ph, hph, rfl⟩ := Option.map_eq_some_iff.mp hj'
      exact hnext ph hph

lemma safe_put {s : SplitStore κ} (hs : Safe s) (blks : List κ) :
    Safe (step s (.put blks)) := by
  refine ⟨fun q hq hqd c hc => ?_, hs.phase⟩
  rcases List.mem_append.mp hq with hq | hq
  · exact hs.held q hq hqd c hc
  · rw [List.mem_singleton] at hq
    subst hq
    cases hqd

theorem safe_step {s : SplitStore κ} (hs : Safe s) : ∀ op, Safe (step s op)
  | .headChange epoch => safe_headChange hs epoch
  | .put blks => safe_put hs blks
  | .putStep i fails => safe_stepPut hs i fails
  | .compactStep marked fails => safe_compactStep hs marked fails

/-- **Every state of every run is safe.** -/
theorem safe_run (curTs : Option ℤ) (ops : List (Op κ)) :
    Safe (Run.run step (start curTs) ops) :=
  Run.run_invariant (P := Safe) (fun _ op hs => safe_step hs op) ops (safe_start curTs)

/-- The compaction does not touch the calls. -/
lemma compactStep_puts (s : SplitStore κ) (marked : List κ) (fails : List StoreCall) :
    (compactStep s marked fails).puts = s.puts := by
  unfold compactStep
  split
  · rfl
  · rename_i job _
    obtain ⟨coldEpoch, phase⟩ := job
    cases phase with
    | move cold rest batch =>
      cases rest with
      | nil => simp only [compactionStep]; split_ifs <;> rfl
      | cons c rest =>
        simp only [compactionStep]
        split
        · split_ifs <;> rfl
        · split_ifs <;> rfl
    | _ => simp only [compactionStep]; split_ifs <;> rfl

/-- A call that returned stays in the record. -/
lemma mem_puts_step {s : SplitStore κ} {p : PutCall κ} {ok : Bool} (hp : p ∈ s.puts)
    (hd : p.phase = .done ok) : ∀ op, p ∈ (step s op).puts
  | .headChange epoch => by
    change p ∈ (headChange s epoch).puts
    unfold headChange
    dsimp only
    split
    · exact hp
    · split_ifs
      · exact hp
      · exact hp
  | .put blks => List.mem_append_left _ hp
  | .putStep i fails => by
    change p ∈ (stepPut s i fails).puts
    unfold stepPut
    cases hi : s.puts[i]? with
    | none => exact hp
    | some q =>
      dsimp only
      obtain ⟨k, hk, rfl⟩ := List.getElem_of_mem hp
      refine List.mem_iff_getElem.mpr ⟨k, by simpa using hk, ?_⟩
      by_cases hki : i = k
      · -- the call stepped is the one that returned, and it stays as it was
        subst hki
        have hq : s.puts[i] = q := by
          rw [List.getElem?_eq_getElem hk] at hi
          exact Option.some.inj hi
        rw [hq] at hd ⊢
        rw [List.getElem_set_self]
        obtain ⟨blks, phase⟩ := q
        simp only at hd
        subst hd
        rfl
      · simp [hki]
  | .compactStep marked fails => by
    change p ∈ (compactStep s marked fails).puts
    rw [compactStep_puts]
    exact hp

lemma get_of_held {s : SplitStore κ} {c : κ} (h : c ∈ s.hot ∨ c ∈ s.cold) :
    get s c = .ok c ∧ has s c = true := by
  by_cases hh : c ∈ s.hot
  · simp [get, blockGet, has, hh]
  · have hc := h.resolve_left hh
    simp [get, blockGet, has, hh, hc]

/-- **A block a `Put` call returned `nil` for is never lost.**  In every run from a fresh
splitstore, every interleaving of `Put`/`PutMany` calls with head changes and compactions that
fail or stop at any step, a block of a call that has returned `nil` is read by `Get` and reported
by `Has` in every later state. -/
theorem put_blocks_kept (curTs : Option ℤ) (ops₁ ops₂ : List (Op κ)) {p : PutCall κ}
    (hp : p ∈ (Run.run step (start curTs) ops₁).puts) (hd : p.phase = .done true)
    {c : κ} (hc : c ∈ p.blks) :
    get (Run.run step (start curTs) (ops₁ ++ ops₂)) c = .ok c ∧
      has (Run.run step (start curTs) (ops₁ ++ ops₂)) c = true := by
  -- the call is still recorded as returned, and the invariant holds of the later state
  have hp' : p ∈ (Run.run step (start curTs) (ops₁ ++ ops₂)).puts := by
    rw [Run.run_append]
    exact Run.run_invariant (P := fun s : SplitStore κ => p ∈ s.puts)
      (fun _ op h => mem_puts_step h hd op) ops₂ hp
  exact get_of_held ((safe_run curTs (ops₁ ++ ops₂)).held p hp' hd c hc)

/-- A block put at epoch 0, and a compaction at epoch 4501 that moves it to the coldstore. -/
def putThenCompact : List (Op ℕ) × List (Op ℕ) :=
  ([.put [7], .putStep 0 [], .putStep 0 [], .putStep 0 []],
    [.headChange 4501, .compactStep [] [], .compactStep [] [], .compactStep [] [],
      .compactStep [] [], .compactStep [] [], .compactStep [] []])

theorem put_blocks_kept_compacted :
    (⟨[7], .done true⟩ : PutCall ℕ) ∈ (Run.run step (start (some 0)) putThenCompact.1).puts ∧
      7 ∉ (Run.run step (start (some 0)) (putThenCompact.1 ++ putThenCompact.2)).hot ∧
      get (Run.run step (start (some 0)) (putThenCompact.1 ++ putThenCompact.2)) 7 = .ok 7 ∧
      has (Run.run step (start (some 0)) (putThenCompact.1 ++ putThenCompact.2)) 7 = true :=
  have h := @put_blocks_kept ℕ _ (some 0) putThenCompact.1 putThenCompact.2 ⟨[7], .done true⟩
    (by decide) rfl 7 (List.mem_singleton_self 7)
  ⟨by decide, by decide, h.1, h.2⟩

end Splitstore

end Lotus
