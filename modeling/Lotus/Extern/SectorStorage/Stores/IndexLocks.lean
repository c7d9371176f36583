import Mathlib
import Lotus.Lib.Run

/-!
# Sector file locks (`sector-storage/stores/index_locks.go`)

`indexLocks` keeps one `sectorLock` per sector: a read counter per file type, a write mask, and
`refs`, the number of references to the entry.  `lockWith` validates the masks, takes a
reference under the index mutex, and then tries the lock: once (`StorageTryLock`) or until it
succeeds or its context is cancelled (`StorageLock`).  Only a successful acquisition starts the
goroutine that, when the context is done, unlocks, drops the reference and deletes the entry at
zero references.

The model is the table of `sectorLock`s together with the calls that got past validation, each
in its phase: `pending` (reference taken, lock not yet tried), `waiting` (a `Lock` in
`cond.Wait`), `held`, `failed` (the call returned false or an error) and `released`.  A step is
one atomic section of a goroutine: a call taking its reference, one `tryLock` of a pending or
woken request, or a context cancellation.  `SectorFileType` is Go's `int`, a 64-bit vector.

**References.**  Along every run, each sector's entry holds exactly as many references as there
are calls on it that are pending, waiting, held or failed, and the entry is in the table exactly
when there is one (`run_refsInv`).  A failed call keeps its reference forever.

**Counters.**  Along every run whose calls never name a file type both for reading and for
writing, each file type of each sector is read-locked by `r[i]` held calls, or write-locked by
one held call with no reader (`run_countersInv`).
-/

namespace Lotus

namespace Stores

/-- `storiface.SectorFileType`, a Go `int`. -/
abbrev SectorFileType := BitVec 64

/-- `storiface.FileTypes`: unsealed, sealed, cache. -/
abbrev fileTypes : ℕ := 3

/-- `FTUnsealed`. -/
def ftUnsealed : SectorFileType := 1

/-- `FTSealed`. -/
def ftSealed : SectorFileType := 2

/-- `SectorFileType.All`: `out[i] = t&(1<<i) > 0`. -/
def SectorFileType.all (t : SectorFileType) (i : Fin fileTypes) : Bool :=
  (0 : BitVec 64).slt (t &&& ((1 : BitVec 64) <<< i.val))

/-- `sectorLock`, without its condition variable. -/
structure SectorLock where
  r : Fin fileTypes → ℕ
  w : SectorFileType
  refs : ℕ

namespace SectorLock

/-- `sectorLock{}`. -/
def empty : SectorLock :=
  ⟨fun _ => 0, 0, 0⟩

/-- `canLock`: no reader of a type to write, no writer of a type to read or write. -/
def canLock (l : SectorLock) (read write : SectorFileType) : Bool :=
  (List.finRange fileTypes).all (fun i => !(write.all i && decide (l.r i > 0))) &&
    l.w &&& read == 0 && l.w &&& write == 0

/-- `tryLock`: the lock after a successful attempt, `none` when `canLock` refuses. -/
def tryLock (l : SectorLock) (read write : SectorFileType) : Option SectorLock :=
  if l.canLock read write then
    some { l with r := fun i => if read.all i then l.r i + 1 else l.r i, w := l.w ||| write }
  else none

/-- `unlock`. -/
def unlock (l : SectorLock) (read write : SectorFileType) : SectorLock :=
  { l with r := fun i => if read.all i then l.r i - 1 else l.r i, w := l.w &&& ~~~write }

end SectorLock

/-- Which `lockFn` a call passes to `lockWith`. -/
inductive LockFn
  | tryLockSafe
  | lock
  deriving DecidableEq, Repr

/-- A call that got past `lockWith`'s validation. -/
structure Request where
  lockFn : LockFn
  sector : ℕ
  read : SectorFileType
  write : SectorFileType
  deriving DecidableEq

/-- Where a call is. -/
inductive Phase
  | pending
  | waiting
  | held
  | failed
  | released
  deriving DecidableEq, Repr

/-- A call that still holds its reference: only a release drops it. -/
def Phase.holdsRef : Phase → Bool
  | .released => false
  | _ => true

/-- `indexLocks.locks`, with the calls made on it in call order. -/
structure IndexLocks where
  locks : AList fun _ : ℕ => SectorLock
  reqs : List (Request × Phase)

/-- The atomic sections of the goroutines. -/
inductive Op
  | storageLock (sector : ℕ) (read write : SectorFileType)
  | storageTryLock (sector : ℕ) (read write : SectorFileType)
  /-- The `j`-th call tries `tryLock`: the first try, or a `Lock` woken by a broadcast. -/
  | attempt (j : ℕ)
  /-- The `j`-th call's context is done. -/
  | cancel (j : ℕ)

/-- `lockWith`'s checks: a call with no file type returns false, and one with a file type
beyond `FileTypes` an error ("unknown file types specified"), before any reference is taken. -/
def passesChecks (read write : SectorFileType) : Bool :=
  read ||| write != 0 && !(((1 : BitVec 64) <<< fileTypes) - 1).slt (read ||| write)

namespace IndexLocks

/-- `lockWith` up to `lockFn`: the entry (created if missing) gets a reference. -/
def enter (st : IndexLocks) (q : Request) : IndexLocks :=
  let slk := (st.locks.lookup q.sector).getD SectorLock.empty
  ⟨st.locks.insert q.sector { slk with refs := slk.refs + 1 }, st.reqs ++ [(q, .pending)]⟩

/-- A call of `StorageLock` or `StorageTryLock`. -/
def call (st : IndexLocks) (q : Request) : IndexLocks :=
  if passesChecks q.read q.write then st.enter q else st

/-- One `tryLock` of a pending or woken call: it holds the lock, or a `TryLock` fails and a
`Lock` waits. -/
def attempt (st : IndexLocks) (j : ℕ) : IndexLocks :=
  match st.reqs[j]? with
  | some (q, p) =>
    if p = .pending ∨ p = .waiting then
      match st.locks.lookup q.sector with
      | some slk =>
        match slk.tryLock q.read q.write with
        | some slk' => ⟨st.locks.insert q.sector slk', st.reqs.set j (q, .held)⟩
        | none =>
          ⟨st.locks, st.reqs.set j (q, if q.lockFn = .tryLockSafe then .failed else .waiting)⟩
      | none => st
    else st
  | none => st

/-- The goroutine of a held lock: `unlock`, `refs--`, and the entry deleted at zero. -/
def release (locks : AList fun _ : ℕ => SectorLock) (q : Request) (slk : SectorLock) :
    AList fun _ : ℕ => SectorLock :=
  let slk' := { slk.unlock q.read q.write with refs := slk.refs - 1 }
  if slk'.refs = 0 then locks.erase q.sector else locks.insert q.sector slk'

/-- A done context: a held call's goroutine releases it; a waiting `Lock` returns the context's
error. -/
def cancel (st : IndexLocks) (j : ℕ) : IndexLocks :=
  match st.reqs[j]? with
  | some (q, .held) =>
    match st.locks.lookup q.sector with
    | some slk => ⟨release st.locks q slk, st.reqs.set j (q, .released)⟩
    | none => st
  | some (q, .waiting) => ⟨st.locks, st.reqs.set j (q, .failed)⟩
  | _ => st

/-- One atomic section. -/
def step (st : IndexLocks) : Op → IndexLocks
  | .storageLock sector read write => st.call ⟨.lock, sector, read, write⟩
  | .storageTryLock sector read write => st.call ⟨.tryLockSafe, sector, read, write⟩
  | .attempt j => st.attempt j
  | .cancel j => st.cancel j

/-- Atomic sections one after another, from `st`. -/
def run (st : IndexLocks) (ops : List Op) : IndexLocks :=
  Run.run step st ops

/-- The calls on sector `s` that hold a reference. -/
def refsOf (reqs : List (Request × Phase)) (s : ℕ) : ℕ :=
  reqs.countP fun e => e.1.sector == s && e.2.holdsRef

/-- The references the table records for sector `s`, none when it has no entry. -/
def refsIn (locks : AList fun _ : ℕ => SectorLock) (s : ℕ) : ℕ :=
  ((locks.lookup s).map SectorLock.refs).getD 0

/-- Each sector's entry counts the references of the calls on it, and no entry is at zero. -/
structure RefsInv (st : IndexLocks) : Prop where
  refs_eq : ∀ s, refsIn st.locks s = refsOf st.reqs s
  refs_pos : ∀ s l, st.locks.lookup s = some l → 0 < l.refs

end IndexLocks

/-! ## References -/

namespace IndexLocks

theorem refsOf_append_pending (reqs : List (Request × Phase)) (q : Request) (s : ℕ) :
    refsOf (reqs ++ [(q, .pending)]) s = refsOf reqs s + if q.sector = s then 1 else 0 := by
  simp [refsOf, List.countP_append, Phase.holdsRef]

/-- Changing the phase of a call between two phases that hold a reference, or between two that do
not, keeps every sector's count. -/
theorem refsOf_set_of_holdsRef_eq {reqs : List (Request × Phase)} {j : ℕ} {q : Request}
    {p p' : Phase} (hj : reqs[j]? = some (q, p)) (hp : p'.holdsRef = p.holdsRef) (s : ℕ) :
    refsOf (reqs.set j (q, p')) s = refsOf reqs s := by
  obtain ⟨hlt, hget⟩ := List.getElem?_eq_some_iff.mp hj
  have hpos : (q.sector == s && p.holdsRef) = true → 0 < refsOf reqs s := fun hq =>
    List.countP_pos_iff.mpr ⟨reqs[j], List.getElem_mem hlt, by rw [hget]; exact hq⟩
  simp only [refsOf, List.countP_set hlt, hget, hp] at hpos ⊢
  split
  · have := hpos ‹_›
    omega
  · rfl

/-- Releasing a held call takes its reference off its sector's count. -/
theorem refsOf_set_released {reqs : List (Request × Phase)} {j : ℕ} {q : Request}
    (hj : reqs[j]? = some (q, .held)) (s : ℕ) :
    refsOf (reqs.set j (q, .released)) s = refsOf reqs s - if q.sector = s then 1 else 0 := by
  obtain ⟨hlt, hget⟩ := List.getElem?_eq_some_iff.mp hj
  simp [refsOf, List.countP_set hlt, hget, Phase.holdsRef]

@[simp]
theorem refsIn_insert_self (locks : AList fun _ : ℕ => SectorLock) (s : ℕ) (l : SectorLock) :
    refsIn (locks.insert s l) s = l.refs := by
  simp [refsIn, AList.lookup_insert]

theorem refsIn_insert_ne (locks : AList fun _ : ℕ => SectorLock) {s s' : ℕ} (h : s ≠ s')
    (l : SectorLock) : refsIn (locks.insert s l) s' = refsIn locks s' := by
  simp [refsIn, AList.lookup_insert_ne h.symm]

@[simp]
theorem refsIn_erase_self (locks : AList fun _ : ℕ => SectorLock) (s : ℕ) :
    refsIn (locks.erase s) s = 0 := by
  simp [refsIn, AList.lookup_erase]

theorem refsIn_of_lookup {locks : AList fun _ : ℕ => SectorLock} {s : ℕ} {l : SectorLock}
    (h : locks.lookup s = some l) : refsIn locks s = l.refs := by
  simp [refsIn, h]

/-- A sector lock written back with the references it had keeps the invariant. -/
theorem refsInv_insert_same {st : IndexLocks} (h : st.RefsInv) {s : ℕ} {l l' : SectorLock}
    (hl : st.locks.lookup s = some l) (hrefs : l'.refs = l.refs)
    {reqs : List (Request × Phase)} (hreqs : ∀ s, refsOf reqs s = refsOf st.reqs s) :
    RefsInv ⟨st.locks.insert s l', reqs⟩ := by
  constructor
  · intro s'
    rw [hreqs]
    by_cases hs : s = s'
    · subst hs
      rw [refsIn_insert_self, hrefs, ← refsIn_of_lookup hl]
      exact h.refs_eq s
    · rw [refsIn_insert_ne _ hs]
      exact h.refs_eq s'
  · intro s' l'' hl''
    by_cases hs : s = s'
    · subst hs
      rw [AList.lookup_insert] at hl''
      cases hl''
      rw [hrefs]
      exact h.refs_pos s l hl
    · rw [AList.lookup_insert_ne (Ne.symm hs)] at hl''
      exact h.refs_pos s' l'' hl''

theorem refsInv_enter {st : IndexLocks} (h : st.RefsInv) (q : Request) : (st.enter q).RefsInv := by
  set slk := (st.locks.lookup q.sector).getD SectorLock.empty
  have hslk : slk.refs = refsOf st.reqs q.sector := by
    rw [← h.refs_eq q.sector]
    simp only [slk, refsIn]
    cases st.locks.lookup q.sector <;> rfl
  constructor
  · intro s
    simp only [enter, refsOf_append_pending]
    by_cases hq : q.sector = s
    · subst hq
      rw [refsIn_insert_self, if_pos rfl, hslk]
    · rw [refsIn_insert_ne _ hq, if_neg hq, Nat.add_zero]
      exact h.refs_eq s
  · intro s l hl
    simp only [enter] at hl
    by_cases hq : q.sector = s
    · subst hq
      rw [AList.lookup_insert] at hl
      cases hl
      exact Nat.succ_pos _
    · rw [AList.lookup_insert_ne (Ne.symm hq)] at hl
      exact h.refs_pos s l hl

theorem refsInv_attempt {st : IndexLocks} (h : st.RefsInv) (j : ℕ) : (st.attempt j).RefsInv := by
  unfold attempt
  split
  · rename_i q p hj
    split
    · rename_i hp
      split
      · rename_i slk hslk
        split
        · -- the lock is taken: the entry changes, its references do not
          rename_i slk' hlock
          have hrefs : slk'.refs = slk.refs := by
            simp only [SectorLock.tryLock] at hlock
            split at hlock <;> cases hlock
            rfl
          have hheld : Phase.held.holdsRef = p.holdsRef := by rcases hp with rfl | rfl <;> rfl
          exact refsInv_insert_same h hslk hrefs (refsOf_set_of_holdsRef_eq hj hheld)
        · have hph : (if q.lockFn = .tryLockSafe then Phase.failed else Phase.waiting).holdsRef =
              p.holdsRef := by
            rcases hp with rfl | rfl <;> split <;> rfl
          exact ⟨fun s => by rw [refsOf_set_of_holdsRef_eq hj hph]; exact h.refs_eq s, h.refs_pos⟩
      · exact h
    · exact h
  · exact h

theorem lookup_release_ne (locks : AList fun _ : ℕ => SectorLock) {q : Request} {s : ℕ}
    (h : q.sector ≠ s) (slk : SectorLock) : (release locks q slk).lookup s = locks.lookup s := by
  dsimp only [release]
  split
  · exact AList.lookup_erase_ne (Ne.symm h)
  · exact AList.lookup_insert_ne (Ne.symm h)

theorem lookup_release_self (locks : AList fun _ : ℕ => SectorLock) (q : Request)
    (slk : SectorLock) :
    (release locks q slk).lookup q.sector =
      if slk.refs - 1 = 0 then none
      else some { slk.unlock q.read q.write with refs := slk.refs - 1 } := by
  dsimp only [release]
  split
  · rw [AList.lookup_erase]
  · rw [AList.lookup_insert]

theorem refsIn_release_self (locks : AList fun _ : ℕ => SectorLock) (q : Request)
    (slk : SectorLock) : refsIn (release locks q slk) q.sector = slk.refs - 1 := by
  simp only [refsIn, lookup_release_self]
  split <;> simp_all

theorem refsInv_cancel {st : IndexLocks} (h : st.RefsInv) (j : ℕ) : (st.cancel j).RefsInv := by
  unfold cancel
  split
  · rename_i q hj
    split
    · -- a release: the entry loses one reference and goes at zero
      rename_i slk hslk
      have hq : slk.refs = refsOf st.reqs q.sector := by
        rw [← refsIn_of_lookup hslk]
        exact h.refs_eq q.sector
      constructor
      · intro s
        simp only [refsOf_set_released hj]
        by_cases hqs : q.sector = s
        · subst hqs
          rw [refsIn_release_self, if_pos rfl, hq]
        · rw [if_neg hqs, Nat.sub_zero, refsIn, lookup_release_ne _ hqs]
          exact h.refs_eq s
      · intro s l hl
        by_cases hqs : q.sector = s
        · subst hqs
          rw [lookup_release_self] at hl
          split at hl
          · cases hl
          · cases hl
            simp only
            omega
        · rw [lookup_release_ne _ hqs] at hl
          exact h.refs_pos s l hl
    · exact h
  · rename_i q hj
    have hph : Phase.failed.holdsRef = Phase.waiting.holdsRef := rfl
    exact ⟨fun s => by rw [refsOf_set_of_holdsRef_eq hj hph]; exact h.refs_eq s, h.refs_pos⟩
  · exact h

theorem refsInv_call {st : IndexLocks} (h : st.RefsInv) (q : Request) : (st.call q).RefsInv := by
  unfold call
  split
  · exact refsInv_enter h q
  · exact h

theorem refsInv_step {st : IndexLocks} (h : st.RefsInv) (op : Op) : (st.step op).RefsInv := by
  cases op with
  | storageLock sector read write => exact refsInv_call h _
  | storageTryLock sector read write => exact refsInv_call h _
  | attempt j => exact refsInv_attempt h j
  | cancel j => exact refsInv_cancel h j

/-- The empty table: no entry, no call. -/
theorem refsInv_empty : RefsInv ⟨∅, []⟩ where
  refs_eq _ := rfl
  refs_pos _ _ h := by simp at h

/-- Along every run, each entry holds one reference per call on its sector that is pending,
waiting, held or failed, and no entry is at zero. -/
theorem run_refsInv {st : IndexLocks} (h : st.RefsInv) (ops : List Op) :
    (st.run ops).RefsInv :=
  Run.run_invariant (P := RefsInv) (fun _ op hs => refsInv_step hs op) ops h

/-- So a sector has an entry exactly when a call on it holds a reference. -/
theorem mem_locks_iff {st : IndexLocks} (h : st.RefsInv) (s : ℕ) :
    s ∈ st.locks ↔ 0 < refsOf st.reqs s := by
  rw [← h.refs_eq s, ← AList.lookup_isSome]
  unfold refsIn
  cases hl : st.locks.lookup s with
  | none => simp
  | some l => simpa using h.refs_pos s l hl

end IndexLocks

/-! ## File type masks -/

namespace SectorFileType

/-- `t&(1<<i) > 0` is bit `i` of `t`. -/
theorem all_eq_getLsbD (t : SectorFileType) (i : Fin fileTypes) : t.all i = t.getLsbD i := by
  obtain ⟨i, hi⟩ := i
  simp only [all]
  rw [show (1 : BitVec 64) <<< i = BitVec.twoPow 64 i by simp [BitVec.twoPow], BitVec.and_twoPow]
  simp only [fileTypes] at hi
  interval_cases i <;> cases t.getLsbD _ <;> decide

theorem all_or (a b : SectorFileType) (i : Fin fileTypes) : (a ||| b).all i = (a.all i || b.all i) := by
  simp [all_eq_getLsbD]

theorem all_and_not (a b : SectorFileType) (i : Fin fileTypes) :
    (a &&& ~~~b).all i = (a.all i && !b.all i) := by
  have hi : i.val < 64 := by have := i.isLt; simp only [fileTypes] at this; omega
  simp [all_eq_getLsbD, hi]

theorem not_all_and_of_and_eq_zero {a b : SectorFileType} (h : a &&& b = 0) (i : Fin fileTypes) :
    ¬ (a.all i = true ∧ b.all i = true) := by
  rintro ⟨ha, hb⟩
  rw [all_eq_getLsbD] at ha hb
  have hbit := congrArg (fun x : SectorFileType => x.getLsbD i) h
  simp [ha, hb] at hbit

end SectorFileType

namespace SectorLock

/-- What `canLock` checks, type by type. -/
theorem canLock_spec {l : SectorLock} {read write : SectorFileType}
    (h : l.canLock read write = true) (i : Fin fileTypes) :
    (write.all i = true → l.r i = 0) ∧ ¬ (l.w.all i = true ∧ read.all i = true) ∧
      ¬ (l.w.all i = true ∧ write.all i = true) := by
  simp only [canLock, Bool.and_eq_true, List.all_eq_true, beq_iff_eq] at h
  obtain ⟨⟨hr, hwr⟩, hww⟩ := h
  refine ⟨fun hwi => ?_, SectorFileType.not_all_and_of_and_eq_zero hwr i,
    SectorFileType.not_all_and_of_and_eq_zero hww i⟩
  have := hr i (List.mem_finRange i)
  simp only [hwi, Bool.true_and, Bool.not_eq_eq_eq_not, Bool.not_true, decide_eq_false_iff_not,
    not_lt] at this
  omega

theorem tryLock_eq_some {l l' : SectorLock} {read write : SectorFileType}
    (h : l.tryLock read write = some l') :
    l.canLock read write = true ∧
      l' = { l with r := fun i => if read.all i then l.r i + 1 else l.r i, w := l.w ||| write } := by
  simp only [tryLock] at h
  split at h
  · cases h
    exact ⟨‹_›, rfl⟩
  · cases h

end SectorLock

/-- A call that never names a file type both for reading and for writing. -/
def Request.Disjoint (q : Request) : Prop :=
  ∀ i, ¬ (q.read.all i = true ∧ q.write.all i = true)

/-- The calls that never name a file type both for reading and for writing. -/
def Op.Disjoint : Op → Prop
  | .storageLock _ read write => Request.Disjoint ⟨.lock, 0, read, write⟩
  | .storageTryLock _ read write => Request.Disjoint ⟨.tryLockSafe, 0, read, write⟩
  | .attempt _ => True
  | .cancel _ => True

namespace IndexLocks

/-- The held calls on sector `s` whose mask `f` names file type `i`. -/
def heldWith (f : Request → SectorFileType) (reqs : List (Request × Phase)) (s : ℕ)
    (i : Fin fileTypes) : ℕ :=
  reqs.countP fun e => e.1.sector == s && e.2 == .held && (f e.1).all i

/-- Held read locks of file type `i` on sector `s`. -/
def readers (reqs : List (Request × Phase)) (s : ℕ) (i : Fin fileTypes) : ℕ :=
  heldWith Request.read reqs s i

/-- Held write locks of file type `i` on sector `s`. -/
def writers (reqs : List (Request × Phase)) (s : ℕ) (i : Fin fileTypes) : ℕ :=
  heldWith Request.write reqs s i

/-- The counters of one file type of a sector's entry against the held calls: `r[i]` counts the
readers, the write bit is set exactly when there is a writer, and a writer is alone. -/
structure SlotOk (r : ℕ) (wbit : Bool) (reqs : List (Request × Phase)) (s : ℕ)
    (i : Fin fileTypes) : Prop where
  r_eq : r = readers reqs s i
  w_iff : wbit = true ↔ 0 < writers reqs s i
  writers_le : writers reqs s i ≤ 1
  readers_of_writer : 0 < writers reqs s i → readers reqs s i = 0

/-- Every entry's counters agree with the held calls, whose masks are disjoint. -/
structure CountersInv (st : IndexLocks) : Prop where
  disjoint : ∀ e ∈ st.reqs, e.1.Disjoint
  slots : ∀ s l, st.locks.lookup s = some l → ∀ i, SlotOk (l.r i) (l.w.all i) st.reqs s i

theorem heldWith_le_refsOf (f : Request → SectorFileType) (reqs : List (Request × Phase)) (s : ℕ)
    (i : Fin fileTypes) : heldWith f reqs s i ≤ refsOf reqs s := by
  apply List.countP_mono_left
  intro e _ he
  simp only [Bool.and_eq_true, beq_iff_eq] at he
  obtain ⟨⟨hs, hp⟩, -⟩ := he
  simp [hs, hp, Phase.holdsRef]

theorem heldWith_append_pending (f : Request → SectorFileType) (reqs : List (Request × Phase))
    (q : Request) (s : ℕ) (i : Fin fileTypes) :
    heldWith f (reqs ++ [(q, .pending)]) s i = heldWith f reqs s i := by
  simp [heldWith, List.countP_append]

/-- A call moving between phases other than `held` changes no count of held calls. -/
theorem heldWith_set_of_ne_held (f : Request → SectorFileType) {reqs : List (Request × Phase)}
    {j : ℕ} {q : Request} {p p' : Phase} (hj : reqs[j]? = some (q, p)) (hp : p ≠ .held)
    (hp' : p' ≠ .held) (s : ℕ) (i : Fin fileTypes) :
    heldWith f (reqs.set j (q, p')) s i = heldWith f reqs s i := by
  obtain ⟨hlt, hget⟩ := List.getElem?_eq_some_iff.mp hj
  simp [heldWith, List.countP_set hlt, hget, hp, hp']

/-- A call taking the lock adds itself to the counts of its sector and types. -/
theorem heldWith_set_held (f : Request → SectorFileType) {reqs : List (Request × Phase)}
    {j : ℕ} {q : Request} {p : Phase} (hj : reqs[j]? = some (q, p)) (hp : p ≠ .held)
    (s : ℕ) (i : Fin fileTypes) :
    heldWith f (reqs.set j (q, .held)) s i =
      heldWith f reqs s i + if q.sector = s ∧ (f q).all i = true then 1 else 0 := by
  obtain ⟨hlt, hget⟩ := List.getElem?_eq_some_iff.mp hj
  simp [heldWith, List.countP_set hlt, hget, hp]

/-- A released call leaves the counts of its sector and types. -/
theorem heldWith_set_released (f : Request → SectorFileType) {reqs : List (Request × Phase)}
    {j : ℕ} {q : Request} (hj : reqs[j]? = some (q, .held)) (s : ℕ) (i : Fin fileTypes) :
    heldWith f (reqs.set j (q, .released)) s i =
      heldWith f reqs s i - if q.sector = s ∧ (f q).all i = true then 1 else 0 := by
  obtain ⟨hlt, hget⟩ := List.getElem?_eq_some_iff.mp hj
  simp [heldWith, List.countP_set hlt, hget]

/-- A held call is one of the counted ones. -/
theorem heldWith_pos {reqs : List (Request × Phase)} {j : ℕ} {q : Request}
    (hj : reqs[j]? = some (q, .held)) (f : Request → SectorFileType) {i : Fin fileTypes}
    (hf : (f q).all i = true) : 0 < heldWith f reqs q.sector i := by
  obtain ⟨hlt, hget⟩ := List.getElem?_eq_some_iff.mp hj
  exact List.countP_pos_iff.mpr ⟨reqs[j], List.getElem_mem hlt, by simp [hget, hf]⟩

theorem disjoint_set {reqs : List (Request × Phase)} (h : ∀ e ∈ reqs, e.1.Disjoint) {j : ℕ}
    {q : Request} {p : Phase} (hj : reqs[j]? = some (q, p)) (p' : Phase) :
    ∀ e ∈ reqs.set j (q, p'), e.1.Disjoint := by
  intro e he
  rcases List.mem_or_eq_of_mem_set he with he | rfl
  · exact h e he
  · exact h (q, p) (List.mem_of_getElem? hj)

/-- A fresh entry agrees with a sector no call references. -/
theorem slotOk_empty {reqs : List (Request × Phase)} {s : ℕ} (h : refsOf reqs s = 0)
    (i : Fin fileTypes) : SlotOk (SectorLock.empty.r i) (SectorLock.empty.w.all i) reqs s i := by
  have hr : readers reqs s i = 0 := by
    have := heldWith_le_refsOf Request.read reqs s i
    simp only [readers]
    omega
  have hw : writers reqs s i = 0 := by
    have := heldWith_le_refsOf Request.write reqs s i
    simp only [writers]
    omega
  refine ⟨by simp [SectorLock.empty, hr], ?_, by omega, fun _ => hr⟩
  simp [SectorLock.empty, hw, SectorFileType.all_eq_getLsbD]

theorem countersInv_enter {st : IndexLocks} (hr : st.RefsInv) (h : st.CountersInv) {q : Request}
    (hq : q.Disjoint) : (st.enter q).CountersInv := by
  constructor
  · intro e he
    simp only [enter, List.mem_append, List.mem_singleton] at he
    rcases he with he | rfl
    · exact h.disjoint e he
    · exact hq
  · intro s l hl i
    simp only [enter] at hl ⊢
    have hcount : ∀ f, heldWith f (st.reqs ++ [(q, .pending)]) s i = heldWith f st.reqs s i :=
      fun f => heldWith_append_pending f st.reqs q s i
    have hslot : SlotOk (l.r i) (l.w.all i) st.reqs s i := by
      by_cases hqs : q.sector = s
      · subst hqs
        rw [AList.lookup_insert] at hl
        cases hl
        -- the entry keeps its counters, or is the fresh one of an unreferenced sector
        cases hlk : st.locks.lookup q.sector with
        | none =>
          have h0 : refsOf st.reqs q.sector = 0 := by
            rw [← hr.refs_eq]
            simp [refsIn, hlk]
          simpa [hlk] using slotOk_empty h0 i
        | some l₀ =>
          simpa [hlk] using h.slots q.sector l₀ hlk i
      · rw [AList.lookup_insert_ne (Ne.symm hqs)] at hl
        exact h.slots s l hl i
    exact ⟨by simp only [readers, hcount]; exact hslot.r_eq,
      by simp only [writers, hcount]; exact hslot.w_iff,
      by simp only [writers, hcount]; exact hslot.writers_le,
      by simp only [readers, writers, hcount]; exact hslot.readers_of_writer⟩

/-- One file type of the entry a call takes: `r[i]` and the write bit move with the counts. -/
theorem slotOk_take {slk : SectorLock} {reqs reqs' : List (Request × Phase)} {s : ℕ}
    {i : Fin fileTypes} {q : Request} (hslot : SlotOk (slk.r i) (slk.w.all i) reqs s i)
    (hcan : slk.canLock q.read q.write = true) (hq : q.Disjoint)
    (hread : readers reqs' s i = readers reqs s i + if q.read.all i then 1 else 0)
    (hwrite : writers reqs' s i = writers reqs s i + if q.write.all i then 1 else 0) :
    SlotOk (if q.read.all i then slk.r i + 1 else slk.r i) ((slk.w ||| q.write).all i)
      reqs' s i := by
  obtain ⟨hc1, hc2, hc3⟩ := SectorLock.canLock_spec hcan i
  obtain ⟨hr, hw, hle, hexcl⟩ := hslot
  have hw' : (slk.w ||| q.write).all i = (slk.w.all i || q.write.all i) :=
    SectorFileType.all_or _ _ i
  cases hri : q.read.all i <;> cases hwi : q.write.all i
  · -- the call names neither: nothing moves
    simp only [hri, hwi, Bool.false_eq_true, if_false, Nat.add_zero, Bool.or_false] at hread hwrite hw' ⊢
    exact ⟨by rw [hread]; exact hr, by rw [hw', hwrite]; exact hw, by omega,
      by rw [hwrite, hread]; exact hexcl⟩
  · -- a writer: there was no reader and no writer
    have hr0 : readers reqs s i = 0 := by rw [← hr]; exact hc1 hwi
    have hw0 : writers reqs s i = 0 := by
      have : slk.w.all i = false := by simpa [hwi] using hc3
      by_contra hne
      exact absurd (hw.mpr (Nat.pos_of_ne_zero hne)) (by simp [this])
    simp only [hri, hwi, Bool.false_eq_true, if_false, if_true, Nat.add_zero, Bool.or_true]
      at hread hwrite hw' ⊢
    exact ⟨by rw [hread, hr], by simp [hw', hwrite], by omega, fun _ => by rw [hread, hr0]⟩
  · -- a reader: there was no writer
    have hwf : slk.w.all i = false := by simpa [hri] using hc2
    simp only [hri, hwi, Bool.false_eq_true, if_false, if_true, Nat.add_zero, Bool.or_false]
      at hread hwrite hw' ⊢
    have hw0 : writers reqs s i = 0 := by
      by_contra hne
      exact absurd (hw.mpr (Nat.pos_of_ne_zero hne)) (by simp [hwf])
    exact ⟨by rw [hread, hr], by simp [hw', hwf, hwrite, hw0], by omega,
      fun h => absurd h (by omega)⟩
  · exact absurd ⟨hri, hwi⟩ (hq i)

/-- One file type of the entry a held call releases. -/
theorem slotOk_release {slk : SectorLock} {reqs reqs' : List (Request × Phase)} {s : ℕ}
    {i : Fin fileTypes} {q : Request} (hslot : SlotOk (slk.r i) (slk.w.all i) reqs s i)
    (hq : q.Disjoint)
    (hrpos : q.read.all i = true → 0 < readers reqs s i)
    (hwpos : q.write.all i = true → 0 < writers reqs s i)
    (hread : readers reqs' s i = readers reqs s i - if q.read.all i then 1 else 0)
    (hwrite : writers reqs' s i = writers reqs s i - if q.write.all i then 1 else 0) :
    SlotOk (if q.read.all i then slk.r i - 1 else slk.r i) ((slk.w &&& ~~~q.write).all i)
      reqs' s i := by
  obtain ⟨hr, hw, hle, hexcl⟩ := hslot
  have hw' : (slk.w &&& ~~~q.write).all i = (slk.w.all i && !q.write.all i) :=
    SectorFileType.all_and_not _ _ i
  cases hri : q.read.all i <;> cases hwi : q.write.all i
  · simp only [hri, hwi, Bool.false_eq_true, if_false, Nat.sub_zero, Bool.not_false,
      Bool.and_true] at hread hwrite hw' ⊢
    exact ⟨by rw [hread]; exact hr, by rw [hw', hwrite]; exact hw, by omega,
      by rw [hwrite, hread]; exact hexcl⟩
  · -- the writer leaves: it was the only one
    have h1 := hwpos hwi
    simp only [hri, hwi, Bool.false_eq_true, if_false, if_true, Nat.sub_zero, Bool.not_true,
      Bool.and_false] at hread hwrite hw' ⊢
    exact ⟨by rw [hread]; exact hr, by simp [hw', hwrite]; omega, by omega,
      fun h => absurd h (by omega)⟩
  · -- a reader leaves: there is no writer beside it
    have h1 := hrpos hri
    have hw0 : writers reqs s i = 0 := by
      by_contra hne
      have := hexcl (Nat.pos_of_ne_zero hne)
      omega
    simp only [hri, hwi, Bool.false_eq_true, if_false, if_true, Nat.sub_zero, Bool.not_false,
      Bool.and_true] at hread hwrite hw' ⊢
    exact ⟨by rw [hread, hr], by rw [hw', hwrite]; exact hw, by omega,
      fun h => absurd h (by omega)⟩
  · exact absurd ⟨hri, hwi⟩ (hq i)

/-- A call moving between phases that hold no lock keeps the counters. -/
theorem countersInv_set_of_ne_held {st : IndexLocks} (h : st.CountersInv) {j : ℕ} {q : Request}
    {p p' : Phase} (hj : st.reqs[j]? = some (q, p)) (hp : p ≠ .held) (hp' : p' ≠ .held) :
    CountersInv ⟨st.locks, st.reqs.set j (q, p')⟩ := by
  refine ⟨disjoint_set h.disjoint hj p', fun s l hl i => ?_⟩
  have hslot := h.slots s l hl i
  have hcount : ∀ f, heldWith f (st.reqs.set j (q, p')) s i = heldWith f st.reqs s i :=
    fun f => heldWith_set_of_ne_held f hj hp hp' s i
  exact ⟨by simp only [readers, hcount]; exact hslot.r_eq,
    by simp only [writers, hcount]; exact hslot.w_iff,
    by simp only [writers, hcount]; exact hslot.writers_le,
    by simp only [readers, writers, hcount]; exact hslot.readers_of_writer⟩

theorem countersInv_attempt {st : IndexLocks} (h : st.CountersInv) (j : ℕ) :
    (st.attempt j).CountersInv := by
  unfold attempt
  split
  · rename_i q p hj
    split
    · rename_i hp
      have hph : p ≠ .held := by rcases hp with rfl | rfl <;> decide
      split
      · rename_i slk hslk
        split
        · -- the call takes the lock: its sector's entry moves with the counts
          rename_i slk' hlock
          obtain ⟨hcan, rfl⟩ := SectorLock.tryLock_eq_some hlock
          have hq : q.Disjoint := h.disjoint (q, p) (List.mem_of_getElem? hj)
          refine ⟨disjoint_set h.disjoint hj .held, fun s l hl i => ?_⟩
          by_cases hqs : q.sector = s
          · subst hqs
            rw [AList.lookup_insert] at hl
            cases hl
            exact slotOk_take (h.slots q.sector slk hslk i) hcan hq
              (by simp [readers, heldWith_set_held _ hj hph])
              (by simp [writers, heldWith_set_held _ hj hph])
          · rw [AList.lookup_insert_ne (Ne.symm hqs)] at hl
            have hslot := h.slots s l hl i
            have hcount : ∀ f, heldWith f (st.reqs.set j (q, .held)) s i = heldWith f st.reqs s i :=
              fun f => by simp [heldWith_set_held f hj hph, hqs]
            exact ⟨by simp only [readers, hcount]; exact hslot.r_eq,
              by simp only [writers, hcount]; exact hslot.w_iff,
              by simp only [writers, hcount]; exact hslot.writers_le,
              by simp only [readers, writers, hcount]; exact hslot.readers_of_writer⟩
        · -- refused: only the call's phase changes, to one that holds no lock
          have hp' : (if q.lockFn = .tryLockSafe then Phase.failed else Phase.waiting) ≠ .held := by
            split <;> decide
          exact countersInv_set_of_ne_held h hj hph hp'
      · exact h
    · exact h
  · exact h

theorem countersInv_cancel {st : IndexLocks} (h : st.CountersInv) (j : ℕ) :
    (st.cancel j).CountersInv := by
  unfold cancel
  split
  · rename_i q hj
    split
    · -- a release: its sector's entry moves with the counts, or goes
      rename_i slk hslk
      have hq : q.Disjoint := h.disjoint (q, .held) (List.mem_of_getElem? hj)
      refine ⟨disjoint_set h.disjoint hj .released, fun s l hl i => ?_⟩
      by_cases hqs : q.sector = s
      · subst hqs
        rw [lookup_release_self] at hl
        split at hl
        · cases hl
        · cases hl
          exact slotOk_release (h.slots q.sector slk hslk i) hq
            (fun hr => heldWith_pos hj Request.read hr) (fun hw => heldWith_pos hj Request.write hw)
            (by simp [readers, heldWith_set_released _ hj])
            (by simp [writers, heldWith_set_released _ hj])
      · rw [lookup_release_ne _ hqs] at hl
        have hslot := h.slots s l hl i
        have hcount : ∀ f, heldWith f (st.reqs.set j (q, .released)) s i = heldWith f st.reqs s i :=
          fun f => by simp [heldWith_set_released f hj, hqs]
        exact ⟨by simp only [readers, hcount]; exact hslot.r_eq,
          by simp only [writers, hcount]; exact hslot.w_iff,
          by simp only [writers, hcount]; exact hslot.writers_le,
          by simp only [readers, writers, hcount]; exact hslot.readers_of_writer⟩
    · exact h
  · rename_i q hj
    exact countersInv_set_of_ne_held h hj (by decide) (by decide)
  · exact h

theorem countersInv_call {st : IndexLocks} (hr : st.RefsInv) (h : st.CountersInv) {q : Request}
    (hq : q.Disjoint) : (st.call q).CountersInv := by
  unfold call
  split
  · exact countersInv_enter hr h hq
  · exact h

theorem countersInv_step {st : IndexLocks} (hr : st.RefsInv) (h : st.CountersInv) (op : Op)
    (hop : op.Disjoint) : (st.step op).CountersInv := by
  cases op with
  | storageLock sector read write => exact countersInv_call hr h hop
  | storageTryLock sector read write => exact countersInv_call hr h hop
  | attempt j => exact countersInv_attempt h j
  | cancel j => exact countersInv_cancel h j

theorem countersInv_empty : CountersInv ⟨∅, []⟩ where
  disjoint := by simp
  slots _ _ h := by simp at h

/-- Along every run whose calls never name a file type both for reading and for writing, every
entry's counters agree with the held calls: `r[i]` counts the readers of type `i`, its write bit
is set exactly when there is a writer, and a writer is alone. -/
theorem run_countersInv {st : IndexLocks} (hr : st.RefsInv) (h : st.CountersInv) (ops : List Op)
    (hops : ∀ op ∈ ops, op.Disjoint) : (st.run ops).CountersInv :=
  (Run.run_invariant_mem (P := fun st : IndexLocks => st.RefsInv ∧ st.CountersInv)
    (fun _ op hs hop => ⟨refsInv_step hs.1 op, countersInv_step hs.1 hs.2 op hop⟩)
    ops ⟨hr, h⟩ hops).2

/-- A writer of the sealed file that reads the unsealed one, then a reader of the unsealed file,
on one sector. -/
theorem run_countersInv_readers :
    (IndexLocks.run ⟨∅, []⟩ [.storageLock 0 ftUnsealed ftSealed, .attempt 0,
      .storageLock 0 ftUnsealed 0, .attempt 1]).CountersInv :=
  run_countersInv refsInv_empty countersInv_empty _ (by
    intro op hop
    simp only [List.mem_cons, List.not_mem_nil, or_false] at hop
    rcases hop with rfl | rfl | rfl | rfl <;> simp only [Op.Disjoint, Request.Disjoint] <;> decide)

/-! ## Failed calls -/

/-- A failed call stays failed: no step looks at it again. -/
theorem step_keeps_failed {st : IndexLocks} {j : ℕ} {q : Request}
    (hj : st.reqs[j]? = some (q, .failed)) (op : Op) : (st.step op).reqs[j]? = some (q, .failed) := by
  cases op with
  | storageLock sector read write =>
    simp only [step, call, enter]
    split
    · simp [List.getElem?_append_left (List.getElem?_eq_some_iff.mp hj).1, hj]
    · exact hj
  | storageTryLock sector read write =>
    simp only [step, call, enter]
    split
    · simp [List.getElem?_append_left (List.getElem?_eq_some_iff.mp hj).1, hj]
    · exact hj
  | attempt k =>
    simp only [step, attempt]
    by_cases hk : k = j
    · subst hk
      simp [hj]
    · split
      · split
        · split
          · split <;> simp [hk, hj]
          · exact hj
        · exact hj
      · exact hj
  | cancel k =>
    simp only [step, cancel]
    by_cases hk : k = j
    · subst hk
      simp [hj]
    · split
      · split
        · simp [hk, hj]
        · exact hj
      · simp [hk, hj]
      · exact hj

/-- Once a call on a sector has failed, the sector's entry stays in the table along every run:
the failed call's reference is never dropped. -/
theorem run_keeps_failed_entry {st : IndexLocks} (h : st.RefsInv) {j : ℕ} {q : Request}
    (hj : st.reqs[j]? = some (q, .failed)) (ops : List Op) : q.sector ∈ (st.run ops).locks := by
  have hrun : (st.run ops).RefsInv ∧ (st.run ops).reqs[j]? = some (q, .failed) :=
    Run.run_invariant (P := fun st : IndexLocks => st.RefsInv ∧ st.reqs[j]? = some (q, .failed))
      (fun _ op hs => ⟨refsInv_step hs.1 op, step_keeps_failed hs.2 op⟩) ops ⟨h, hj⟩
  rw [mem_locks_iff hrun.1]
  obtain ⟨hlt, hget⟩ := List.getElem?_eq_some_iff.mp hrun.2
  exact List.countP_pos_iff.mpr ⟨_, List.getElem_mem hlt, by simp [hget, Phase.holdsRef]⟩

/-- A `StorageTryLock` of the sealed file refused while a `StorageLock` holds it: the holder's
release does not take the entry away. -/
theorem run_keeps_failed_entry_refused :
    0 ∈ (IndexLocks.run (IndexLocks.run ⟨∅, []⟩ [.storageLock 0 0 ftSealed, .attempt 0,
      .storageTryLock 0 0 ftSealed, .attempt 1]) [.cancel 0]).locks :=
  run_keeps_failed_entry (run_refsInv refsInv_empty _) (j := 1) (q := ⟨.tryLockSafe, 0, 0, ftSealed⟩)
    (by decide) _

/-- Two runs from an empty table.  A `StorageTryLock` of the sealed file refused while another
call holds it leaves its reference behind: once the holder's context is done, no call holds or
waits for the sector, yet its entry stays with one reference.  A `StorageTryLock` naming the
unsealed file for reading and for writing holds it with `r[0] = 1` and the write bit set. -/
theorem failed_trylock_keeps_reference :
    ((IndexLocks.run ⟨∅, []⟩ [.storageTryLock 0 0 ftSealed, .attempt 0,
        .storageTryLock 0 0 ftSealed, .attempt 1, .cancel 0]).reqs.map Prod.snd =
      [.released, .failed] ∧
    ((IndexLocks.run ⟨∅, []⟩ [.storageTryLock 0 0 ftSealed, .attempt 0,
        .storageTryLock 0 0 ftSealed, .attempt 1, .cancel 0]).locks.lookup 0).map
      SectorLock.refs = some 1) ∧
    (IndexLocks.run ⟨∅, []⟩ [.storageTryLock 0 ftUnsealed ftUnsealed, .attempt 0]).reqs.map
        Prod.snd = [.held] ∧
      ((IndexLocks.run ⟨∅, []⟩ [.storageTryLock 0 ftUnsealed ftUnsealed, .attempt 0]).locks.lookup
        0).map (fun l => (l.r 0, l.w.all 0)) = some (1, true) := by
  decide

end IndexLocks

end Stores

end Lotus
