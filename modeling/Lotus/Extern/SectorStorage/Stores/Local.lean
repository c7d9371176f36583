import Mathlib
import Lotus.Lib.Run
import Lotus.Extern.SectorStorage.Stores.IndexLocks

/-!
# Space reservations of the local store (`sector-storage/stores/local.go`)

`Local.Reserve` reserves room on the storage paths of a sector's file types before they are
written.  For each file type of the mask it finds the path the sector's `SectorPaths` names,
reads the path's `stat`, and if the available space covers the type's overhead it adds the
overhead to the path's `reserved` and sets the type's bit in the sector's entry of
`reservations`.  It returns a release function, the chain of one closure per file type, each of
which subtracts the overhead and flips the bit back with `^=`, deleting an entry left at
`FTNone`.  When a file type fails, `Reserve` runs the chain built so far before it returns.

`path.stat` reads the filesystem's `Stat`, subtracts the path's reservations (less what the
reserved sectors' files already use on disk), and, when `MaxStorage` is set, caps the result at
`MaxStorage` less the path's `DiskUsage`.

The model keeps the paths by storage ID and, beside them, the release function of each
successful `Reserve`, which a `release` call runs once.  Sizes are `ℤ`: the `int64` and
`uint64` conversions of `stat` and `Reserve` are exact for byte counts below `2^63`.

**What holds.**  Along every run, each path's `reserved` is the sum of the overheads of the live
reservations on it (`reserved_run`).

**What does not.**  The `MaxStorage` cap is read from `DiskUsage` alone: reservations on the
path do not lower it, so two reservations that each fit under the cap are both granted though
together they exceed it.  And `^=` clears a bit that another live reservation of the same
sector and file type on the same path still holds, so releasing one of two such reservations
deletes the sector's entry while the other is live (`reserve_twice_overcommits`).
-/

namespace Lotus

namespace Stores

/-- `FTCache`. -/
def ftCache : SectorFileType := 4

/-- `storiface.PathTypes`. -/
def pathTypes : List SectorFileType := [ftUnsealed, ftSealed, ftCache]

/-- `storiface.FSOverheadDen`. -/
def fsOverheadDen : ℤ := 10

/-- `storiface.ID`, a storage path's ID. -/
abbrev ID := String

/-- `abi.SectorID`. -/
structure SectorId where
  miner : ℕ
  number : ℕ
  deriving DecidableEq

/-- `storage.SectorRef`, with the size its proof type gives (`SectorSize`), or that call's
error. -/
structure SectorRef where
  id : SectorId
  sectorSize : Except String ℕ

/-- `storiface.SectorPaths`: the storage ID of each file type of a sector. -/
structure SectorPaths where
  unsealed : ID
  sealed : ID
  cache : ID

/-- `storiface.PathByType`; `none` where it panics. -/
def pathByType (sps : SectorPaths) (fileType : SectorFileType) : Option ID :=
  if fileType = ftUnsealed then some sps.unsealed
  else if fileType = ftSealed then some sps.sealed
  else if fileType = ftCache then some sps.cache
  else none

/-- `fsutil.FsStat`. -/
structure FsStat where
  capacity : ℤ
  available : ℤ
  fsAvailable : ℤ
  reserved : ℤ
  max : ℤ
  used : ℤ

/-- `LocalStorage`: `Stat` and `DiskUsage` of a path, and the disk usage of a sector's file of one
type under a path, read at the file or, when it does not exist, at its temporary fetch
destination; `none` when neither can be read. -/
structure LocalStorage where
  stat : String → Except String FsStat
  diskUsage : String → Except String ℤ
  sectorUsage : String → SectorId → SectorFileType → Option ℤ

/-- One file type reserved by `Reserve`: what its release closure gives back. -/
structure Grant where
  path : ID
  sector : SectorId
  fileType : SectorFileType
  overhead : ℤ

/-- `path`. -/
structure Path where
  localPath : String
  maxStorage : ℕ
  reserved : ℤ
  reservations : AList fun _ : SectorId => SectorFileType

/-- The path `OpenPath` adds: nothing reserved. -/
def newPath (localPath : String) (maxStorage : ℕ) : Path :=
  ⟨localPath, maxStorage, 0, ∅⟩

namespace Path

/-- What the reserved sectors' files already use on disk, over every file type of every entry of
`reservations`. -/
def reservedUsage (ls : LocalStorage) (p : Path) : ℤ :=
  p.reservations.entries.foldl (fun acc e =>
    pathTypes.foldl (fun acc fileType =>
      if fileType &&& e.2 = 0 then acc
      else acc + (ls.sectorUsage p.localPath e.1 fileType).getD 0) acc) 0

/-- `path.stat`. -/
def stat (ls : LocalStorage) (p : Path) : Except String FsStat := do
  let stat ← (ls.stat p.localPath).mapError fun e => "stat " ++ p.localPath ++ ": " ++ e
  let reserved := p.reserved - p.reservedUsage ls
  let reserved := if reserved < 0 then 0 else reserved
  let available := stat.available - reserved
  let available := if available < 0 then 0 else available
  if 0 < p.maxStorage then
    let used ← ls.diskUsage p.localPath
    let avail := if (p.maxStorage : ℤ) < used then 0 else p.maxStorage - used
    pure { stat with reserved, available := if avail < available then avail else available,
                     max := p.maxStorage, used }
  else
    pure { stat with reserved, available }

/-- A release closure: `reserved -= overhead`, then `reservations[sector] ^= fileType`, and the
entry deleted when it is `FTNone`. -/
def release (g : Grant) (p : Path) : Path :=
  let r := (p.reservations.lookup g.sector).getD 0 ^^^ g.fileType
  { p with reserved := p.reserved - g.overhead,
           reservations := if r = 0 then p.reservations.erase g.sector
             else p.reservations.insert g.sector r }

end Path

/-- The sum of the overheads of the grants on path `id`. -/
def overheadOn (gs : List Grant) (id : ID) : ℤ :=
  ((gs.filter fun g => g.path = id).map Grant.overhead).sum

/-- `Local`, with its paths by storage ID. -/
structure Local where
  paths : ID → Option Path

namespace Local

/-- Writing through the pointer to path `id`. -/
def setPath (st : Local) (id : ID) (p : Path) : Local :=
  ⟨Function.update st.paths id (some p)⟩

/-- One release closure, on the path it captured. -/
def release (st : Local) (g : Grant) : Local :=
  match st.paths g.path with
  | some p => st.setPath g.path (p.release g)
  | none => st

/-- The overhead `Reserve` computes for a file type. -/
def overheadOf (overheadTab : SectorFileType → ℤ) (ssize : ℕ) (fileType : SectorFileType) : ℤ :=
  (overheadTab fileType * ssize).tdiv fsOverheadDen

/-- One iteration of `Reserve`'s loop over `PathTypes`, on the store and the grants so far. -/
def reserveType (ls : LocalStorage) (sid : SectorRef) (ssize : ℕ) (ft : SectorFileType)
    (storageIDs : SectorPaths) (overheadTab : SectorFileType → ℤ) (fileType : SectorFileType)
    (acc : Local × List Grant) : (Local × List Grant) × Except String Unit :=
  if fileType &&& ft = 0 then (acc, .ok ())
  else
    match pathByType storageIDs fileType with
    | none => (acc, .error "requested unknown path type")
    | some id =>
      match acc.1.paths id with
      | none => (acc, .error "fsstat: path not found")
      | some p =>
        match p.stat ls with
        | .error e => (acc, .error ("getting local storage stat: " ++ e))
        | .ok stat =>
          let overhead := overheadOf overheadTab ssize fileType
          if stat.available < overhead then
            (acc, .error ("storage call error 102: can\x27t reserve " ++ toString overhead ++
              " bytes in \x27" ++ p.localPath ++ "\x27 (id:" ++ id ++ "), only " ++
              toString stat.available ++ " available"))
          else
            ((acc.1.setPath id
                { p with reserved := p.reserved + overhead,
                         reservations := p.reservations.insert sid.id
                           ((p.reservations.lookup sid.id).getD 0 ||| fileType) },
              acc.2 ++ [⟨id, sid.id, fileType, overhead⟩]), .ok ())

/-- `Reserve`: the store after the call, with the grants its release function gives back, or the
error.  On an error the release closures built so far run before the call returns. -/
def reserve (ls : LocalStorage) (sid : SectorRef) (ft : SectorFileType) (storageIDs : SectorPaths)
    (overheadTab : SectorFileType → ℤ) (st : Local) : Local × Except String (List Grant) :=
  match sid.sectorSize with
  | .error e => (st, .error e)
  | .ok ssize =>
    match Run.forUntilError (reserveType ls sid ssize ft storageIDs overheadTab) pathTypes (st, []) with
    | ((st', grants), .ok ()) => (st', .ok grants)
    | ((st', grants), .error e) => (grants.foldl release st', .error e)

end Local

/-- The store with the release function of each successful `Reserve`, by call, `none` once it
has been called. -/
structure Reservations where
  st : Local
  releases : List (Option (List Grant))

/-- A call on the store: `Reserve`, or the release function of the `k`-th successful one. -/
inductive Call
  | reserve (sid : SectorRef) (ft : SectorFileType) (storageIDs : SectorPaths)
      (overheadTab : SectorFileType → ℤ)
  | release (k : ℕ)

namespace Reservations

/-- One call.  A release function runs its closures in the order they were built, and is not
called again. -/
def step (ls : LocalStorage) (s : Reservations) : Call → Reservations
  | .reserve sid ft storageIDs overheadTab =>
    match s.st.reserve ls sid ft storageIDs overheadTab with
    | (st', .ok grants) => ⟨st', s.releases ++ [some grants]⟩
    | (st', .error _) => ⟨st', s.releases⟩
  | .release k =>
    match s.releases[k]? with
    | some (some grants) => ⟨grants.foldl Local.release s.st, s.releases.set k none⟩
    | _ => s

/-- The reservations whose release function has not been called. -/
def live (s : Reservations) : List Grant :=
  (s.releases.filterMap id).flatten

/-- The sum of the overheads of the live reservations on path `id`. -/
def liveOverhead (s : Reservations) (id : ID) : ℤ :=
  overheadOn s.live id

end Reservations

/-! ## One reservation -/

/-- The file types of `PathTypes` are distinct single bits. -/
lemma and_eq_zero_of_pathTypes {u t : SectorFileType} (hu : u ∈ pathTypes) (ht : t ∈ pathTypes) :
    u &&& t = 0 ↔ u ≠ t := by
  simp only [pathTypes, List.mem_cons, List.not_mem_nil, or_false] at hu ht
  rcases hu with rfl | rfl | rfl <;> rcases ht with rfl | rfl | rfl <;> decide

namespace Local

@[simp] lemma setPath_same (st : Local) (id : ID) (p : Path) : (st.setPath id p).paths id = some p :=
  Function.update_self _ _ _

lemma setPath_other (st : Local) {id id' : ID} (p : Path) (h : id' ≠ id) :
    (st.setPath id p).paths id' = st.paths id' :=
  Function.update_of_ne h _ _

end Local

namespace Path

/-- With no sector file on disk, `stat` subtracts all of `reserved`. -/
lemma reservedUsage_eq_zero {ls : LocalStorage} {p : Path}
    (hsec : ∀ s t, ls.sectorUsage p.localPath s t = none) : p.reservedUsage ls = 0 := by
  simp [reservedUsage, hsec]

/-- `stat` of a path under `MaxStorage` with a fixed `Stat` and `DiskUsage` and no sector file on
disk: the filesystem's available space less `reserved`, capped at `MaxStorage` less the path's
disk usage. -/
lemma stat_available {ls : LocalStorage} {p : Path} {fs : FsStat} {used : ℤ}
    (hls : ls.stat p.localPath = .ok fs) (hdu : ls.diskUsage p.localPath = .ok used)
    (hsec : ∀ s t, ls.sectorUsage p.localPath s t = none) (hmax : 0 < p.maxStorage)
    (hres : 0 ≤ p.reserved) :
    ∃ stat, p.stat ls = .ok stat ∧
      stat.available = min (max (fs.available - p.reserved) 0)
        (if (p.maxStorage : ℤ) < used then 0 else p.maxStorage - used) := by
  simp only [stat, hls, hdu, reservedUsage_eq_zero hsec, hmax, if_true, Except.mapError, sub_zero,
    if_neg (not_lt.2 hres)]
  refine ⟨_, rfl, ?_⟩
  dsimp only
  split_ifs <;> omega

end Path

namespace Local

/-- A `Reserve` of one file type whose path has room: the overhead is added to the path's
`reserved`, the type's bit set in the sector's entry, and the release function gives back that
one reservation. -/
lemma reserve_single {ls : LocalStorage} {sid : SectorRef} {ssize : ℕ}
    (hsize : sid.sectorSize = .ok ssize) {t : SectorFileType} (ht : t ∈ pathTypes)
    {storageIDs : SectorPaths} {overheadTab : SectorFileType → ℤ} {st : Local} {id : ID}
    {p : Path} {stat : FsStat} (hid : pathByType storageIDs t = some id)
    (hp : st.paths id = some p) (hstat : p.stat ls = .ok stat)
    (hfit : overheadOf overheadTab ssize t ≤ stat.available) :
    st.reserve ls sid t storageIDs overheadTab =
      (st.setPath id { p with reserved := p.reserved + overheadOf overheadTab ssize t,
                              reservations := p.reservations.insert sid.id
                                ((p.reservations.lookup sid.id).getD 0 ||| t) },
        .ok [⟨id, sid.id, t, overheadOf overheadTab ssize t⟩]) := by
  -- the loop over `PathTypes` only acts at `t`
  have hloop : Run.forUntilError (reserveType ls sid ssize t storageIDs overheadTab) pathTypes
      (st, []) = reserveType ls sid ssize t storageIDs overheadTab t (st, []) :=
    Run.forUntilError_single ht (by decide) (fun u hu hne acc => by
      simp [reserveType, (and_eq_zero_of_pathTypes hu ht).2 hne]) _
  have hself : t ≠ 0 := by
    have h : t &&& t ≠ 0 := (and_eq_zero_of_pathTypes ht ht).not.2 (not_not.2 rfl)
    rwa [BitVec.and_self] at h
  simp only [reserve, hsize, hloop, reserveType, BitVec.and_self, if_neg hself, hid, hp, hstat,
    if_neg (not_lt.2 hfit), List.nil_append]

end Local

/-! ## Two reservations of one file type -/

/-- **Over-commit and a lost bit.**  Take a path opened with `MaxStorage > 0` on a filesystem whose
`Stat` and `DiskUsage` stay fixed, with no sector file written.  Reserve one file type of a
sector on it twice, with an overhead `o` that fits under `MaxStorage - DiskUsage` once but not
twice, on a filesystem with room for both.  Both calls succeed: the cap ignores what is
reserved, so the live overheads on the path exceed `MaxStorage - DiskUsage`.  Then call the
first release function: `^=` clears the type's bit, which the second reservation set too, and
the sector's entry is deleted while the second reservation is live. -/
theorem reserve_twice_overcommits {ls : LocalStorage} {st : Local} {id : ID} {loc : String}
    {maxStorage : ℕ} (hpath : st.paths id = some (newPath loc maxStorage)) {fs : FsStat} {used : ℤ}
    (hls : ls.stat loc = .ok fs) (hdu : ls.diskUsage loc = .ok used)
    (hsec : ∀ s t, ls.sectorUsage loc s t = none) (hmax : 0 < maxStorage)
    {sid : SectorRef} {ssize : ℕ} (hsize : sid.sectorSize = .ok ssize)
    {t : SectorFileType} (ht : t ∈ pathTypes) {storageIDs : SectorPaths}
    (hid : pathByType storageIDs t = some id) {overheadTab : SectorFileType → ℤ} {o : ℤ}
    (ho : Local.overheadOf overheadTab ssize t = o) (h0 : 0 ≤ o) (hfs : 2 * o ≤ fs.available)
    (hcap : o ≤ maxStorage - used) (hover : maxStorage - used < 2 * o) :
    let r := Run.run (Reservations.step ls) ⟨st, []⟩
      [.reserve sid t storageIDs overheadTab, .reserve sid t storageIDs overheadTab]
    r.live = [⟨id, sid.id, t, o⟩, ⟨id, sid.id, t, o⟩] ∧ (maxStorage : ℤ) - used < r.liveOverhead id ∧
      (r.step ls (.release 0)).live = [⟨id, sid.id, t, o⟩] ∧
      ((r.step ls (.release 0)).st.paths id).map (fun p => p.reservations.lookup sid.id) =
        some none := by
  subst ho
  intro r
  -- the first `Reserve` finds nothing reserved
  obtain ⟨stat0, hstat0, havail0⟩ :=
    Path.stat_available (p := newPath loc maxStorage) hls hdu hsec hmax le_rfl
  have hfit0 : Local.overheadOf overheadTab ssize t ≤ stat0.available := by
    simp only [havail0, newPath, sub_zero]
    split_ifs <;> omega
  have hr1 := Local.reserve_single hsize ht hid hpath hstat0 hfit0
  set p1 : Path := { newPath loc maxStorage with
    reserved := (newPath loc maxStorage).reserved + Local.overheadOf overheadTab ssize t,
    reservations := (newPath loc maxStorage).reservations.insert sid.id
      (((newPath loc maxStorage).reservations.lookup sid.id).getD 0 ||| t) } with hp1
  -- the second finds `o` reserved, which the cap does not see
  obtain ⟨stat1, hstat1, havail1⟩ :=
    Path.stat_available (p := p1) hls hdu hsec hmax (by simp [hp1, newPath, h0])
  have hfit1 : Local.overheadOf overheadTab ssize t ≤ stat1.available := by
    simp only [havail1, hp1, newPath, zero_add]
    split_ifs <;> omega
  have hr2 := Local.reserve_single hsize ht hid (Local.setPath_same st id p1) hstat1 hfit1
  set p2 : Path := { p1 with
    reserved := p1.reserved + Local.overheadOf overheadTab ssize t,
    reservations := p1.reservations.insert sid.id ((p1.reservations.lookup sid.id).getD 0 ||| t) }
    with hp2
  set g : Grant := ⟨id, sid.id, t, Local.overheadOf overheadTab ssize t⟩
  have hr : r = ⟨(st.setPath id p1).setPath id p2, [some [g], some [g]]⟩ := by
    simp only [r, Run.run_cons, Run.run_nil, Reservations.step, hr1, hr2]
    rfl
  -- the first release flips the bit both reservations set
  have hrel : (p2.release g).reservations.lookup sid.id = none := by
    simp only [Path.release, hp2, hp1, newPath, g, AList.lookup_insert, AList.lookup_empty,
      Option.getD_some, Option.getD_none]
    rw [if_pos (by simp)]
    exact AList.lookup_erase _ _
  refine ⟨by simp [hr, Reservations.live], ?_, ?_, ?_⟩
  · simp only [hr, Reservations.liveOverhead, Reservations.live, overheadOn]
    simp [g]
    omega
  · simp [hr, Reservations.step, Reservations.live]
  · simp [hr, Reservations.step, Local.release, g, hrel]

theorem reserve_twice_overcommits_sealed :
    let ls : LocalStorage :=
      ⟨fun _ => .ok ⟨1000, 100, 100, 0, 0, 0⟩, fun _ => .ok 5, fun _ _ _ => none⟩
    let sid : SectorRef := ⟨⟨1000, 1⟩, .ok 100⟩
    let call : Call := .reserve sid ftSealed ⟨"p1", "p1", "p1"⟩ fun _ => 1
    let r := Run.run (Reservations.step ls) ⟨⟨fun _ => some (newPath "/p1" 20)⟩, []⟩ [call, call]
    r.live = [⟨"p1", sid.id, ftSealed, 10⟩, ⟨"p1", sid.id, ftSealed, 10⟩] ∧
      ((20 : ℕ) : ℤ) - 5 < r.liveOverhead "p1" ∧
      (r.step ls (.release 0)).live = [⟨"p1", sid.id, ftSealed, 10⟩] ∧
      ((r.step ls (.release 0)).st.paths "p1").map (fun p => p.reservations.lookup sid.id) =
        some none :=
  reserve_twice_overcommits (by rfl) (by rfl) (by rfl) (by intros; rfl) (by decide) (by rfl)
    (by decide) (by decide) (by decide) (by decide) (by decide) (by decide) (by decide)

/-! ## What every run keeps -/

@[simp] lemma overheadOn_nil (id : ID) : overheadOn [] id = 0 := rfl

lemma overheadOn_append (gs gs' : List Grant) (id : ID) :
    overheadOn (gs ++ gs') id = overheadOn gs id + overheadOn gs' id := by
  simp [overheadOn, List.filter_append]

lemma overheadOn_cons (g : Grant) (gs : List Grant) (id : ID) :
    overheadOn (g :: gs) id = (if g.path = id then g.overhead else 0) + overheadOn gs id := by
  by_cases h : g.path = id <;> simp [overheadOn, h]

namespace Local

/-- Every path's `reserved` is `f` of its ID. -/
def ReservedIs (st : Local) (f : ID → ℤ) : Prop :=
  ∀ id p, st.paths id = some p → p.reserved = f id

/-- A release closure gives its overhead back to its path. -/
lemma ReservedIs.release {st : Local} {f : ID → ℤ} (h : st.ReservedIs f) (g : Grant) :
    (st.release g).ReservedIs fun id => f id - overheadOn [g] id := by
  intro id p hp
  unfold Local.release at hp
  split at hp
  · rename_i q hq
    by_cases hid : g.path = id
    · subst hid
      rw [setPath_same, Option.some.injEq] at hp
      subst hp
      simp [Path.release, overheadOn, h _ q hq]
    · rw [setPath_other _ _ (Ne.symm hid)] at hp
      simp [overheadOn, hid, h id p hp]
  · rename_i hnone
    -- the grant's path is missing: nothing changes, and the grant is not on `id`
    have hid : g.path ≠ id := fun e => by rw [e, hp] at hnone; cases hnone
    simp [overheadOn, hid, h id p hp]

/-- A chain of release closures gives back all their overheads. -/
lemma ReservedIs.releaseAll : ∀ (gs : List Grant) {st : Local} {f : ID → ℤ}, st.ReservedIs f →
    (gs.foldl Local.release st).ReservedIs fun id => f id - overheadOn gs id
  | [], _, f, h => by simpa using h
  | g :: gs, _, f, h => by
    have hrest := ReservedIs.releaseAll gs (h.release g)
    intro id p hp
    rw [hrest id p hp]
    simp only [overheadOn_cons, overheadOn_nil, add_zero]
    omega

/-- One iteration of `Reserve`'s loop adds to each path the overheads it grants there. -/
lemma reservedIs_reserveType (ls : LocalStorage) (sid : SectorRef) (ssize : ℕ) (ft : SectorFileType)
    (storageIDs : SectorPaths) (overheadTab : SectorFileType → ℤ) (fileType : SectorFileType)
    {f : ID → ℤ} {acc : Local × List Grant} (h : acc.1.ReservedIs fun id => f id + overheadOn acc.2 id) :
    (reserveType ls sid ssize ft storageIDs overheadTab fileType acc).1.1.ReservedIs fun id =>
      f id + overheadOn (reserveType ls sid ssize ft storageIDs overheadTab fileType acc).1.2 id := by
  unfold reserveType
  split
  · exact h
  · split
    · exact h
    · rename_i id hid
      split
      · exact h
      · rename_i p hp
        split
        · exact h
        · dsimp only
          split
          · exact h
          · intro id' q hq
            by_cases hne : id' = id
            · subst hne
              rw [setPath_same, Option.some.injEq] at hq
              subst hq
              simp [overheadOn_append, overheadOn_cons, h _ p hp]
              omega
            · rw [setPath_other _ _ hne] at hq
              simp [overheadOn_append, overheadOn_cons, Ne.symm hne, h id' q hq]

/-- `Reserve` adds to each path the overheads of what it grants, and on an error gives back what
it had added. -/
lemma reservedIs_reserve (ls : LocalStorage) (sid : SectorRef) (ft : SectorFileType)
    (storageIDs : SectorPaths) (overheadTab : SectorFileType → ℤ) {st : Local} {f : ID → ℤ}
    (h : st.ReservedIs f) :
    (∀ gs, (st.reserve ls sid ft storageIDs overheadTab).2 = .ok gs →
      (st.reserve ls sid ft storageIDs overheadTab).1.ReservedIs fun id => f id + overheadOn gs id) ∧
    (∀ e, (st.reserve ls sid ft storageIDs overheadTab).2 = .error e →
      (st.reserve ls sid ft storageIDs overheadTab).1.ReservedIs f) := by
  unfold reserve
  split
  · exact ⟨fun _ hgs => (by cases hgs), fun _ _ => h⟩
  · rename_i ssize _
    -- the loop keeps each path at `f` plus what it has granted there so far
    have hloop := Run.forUntilError_invariant
      (P := fun acc : Local × List Grant => acc.1.ReservedIs fun id => f id + overheadOn acc.2 id)
      (fun fileType acc hacc => reservedIs_reserveType ls sid ssize ft storageIDs overheadTab
        fileType hacc) pathTypes (st, []) (by simpa using h)
    split
    · rename_i st' grants hres
      rw [hres] at hloop
      exact ⟨fun gs hgs => (by cases hgs; exact hloop), fun _ he => (by cases he)⟩
    · rename_i st' grants e hres
      rw [hres] at hloop
      refine ⟨fun _ hgs => (by cases hgs), fun _ _ => ?_⟩
      intro id p hp
      rw [ReservedIs.releaseAll grants hloop id p hp]
      dsimp only
      omega

end Local

namespace Reservations

/-- Calling the release function of the `k`-th `Reserve` takes its grants out of the live
ones. -/
lemma overheadOn_set_none : ∀ (l : List (Option (List Grant))) (k : ℕ) {gs : List Grant},
    l[k]? = some (some gs) → ∀ i,
      overheadOn (l.filterMap id).flatten i =
        overheadOn ((l.set k none).filterMap id).flatten i + overheadOn gs i
  | o :: l, 0, gs, hk, i => by
    simp only [List.getElem?_cons_zero, Option.some.injEq] at hk
    subst hk
    simp [overheadOn_append, add_comm]
  | o :: l, k + 1, gs, hk, i => by
    have ih := overheadOn_set_none l k hk i
    cases o with
    | none => simpa using ih
    | some hs =>
      rw [List.set_cons_succ, List.filterMap_cons_some (f := id) rfl,
        List.filterMap_cons_some (f := id) rfl,
        List.flatten_cons, List.flatten_cons, overheadOn_append, overheadOn_append, ih]
      omega

/-- Every call keeps each path's `reserved` equal to the live overheads on it. -/
lemma reservedIs_step (ls : LocalStorage) {s : Reservations} (h : s.st.ReservedIs s.liveOverhead)
    (c : Call) : (s.step ls c).st.ReservedIs (s.step ls c).liveOverhead := by
  cases c with
  | reserve sid ft storageIDs overheadTab =>
    obtain ⟨hok, herr⟩ := Local.reservedIs_reserve ls sid ft storageIDs overheadTab h
    rcases hres : s.st.reserve ls sid ft storageIDs overheadTab with ⟨st', e | grants⟩
    · rw [hres] at herr
      simp only [step, hres]
      exact herr e rfl
    · rw [hres] at hok
      simp only [step, hres]
      intro id p hp
      rw [hok grants rfl id p hp]
      simp [liveOverhead, live, overheadOn_append]
  | release k =>
    rcases hk : s.releases[k]? with _ | _ | grants
    · simp only [step, hk]
      exact h
    · simp only [step, hk]
      exact h
    · simp only [step, hk]
      intro id p hp
      rw [Local.ReservedIs.releaseAll grants h id p hp]
      simp only [liveOverhead, live, overheadOn_set_none s.releases k hk id]
      omega

/-- **Reserved space is the live reservations.**  From a store whose paths have nothing
reserved, along every sequence of `Reserve` calls (any sectors, masks, paths and overhead tables,
failing or not) and calls of the release functions, each path's `reserved` is the sum of the
overheads of the live reservations on it. -/
theorem reserved_run (ls : LocalStorage) {st : Local} (hst : st.ReservedIs fun _ => 0)
    (calls : List Call) :
    let r := Run.run (step ls) ⟨st, []⟩ calls
    ∀ id p, r.st.paths id = some p → p.reserved = r.liveOverhead id :=
  Run.run_invariant (P := fun s : Reservations => s.st.ReservedIs s.liveOverhead)
    (fun _ c hs => reservedIs_step ls hs c) calls hst

/-- Two reservations of the sealed file of one sector on one path, and the first released. -/
theorem reserved_run_twoReserves :
    let ls : LocalStorage :=
      ⟨fun _ => .ok ⟨1000, 100, 100, 0, 0, 0⟩, fun _ => .ok 5, fun _ _ _ => none⟩
    let call : Call := .reserve ⟨⟨1000, 1⟩, .ok 100⟩ ftSealed ⟨"p1", "p1", "p1"⟩ fun _ => 1
    let r := Run.run (step ls) ⟨⟨fun _ => some (newPath "/p1" 20)⟩, []⟩ [call, call, .release 0]
    ∀ id p, r.st.paths id = some p → p.reserved = r.liveOverhead id :=
  reserved_run _ (fun _ _ h => by cases h; rfl) _

end Reservations

end Stores

end Lotus
