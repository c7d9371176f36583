import Mathlib
import Lotus.Lib.SortSlice
import Lotus.Extern.SectorStorage.Ffiwrapper
import Lotus.Extern.StorageSealing.Types

/-!
# Assigning deal pieces to sectors (`extern/storage-sealing/input.go`)

`Sealing` keeps, under `inputLk`, the deal pieces waiting for a sector (`pendingPieces`), the
sectors open for deals with the unpadded space each has used (`openSectors`), and the pieces
assigned to each sector but not yet written (`assignedPieces`).  `updateInput` pairs every
unassigned piece with every open sector it fits in, sorts the pairs (least padding first, then
smaller pieces, then older sectors) and assigns greedily, charging each sector
`padding + size`.  `handleAddPiece` later writes a sector's assigned pieces, each preceded by the
padding pieces `GetRequiredPadding` asks for at the sector's current offset, and refuses a piece
that no longer fits.

Go maps are `AList`s, and `range` over them visits `entries` in order, so every result holds for
every order.  `sort.Slice` is a parameter meeting its contract.  Deal proposal CIDs are a type
with decidable equality.  A sector's `maybeAccept` appends to `assignedPieces` and sends
`SectorAddPiece`, and the sealer's `AddPiece` writes a piece; the model takes both to succeed.

The padding of a match is computed once, from the space free before any assignment of the call.
When one call assigns two pieces to one sector, the second is charged a padding computed for an
offset the sector no longer has.  The charge can then exceed what is free, `used` passes the
sector's capacity, and the unsigned `avail` of the next call wraps around
(`updateInput_overfills_sector`).
-/

namespace Lotus

namespace Sealing

open GoInt

variable {Cid : Type}

/-- A `pendingPiece`, with the fields the input code reads: its unpadded size and whether it
is assigned to a sector. -/
structure PendingPiece where
  size : ℕ
  assigned : Bool
  deriving DecidableEq, Repr

variable (Cid) in
/-- The input state of `Sealing`: `pendingPieces` by deal proposal CID, the `used` space of each
open sector by sector number, and `assignedPieces` by sector number. -/
structure InputState where
  pendingPieces : AList fun _ : Cid => PendingPiece
  openSectors : AList fun _ : ℕ => ℕ
  assignedPieces : AList fun _ : ℕ => List Cid

variable (Cid) in
/-- A candidate assignment of `updateInput`. -/
structure Match where
  sector : ℕ
  deal : Cid
  size : ℕ
  padding : ℕ
  deriving DecidableEq, Repr

/-- The order `updateInput` sorts matches by: less padding, then smaller pieces, then older
sectors. -/
def matchLess (a b : Match Cid) : Bool :=
  if a.padding ≠ b.padding then decide (a.padding < b.padding)
  else if a.size ≠ b.size then decide (a.size < b.size)
  else decide (a.sector < b.sector)

/-- `matchLess` fails exactly when the second match is lexicographically no greater than the
first on padding, size and sector. -/
theorem matchLess_eq_false {a b : Match Cid} :
    matchLess a b = false ↔ b.padding < a.padding ∨ b.padding = a.padding ∧
      (b.size < a.size ∨ b.size = a.size ∧ b.sector ≤ a.sector) := by
  unfold matchLess
  split_ifs <;> simp only [decide_eq_false_iff_not] <;> omega

theorem matchLess_trans (a b c : Match Cid) (hba : matchLess b a = false)
    (hcb : matchLess c b = false) : matchLess c a = false := by
  rw [matchLess_eq_false] at hba hcb ⊢
  omega

theorem matchLess_total (a b : Match Cid) : matchLess a b = false ∨ matchLess b a = false := by
  rw [matchLess_eq_false, matchLess_eq_false]
  omega

/-- The unpadded space a sector's pieces take: the `used` of `handleWaitDeals` and the starting
`offset` of `handleAddPiece`. -/
def piecesUsed (pieces : List Piece) : ℕ :=
  (pieces.map fun p => unpadded p.piece.size).sum

/-- The first loop of `updateInput`: the matches, in the order the maps are visited, and the
pieces `toAssign`. -/
def collectMatches (ssize : ℕ) (s : InputState Cid) : List (Match Cid) × List Cid :=
  s.pendingPieces.entries.foldl (fun acc e =>
    -- already assigned to a sector, skip
    if e.2.assigned then acc
    else
      let ms := s.openSectors.entries.foldl (fun ms sector =>
          let avail := uint64 ((unpadded ssize : ℤ) - sector.2)
          if e.2.size ≤ avail then
            ms ++ [⟨sector.1, e.1, e.2.size, avail % e.2.size⟩]
          else ms) acc.1
      (ms, acc.2 ++ [e.1])) ([], [])

variable [DecidableEq Cid]

/-- `maybeAccept` of an open sector: append the deal to the sector's assigned pieces. -/
def maybeAccept (s : InputState Cid) (sector : ℕ) (deal : Cid) : InputState Cid :=
  { s with
    assignedPieces := s.assignedPieces.insert sector
      ((s.assignedPieces.lookup sector).getD [] ++ [deal]) }

/-- One iteration of the second loop of `updateInput`, over the state and `toAssign`. -/
def assignMatch (ssize : ℕ) (st : InputState Cid × List Cid) (mt : Match Cid) :
    InputState Cid × List Cid :=
  match st.1.pendingPieces.lookup mt.deal with
  -- every match names a pending piece
  | none => st
  | some piece =>
    if piece.assigned then st
    else
      match st.1.openSectors.lookup mt.sector with
      | none => st
      | some used =>
        let avail := uint64 ((unpadded ssize : ℤ) - used)
        if mt.size > avail then st
        else
          let s := maybeAccept st.1 mt.sector mt.deal
          let s := { s with
            openSectors := s.openSectors.insert mt.sector (uint64 (used + mt.padding + mt.size)) }
          let piece : PendingPiece := { piece with assigned := true }
          ({ s with pendingPieces := s.pendingPieces.insert mt.deal piece }, st.2.erase mt.deal)

/-- `updateInput`: the new state, and whether it goes on to `tryCreateDealSector` for the
pieces left without a sector. -/
def updateInput (sort : List (Match Cid) → List (Match Cid)) (ssize : ℕ) (s : InputState Cid) :
    InputState Cid × Bool :=
  let collected := collectMatches ssize s
  let st := (sort collected.1).foldl (assignMatch ssize) (s, collected.2)
  (st.1, !st.2.isEmpty)

/-- The insertion `AddPieceToAnySector` makes once its checks pass, before it calls
`updateInput`. -/
def addPendingPiece (s : InputState Cid) (deal : Cid) (size : ℕ) : InputState Cid :=
  { s with pendingPieces := s.pendingPieces.insert deal ⟨size, false⟩ }

/-- The part of `handleWaitDeals` that opens a sector for deals, if it is not open already,
with the space its pieces use. -/
def openDealSector (s : InputState Cid) (sector : SectorInfo) : InputState Cid :=
  if sector.sectorNumber ∈ s.openSectors then s
  else { s with openSectors := s.openSectors.insert sector.sectorNumber (piecesUsed sector.pieces) }

/-! ## `handleAddPiece` -/

/-- `getDealPerSectorLimit`. -/
def getDealPerSectorLimit (size : ℕ) : ℕ :=
  if size < 64 <<< 30 then 256 else 512

variable [ToString Cid]

/-- The loop of `handleAddPiece` over the assigned deals, from the `i`-th on at unpadded `offset`:
what each deal's `accepted` callback receives (the offset, and the error if any), and the pieces
added (padding pieces carry no deal). -/
def addAssigned (ssize sectorNumber maxDeals dealCount : ℕ)
    (pendingPieces : AList fun _ : Cid => PendingPiece) :
    ℕ → List Cid → ℕ → Except String (List (Cid × ℕ × Option String) × List (ℕ × Bool))
  | _, [], _ => .ok ([], [])
  | i, piece :: rest, offset =>
    match pendingPieces.lookup piece with
    | none => .error ("piece " ++ toString piece ++ " assigned to sector " ++
        toString sectorNumber ++ " not found")
    | some deal =>
      if dealCount + (i + 1) > maxDeals then
        (addAssigned ssize sectorNumber maxDeals dealCount pendingPieces (i + 1) rest offset).map
          fun r => ((piece, offset, some ("too many deals assigned to sector " ++
            toString sectorNumber ++ ", dropping deal")) :: r.1, r.2)
      else
        let padding := getRequiredPadding (padded offset) (padded deal.size)
        if padded offset + padding.2 + padded deal.size > ssize then
          (addAssigned ssize sectorNumber maxDeals dealCount pendingPieces (i + 1) rest
            offset).map fun r => ((piece, offset, some ("piece " ++ toString piece ++
              " assigned to sector " ++ toString sectorNumber ++ " with not enough space")) ::
              r.1, r.2)
        else
          let offset := offset + unpadded padding.2
          (addAssigned ssize sectorNumber maxDeals dealCount pendingPieces (i + 1) rest
            (offset + deal.size)).map fun r =>
              ((piece, offset, none) :: r.1,
                padding.1.map (fun p => (p, false)) ++ (padded deal.size, true) :: r.2)

/-- `handleAddPiece`: take the sector's assigned pieces and write them after its pieces. -/
def handleAddPiece (ssize : ℕ) (s : InputState Cid) (sector : SectorInfo) :
    InputState Cid × Except String (List (Cid × ℕ × Option String) × List (ℕ × Bool)) :=
  match s.assignedPieces.lookup sector.sectorNumber with
  -- nothing to do here (might happen after a restart in AddPiece)
  | none => (s, .ok ([], []))
  | some pending =>
    let s := { s with assignedPieces := s.assignedPieces.erase sector.sectorNumber }
    (s, addAssigned ssize sector.sectorNumber (getDealPerSectorLimit ssize) sector.dealIDs.length
      s.pendingPieces 0 pending (piecesUsed sector.pieces))

/-! ## Two assignments to one sector in one call -/

/-- Deals `1` (1016 bytes) and `2` (508 bytes) wait while sector 1 of a 2 KiB sector size holds
one 127-byte deal.  Both fit, and the match of deal `2` has the smaller padding, so it is
assigned first; deal `1` is then charged the padding `889` computed for the sector's old offset,
although at its new offset it needs none.  `used` ends at 2921, past the 2032 bytes the sector
holds.  The next call sees `avail` wrap around and assigns deal `3` to the full sector, and
`handleAddPiece` rejects it.  This holds for every order `sort.Slice` may produce. -/
theorem updateInput_overfills_sector (sort : List (Match ℕ) → List (Match ℕ))
    (hsort : SortSlice.Sorts matchLess sort) :
    let sector : SectorInfo :=
      { (default : SectorInfo) with sectorNumber := 1, pieces := [⟨⟨128, 0⟩, some ⟨0⟩⟩] }
    let s0 := openDealSector (addPendingPiece (addPendingPiece ⟨∅, ∅, ∅⟩ 2 508) 1 1016)
      { sector with state := .waitDeals }
    let s1 := (updateInput sort 2048 s0).1
    let s2 := (updateInput sort 2048 (addPendingPiece s1 3 127)).1
    s1.openSectors.lookup 1 = some 2921 ∧ unpadded 2048 < 2921 ∧
      (handleAddPiece 2048 s2 { sector with state := .addPiece }).2 = .ok
        ([(2, 508, none), (1, 1016, none),
          (3, 2032, some "piece 3 assigned to sector 1 with not enough space")],
         [(128, false), (256, false), (512, true), (1024, true)]) := by
  intro sector s0 s1 s2
  -- round 1: both deals fit sector 1, and the one with less padding goes first
  have hc0 : collectMatches 2048 s0 = ([⟨1, 1, 1016, 889⟩, ⟨1, 2, 508, 381⟩], [1, 2]) := by
    decide
  have hsort0 : sort [⟨1, 1, 1016, 889⟩, ⟨1, 2, 508, 381⟩] =
      [⟨1, 2, 508, 381⟩, ⟨1, 1, 1016, 889⟩] :=
    SortSlice.sorts_pair hsort (by decide) (by decide)
  have hs1 : s1 = ([⟨1, 2, 508, 381⟩, ⟨1, 1, 1016, 889⟩].foldl (assignMatch 2048)
      (s0, [1, 2])).1 := by
    simp only [s1, updateInput, hc0, hsort0]
  -- round 2: the wrapped `avail` lets deal `3` into the full sector
  have hc1 : collectMatches 2048 (addPendingPiece s1 3 127) = ([⟨1, 3, 127, 2⟩], [3]) := by
    rw [hs1]
    decide
  have hs2 : s2 = ([⟨1, 3, 127, 2⟩].foldl (assignMatch 2048)
      (addPendingPiece s1 3 127, [3])).1 := by
    simp only [s2, updateInput, hc1, SortSlice.sorts_singleton hsort]
  rw [hs2, hs1]
  decide

theorem updateInput_overfills_sector_mergeSort :
    let sort := fun l : List (Match ℕ) => l.mergeSort fun a b => !matchLess b a
    let sector : SectorInfo := { (default : SectorInfo) with
      state := .waitDeals, sectorNumber := 1, pieces := [⟨⟨128, 0⟩, some ⟨0⟩⟩] }
    SortSlice.Sorts matchLess sort ∧
      (updateInput sort 2048 (openDealSector (addPendingPiece (addPendingPiece ⟨∅, ∅, ∅⟩ 2 508)
        1 1016) sector)).1.openSectors.lookup 1 = some 2921 := by
  intro sort sector
  have hsort : SortSlice.Sorts matchLess sort :=
    SortSlice.mergeSort_sorts matchLess_trans matchLess_total
  exact ⟨hsort, (updateInput_overfills_sector sort hsort).1⟩

end Sealing

end Lotus
