import Lotus.Lib.SortSlice
import Lotus.Chain.Types.Message

/-!
# Tipsets (`chain/types/tipset.go`)

`NewTipSet` sorts its blocks with `tipsetSortFunc` and checks that they share a height and
parents; the tipset's key is the list of their CIDs in that order.  The sort compares the blocks'
tickets by the `blake2b` digests of their VRF proofs, and blocks with equal tickets by their CID
bytes; `MinTicketBlock` scans the blocks for the least ticket, by digest alone.

A CID is its bytes, and a block's CID is `cidOf` of the header (a hash of its encoding); `blake2b`
is `sum256`.  Both are parameters, and so is `sort.Slice`, through its contract
(`SortSlice.Sorts`).

**The key does not depend on the order of the blocks** when their CIDs are distinct and the
digests of distinct VRF proofs differ: the comparator is then a total order on the blocks, and
every permutation sorts to the same list (`SortSlice.sorts_perm_eq`).  **`MinTicketBlock` is the
first block** of every tipset `NewTipSet` builds, digests distinct or not: the sort puts no block
with a smaller digest after it, and the scan only moves to a smaller one.
-/

namespace Lotus

/-- A CID, by its bytes. -/
abbrev Cid := List UInt8

/-- A `Ticket`: its VRF proof. -/
structure Ticket where
  vrfProof : List UInt8
  deriving DecidableEq, Repr

/-- A `BlockHeader`, by the fields `NewTipSet` and `MinTicketBlock` read. -/
structure BlockHeader where
  miner : Address
  ticket : Ticket
  parents : List Cid
  height : ℤ
  deriving DecidableEq, Repr

/-- A `TipSet`: the CIDs of its blocks, the blocks and the height. -/
structure TipSet where
  cids : List Cid
  blks : List BlockHeader
  height : ℤ

namespace TipSet

variable (sum256 : List UInt8 → List UInt8) (cidOf : BlockHeader → Cid)

/-- `Ticket.Less`: the digest of the VRF proof is smaller (`bytes.Compare` is lexicographic). -/
def ticketLess (t o : Ticket) : Bool :=
  decide (sum256 t.vrfProof < sum256 o.vrfProof)

/-- `tipsetSortFunc`: by ticket, and by CID bytes between equal tickets. -/
def tipsetSortFunc (bi bj : BlockHeader) : Bool :=
  if bi.ticket = bj.ticket then decide (cidOf bi < cidOf bj) else ticketLess sum256 bi.ticket bj.ticket

/-- One block after the first in `NewTipSet`'s loop: it needs the first block's height and
parents, and its CID joins the list. -/
def checkBlock (b0 b : BlockHeader) (cids : List Cid) : Except String (List Cid) :=
  if b.height ≠ b0.height then .error "cannot create tipset with mismatching heights"
  else if b0.parents.length ≠ b.parents.length then
    .error "cannot create tipset with mismatching number of parents"
  else if (b.parents.zip b0.parents).any fun p => p.1 != p.2 then
    .error "cannot create tipset with mismatching parents"
  else .ok (cids ++ [cidOf b])

/-- `NewTipSet(blks)`, with `sort` for `sort.Slice(blks, tipsetSortFunc(blks))`.  The sort keeps
the length, so the sorted list is empty exactly when the input is. -/
def newTipSet (sort : List BlockHeader → List BlockHeader) (blks : List BlockHeader) :
    Except String TipSet :=
  match sort blks with
  | [] => .error "NewTipSet called with zero length array of blocks"
  | b0 :: rest => do
    let cids ← rest.foldlM (fun cids b => checkBlock cidOf b0 b cids) [cidOf b0]
    pure ⟨cids, b0 :: rest, b0.height⟩

/-- `ts.MinTicketBlock()`: the first block, replaced by each later one with a smaller ticket;
`none` for no blocks, where `blks[0]` panics. -/
def minTicketBlock (ts : TipSet) : Option BlockHeader :=
  match ts.blks with
  | [] => none
  | b0 :: rest =>
    some (rest.foldl (fun min b => if ticketLess sum256 b.ticket min.ticket then b else min) b0)

/-! ## The comparator -/

lemma ticketLess_irrefl (t : Ticket) : ticketLess sum256 t t = false := by
  simp [ticketLess, List.lt_irrefl]

/-- With distinct CIDs and digests that differ for distinct tickets, of two different blocks one
sorts before the other. -/
lemma tipsetSortFunc_total {a b : BlockHeader} (hcid : cidOf a = cidOf b → a = b)
    (hdig : sum256 a.ticket.vrfProof = sum256 b.ticket.vrfProof → a.ticket = b.ticket)
    (hab : tipsetSortFunc sum256 cidOf a b = false) (hba : tipsetSortFunc sum256 cidOf b a = false) :
    a = b := by
  unfold tipsetSortFunc ticketLess at hab hba
  by_cases ht : a.ticket = b.ticket
  · -- equal tickets: the CID bytes decide
    rw [if_pos ht] at hab
    rw [if_pos ht.symm] at hba
    simp only [decide_eq_false_iff_not, List.not_lt] at hab hba
    exact hcid (List.le_antisymm hba hab)
  · -- different tickets: the digests differ, and one is smaller
    rw [if_neg ht] at hab
    rw [if_neg (Ne.symm ht)] at hba
    simp only [decide_eq_false_iff_not, List.not_lt] at hab hba
    exact absurd (hdig (List.le_antisymm hba hab)) ht

/-! ## The tipset -/

/-- **The tipset does not depend on the order of its blocks**: with distinct CIDs and digests
that differ for distinct VRF proofs, every permutation of the blocks gives the same result. -/
lemma newTipSet_perm {sort : List BlockHeader → List BlockHeader}
    (hsort : SortSlice.Sorts (tipsetSortFunc sum256 cidOf) sort) {blks blks' : List BlockHeader}
    (hcids : (blks.map cidOf).Nodup)
    (hdig : ∀ a ∈ blks, ∀ b ∈ blks,
      sum256 a.ticket.vrfProof = sum256 b.ticket.vrfProof → a.ticket = b.ticket)
    (hperm : blks'.Perm blks) : newTipSet cidOf sort blks' = newTipSet cidOf sort blks := by
  have hsame : sort blks' = sort blks := by
    refine SortSlice.sorts_perm_eq hsort (fun a ha b hb hab hba => ?_) hperm
    exact tipsetSortFunc_total sum256 cidOf (List.inj_on_of_nodup_map hcids ha hb)
      (hdig a ha b hb) hab hba
  unfold newTipSet
  rw [hsame]

/-- A tipset `NewTipSet` builds holds the sorted blocks. -/
lemma newTipSet_blks {sort : List BlockHeader → List BlockHeader} {blks : List BlockHeader}
    {ts : TipSet} (hts : newTipSet cidOf sort blks = .ok ts) : ts.blks = sort blks := by
  unfold newTipSet at hts
  rcases hs : sort blks with _ | ⟨b0, rest⟩
  · rw [hs] at hts
    cases hts
  · rw [hs] at hts
    cases hf : rest.foldlM (fun cids b => checkBlock cidOf b0 b cids) [cidOf b0] with
    | error e => simp [hf] at hts
    | ok cids =>
      simp only [hf, bind, Except.bind, pure, Except.pure, Except.ok.injEq] at hts
      rw [← hts]

/-- A block with the first block's height and parents passes, its CID joining the key. -/
lemma checkBlock_of_same {b0 b : BlockHeader} (hh : b.height = b0.height)
    (hp : b.parents = b0.parents) (cids : List Cid) :
    checkBlock cidOf b0 b cids = .ok (cids ++ [cidOf b]) := by
  have hzip : ∀ l : List Cid, (l.zip l).any (fun p => p.1 != p.2) = false := by
    intro l
    induction l with
    | nil => rfl
    | cons c l ih => simp [ih]
  simp [checkBlock, hh, hp, hzip]

/-- **`NewTipSet` accepts blocks that share the first block's height and parents**, its key the
sorted blocks' CIDs. -/
lemma newTipSet_of_same {sort : List BlockHeader → List BlockHeader} {blks : List BlockHeader}
    {b0 : BlockHeader} {rest : List BlockHeader} (hs : sort blks = b0 :: rest)
    (hsame : ∀ b ∈ rest, b.height = b0.height ∧ b.parents = b0.parents) :
    newTipSet cidOf sort blks = .ok ⟨(b0 :: rest).map cidOf, b0 :: rest, b0.height⟩ := by
  -- the loop appends each CID in turn
  have hloop : ∀ (l : List BlockHeader),
      (∀ b ∈ l, b.height = b0.height ∧ b.parents = b0.parents) → ∀ cids,
        l.foldlM (fun cids b => checkBlock cidOf b0 b cids) cids = .ok (cids ++ l.map cidOf) := by
    intro l hl
    induction l with
    | nil => simp [pure, Except.pure]
    | cons b l ih =>
      intro cids
      obtain ⟨hh, hp⟩ := hl b List.mem_cons_self
      rw [List.foldlM_cons, checkBlock_of_same cidOf hh hp]
      change l.foldlM _ (cids ++ [cidOf b]) = _
      rw [ih (fun b' hb' => hl b' (List.mem_cons_of_mem b hb')) (cids ++ [cidOf b])]
      simp
  unfold newTipSet
  rw [hs]
  simp only [hloop rest hsame, List.map_cons]
  rfl

/-- The scan of `MinTicketBlock` keeps a first block that no later block's ticket is below. -/
lemma foldl_min_eq (b0 : BlockHeader) :
    ∀ rest : List BlockHeader, (∀ b ∈ rest, ticketLess sum256 b.ticket b0.ticket = false) →
      rest.foldl (fun min b => if ticketLess sum256 b.ticket min.ticket then b else min) b0 = b0
  | [], _ => rfl
  | b :: rest, h => by
    rw [List.foldl_cons, if_neg (by rw [h b List.mem_cons_self]; decide)]
    exact foldl_min_eq b0 rest fun b' hb' => h b' (List.mem_cons_of_mem _ hb')

/-- No block of a sorted list has a smaller ticket than the first. -/
lemma ticketLess_head_eq_false {sort : List BlockHeader → List BlockHeader}
    (hsort : SortSlice.Sorts (tipsetSortFunc sum256 cidOf) sort) {blks : List BlockHeader}
    {b0 : BlockHeader} {rest : List BlockHeader} (hs : sort blks = b0 :: rest) :
    ∀ b ∈ rest, ticketLess sum256 b.ticket b0.ticket = false := by
  intro b hb
  have hpair := (hsort blks).2
  rw [hs, List.pairwise_cons] at hpair
  have hnot := hpair.1 b hb
  simp only [Bool.not_eq_true'] at hnot
  unfold tipsetSortFunc at hnot
  split_ifs at hnot with ht
  · rw [ht]
    exact ticketLess_irrefl sum256 _
  · exact hnot

/-- **`MinTicketBlock` is the first block** of every tipset `NewTipSet` builds. -/
lemma minTicketBlock_newTipSet {sort : List BlockHeader → List BlockHeader}
    (hsort : SortSlice.Sorts (tipsetSortFunc sum256 cidOf) sort) {blks : List BlockHeader}
    {ts : TipSet} (hts : newTipSet cidOf sort blks = .ok ts) :
    minTicketBlock sum256 ts = ts.blks.head? := by
  have hblks := newTipSet_blks cidOf hts
  rcases hs : sort blks with _ | ⟨b0, rest⟩
  · unfold newTipSet at hts
    rw [hs] at hts
    cases hts
  · rw [hs] at hblks
    rw [minTicketBlock, hblks]
    dsimp only
    rw [foldl_min_eq sum256 b0 rest (ticketLess_head_eq_false sum256 cidOf hsort hs), List.head?_cons]

/-- **A tipset's key and first block are canonical.**  For blocks with distinct CIDs whose VRF
proofs' digests differ when the proofs do, that `NewTipSet` accepts: every permutation of the
blocks gives the same tipset, with the same CIDs in the same order, and `MinTicketBlock` is its
first block. -/
theorem newTipSet_canonical {sort : List BlockHeader → List BlockHeader}
    (hsort : SortSlice.Sorts (tipsetSortFunc sum256 cidOf) sort) {blks : List BlockHeader}
    {ts : TipSet} (hcids : (blks.map cidOf).Nodup)
    (hdig : ∀ a ∈ blks, ∀ b ∈ blks,
      sum256 a.ticket.vrfProof = sum256 b.ticket.vrfProof → a.ticket = b.ticket)
    (hts : newTipSet cidOf sort blks = .ok ts) :
    (∀ blks', blks'.Perm blks → newTipSet cidOf sort blks' = .ok ts) ∧
      minTicketBlock sum256 ts = ts.blks.head? :=
  ⟨fun _ hperm => (newTipSet_perm sum256 cidOf hsort hcids hdig hperm).trans hts,
    minTicketBlock_newTipSet sum256 cidOf hsort hts⟩

/-! ## A sort for the blocks

With the identity for `blake2b` and a block's VRF proof for its CID, `tipsetSortFunc` compares VRF
proofs, and `List.insertionSort` meets the contract. -/

/-- A block's CID taken to be its VRF proof. -/
def vrfCid (b : BlockHeader) : Cid := b.ticket.vrfProof

lemma tipsetSortFunc_vrfCid (a b : BlockHeader) :
    tipsetSortFunc id vrfCid a b = decide (a.ticket.vrfProof < b.ticket.vrfProof) := by
  unfold tipsetSortFunc ticketLess
  split_ifs <;> rfl

/-- Sorting by VRF proof with `List.insertionSort`. -/
def sortByVrfProof (l : List BlockHeader) : List BlockHeader :=
  l.insertionSort fun a b => (!tipsetSortFunc id vrfCid b a) = true

theorem vrfProof_sorts : SortSlice.Sorts (tipsetSortFunc id vrfCid) sortByVrfProof := by
  refine SortSlice.insertionSort_sorts (fun a b c hba hcb => ?_) (fun a b => ?_)
  · rw [tipsetSortFunc_vrfCid] at hba hcb ⊢
    simp only [decide_eq_false_iff_not, List.not_lt] at hba hcb ⊢
    exact List.le_trans hba hcb
  · rw [tipsetSortFunc_vrfCid, tipsetSortFunc_vrfCid]
    by_cases h : a.ticket.vrfProof < b.ticket.vrfProof
    · exact Or.inr (decide_eq_false (List.lt_asymm h))
    · exact Or.inl (decide_eq_false h)

/-- Two blocks of height 5 on no parents, the one with the larger VRF proof first. -/
def twoBlocks : List BlockHeader :=
  [⟨Address.undef, ⟨[2]⟩, [], 5⟩, ⟨Address.undef, ⟨[1]⟩, [], 5⟩]

theorem newTipSet_canonical_twoBlocks :
    (∀ blks', blks'.Perm twoBlocks →
      newTipSet vrfCid sortByVrfProof blks' = .ok ⟨[[1], [2]], twoBlocks.reverse, 5⟩) ∧
      minTicketBlock id ⟨[[1], [2]], twoBlocks.reverse, 5⟩ = twoBlocks.reverse.head? :=
  newTipSet_canonical id vrfCid vrfProof_sorts (by decide) (by decide) rfl

end TipSet

end Lotus
