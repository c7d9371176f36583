import Lotus.Storage.WdpostRun
import Lotus.Lib.Bitfield
import Lotus.Lib.Chunks
import Lotus.Lib.Run
import Lotus.Lib.MapSum

/-!
# Generating window PoSts (`storage/wdpost_run.go`)

`runPoStCycle` proves a deadline: it draws the challenge randomness, splits the deadline's
partitions into batches that fit in one message (`batchPartitions`), and for each batch retries
until a proof is accepted or there is nothing left to prove.  A try takes, in each partition of
the batch, the sectors to prove (live, minus faulty, plus recovering), keeps those that
`checkSectors` finds provable and the prover has not skipped before, and lists the sector infos
of the partition for the prover (`sectorsForProof`): one for each of its sectors in ascending
order, a good sector's standing in for each sector that is not good.  When the prover fails and
names sectors it skipped, the next try leaves them out; when the randomness changed under it or
the proof does not verify, the next try starts over.

The node, the fault tracker, the prover and the verifier are the fields of `PoStCycleApi`.  The
fault tracker reads the disks and the prover may skip any sectors, so their answers may change
from call to call: each takes, besides the source's arguments, the batch and the try it is called
for (and the fault tracker the partition).  The same holds of the chain head and of a cancelled
context.  The miner's sectors on chain are a table whose infos are stored under their own numbers
(`SectorTable`); `StateMinerSectors` reads it for the sectors of a filter, in ascending order,
or fails.  The retry loop may run for ever, so it runs on fuel (`Run.loopFuel`), and `none` is a
batch still being retried, or the division by a zero batch size, where the source panics.

**Results.**  Every post `runPoStCycle` returns proves partitions of one batch, in increasing
order and under their index in the deadline; each skips exactly the sectors to prove that are
not good, good being what `checkSectors` passed at the accepted try minus every sector the
prover skipped at an earlier try; and the prover was given, partition by partition, one info per
sector in ascending order, the sector's own when it is good and a good sector's otherwise
(`runPoStCycle_posts`).  The batches are `⌈n / k⌉` slices of at most `k` partitions that join to
the deadline's list (`batchPartitions_batches`).
-/

namespace Lotus

namespace Storage

open Bitfield

/-- `api.Partition`, with the sector sets the prover reads. -/
structure Partition where
  allSectors : Finset ℕ
  faultySectors : Finset ℕ
  recoveringSectors : Finset ℕ
  liveSectors : Finset ℕ

/-- `proof.SectorInfo`. -/
structure SectorInfo where
  sectorNumber : ℕ
  sealedCID : ℕ
  sealProof : ℕ
  deriving DecidableEq

/-- `storage.SectorRef`: the sector's proof type, and its ID. -/
structure SectorRef where
  proofType : ℕ
  miner : ℕ
  number : ℕ

/-- The miner's sectors on chain at the tipset proved: each info is stored under its own number. -/
structure SectorTable where
  info : ℕ → Option SectorInfo
  info_number : ∀ {n i}, info n = some i → i.sectorNumber = n

/-- What `runPoStCycle` reads of the node, the fault tracker, the prover and the verifier. -/
structure PoStCycleApi where
  /-- `address.IDFromAddress(s.actor)`. -/
  minerID : Except String ℕ
  sectors : SectorTable
  /-- `StateMinerSectors` failing for a filter. -/
  loadSectorsErr : Finset ℕ → Option String
  /-- `CheckProvable` at a batch, try and partition: the numbers of the sectors found bad. -/
  checkProvable : ℕ → ℕ → ℕ → List SectorRef → Except String (Finset ℕ)
  /-- `ChainHead` before the batches (`none`) and after a try of a batch: the head's key. -/
  chainHead : Option (ℕ × ℕ) → Except String ℕ
  /-- `ChainGetRandomnessFromBeacon` at the deadline's challenge, drawn at a head. -/
  chainGetRandomnessFromBeacon : ℕ → Except String (List UInt8)
  stateMinerPartitions : Except String (List Partition)
  stateNetworkVersion : Except String ℕ
  getMaxPoStPartitions : ℕ → Except String ℕ
  getDeclarationsMax : ℕ → ℕ
  /-- `GenerateWindowPoSt` at a batch and try: the proofs, the skipped sectors and the error. -/
  generateWindowPoSt : ℕ → ℕ → ℕ → List SectorInfo → List UInt8 →
    List (List UInt8) × List ℕ × Option String
  /-- `VerifyWindowPoSt` of the proofs for the challenged sectors and the prover. -/
  verifyWindowPoSt : List UInt8 → List (List UInt8) → List SectorInfo → ℕ → Except String Bool
  /-- `ctx.Err()` after a failed try of a batch. -/
  ctxErr : ℕ → ℕ → Option String

namespace PoStCycleApi

/-- `StateMinerSectors` with a filter: the infos of the filter's sectors, in ascending order. -/
def stateMinerSectors (api : PoStCycleApi) (snos : Finset ℕ) : Except String (List SectorInfo) :=
  match api.loadSectorsErr snos with
  | some err => .error err
  | none => .ok ((ascending snos).filterMap api.sectors.info)

end PoStCycleApi

/-- The sectors a partition's proof covers: the live ones that are not faulty, and the recovering
ones. -/
def toProve (partition : Partition) : Finset ℕ :=
  partition.liveSectors \ partition.faultySectors ∪ partition.recoveringSectors

section Cycle

variable (api : PoStCycleApi)

/-- `checkSectors`: the sectors of `check` that the miner has on chain and the fault tracker does
not find bad, at the partition `partIdx` of try `retries` of batch `batchIdx`. -/
def checkSectors (batchIdx retries partIdx : ℕ) (check : Finset ℕ) : Except String (Finset ℕ) :=
  match api.minerID with
  | .error err => .error err
  | .ok mid =>
    match api.stateMinerSectors check with
    | .error err => .error err
    | .ok sectorInfos =>
      let tocheck := sectorInfos.map fun info => (⟨info.sealProof, mid, info.sectorNumber⟩ : SectorRef)
      match api.checkProvable batchIdx retries partIdx tocheck with
      | .error err => .error ("checking provable sectors: " ++ err)
      | .ok bad => .ok ((sectorInfos.map (·.sectorNumber)).toFinset \ bad)

/-- `sectorsForProof`: an info for each sector of `allSectors` in ascending order, the sector's
own if it is among the good sectors and the first good sector's otherwise; nothing if no good
sector is on chain. -/
def sectorsForProof (goodSectors allSectors : Finset ℕ) : Except String (List SectorInfo) :=
  match api.stateMinerSectors goodSectors with
  | .error err => .error err
  | .ok [] => .ok []
  | .ok (substitute :: rest) =>
    let sectorByID := (substitute :: rest).foldl (fun m sector => m.insert sector.sectorNumber sector)
      (∅ : AList fun _ : ℕ => SectorInfo)
    .ok ((ascending allSectors).map fun sectorNo => (sectorByID.lookup sectorNo).getD substitute)

/-- `batchPartitions`: the deadline's partitions in batches of at most `partitionsPerMsg`;
`none` is the panic of `len(partitions) / partitionsPerMsg` when that is zero. -/
def batchPartitions (partitions : List Partition) (nv : ℕ) :
    Option (Except String (List (List Partition))) :=
  match api.getMaxPoStPartitions nv with
  | .error err => some (.error ("getting sectors per partition: " ++ err))
  | .ok partitionsPerMsg =>
    let partitionsPerMsg := if partitionsPerMsg > api.getDeclarationsMax nv
      then api.getDeclarationsMax nv else partitionsPerMsg
    -- `batchCount` only sizes the slice of batches, but computing it divides by the batch size
    if hk : 0 < partitionsPerMsg then some (.ok (Chunks.slicesFrom partitions partitionsPerMsg hk 0))
    else none

variable (height : ℤ) (index : ℕ)

/-- The error of a failed randomness lookup; the source prints the whole deadline info with `%d`,
this prints its index. -/
def randomnessError (err : String) : String :=
  "failed to get chain randomness from beacon for window post (ts=" ++ toString height ++
    "; deadline=" ++ toString index ++ "): " ++ err

variable (batchIdx retries batchPartitionStartIdx : ℕ) (postSkipped : Finset ℕ)

/-- The body of `for partIdx, partition := range batch` in a try: the partitions to prove so far
and their sector infos, with the partition at `partIdx` added unless no good sector of it is on
chain. -/
def provePartition (acc : List PoStPartition × List SectorInfo) (partition : Partition)
    (partIdx : ℕ) : Except String (List PoStPartition × List SectorInfo) :=
  let toProve := toProve partition
  match checkSectors api batchIdx retries partIdx toProve with
  | .error err => .error ("checking sectors to skip: " ++ err)
  | .ok good =>
    let good := good \ postSkipped
    let skipped := toProve \ good
    match sectorsForProof api good partition.allSectors with
    | .error err => .error ("getting sorted sector info: " ++ err)
    | .ok ssi =>
      if ssi.isEmpty then .ok acc
      else .ok (acc.1 ++ [⟨batchPartitionStartIdx + partIdx, skipped⟩], acc.2 ++ ssi)

/-- The partitions of `batch` that try `retries` proves, and the sector infos to prove them. -/
def collectPartitions (batch : List Partition) :
    Except String (List PoStPartition × List SectorInfo) :=
  batch.zipIdx.foldlM (fun acc x =>
    provePartition api batchIdx retries batchPartitionStartIdx postSkipped acc x.1 x.2) ([], [])

end Cycle

/-- The state of a batch's retry loop: the try, and the sectors the prover has skipped so far. -/
structure TryState where
  retries : ℕ
  postSkipped : Finset ℕ

section Retry

variable (api : PoStCycleApi) (height : ℤ) (index : ℕ) (rand : List UInt8)
  (batchIdx batchPartitionStartIdx : ℕ) (batch : List Partition)

/-- A try whose proof came back: it is accepted if the randomness is still the one drawn and the
proof verifies, and the loop tries again otherwise. -/
def checkProof (st : TryState) (partitions : List PoStPartition) (sinfos : List SectorInfo)
    (mid : ℕ) (postOut : List (List UInt8)) :
    TryState ⊕ Except String (Option (List PoStPartition × List (List UInt8))) :=
  if postOut.isEmpty then .inr (.error "received no proofs back from generate window post")
  else
    match api.chainHead (some (batchIdx, st.retries)) with
    | .error err => .inr (.error ("getting current head: " ++ err))
    | .ok headTs =>
      match api.chainGetRandomnessFromBeacon headTs with
      | .error err => .inr (.error (randomnessError height index err))
      | .ok checkRand =>
        -- windowpost randomness changed
        if checkRand ≠ rand then .inl ⟨st.retries + 1, st.postSkipped⟩
        else
          match api.verifyWindowPoSt checkRand postOut sinfos mid with
          | .ok true => .inr (.ok (some (partitions, postOut)))
          -- the verification failed, or the proof is incorrect
          | _ => .inl ⟨st.retries + 1, st.postSkipped⟩

/-- One pass of the retry loop of batch `batchIdx`: on to the next try, or out of the loop with
the partitions proved and their proofs, with nothing to prove (`none`), or with an error. -/
def tryBatch (st : TryState) :
    TryState ⊕ Except String (Option (List PoStPartition × List (List UInt8))) :=
  match collectPartitions api batchIdx st.retries batchPartitionStartIdx st.postSkipped batch with
  | .error err => .inr (.error err)
  | .ok (partitions, sinfos) =>
    -- nothing to prove for this batch
    if sinfos.isEmpty then .inr (.ok none)
    else
      match api.minerID with
      | .error err => .inr (.error err)
      | .ok mid =>
        match api.generateWindowPoSt batchIdx st.retries mid sinfos rand with
        | (postOut, _, none) =>
          checkProof api height index rand batchIdx st partitions sinfos mid postOut
        | (_, ps, some err) =>
          -- if the prover skipped no new sectors, it failed for some other reason
          if ps.isEmpty then .inr (.error ("running window post failed: " ++ err))
          else
            match api.ctxErr batchIdx st.retries with
            | some err => .inr (.error err)
            | none => .inl ⟨st.retries + 1, st.postSkipped ∪ ps.toFinset⟩

/-- The retry loop of a batch, for at most `fuel` tries. -/
def proveBatch (fuel : ℕ) :
    Option (Except String (Option (List PoStPartition × List (List UInt8)))) :=
  Run.loopFuel (tryBatch api height index rand batchIdx batchPartitionStartIdx batch) fuel ⟨0, ∅⟩

/-- The sectors the prover names as skipped when it fails at try `st`: what the loop leaves out
of the tries after it. -/
def proverSkipped (st : TryState) : Finset ℕ :=
  match collectPartitions api batchIdx st.retries batchPartitionStartIdx st.postSkipped batch,
    api.minerID with
  | .ok (_, sinfos), .ok mid =>
    match api.generateWindowPoSt batchIdx st.retries mid sinfos rand with
    | (_, ps, some _) => ps.toFinset
    | (_, _, none) => ∅
  | _, _ => ∅

end Retry

section Batches

variable (api : PoStCycleApi) (height : ℤ) (index : ℕ) (rand : List UInt8) (fuel : ℕ)
  (partitionBatches : List (List Partition))

/-- `for batchIdx, batch := range partitionBatches`, from the batches of `todo` on: the params of
every batch that proved something, in order. -/
def proveBatches : List (List Partition × ℕ) → Option (Except String (List SubmitWindowedPoStParams))
  | [] => some (.ok [])
  | (batch, batchIdx) :: todo =>
    let batchPartitionStartIdx := ((partitionBatches.take batchIdx).map List.length).sum
    match proveBatch api height index rand batchIdx batchPartitionStartIdx batch fuel with
    | none => none
    | some (.error err) => some (.error err)
    -- nothing to prove for this batch, try the next batch
    | some (.ok none) => proveBatches todo
    | some (.ok (some (partitions, proofs))) =>
      (proveBatches todo).map fun r => r.map (⟨index, partitions, proofs, 0, []⟩ :: ·)

end Batches

/-- `runPoStCycle` at a tipset of height `height` for the deadline `index`, each batch retried
at most `fuel` times. -/
def runPoStCycle (api : PoStCycleApi) (height : ℤ) (index fuel : ℕ) :
    Option (Except String (List SubmitWindowedPoStParams)) :=
  match api.chainHead none with
  | .error err => some (.error ("getting current head: " ++ err))
  | .ok headTs =>
    match api.chainGetRandomnessFromBeacon headTs with
    | .error err => some (.error (randomnessError height index err))
    | .ok rand =>
      match api.stateMinerPartitions with
      | .error err => some (.error ("getting partitions: " ++ err))
      | .ok partitions =>
        match api.stateNetworkVersion with
        | .error err => some (.error ("getting network version: " ++ err))
        | .ok nv =>
          match batchPartitions api partitions nv with
          | none => none
          | some (.error err) => some (.error err)
          | some (.ok partitionBatches) =>
            proveBatches api height index rand fuel partitionBatches partitionBatches.zipIdx

/-! ## Reading the sectors -/

namespace PoStCycleApi

/-- `StateMinerSectors` reads each sector of the filter that is on chain, under its own number. -/
theorem mem_stateMinerSectors {api : PoStCycleApi} {snos : Finset ℕ} {sset : List SectorInfo}
    (h : api.stateMinerSectors snos = .ok sset) {si : SectorInfo} :
    si ∈ sset ↔ si.sectorNumber ∈ snos ∧ api.sectors.info si.sectorNumber = some si := by
  unfold stateMinerSectors at h
  split at h
  · cases h
  · cases h
    simp only [List.mem_filterMap, mem_ascending]
    constructor
    · rintro ⟨n, hn, hinfo⟩
      rw [api.sectors.info_number hinfo]
      exact ⟨hn, hinfo⟩
    · rintro ⟨hn, hinfo⟩
      exact ⟨_, hn, hinfo⟩

end PoStCycleApi

section Spec

variable (api : PoStCycleApi)

/-- What `checkSectors` passes is in the set checked, and on chain. -/
theorem checkSectors_good {batchIdx retries partIdx : ℕ} {check good : Finset ℕ}
    (h : checkSectors api batchIdx retries partIdx check = .ok good) :
    ∀ n ∈ good, n ∈ check ∧ (api.sectors.info n).isSome := by
  unfold checkSectors at h
  split at h
  · cases h
  · split at h
    · cases h
    · rename_i sectorInfos hsectors
      dsimp only at h
      split at h
      · cases h
      · cases h
        intro n hn
        simp only [Finset.mem_sdiff, List.mem_toFinset, List.mem_map] at hn
        obtain ⟨⟨si, hsi, rfl⟩, -⟩ := hn
        obtain ⟨hin, hinfo⟩ := (PoStCycleApi.mem_stateMinerSectors hsectors).1 hsi
        exact ⟨hin, by rw [hinfo]; rfl⟩

/-- The info that stands for sector `n` in a proof whose good sectors are `good`: the sector's
own when it is good, and a good sector's otherwise. -/
def ProofSector (t : SectorTable) (good : Finset ℕ) (n : ℕ) (si : SectorInfo) : Prop :=
  (n ∈ good → t.info n = some si) ∧
    (n ∉ good → si.sectorNumber ∈ good ∧ t.info si.sectorNumber = some si)

/-- **`sectorsForProof` pads with a good sector.**  When the good sectors are on chain and the
list is not empty, some sector is good, and the list has one info for each sector in ascending
order: the sector's own when it is good, and a good sector's otherwise. -/
theorem sectorsForProof_spec {good allSectors : Finset ℕ} {ssi : List SectorInfo}
    (hgood : ∀ n ∈ good, (api.sectors.info n).isSome)
    (h : sectorsForProof api good allSectors = .ok ssi) (hne : ssi ≠ []) :
    good.Nonempty ∧ List.Forall₂ (ProofSector api.sectors good) (ascending allSectors) ssi := by
  unfold sectorsForProof at h
  split at h
  · cases h
  · cases h
    exact absurd rfl hne
  · rename_i substitute rest hsset
    cases h
    have hmem : ∀ {si}, si ∈ substitute :: rest ↔
        si.sectorNumber ∈ good ∧ api.sectors.info si.sectorNumber = some si :=
      PoStCycleApi.mem_stateMinerSectors hsset
    -- an info is stored under its own number, so the map keeps one info per number
    have hinj : ∀ x ∈ substitute :: rest, ∀ y ∈ substitute :: rest,
        x.sectorNumber = y.sectorNumber → x = y := by
      intro x hx y hy hxy
      have hx' := (hmem.1 hx).2
      rw [hxy, (hmem.1 hy).2] at hx'
      exact Option.some.inj hx'.symm
    have hsub := hmem.1 List.mem_cons_self
    refine ⟨⟨_, hsub.1⟩, ?_⟩
    rw [List.forall₂_map_right_iff, List.forall₂_same]
    intro n _
    have hlookup := AList.lookup_foldl_insert SectorInfo.sectorNumber (substitute :: rest) ∅ hinj n
    by_cases hn : n ∈ good
    · obtain ⟨si, hsi⟩ := Option.isSome_iff_exists.1 (hgood n hn)
      have hnum := api.sectors.info_number hsi
      have hsi_mem : si ∈ substitute :: rest := hmem.2 ⟨hnum ▸ hn, hnum ▸ hsi⟩
      rw [(hlookup si).2 (.inl ⟨hsi_mem, hnum⟩), Option.getD_some]
      exact ⟨fun _ => hsi, fun h => absurd hn h⟩
    · -- no good sector has the number `n`: the substitute stands for it
      have hnone : ∀ b, ((substitute :: rest).foldl (fun m sector => m.insert sector.sectorNumber sector)
          (∅ : AList fun _ : ℕ => SectorInfo)).lookup n ≠ some b := by
        intro b hb
        rcases (hlookup b).1 hb with ⟨hbmem, rfl⟩ | ⟨-, hempty⟩
        · exact hn (hmem.1 hbmem).1
        · simp at hempty
      rw [Option.eq_none_iff_forall_ne_some.2 hnone, Option.getD_none]
      exact ⟨fun h => absurd h hn, fun _ => hsub⟩

/-! ## One try -/

/-- What a try proves of a partition of the deadline: `q` names partition `q.index` of
`partitions`, in the batch that starts at `start` and holds `len` partitions; it skips the sectors
to prove that are not good, good being what `checkSectors` passed at the try less `postSkipped`,
of which there is one at least; and `ssi` has an info for each of the partition's sectors in
ascending order, the sector's own when it is good and a good sector's otherwise. -/
def ProvedPartition (partitions : List Partition) (batchIdx retries start len : ℕ)
    (postSkipped : Finset ℕ) (q : PoStPartition) (ssi : List SectorInfo) : Prop :=
  start ≤ q.index ∧ q.index < start + len ∧
    ∃ p, partitions[q.index]? = some p ∧
      ∃ checked, checkSectors api batchIdx retries (q.index - start) (toProve p) = .ok checked ∧
        q.skipped = toProve p \ (checked \ postSkipped) ∧ (checked \ postSkipped).Nonempty ∧
        List.Forall₂ (ProofSector api.sectors (checked \ postSkipped)) (ascending p.allSectors) ssi

/-- What a try has collected after the first `m` partitions of the batch: partitions in
increasing order and below `start + m`, each proved with the block of infos it added. -/
structure Collected (partitions : List Partition) (batchIdx retries start len : ℕ)
    (postSkipped : Finset ℕ) (m : ℕ) (acc : List PoStPartition × List SectorInfo) : Prop where
  sorted : (acc.1.map PoStPartition.index).Pairwise (· < ·)
  lt : ∀ q ∈ acc.1, q.index < start + m
  blocks : ∃ blocks, acc.2 = blocks.flatten ∧
    List.Forall₂ (ProvedPartition api partitions batchIdx retries start len postSkipped) acc.1 blocks

variable {api} {partitions batch : List Partition} {batchIdx retries start : ℕ}
  {postSkipped : Finset ℕ}

/-- One partition of the batch keeps what the try has collected. -/
theorem provePartition_collected
    (hbatch : ∀ j (hj : j < batch.length), partitions[start + j]? = some batch[j]) {m : ℕ}
    (hm : m < batch.length) {acc acc' : List PoStPartition × List SectorInfo}
    (hacc : Collected api partitions batchIdx retries start batch.length postSkipped m acc)
    (h : provePartition api batchIdx retries start postSkipped acc batch[m] m = .ok acc') :
    Collected api partitions batchIdx retries start batch.length postSkipped (m + 1) acc' := by
  unfold provePartition at h
  dsimp only at h
  split at h
  · cases h
  · rename_i checked hchecked
    split at h
    · cases h
    · rename_i ssi hssi
      split at h
      · -- no good sector of the partition is on chain: it is left out
        cases h
        exact ⟨hacc.sorted, fun q hq => Nat.lt_succ_of_lt (hacc.lt q hq), hacc.blocks⟩
      · rename_i hne
        cases h
        have hgood : ∀ n ∈ checked \ postSkipped, (api.sectors.info n).isSome :=
          fun n hn => (checkSectors_good api hchecked n (Finset.mem_sdiff.1 hn).1).2
        obtain ⟨hnon, hfor⟩ :=
          sectorsForProof_spec api hgood hssi (fun h => hne (List.isEmpty_iff.2 h))
        obtain ⟨blocks, hflat, hblocks⟩ := hacc.blocks
        have hnew : ProvedPartition api partitions batchIdx retries start batch.length postSkipped
            ⟨start + m, toProve batch[m] \ (checked \ postSkipped)⟩ ssi := by
          refine ⟨Nat.le_add_right _ _, Nat.add_lt_add_left hm _, batch[m], hbatch m hm, checked, ?_,
            rfl, hnon, hfor⟩
          rwa [Nat.add_sub_cancel_left]
        refine ⟨?_, ?_, blocks ++ [ssi], ?_, List.rel_append hblocks (.cons hnew .nil)⟩
        · -- the new index is above every index collected so far
          rw [List.map_append, List.pairwise_append]
          refine ⟨hacc.sorted, List.pairwise_singleton _ _, ?_⟩
          intro a ha b hb
          rw [List.map_cons, List.map_nil, List.mem_singleton] at hb
          obtain ⟨q, hq, rfl⟩ := List.mem_map.1 ha
          rw [hb]
          exact hacc.lt q hq
        · intro q hq
          rcases List.mem_append.1 hq with hq | hq
          · exact Nat.lt_succ_of_lt (hacc.lt q hq)
          · rw [List.mem_singleton.1 hq]
            exact Nat.add_lt_add_left (Nat.lt_succ_self m) _
        · rw [hflat, List.flatten_append, List.flatten_singleton]

/-- **One try.**  The partitions a try collects are in increasing order, each proved with its
block of the sector infos collected. -/
theorem collectPartitions_spec
    (hbatch : ∀ j (hj : j < batch.length), partitions[start + j]? = some batch[j])
    {parts : List PoStPartition} {sinfos : List SectorInfo}
    (h : collectPartitions api batchIdx retries start postSkipped batch = .ok (parts, sinfos)) :
    (parts.map PoStPartition.index).Pairwise (· < ·) ∧ ∃ blocks, sinfos = blocks.flatten ∧
      List.Forall₂ (ProvedPartition api partitions batchIdx retries start batch.length postSkipped)
        parts blocks := by
  have hinit : Collected api partitions batchIdx retries start batch.length postSkipped 0
      ([], []) := ⟨List.Pairwise.nil, (fun _ h => by cases h), ⟨[], rfl, .nil⟩⟩
  have hc := Run.foldlM_zipIdx_invariant
    (I := Collected api partitions batchIdx retries start batch.length postSkipped)
    batch 0 (fun i hi s s' hs hf => by
      rw [Nat.zero_add] at hs hf ⊢
      exact provePartition_collected hbatch hi hs hf) hinit h
  exact ⟨hc.sorted, hc.blocks⟩

end Spec

/-! ## The retry loop -/

section RetrySpec

variable (api : PoStCycleApi) (height : ℤ) (index : ℕ) (rand : List UInt8)
  (batchIdx start : ℕ) (batch : List Partition)

/-- A proof that came back and is not accepted leads to the next try, with nothing more left
out. -/
theorem checkProof_eq_inl {st st' : TryState} {partitions : List PoStPartition}
    {sinfos : List SectorInfo} {mid : ℕ} {postOut : List (List UInt8)}
    (h : checkProof api height index rand batchIdx st partitions sinfos mid postOut = .inl st') :
    st' = ⟨st.retries + 1, st.postSkipped⟩ := by
  unfold checkProof at h
  repeat' split at h
  all_goals (cases h <;> rfl)

/-- A proof that came back is accepted only with the randomness drawn, and once it verifies. -/
theorem checkProof_eq_proved {st : TryState} {partitions parts : List PoStPartition}
    {sinfos : List SectorInfo} {mid : ℕ} {postOut proofs : List (List UInt8)}
    (h : checkProof api height index rand batchIdx st partitions sinfos mid postOut =
      .inr (.ok (some (parts, proofs)))) :
    parts = partitions ∧ proofs = postOut ∧ api.verifyWindowPoSt rand postOut sinfos mid = .ok true := by
  unfold checkProof at h
  split at h
  · cases h
  · split at h
    · cases h
    · split at h
      · cases h
      · rename_i checkRand hrand
        split at h
        · cases h
        · rename_i hsame
          split at h
          · rename_i hverify
            cases h
            rw [not_not] at hsame
            exact ⟨rfl, rfl, hsame ▸ hverify⟩
          · cases h

/-- **A try that goes on** is the next try, leaving out besides what it left out the sectors the
prover named as skipped at it. -/
theorem tryBatch_eq_inl {st st' : TryState}
    (h : tryBatch api height index rand batchIdx start batch st = .inl st') :
    st'.retries = st.retries + 1 ∧
      st'.postSkipped = st.postSkipped ∪ proverSkipped api rand batchIdx start batch st := by
  unfold tryBatch at h
  unfold proverSkipped
  split at h
  · cases h
  · rename_i partitions sinfos hcollect
    split at h
    · cases h
    · split at h
      · cases h
      · rename_i mid hmid
        split at h
        · -- the proof came back and was not accepted; the prover skipped nothing
          rename_i hgen
          rw [checkProof_eq_inl api height index rand batchIdx h]
          simp [hcollect, hmid, hgen]
        · rename_i hgen
          split at h
          · cases h
          · split at h
            · cases h
            · cases h
              simp [hcollect, hmid, hgen]

/-- **The accepted try**: the partitions it collected, the proofs the prover gave for their
sector infos, verified with the randomness drawn. -/
theorem tryBatch_eq_proved {st : TryState} {parts : List PoStPartition}
    {proofs : List (List UInt8)}
    (h : tryBatch api height index rand batchIdx start batch st = .inr (.ok (some (parts, proofs)))) :
    ∃ sinfos mid ps,
      collectPartitions api batchIdx st.retries start st.postSkipped batch = .ok (parts, sinfos) ∧
      api.minerID = .ok mid ∧
      api.generateWindowPoSt batchIdx st.retries mid sinfos rand = (proofs, ps, none) ∧
      api.verifyWindowPoSt rand proofs sinfos mid = .ok true := by
  unfold tryBatch at h
  split at h
  · cases h
  · rename_i partitions sinfos hcollect
    split at h
    · cases h
    · split at h
      · cases h
      · rename_i mid hmid
        split at h
        · rename_i postOut ps hgen
          obtain ⟨rfl, rfl, hverify⟩ := checkProof_eq_proved api height index rand batchIdx h
          exact ⟨sinfos, mid, ps, hcollect, hmid, hgen, hverify⟩
        · split at h
          · cases h
          · split at h
            · cases h
            · cases h

/-- **What the retry loop leaves out.**  At every try the loop reaches, `postSkipped` is exactly
the set of sectors the prover named as skipped at the tries before it. -/
theorem postSkipped_passes {st : TryState}
    (h : Run.Passes (tryBatch api height index rand batchIdx start batch) ⟨0, ∅⟩ st) (n : ℕ) :
    n ∈ st.postSkipped ↔ ∃ st', Run.Passes (tryBatch api height index rand batchIdx start batch)
      ⟨0, ∅⟩ st' ∧ st'.retries < st.retries ∧ n ∈ proverSkipped api rand batchIdx start batch st' := by
  have hcount : ∀ s s', tryBatch api height index rand batchIdx start batch s = .inl s' →
      s'.retries = s.retries + 1 := fun s s' hs => (tryBatch_eq_inl api height index rand batchIdx
        start batch hs).1
  induction h with
  | refl =>
    simp only [Finset.notMem_empty, Nat.not_lt_zero, false_and, and_false, exists_false]
  | @tail a b hab hb ih =>
    obtain ⟨hr, hps⟩ := tryBatch_eq_inl api height index rand batchIdx start batch hb
    rw [hps, Finset.mem_union, hr]
    constructor
    · rintro (hn | hn)
      · obtain ⟨st', h', hlt, hn⟩ := ih.1 hn
        exact ⟨st', h', Nat.lt_succ_of_lt hlt, hn⟩
      · exact ⟨a, hab, Nat.lt_succ_self _, hn⟩
    · rintro ⟨st', h', hlt, hn⟩
      rcases Nat.lt_succ_iff_lt_or_eq.1 hlt with hlt | heq
      · exact .inl (ih.2 ⟨st', h', hlt, hn⟩)
      · -- the try before `b` with the same count is `a`
        rw [← Run.Passes.eq_of_count hcount h' hab heq]
        exact .inr hn

end RetrySpec

/-! ## The batches -/

/-- `batchPartitions` slices the partitions into `⌈n / k⌉` batches of one to `k` partitions that
join to the list, `k` the smaller of `GetMaxPoStPartitions` and `GetDeclarationsMax`. -/
theorem batchPartitions_batches (api : PoStCycleApi) {partitions : List Partition} {nv : ℕ}
    {partitionBatches : List (List Partition)}
    (h : batchPartitions api partitions nv = some (.ok partitionBatches)) :
    ∃ maxParts, api.getMaxPoStPartitions nv = .ok maxParts ∧
      Chunks.Batches partitions (min maxParts (api.getDeclarationsMax nv)) partitionBatches := by
  unfold batchPartitions at h
  split at h
  · cases h
  · rename_i maxParts hmax
    dsimp only at h
    -- the source's clamp is the smaller of the two bounds
    have hmin : (if maxParts > api.getDeclarationsMax nv then api.getDeclarationsMax nv
        else maxParts) = min maxParts (api.getDeclarationsMax nv) := by
      split <;> omega
    generalize (if maxParts > api.getDeclarationsMax nv then api.getDeclarationsMax nv
      else maxParts) = k at h hmin
    split at h
    · rename_i hk
      cases h
      exact ⟨maxParts, hmax, hmin ▸ Chunks.batches_slicesFrom partitions k hk⟩
    · cases h

section BatchesSpec

variable (api : PoStCycleApi) (height : ℤ) (index : ℕ) (rand : List UInt8) (fuel : ℕ)
  (partitionBatches : List (List Partition))

/-- Each post of the batch loop is the partitions and proofs of a batch's accepted try. -/
theorem proveBatches_mem :
    ∀ (todo : List (List Partition × ℕ)) {posts : List SubmitWindowedPoStParams},
      proveBatches api height index rand fuel partitionBatches todo = some (.ok posts) →
      ∀ P ∈ posts, ∃ x ∈ todo, ∃ parts proofs, P = ⟨index, parts, proofs, 0, []⟩ ∧
        proveBatch api height index rand x.2 ((partitionBatches.take x.2).map List.length).sum x.1
          fuel = some (.ok (some (parts, proofs)))
  | [], posts, h => by
    cases h
    intro P hP
    cases hP
  | (batch, batchIdx) :: todo, posts, h => by
    unfold proveBatches at h
    dsimp only at h
    split at h
    · cases h
    · cases h
    · -- nothing to prove for this batch
      intro P hP
      obtain ⟨x, hx, hP⟩ := proveBatches_mem todo h P hP
      exact ⟨x, List.mem_cons_of_mem _ hx, hP⟩
    · rename_i parts proofs hbatch
      obtain ⟨r, hr, hmap⟩ := Option.map_eq_some_iff.1 h
      obtain ⟨posts', rfl, rfl⟩ := Run.map_eq_ok_iff.1 hmap
      intro P hP
      rcases List.mem_cons.1 hP with rfl | hP
      · exact ⟨(batch, batchIdx), List.mem_cons_self, parts, proofs, rfl, hbatch⟩
      · obtain ⟨x, hx, hP⟩ := proveBatches_mem todo hr P hP
        exact ⟨x, List.mem_cons_of_mem _ hx, hP⟩

end BatchesSpec

/-- `runPoStCycle` returns posts only after drawing the randomness, reading the partitions and
the network version, and batching the partitions; the posts are then those of the batch loop. -/
theorem runPoStCycle_eq_ok {api : PoStCycleApi} {height : ℤ} {index fuel : ℕ}
    {posts : List SubmitWindowedPoStParams} (h : runPoStCycle api height index fuel = some (.ok posts)) :
    ∃ headTs rand partitions nv partitionBatches, api.chainHead none = .ok headTs ∧
      api.chainGetRandomnessFromBeacon headTs = .ok rand ∧
      api.stateMinerPartitions = .ok partitions ∧ api.stateNetworkVersion = .ok nv ∧
      batchPartitions api partitions nv = some (.ok partitionBatches) ∧
      proveBatches api height index rand fuel partitionBatches partitionBatches.zipIdx =
        some (.ok posts) := by
  unfold runPoStCycle at h
  split at h
  · cases h
  · rename_i headTs hhead
    split at h
    · cases h
    · rename_i rand hrand
      split at h
      · cases h
      · rename_i partitions hparts
        split at h
        · cases h
        · rename_i nv hnv
          split at h
          · cases h
          · cases h
          · rename_i partitionBatches hbatches
            exact ⟨headTs, rand, partitions, nv, partitionBatches, hhead, hrand, hparts, hnv, hbatches, h⟩

/-- What a post of the cycle proves: partitions of batch `batchIdx` of the deadline, at a try `st`
the batch's retry loop reaches, whose `postSkipped` is every sector the prover named as skipped at
the tries before; in increasing order, each proved with its block of the sector infos the prover
was given at that try (`ProvedPartition`); and its proofs are what the prover returned for them,
verified with the randomness drawn. -/
def ProvedPost (api : PoStCycleApi) (height : ℤ) (index : ℕ) (rand : List UInt8)
    (partitions : List Partition) (partitionBatches : List (List Partition))
    (P : SubmitWindowedPoStParams) : Prop :=
  P.deadline = index ∧
    ∃ batchIdx batch start, partitionBatches[batchIdx]? = some batch ∧
      start = ((partitionBatches.take batchIdx).map List.length).sum ∧
      ∃ st : TryState, Run.Passes (tryBatch api height index rand batchIdx start batch) ⟨0, ∅⟩ st ∧
        (∀ n, n ∈ st.postSkipped ↔ ∃ st', Run.Passes (tryBatch api height index rand batchIdx start
          batch) ⟨0, ∅⟩ st' ∧ st'.retries < st.retries ∧
          n ∈ proverSkipped api rand batchIdx start batch st') ∧
        (P.partitions.map PoStPartition.index).Pairwise (· < ·) ∧
        ∃ mid sinfos blocks ps, api.minerID = .ok mid ∧
          api.generateWindowPoSt batchIdx st.retries mid sinfos rand = (P.proofs, ps, none) ∧
          api.verifyWindowPoSt rand P.proofs sinfos mid = .ok true ∧
          sinfos = blocks.flatten ∧
          List.Forall₂ (ProvedPartition api partitions batchIdx st.retries start batch.length
            st.postSkipped) P.partitions blocks

/-- **The posts of a cycle.**  When `runPoStCycle` returns posts, it batched the deadline's
partitions into `⌈n / k⌉` batches of one to `k` partitions joining to the list, `k` the smaller
of `GetMaxPoStPartitions` and `GetDeclarationsMax`, and each post is what a batch's accepted try
proves (`ProvedPost`). -/
theorem runPoStCycle_posts (api : PoStCycleApi) (height : ℤ) (index fuel : ℕ)
    {posts : List SubmitWindowedPoStParams}
    (h : runPoStCycle api height index fuel = some (.ok posts)) :
    ∃ rand partitions nv maxParts partitionBatches,
      (∃ headTs, api.chainHead none = .ok headTs ∧
        api.chainGetRandomnessFromBeacon headTs = .ok rand) ∧
      api.stateMinerPartitions = .ok partitions ∧ api.stateNetworkVersion = .ok nv ∧
      api.getMaxPoStPartitions nv = .ok maxParts ∧
      batchPartitions api partitions nv = some (.ok partitionBatches) ∧
      Chunks.Batches partitions (min maxParts (api.getDeclarationsMax nv)) partitionBatches ∧
      ∀ P ∈ posts, ProvedPost api height index rand partitions partitionBatches P := by
  obtain ⟨headTs, rand, partitions, nv, partitionBatches, hhead, hrand, hparts, hnv, hbatches,
    hposts⟩ := runPoStCycle_eq_ok h
  obtain ⟨maxParts, hmax, hB⟩ := batchPartitions_batches api hbatches
  refine ⟨rand, partitions, nv, maxParts, partitionBatches, ⟨headTs, hhead, hrand⟩, hparts, hnv,
    hmax, hbatches, hB, ?_⟩
  intro P hP
  obtain ⟨⟨batch, batchIdx⟩, hx, parts, proofs, rfl, hprove⟩ :=
    proveBatches_mem api height index rand fuel partitionBatches _ hposts P hP
  have hget : partitionBatches[batchIdx]? = some batch := List.mem_zipIdx_iff_getElem?.1 hx
  generalize hstart : ((partitionBatches.take batchIdx).map List.length).sum = start at hprove
  -- the accepted try of the batch
  obtain ⟨st, hst, htry⟩ := Run.loopFuel_eq_some _ fuel _ hprove
  obtain ⟨sinfos, mid, ps, hcollect, hmid, hgen, hverify⟩ :=
    tryBatch_eq_proved api height index rand batchIdx start batch htry
  -- the batch's partitions stand from `start` on in the deadline's list
  have hbatch : ∀ j (hj : j < batch.length), partitions[start + j]? = some batch[j] := by
    intro j hj
    rw [← hB.flatten_eq, ← hstart, Chunks.getElem?_flatten_sum hget hj, List.getElem?_eq_getElem hj]
  obtain ⟨hsorted, blocks, hflat, hblocks⟩ := collectPartitions_spec hbatch hcollect
  exact ⟨rfl, batchIdx, batch, start, hget, hstart.symm, st, hst,
    postSkipped_passes api height index rand batchIdx start batch hst, hsorted, mid, sinfos, blocks,
    ps, hmid, hgen, hverify, hflat, hblocks⟩

/-- Sectors `1` to `3` on chain. -/
def threeSectors : SectorTable where
  info n := if 1 ≤ n ∧ n ≤ 3 then some ⟨n, 100 + n, 8⟩ else none
  info_number {n i} h := by
    split at h
    · cases h
      rfl
    · cases h

/-- A deadline of one partition of sectors `1` to `3`, `3` faulty: the prover skips sector `2`
at the first try and proves the rest at the second. -/
def skipOnceApi : PoStCycleApi where
  minerID := .ok 1000
  sectors := threeSectors
  loadSectorsErr _ := none
  checkProvable _ _ _ _ := .ok ∅
  chainHead _ := .ok 0
  chainGetRandomnessFromBeacon _ := .ok [1, 2, 3]
  stateMinerPartitions := .ok [⟨{1, 2, 3}, {3}, ∅, {1, 2, 3}⟩]
  stateNetworkVersion := .ok 13
  getMaxPoStPartitions _ := .ok 4
  getDeclarationsMax _ := 3000
  generateWindowPoSt _ retries _ _ _ :=
    if retries = 0 then ([], [2], some "sector 2 not readable") else ([[7]], [], none)
  verifyWindowPoSt _ _ _ _ := .ok true
  ctxErr _ _ := none

/-- The cycle of `skipOnceApi` returns one post, of partition `0` skipping sector `2`. -/
theorem runPoStCycle_posts_skipOnce :
    runPoStCycle skipOnceApi 100 5 3 = some (.ok [⟨5, [⟨0, {2}⟩], [[7]], 0, []⟩]) ∧
      ∃ rand partitions nv maxParts partitionBatches,
        (∃ headTs, skipOnceApi.chainHead none = .ok headTs ∧
          skipOnceApi.chainGetRandomnessFromBeacon headTs = .ok rand) ∧
        skipOnceApi.stateMinerPartitions = .ok partitions ∧
        skipOnceApi.stateNetworkVersion = .ok nv ∧
        skipOnceApi.getMaxPoStPartitions nv = .ok maxParts ∧
        batchPartitions skipOnceApi partitions nv = some (.ok partitionBatches) ∧
        Chunks.Batches partitions (min maxParts (skipOnceApi.getDeclarationsMax nv))
          partitionBatches ∧
        ∀ P ∈ [(⟨5, [⟨0, {2}⟩], [[7]], 0, []⟩ : SubmitWindowedPoStParams)],
          ProvedPost skipOnceApi 100 5 rand partitions partitionBatches P := by
  have h : runPoStCycle skipOnceApi 100 5 3 = some (.ok [⟨5, [⟨0, {2}⟩], [[7]], 0, []⟩]) := by
    decide +kernel
  exact ⟨h, runPoStCycle_posts skipOnceApi 100 5 3 h⟩

end Storage

end Lotus
