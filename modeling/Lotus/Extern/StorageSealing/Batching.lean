import Lotus.Lib.MapSum
import Lotus.Lib.Run

/-!
# Batching commit and pre-commit messages (`commit_batch.go`, `precommit_batch.go`)

A `CommitBatcher` and a `PreCommitBatcher` keep three maps keyed by sector number: the sector's
cutoff, its entry to send (`todo`), and the channels its `AddCommit` or `AddPreCommit` calls wait
on (`waiting`).  `maybeStartBatch` sends messages for the sectors in `todo`, in one aggregate
message or one message a sector, and then settles every sector of every result: the result goes
to each channel waiting on the sector, and the sector leaves the three maps.

**The shared state.**  `Batcher` is the three maps with the log of every result sent to a
channel; channels are numbers, a new one `nextCh` at each registration (`Batcher.register`).
`Batcher.settleAll` is the end of both `maybeStartBatch`s.  `ChansOk` says that no channel waits
on two sectors or twice on one, and `RoundOk` is what a round may do to each sector: leave it as
it was, sending its waiters nothing, or drop it from the three maps after sending each of its
waiters exactly one result, one that lists it (`settleAll_roundOk`).

**The commit batcher.**  `CommitBatcher.processBatch` collects the sectors whose collateral it can
look up, up to `MaxCommitBatch`, and aggregates their proofs with the seal proof type of
`infos[0]`.  A sector whose lookup fails is listed in the result but not in `infos`; when every
lookup fails, `infos` is empty and `infos[0]` panics (`maybeStartBatch_panics`).  Every round
that returns keeps `ChansOk` and settles each sector as `RoundOk` says, and the aggregate holds at
most `MaxCommitBatch` sectors.

**The pre-commit batcher** sends one batch of at most `MaxPreCommitBatch` sectors and never
panics; its rounds are `RoundOk` too.

The node's answers are the fields of `BatcherEnv`, one function of its arguments for each call:
every failure pattern of the chain API is one `BatcherEnv`.  Tipset tokens, miner infos,
addresses and message CIDs are numbers; a `time.Time` is a number.
-/

namespace Lotus

namespace Sealing

/-! ## The state both batchers keep -/

/-- A batcher's maps, keyed by sector number: the cutoff, the entry to send, and the channels
waiting on the sector; every result sent to a channel so far, in order; and the next new
channel. -/
structure Batcher (E R : Type) where
  cutoffs : AList (fun _ : ℕ => ℕ)
  todo : AList (fun _ : ℕ => E)
  waiting : AList (fun _ : ℕ => List ℕ)
  sent : List (ℕ × R)
  nextCh : ℕ

variable {E R : Type}

namespace Batcher

/-- The batcher of `NewCommitBatcher` and `NewPreCommitBatcher`: empty maps. -/
def empty : Batcher E R :=
  ⟨∅, ∅, ∅, [], 0⟩

/-- `b.waiting[sn]`, `nil` for a sector nobody waits on. -/
def waiters (b : Batcher E R) (sn : ℕ) : List ℕ :=
  (b.waiting.lookup sn).getD []

/-- The registration in `AddCommit` and `AddPreCommit`, once the cutoff is known (or the error
that stops them before): the cutoff and the entry are set, and a new channel waits on the
sector. -/
def register (b : Batcher E R) (sn : ℕ) (cu : Except String ℕ) (entry : E) :
    Batcher E R × Except String ℕ :=
  match cu with
  | .error e => (b, .error e)
  | .ok cu =>
    ({ b with
      cutoffs := b.cutoffs.insert sn cu
      todo := b.todo.insert sn entry
      waiting := b.waiting.insert sn (b.waiters sn ++ [b.nextCh])
      nextCh := b.nextCh + 1 }, .ok b.nextCh)

/-- One sector of a result, at the end of `maybeStartBatch`: `ch <- r` for every channel
waiting on the sector, and the sector leaves the three maps. -/
def settle (b : Batcher E R) (sn : ℕ) (r : R) : Batcher E R :=
  { b with
    cutoffs := b.cutoffs.erase sn
    todo := b.todo.erase sn
    waiting := b.waiting.erase sn
    sent := b.sent ++ (b.waiters sn).map fun ch => (ch, r) }

/-- The loop at the end of `maybeStartBatch`: every sector of every result, in order, is settled
with its result. -/
def settleAll (sectors : R → List ℕ) (b : Batcher E R) (res : List R) : Batcher E R :=
  res.foldl (fun b r => (sectors r).foldl (fun b sn => b.settle sn r) b) b

/-- The end of both `maybeStartBatch`s, after the messages: an error with no results is
returned; otherwise each result, with the error in it if there is one, settles its sectors, and
the results are returned. -/
def finish (sectors : R → List ℕ) (setError : R → String → R) (b : Batcher E R) (res : List R)
    (err : Option String) : Batcher E R × List R × Option String :=
  match err with
  | some e => if res.isEmpty then (b, [], some e) else
      (b.settleAll sectors (res.map (setError · e)), res, none)
  | none => (b.settleAll sectors res, res, none)

/-! ### What one round may do to a sector -/

/-- The waiters' channels are distinct, and all below `nextCh`: no channel waits on two sectors,
or twice on one. -/
structure ChansOk (b : Batcher E R) : Prop where
  nodup : ∀ x, (b.waiters x).Nodup
  unique : ∀ x y ch, ch ∈ b.waiters x → ch ∈ b.waiters y → x = y
  fresh : ∀ x ch, ch ∈ b.waiters x → ch < b.nextCh

/-- What a round may do to the sector `sn`, with `new` the results it sent: leave the sector, its
entry and its waiters as they were, sending its waiters nothing; or drop it from the three maps
after sending each of its waiters exactly one result, one that lists the sector. -/
def SectorSettled (sectors : R → List ℕ) (b b' : Batcher E R) (new : List (ℕ × R)) (sn : ℕ) :
    Prop :=
  (b'.cutoffs.lookup sn = b.cutoffs.lookup sn ∧ b'.todo.lookup sn = b.todo.lookup sn ∧
      b'.waiting.lookup sn = b.waiting.lookup sn ∧
      ∀ ch ∈ b.waiters sn, new.filter (·.1 = ch) = []) ∨
    (b'.cutoffs.lookup sn = none ∧ b'.todo.lookup sn = none ∧ b'.waiting.lookup sn = none ∧
      ∀ ch ∈ b.waiters sn, ∃ r, sn ∈ sectors r ∧ new.filter (·.1 = ch) = [(ch, r)])

/-- A round from `b` to `b'`: results are only added to the log, and every sector is settled or
left alone. -/
def RoundOk (sectors : R → List ℕ) (b b' : Batcher E R) : Prop :=
  ∃ new, b'.sent = b.sent ++ new ∧ ∀ sn, SectorSettled sectors b b' new sn

/-! ### Settling sectors -/

/-- The sectors of the results, each with its result, in the order `settleAll` takes them. -/
def pairs (sectors : R → List ℕ) (res : List R) : List (ℕ × R) :=
  res.flatMap fun r => (sectors r).map fun sn => (sn, r)

/-- Settling the sectors of `P` one after another. -/
def settleList (b : Batcher E R) (P : List (ℕ × R)) : Batcher E R :=
  P.foldl (fun b p => b.settle p.1 p.2) b

variable (sectors : R → List ℕ)

lemma settleAll_eq (b : Batcher E R) (res : List R) :
    b.settleAll sectors res = b.settleList (pairs sectors res) := by
  rw [settleAll, settleList, pairs, List.foldl_flatMap]
  simp only [List.foldl_map]

lemma mem_sectors_of_mem_pairs {res : List R} {sn : ℕ} {r : R} (h : (sn, r) ∈ pairs sectors res) :
    sn ∈ sectors r := by
  obtain ⟨r', -, hr'⟩ := List.mem_flatMap.1 h
  obtain ⟨sn', hsn', hp⟩ := List.mem_map.1 hr'
  rw [Prod.mk.injEq] at hp
  exact hp.1 ▸ hp.2 ▸ hsn'

lemma waiters_settle (b : Batcher E R) (sn : ℕ) (r : R) (x : ℕ) :
    (b.settle sn r).waiters x = if x = sn then [] else b.waiters x := by
  unfold waiters settle
  split_ifs with h
  · rw [h, AList.lookup_erase, Option.getD_none]
  · rw [AList.lookup_erase_ne h]

lemma ChansOk.settle {b : Batcher E R} (hok : b.ChansOk) (sn : ℕ) (r : R) :
    (b.settle sn r).ChansOk where
  nodup x := by
    rw [waiters_settle]
    split_ifs
    · exact List.nodup_nil
    · exact hok.nodup x
  unique x y ch hx hy := by
    rw [waiters_settle] at hx hy
    split_ifs at hx hy
    all_goals first | simp at hx | simp at hy | exact hok.unique x y ch hx hy
  fresh x ch hx := by
    rw [waiters_settle] at hx
    split_ifs at hx
    · simp at hx
    · exact hok.fresh x ch hx

/-- The maps after settling `P`: the sectors of `P` are deleted. -/
lemma settleList_maps (P : List (ℕ × R)) : ∀ b : Batcher E R,
    (b.settleList P).cutoffs = P.foldl (fun s p => s.erase p.1) b.cutoffs ∧
      (b.settleList P).todo = P.foldl (fun s p => s.erase p.1) b.todo ∧
      (b.settleList P).waiting = P.foldl (fun s p => s.erase p.1) b.waiting := by
  induction P with
  | nil => exact fun b => ⟨rfl, rfl, rfl⟩
  | cons p P ih => exact fun b => ih (b.settle p.1 p.2)

/-- The results sent to one channel `c <- r`: `r` once if the channel is in the list, which has no
channel twice, and nothing otherwise. -/
lemma filter_map_pair {l : List ℕ} (hl : l.Nodup) (r : R) (c : ℕ) :
    (l.map fun ch => (ch, r)).filter (·.1 = c) = if c ∈ l then [(c, r)] else [] := by
  have hf : ((l.map fun ch => (ch, r)).filter fun p => decide (p.1 = c)) =
      (l.filter fun ch => decide (ch = c)).map fun ch => (ch, r) := by
    rw [List.filter_map]
    rfl
  rw [hf, List.filter_eq, hl.count]
  split_ifs <;> rfl

/-- **Settling a list of sectors sends each waiter exactly one result**: a channel waiting on a
sector of `P` gets the result paired with that sector, once, and any other channel gets
nothing. -/
lemma settleList_sent (P : List (ℕ × R)) : ∀ b : Batcher E R, b.ChansOk →
    ∃ new, (b.settleList P).sent = b.sent ++ new ∧ ∀ ch,
      ((∀ x ∈ P.map Prod.fst, ch ∉ b.waiters x) → new.filter (·.1 = ch) = []) ∧
      (∀ x ∈ P.map Prod.fst, ch ∈ b.waiters x →
        ∃ r, (x, r) ∈ P ∧ new.filter (·.1 = ch) = [(ch, r)]) := by
  induction P with
  | nil => exact fun b _ => ⟨[], (List.append_nil _).symm, fun ch => ⟨fun _ => rfl, by simp⟩⟩
  | cons p P ih =>
    intro b hok
    obtain ⟨sn, r⟩ := p
    obtain ⟨new, hsent, hnew⟩ := ih (b.settle sn r) (hok.settle sn r)
    refine ⟨(b.waiters sn).map (fun ch => (ch, r)) ++ new, ?_, fun ch => ?_⟩
    · rw [settleList, List.foldl_cons, ← settleList, hsent, settle, List.append_assoc]
    have hnow := filter_map_pair (hok.nodup sn) r ch
    rw [List.filter_append, hnow]
    by_cases hch : ch ∈ b.waiters sn
    · -- the channel waits on `sn` alone: it gets `r` now and nothing later
      have hlater : new.filter (·.1 = ch) = [] := (hnew ch).1 fun x _ hx => by
        rw [waiters_settle] at hx
        split_ifs at hx with hxs
        · simp at hx
        · exact hxs (hok.unique x sn ch hx hch)
      rw [if_pos hch, hlater]
      refine ⟨fun h => absurd hch (h sn List.mem_cons_self), fun x _ hx => ⟨r, ?_, rfl⟩⟩
      rw [hok.unique x sn ch hx hch]
      exact List.mem_cons_self
    · -- the channel does not wait on `sn`: what it gets comes later
      rw [if_neg hch, List.nil_append]
      have hsame : ∀ x, ch ∈ (b.settle sn r).waiters x ↔ ch ∈ b.waiters x := fun x => by
        rw [waiters_settle]
        split_ifs with hxs
        · subst hxs
          simp [hch]
        · rfl
      refine ⟨fun h => (hnew ch).1 fun x hx hcx => h x (List.mem_cons_of_mem _ hx) ((hsame x).1 hcx),
        fun x hx hcx => ?_⟩
      have hxs : x ≠ sn := fun h => hch (h ▸ hcx)
      rw [List.map_cons, List.mem_cons] at hx
      obtain ⟨r', hr', hf⟩ := (hnew ch).2 x (hx.resolve_left hxs) ((hsame x).2 hcx)
      exact ⟨r', List.mem_cons_of_mem _ hr', hf⟩

/-- **`settleAll` settles each sector as `RoundOk` says.** -/
theorem settleAll_roundOk {b : Batcher E R} (hok : b.ChansOk) (res : List R) :
    RoundOk sectors b (b.settleAll sectors res) := by
  rw [settleAll_eq]
  obtain ⟨new, hsent, hnew⟩ := settleList_sent (pairs sectors res) b hok
  obtain ⟨hc, ht, hw⟩ := settleList_maps (pairs sectors res) b
  refine ⟨new, hsent, fun sn => ?_⟩
  rw [SectorSettled, hc, ht, hw]
  by_cases hsn : sn ∈ (pairs sectors res).map Prod.fst
  · -- a sector of the results: gone, each waiter with one result that lists it
    have hgone : ∀ {β : Type} (s : AList (fun _ : ℕ => β)),
        ((pairs sectors res).foldl (fun s p => s.erase p.1) s).lookup sn = none := fun s => by
      rw [AList.lookup_foldl_erase_eq, if_pos hsn]
    refine .inr ⟨hgone _, hgone _, hgone _, fun ch hch => ?_⟩
    obtain ⟨r, hr, hf⟩ := (hnew ch).2 sn hsn hch
    exact ⟨r, mem_sectors_of_mem_pairs sectors hr, hf⟩
  · -- any other sector: as it was, its waiters sent nothing
    have hkeep : ∀ {β : Type} (s : AList (fun _ : ℕ => β)),
        ((pairs sectors res).foldl (fun s p => s.erase p.1) s).lookup sn = s.lookup sn :=
      fun s => by rw [AList.lookup_foldl_erase_eq, if_neg hsn]
    exact .inl ⟨hkeep _, hkeep _, hkeep _, fun ch hch =>
      (hnew ch).1 fun x hx hcx => hsn (hok.unique x sn ch hcx hch ▸ hx)⟩

lemma ChansOk.settleAll {b : Batcher E R} (hok : b.ChansOk) (res : List R) :
    (b.settleAll sectors res).ChansOk := by
  rw [settleAll_eq, settleList]
  induction pairs sectors res generalizing b with
  | nil => exact hok
  | cons p P ih => exact ih (hok.settle p.1 p.2)

/-- A round that changes nothing is `RoundOk`. -/
lemma roundOk_refl (b : Batcher E R) : RoundOk sectors b b :=
  ⟨[], (List.append_nil _).symm, fun _ => .inl ⟨rfl, rfl, rfl, fun _ _ => rfl⟩⟩

/-- **The end of `maybeStartBatch`** keeps `ChansOk` and is `RoundOk`. -/
theorem finish_roundOk (setError : R → String → R) {b : Batcher E R} (hok : b.ChansOk)
    (res : List R) (err : Option String) :
    (b.finish sectors setError res err).1.ChansOk ∧
      RoundOk sectors b (b.finish sectors setError res err).1 := by
  unfold finish
  rcases err with _ | e
  · exact ⟨hok.settleAll sectors res, settleAll_roundOk sectors hok res⟩
  · dsimp only
    split_ifs
    · exact ⟨hok, roundOk_refl sectors b⟩
    · exact ⟨hok.settleAll sectors _, settleAll_roundOk sectors hok _⟩

/-! ### Registering -/

lemma waiters_register {b : Batcher E R} {sn cu : ℕ} {entry : E} (x : ℕ) :
    (b.register sn (.ok cu) entry).1.waiters x =
      if x = sn then b.waiters sn ++ [b.nextCh] else b.waiters x := by
  unfold waiters register
  split_ifs with h
  · rw [h, AList.lookup_insert, Option.getD_some]
    rfl
  · rw [AList.lookup_insert_ne h]

/-- A registration waits on a new channel. -/
lemma ChansOk.register {b : Batcher E R} (hok : b.ChansOk) (sn : ℕ) (cu : Except String ℕ)
    (entry : E) : (b.register sn cu entry).1.ChansOk := by
  rcases cu with e | cu
  · exact hok
  have hnew : b.nextCh ∉ b.waiters sn := fun h => lt_irrefl _ (hok.fresh sn _ h)
  constructor
  · intro x
    rw [waiters_register]
    split_ifs with hx
    · exact (hok.nodup sn).append (List.nodup_singleton _)
        (List.disjoint_singleton.2 hnew)
    · exact hok.nodup x
  · -- the new channel waits on `sn` alone; the others wait where they did
    intro x y ch hx hy
    rw [waiters_register] at hx hy
    have hold : ∀ z, ch ∈ b.waiters z → ch ≠ b.nextCh := fun z hz h =>
      lt_irrefl _ (h ▸ hok.fresh z ch hz)
    split_ifs at hx hy with hxs hys hys
    · rw [hxs, hys]
    · rcases List.mem_append.1 hx with hx | hx
      · exact hok.unique x y ch (hxs ▸ hx) hy
      · exact absurd (List.mem_singleton.1 hx) (hold y hy)
    · rcases List.mem_append.1 hy with hy | hy
      · exact hok.unique x y ch hx (hys ▸ hy)
      · exact absurd (List.mem_singleton.1 hy) (hold x hx)
    · exact hok.unique x y ch hx hy
  · intro x ch hx
    rw [waiters_register] at hx
    show ch < b.nextCh + 1
    split_ifs at hx
    · rcases List.mem_append.1 hx with hx | hx
      · exact Nat.lt_succ_of_lt (hok.fresh sn ch hx)
      · rw [List.mem_singleton.1 hx]
        exact Nat.lt_succ_self _
    · exact Nat.lt_succ_of_lt (hok.fresh x ch hx)

lemma chansOk_empty : (empty : Batcher E R).ChansOk where
  nodup _ := List.nodup_nil
  unique _ _ _ h := by simp [waiters, empty] at h
  fresh _ _ h := by simp [waiters, empty] at h

end Batcher

/-! ## The node and the configuration -/

/-- The batching fields of `sealiface.Config`. -/
structure Config where
  maxPreCommitBatch : ℤ
  minCommitBatch : ℤ
  maxCommitBatch : ℤ
  aggregateAboveBaseFee : ℤ

/-- The actor methods the batchers call. -/
inductive Method
  | proveCommitSector
  | preCommitSectorBatch
  | proveCommitAggregate
  deriving DecidableEq, Repr

/-- What an address is selected for (`api.PreCommitAddr`, `api.CommitAddr`). -/
inductive AddrUse
  | preCommitAddr
  | commitAddr
  deriving DecidableEq, Repr

/-- A `SectorPreCommitInfo`, by the one field the batchers read. -/
structure SectorPreCommitInfo where
  sectorNumber : ℕ
  deriving DecidableEq, Repr

/-- The parameters of the messages the batchers send, before CBOR encoding. -/
inductive MsgParams
  | proveCommitSector (sectorNumber : ℕ) (proof : List UInt8)
  | preCommitSectorBatch (sectors : List SectorPreCommitInfo)
  | proveCommitAggregate (sectorNumbers : List ℕ) (aggregateProof : List UInt8)

/-- A `SectorPreCommitOnChainInfo`: the pre-commit info, which the batcher only passes back to the
node, and the deposit. -/
structure PreCommitOnChainInfo where
  info : ℕ
  preCommitDeposit : ℤ

/-- What the batchers read from the node, the prover, the address selector and the fee
configuration, each as a function of its arguments.  `minerID` is `address.IDFromAddress(maddr)`;
`aggregateSealProofs` takes the miner, the seal proof type, the infos (by sector number) and the
proofs; `aggregateNetworkFee` is `policy.AggregateNetworkFee`; the fee functions are
`FeeForSectors` of the configured batch fees. -/
structure BatcherEnv where
  getConfig : Except String Config
  chainHead : Except String ℕ
  chainBaseFee : ℕ → Except String ℤ
  stateSectorPreCommitInfo : ℕ → ℕ → Except String (Option PreCommitOnChainInfo)
  stateMinerInitialPledgeCollateral : ℕ → ℕ → Except String ℤ
  stateMinerInfo : Except String ℕ
  stateNetworkVersion : ℕ → Except String ℕ
  sendMsg : ℕ → ℕ → Method → ℤ → ℤ → MsgParams → Except String ℕ
  addrSel : ℕ → AddrUse → ℤ → ℤ → Except String ℕ
  minerID : Except String ℕ
  aggregateSealProofs : ℕ → ℕ → List ℕ → List (List UInt8) → Except String (List UInt8)
  aggregateNetworkFee : ℕ → ℕ → ℤ → ℤ
  maddr : ℕ
  maxCommitGasFee : ℤ
  maxCommitBatchGasFee : ℕ → ℤ
  maxPreCommitBatchGasFee : ℕ → ℤ

/-! ## The commit batcher -/

/-- `AggregateInput`: the seal proof type, the sector number of `Info` (the one field of the
verify info the batcher reads), and the proof. -/
structure AggregateInput where
  spt : ℕ
  number : ℕ
  proof : List UInt8

/-- `sealiface.CommitBatchRes`. -/
structure CommitBatchRes where
  sectors : List ℕ
  failedSectors : AList (fun _ : ℕ => String)
  msg : Option ℕ
  error : String

/-- `r.Error = err.Error()`. -/
def CommitBatchRes.withError (r : CommitBatchRes) (e : String) : CommitBatchRes :=
  { r with error := e }

/-- `miner5.MinAggregatedSectors`. -/
def minAggregatedSectors : ℤ := 4

/-- `aggFeeNum / aggFeeDen`, the margin on the aggregate network fee. -/
def aggFeeNum : ℤ := 110

def aggFeeDen : ℤ := 100

namespace CommitBatcher

/-- `getSectorCollateral`: the initial pledge less the pre-commit deposit, at least zero. -/
def getSectorCollateral (env : BatcherEnv) (sn tok : ℕ) : Except String ℤ :=
  match env.stateSectorPreCommitInfo sn tok with
  | .error e => .error ("getting precommit info: " ++ e)
  | .ok none => .error "precommit info not found on chain"
  | .ok (some pci) =>
    match env.stateMinerInitialPledgeCollateral pci.info tok with
    | .error e => .error ("getting initial pledge collateral: " ++ e)
    | .ok collateral =>
      let collateral := collateral - pci.preCommitDeposit
      .ok (if collateral < 0 then 0 else collateral)

/-- The variables of `processBatch`'s loop: the result so far, the sectors set in
`params.SectorNumbers`, the infos (by sector number) and the collateral. -/
structure BatchAcc where
  res : CommitBatchRes
  sectorNumbers : List ℕ
  infos : List ℕ
  collateral : ℤ

/-- `processBatch`'s loop over `b.todo`: it breaks once `MaxCommitBatch` infos are collected, lists
every sector it takes in the result, and adds to the infos those whose collateral it finds. -/
def batchLoop (env : BatcherEnv) (cfg : Config) (tok : ℕ) :
    BatchAcc → List (Σ _ : ℕ, AggregateInput) → BatchAcc
  | acc, [] => acc
  | acc, ⟨id, p⟩ :: rest =>
    if (acc.infos.length : ℤ) ≥ cfg.maxCommitBatch then acc
    else
      let res := { acc.res with sectors := acc.res.sectors ++ [id] }
      match getSectorCollateral env id tok with
      | .error e =>
        batchLoop env cfg tok
          { acc with res := { res with failedSectors := res.failedSectors.insert id e } } rest
      | .ok sc =>
        batchLoop env cfg tok
          { acc with
            res := res
            collateral := acc.collateral + sc
            sectorNumbers := acc.sectorNumbers ++ [id]
            infos := acc.infos ++ [p.number] } rest

/-- The rest of `processBatch` after the loop, on the sorted infos: `none` when `infos[0]` is out
of range, and otherwise the message CID or the error. -/
def sendAggregate (env : BatcherEnv) (todo : AList (fun _ : ℕ => AggregateInput)) (tok : ℕ)
    (acc : BatchAcc) (infos : List ℕ) : Option (Except String ℕ) :=
  let proofs := infos.map fun n => ((todo.lookup n).map (·.proof)).getD []
  match env.minerID with
  | .error e => some (.error ("getting miner id: " ++ e))
  | .ok mid =>
    match infos.head? with
    | none => none
    | some info0 => some do
      let spt := ((todo.lookup info0).map (·.spt)).getD 0
      let aggregateProof ← (env.aggregateSealProofs mid spt infos proofs).mapError
        ("aggregating proofs: " ++ ·)
      let mi ← env.stateMinerInfo.mapError ("couldn't get miner info: " ++ ·)
      let maxFee := env.maxCommitBatchGasFee infos.length
      let bf ← (env.chainBaseFee tok).mapError ("couldn't get base fee: " ++ ·)
      let nv ← (env.stateNetworkVersion tok).mapError ("getting network version: " ++ ·)
      let aggFee := env.aggregateNetworkFee nv infos.length bf * aggFeeNum / aggFeeDen
      let needFunds := acc.collateral + aggFee
      let goodFunds := maxFee + needFunds
      let fromAddr ← (env.addrSel mi .commitAddr goodFunds needFunds).mapError
        ("no good address found: " ++ ·)
      (env.sendMsg fromAddr env.maddr .proveCommitAggregate needFunds maxFee
        (.proveCommitAggregate acc.sectorNumbers aggregateProof)).mapError
        ("sending message failed: " ++ ·)

/-- `processBatch`: one aggregate message for the sectors the loop takes; `none` is a panic.  The
infos are sorted by sector number (`sort.Slice`; on numbers every sort gives the same list). -/
def processBatch (env : BatcherEnv) (cfg : Config)
    (todo : AList (fun _ : ℕ => AggregateInput)) : Option (List CommitBatchRes × Option String) :=
  match env.chainHead with
  | .error e => some ([], some e)
  | .ok tok =>
    let acc := batchLoop env cfg tok ⟨⟨[], ∅, none, ""⟩, [], [], 0⟩ todo.entries
    let infos := acc.infos.mergeSort fun a b => decide (a ≤ b)
    (sendAggregate env todo tok acc infos).map fun
      | .error e => ([acc.res], some e)
      | .ok mcid => ([{ acc.res with msg := some mcid }], none)

/-- `processSingle`: one `ProveCommitSector` message. -/
def processSingle (env : BatcherEnv) (mi sn : ℕ) (info : AggregateInput) (tok : ℕ) :
    Except String ℕ := do
  let collateral ← getSectorCollateral env sn tok
  let goodFunds := collateral + env.maxCommitGasFee
  let fromAddr ← (env.addrSel mi .commitAddr goodFunds collateral).mapError
    ("no good address to send commit message from: " ++ ·)
  (env.sendMsg fromAddr env.maddr .proveCommitSector collateral env.maxCommitGasFee
    (.proveCommitSector sn info.proof)).mapError ("pushing message to mpool: " ++ ·)

/-- `processIndividually`: one message and one result for each sector of `todo`. -/
def processIndividually (env : BatcherEnv) (todo : AList (fun _ : ℕ => AggregateInput)) :
    List CommitBatchRes × Option String :=
  match env.stateMinerInfo with
  | .error e => ([], some ("couldn't get miner info: " ++ e))
  | .ok mi =>
    match env.chainHead with
    | .error e => ([], some e)
    | .ok tok => (todo.entries.map fun ⟨sn, info⟩ =>
        match processSingle env mi sn info tok with
        | .error e => ⟨[sn], (∅ : AList (fun _ : ℕ => String)).insert sn e, none, ""⟩
        | .ok mcid => ⟨[sn], ∅, some mcid, ""⟩, none)

/-- Whether `maybeStartBatch` sends one message a sector: too few sectors to aggregate, or a base
fee below `AggregateAboveBaseFee`; or the error of reading the base fee. -/
def individual (env : BatcherEnv) (cfg : Config) (total : ℕ) : Except String Bool :=
  if (total : ℤ) < cfg.minCommitBatch ∨ (total : ℤ) < minAggregatedSectors then .ok true
  else if cfg.aggregateAboveBaseFee ≠ 0 then do
    let tok ← env.chainHead
    let bf ← (env.chainBaseFee tok).mapError ("couldn't get base fee: " ++ ·)
    pure (bf < cfg.aggregateAboveBaseFee)
  else .ok false

/-- `CommitBatcher.maybeStartBatch(notif)`: the batcher after the round, the results and the
error; `none` is a panic. -/
def maybeStartBatch (env : BatcherEnv) (b : Batcher AggregateInput CommitBatchRes) (notif : Bool) :
    Option (Batcher AggregateInput CommitBatchRes × List CommitBatchRes × Option String) :=
  let total := b.todo.entries.length
  if total = 0 then some (b, [], none) else
  match env.getConfig with
  | .error e => some (b, [], some ("getting config: " ++ e))
  | .ok cfg =>
    if notif = true ∧ (total : ℤ) < cfg.maxCommitBatch then some (b, [], none) else
    match individual env cfg total with
    | .error e => some (b, [], some e)
    | .ok ind =>
      (if ind then some (processIndividually env b.todo) else processBatch env cfg b.todo).map
        fun r => b.finish CommitBatchRes.sectors CommitBatchRes.withError r.1 r.2

/-! ### Every round settles its sectors -/

/-- A round of `maybeStartBatch` that returns leaves the batcher as it was, or ends in `finish`. -/
lemma maybeStartBatch_cases {env : BatcherEnv} {b b' : Batcher AggregateInput CommitBatchRes}
    {notif : Bool} {res : List CommitBatchRes} {err : Option String}
    (h : maybeStartBatch env b notif = some (b', res, err)) :
    b' = b ∨ ∃ rs e, b' = (b.finish CommitBatchRes.sectors CommitBatchRes.withError rs e).1 := by
  unfold maybeStartBatch at h
  dsimp only at h
  split_ifs at h
  · exact .inl (Prod.mk.inj (Option.some.inj h)).1.symm
  split at h
  · exact .inl (Prod.mk.inj (Option.some.inj h)).1.symm
  split_ifs at h
  · exact .inl (Prod.mk.inj (Option.some.inj h)).1.symm
  split at h
  · exact .inl (Prod.mk.inj (Option.some.inj h)).1.symm
  obtain ⟨r, -, hr⟩ := Option.map_eq_some_iff.1 h
  exact .inr ⟨r.1, r.2, by rw [hr]⟩

/-- **Every commit round that returns keeps `ChansOk` and settles each sector as `RoundOk`
says.** -/
theorem maybeStartBatch_roundOk {env : BatcherEnv} {b b' : Batcher AggregateInput CommitBatchRes}
    (hok : b.ChansOk) {notif : Bool} {res : List CommitBatchRes} {err : Option String}
    (h : maybeStartBatch env b notif = some (b', res, err)) :
    b'.ChansOk ∧ Batcher.RoundOk CommitBatchRes.sectors b b' := by
  rcases maybeStartBatch_cases h with rfl | ⟨rs, e, rfl⟩
  · exact ⟨hok, Batcher.roundOk_refl _ _⟩
  · exact Batcher.finish_roundOk _ _ hok rs e

/-! ### The aggregate -/

/-- **The aggregate holds at most `MaxCommitBatch` sectors**: the loop stops adding infos there. -/
theorem batchLoop_infos_le (env : BatcherEnv) (cfg : Config) (tok : ℕ) :
    ∀ (l : List (Σ _ : ℕ, AggregateInput)) (acc : BatchAcc),
      (batchLoop env cfg tok acc l).infos.length ≤ max acc.infos.length cfg.maxCommitBatch.toNat
  | [], acc => le_max_left _ _
  | ⟨id, p⟩ :: rest, acc => by
    unfold batchLoop
    split_ifs with hfull
    · exact le_max_left _ _
    · have hlt : acc.infos.length < cfg.maxCommitBatch.toNat := by omega
      split
      · exact batchLoop_infos_le env cfg tok rest _
      · refine (batchLoop_infos_le env cfg tok rest _).trans ?_
        simp only [List.length_append, List.length_singleton]
        omega

/-- When no collateral lookup succeeds, the loop adds no info. -/
lemma batchLoop_infos_of_fail (env : BatcherEnv) (cfg : Config) (tok : ℕ) :
    ∀ (l : List (Σ _ : ℕ, AggregateInput)) (acc : BatchAcc),
      (∀ e ∈ l, ∃ err, getSectorCollateral env e.1 tok = .error err) →
      (batchLoop env cfg tok acc l).infos = acc.infos
  | [], _, _ => rfl
  | ⟨id, p⟩ :: rest, acc, hfail => by
    obtain ⟨err, herr⟩ := hfail ⟨id, p⟩ List.mem_cons_self
    unfold batchLoop
    split_ifs
    · rfl
    · rw [herr]
      exact batchLoop_infos_of_fail env cfg tok rest _ fun e he => hfail e (List.mem_cons_of_mem _ he)

/-- **A batch whose collateral lookups all fail panics.**  With enough sectors to aggregate, no
base fee threshold, a chain head and an ID address, `processBatch` lists every sector in the
result but adds none to `infos`, and `b.todo[infos[0].Number]` indexes an empty slice. -/
theorem maybeStartBatch_panics (env : BatcherEnv) (b : Batcher AggregateInput CommitBatchRes)
    (notif : Bool) {cfg : Config} {tok mid : ℕ} (hcfg : env.getConfig = .ok cfg)
    (hmin : cfg.minCommitBatch ≤ b.todo.entries.length) (h4 : 4 ≤ b.todo.entries.length)
    (hnotif : notif = true → cfg.maxCommitBatch ≤ b.todo.entries.length)
    (hfee : cfg.aggregateAboveBaseFee = 0) (htok : env.chainHead = .ok tok)
    (hmid : env.minerID = .ok mid)
    (hfail : ∀ sn ∈ b.todo.keys, ∃ e, getSectorCollateral env sn tok = .error e) :
    maybeStartBatch env b notif = none := by
  have hind : individual env cfg b.todo.entries.length = .ok false := by
    unfold individual minAggregatedSectors
    rw [if_neg (by omega), if_neg (not_not_intro hfee)]
  -- the loop takes every sector and finds no collateral
  have hinfos : (batchLoop env cfg tok ⟨⟨[], ∅, none, ""⟩, [], [], 0⟩ b.todo.entries).infos = [] :=
    batchLoop_infos_of_fail env cfg tok _ _ fun e he => hfail e.1 (List.mem_map_of_mem he)
  have hbatch : processBatch env cfg b.todo = none := by
    unfold processBatch
    rw [htok]
    dsimp only
    rw [hinfos]
    simp only [List.mergeSort_nil, sendAggregate, hmid, List.head?_nil, Option.map_none]
  unfold maybeStartBatch
  dsimp only
  rw [if_neg (by omega), hcfg]
  dsimp only
  rw [if_neg (fun h => by have := hnotif h.1; omega), hind]
  dsimp only
  rw [if_neg Bool.false_ne_true, hbatch, Option.map_none]

/-- A node with no pre-commit on chain for any sector, and the default batch sizes. -/
def noPreCommitEnv : BatcherEnv where
  getConfig := .ok ⟨256, 4, 819, 0⟩
  chainHead := .ok 0
  chainBaseFee _ := .ok 100
  stateSectorPreCommitInfo _ _ := .ok none
  stateMinerInitialPledgeCollateral _ _ := .ok 0
  stateMinerInfo := .ok 0
  stateNetworkVersion _ := .ok 13
  sendMsg _ _ _ _ _ _ := .ok 0
  addrSel _ _ _ _ := .ok 0
  minerID := .ok 1000
  aggregateSealProofs _ _ _ _ := .ok []
  aggregateNetworkFee _ _ _ := 0
  maddr := 1000
  maxCommitGasFee := 0
  maxCommitBatchGasFee _ := 0
  maxPreCommitBatchGasFee _ := 0

/-- Four sectors added with `AddCommit`. -/
def fourCommits : Batcher AggregateInput CommitBatchRes :=
  [1, 2, 3, 4].foldl (fun b sn => (b.register sn (.ok 0) ⟨0, sn, []⟩).1) Batcher.empty

/-- The timer's round over four added sectors, with no pre-commit on chain, panics. -/
theorem maybeStartBatch_panics_fourCommits :
    maybeStartBatch noPreCommitEnv fourCommits false = none :=
  maybeStartBatch_panics noPreCommitEnv fourCommits false rfl (by decide) (by decide) (by decide)
    rfl rfl rfl fun _ _ => ⟨_, rfl⟩

/-! ### Runs -/

/-- What happens to a commit batcher: an `AddCommit` registration with its cutoff, or a round of
`maybeStartBatch` (after a notification, on the timer or on a flush) with the node's answers at
that moment. -/
inductive CommitOp
  | addCommit (sn : ℕ) (cu : Except String ℕ) (input : AggregateInput)
  | round (env : BatcherEnv) (notif : Bool)

/-- One operation; `none` is a panic. -/
def commitStep (b : Batcher AggregateInput CommitBatchRes) :
    CommitOp → Option (Batcher AggregateInput CommitBatchRes)
  | .addCommit sn cu input => some (b.register sn cu input).1
  | .round env notif => (maybeStartBatch env b notif).map (·.1)

lemma commitStep_chansOk {b b' : Batcher AggregateInput CommitBatchRes} (hok : b.ChansOk)
    {op : CommitOp} (h : commitStep b op = some b') : b'.ChansOk := by
  cases op with
  | addCommit sn cu input =>
    rw [← Option.some.inj h]
    exact hok.register sn cu input
  | round env notif =>
    obtain ⟨⟨b'', res, err⟩, hround, rfl⟩ := Option.map_eq_some_iff.1 h
    exact (maybeStartBatch_roundOk hok hround).1

/-- **In every run that has not panicked, each round settles every sector as `RoundOk` says**:
`ChansOk` holds of every batcher a run reaches, and a round from there that returns is
`RoundOk`. -/
theorem run_roundOk (ops : List CommitOp) {b : Batcher AggregateInput CommitBatchRes}
    (hrun : ops.foldlM commitStep Batcher.empty = some b) :
    b.ChansOk ∧ ∀ env notif b' res err, maybeStartBatch env b notif = some (b', res, err) →
      Batcher.RoundOk CommitBatchRes.sectors b b' := by
  have hok := Run.foldlM_invariant (fun _ _ _ hs h => commitStep_chansOk hs h) ops
    Batcher.chansOk_empty hrun
  exact ⟨hok, fun env notif b' res err h => (maybeStartBatch_roundOk hok h).2⟩

/-- Sector 1 added twice and sector 2 once, a registration whose cutoff fails, and a round on the
timer. -/
def twoSectorsRun : List CommitOp :=
  [.addCommit 1 (.ok 0) ⟨0, 1, []⟩, .addCommit 1 (.ok 0) ⟨0, 1, []⟩,
    .addCommit 2 (.ok 5) ⟨0, 2, []⟩, .addCommit 3 (.error "no cutoff") ⟨0, 3, []⟩,
    .round noPreCommitEnv false]

theorem run_roundOk_twoSectors :
    ∃ b, twoSectorsRun.foldlM commitStep Batcher.empty = some b ∧
      b.ChansOk ∧ ∀ env notif b' res err, maybeStartBatch env b notif = some (b', res, err) →
        Batcher.RoundOk CommitBatchRes.sectors b b' :=
  ⟨_, rfl, run_roundOk twoSectorsRun rfl⟩

end CommitBatcher

/-! ## The pre-commit batcher -/

/-- A `preCommitEntry`. -/
structure PreCommitEntry where
  deposit : ℤ
  pci : SectorPreCommitInfo

/-- `sealiface.PreCommitBatchRes`. -/
structure PreCommitBatchRes where
  sectors : List ℕ
  msg : Option ℕ
  error : String

/-- `r.Error = err.Error()`. -/
def PreCommitBatchRes.withError (r : PreCommitBatchRes) (e : String) : PreCommitBatchRes :=
  { r with error := e }

namespace PreCommitBatcher

/-- The variables of `processBatch`'s loop: the result so far, the parameters and the deposit. -/
structure BatchAcc where
  res : PreCommitBatchRes
  params : List SectorPreCommitInfo
  deposit : ℤ

/-- `processBatch`'s loop over `b.todo`: it breaks once `MaxPreCommitBatch` sectors are taken. -/
def batchLoop (cfg : Config) : BatchAcc → List (Σ _ : ℕ, PreCommitEntry) → BatchAcc
  | acc, [] => acc
  | acc, ⟨_, p⟩ :: rest =>
    if (acc.params.length : ℤ) ≥ cfg.maxPreCommitBatch then acc
    else batchLoop cfg
      { res := { acc.res with sectors := acc.res.sectors ++ [p.pci.sectorNumber] }
        params := acc.params ++ [p.pci]
        deposit := acc.deposit + p.deposit } rest

/-- `processBatch`: one `PreCommitSectorBatch` message for the sectors the loop takes. -/
def processBatch (env : BatcherEnv) (cfg : Config) (todo : AList (fun _ : ℕ => PreCommitEntry)) :
    List PreCommitBatchRes × Option String :=
  let acc := batchLoop cfg ⟨⟨[], none, ""⟩, [], 0⟩ todo.entries
  let sent : Except String ℕ := do
    let mi ← env.stateMinerInfo.mapError ("couldn't get miner info: " ++ ·)
    let maxFee := env.maxPreCommitBatchGasFee acc.params.length
    let goodFunds := acc.deposit + maxFee
    let fromAddr ← (env.addrSel mi .preCommitAddr goodFunds acc.deposit).mapError
      ("no good address found: " ++ ·)
    (env.sendMsg fromAddr env.maddr .preCommitSectorBatch acc.deposit maxFee
      (.preCommitSectorBatch acc.params)).mapError ("sending message failed: " ++ ·)
  match sent with
  | .error e => ([acc.res], some e)
  | .ok mcid => ([{ acc.res with msg := some mcid }], none)

/-- `PreCommitBatcher.maybeStartBatch(notif)`: the batcher after the round, the results and the
error. -/
def maybeStartBatch (env : BatcherEnv) (b : Batcher PreCommitEntry PreCommitBatchRes)
    (notif : Bool) : Batcher PreCommitEntry PreCommitBatchRes × List PreCommitBatchRes × Option String :=
  let total := b.todo.entries.length
  if total = 0 then (b, [], none) else
  match env.getConfig with
  | .error e => (b, [], some ("getting config: " ++ e))
  | .ok cfg =>
    if notif = true ∧ (total : ℤ) < cfg.maxPreCommitBatch then (b, [], none) else
    let r := processBatch env cfg b.todo
    b.finish PreCommitBatchRes.sectors PreCommitBatchRes.withError r.1 r.2

/-- **Every pre-commit round keeps `ChansOk` and settles each sector as `RoundOk` says**; it
never panics, as the model's total function says. -/
theorem maybeStartBatch_roundOk (env : BatcherEnv) {b : Batcher PreCommitEntry PreCommitBatchRes}
    (hok : b.ChansOk) (notif : Bool) :
    (maybeStartBatch env b notif).1.ChansOk ∧
      Batcher.RoundOk PreCommitBatchRes.sectors b (maybeStartBatch env b notif).1 := by
  unfold maybeStartBatch
  dsimp only
  split_ifs
  · exact ⟨hok, Batcher.roundOk_refl _ b⟩
  split
  · exact ⟨hok, Batcher.roundOk_refl _ b⟩
  split_ifs
  · exact ⟨hok, Batcher.roundOk_refl _ b⟩
  · exact Batcher.finish_roundOk _ _ hok _ _

/-- **The batch holds at most `MaxPreCommitBatch` sectors.** -/
theorem batchLoop_params_le (cfg : Config) :
    ∀ (l : List (Σ _ : ℕ, PreCommitEntry)) (acc : BatchAcc),
      (batchLoop cfg acc l).params.length ≤ max acc.params.length cfg.maxPreCommitBatch.toNat
  | [], acc => le_max_left _ _
  | ⟨_, p⟩ :: rest, acc => by
    unfold batchLoop
    split_ifs with hfull
    · exact le_max_left _ _
    · refine (batchLoop_params_le cfg rest _).trans ?_
      simp only [List.length_append, List.length_singleton]
      omega

end PreCommitBatcher

end Sealing

end Lotus
