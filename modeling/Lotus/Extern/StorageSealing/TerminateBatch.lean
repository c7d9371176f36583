import Mathlib
import Lotus.Lib.Bitfield
import Lotus.Lib.GoInt
import Lotus.Lib.Run

/-!
# Batching sector terminations (`terminate_batch.go`)

`AddTermination` looks up the sector's deadline and partition and, unless the sector is already
terminated, sets it in the bitfield `todo` keeps for that location, appends a new channel to the
ones `waiting` keeps for the sector, and makes a notification pending.  The batcher's loop `run`
calls `processBatch` on a notification, on its timer or on `Flush`; `processBatch` walks `todo`,
gathers `TerminationDeclaration`s of at most `AddressedSectorsMax` sectors in all and at most
`DeclarationsMax` declarations, skipping the deadlines near the one being proved, sends them in one
`TerminateSectors` message, and then drops each declared location from `todo` and sends the
message's CID to every channel waiting on a declared sector.

**What holds.**  Every message declares at most `AddressedSectorsMax` sectors in at most
`DeclarationsMax` declarations, none in the deadline being proved, the next one or the previous
one, and only sectors that were in `todo` at their location and are live in the partition the
chain reports (`processBatch_message_bounds`).  Over every run, no channel is answered twice, and
the CID a channel receives is that of a message the batcher sent that declares the channel's
sector (`waiters_answered_once`).

**What does not.**  When the location that takes the total past `AddressedSectorsMax` holds
more sectors than fit, the loop takes the first ones (`Slice`) and writes the rest back into
`todo`; but after sending, the location's whole entry is deleted, so the rest is neither
declared nor pending, and nothing ever answers its waiters
(`processBatch_drops_sliced_remainder`).  A partition holds at most 2349 sectors, so this takes
at least four partitions before that location, five in all, with `TerminateBatchMax` raised
above what they hold (`processBatch_drops_sliced_remainder_full`).

Go visits a map in an order it leaves open; the model visits `todo` in the order of its entries,
and a statement about every `todo` is one about every order.  The chain's answers are the fields of
`TerminateBatcherApi`, given afresh at every event of a run, so that every failure pattern and
every change of the chain between two calls is one run.  Channels are numbers: `chans` records the
sector each was made for, and `sent` every CID sent on one.
-/

namespace Lotus

namespace Sealing

/-- `SectorLocation`: a sector's deadline and partition. -/
structure SectorLocation where
  deadline : ℕ
  partition : ℕ
  deriving DecidableEq, Repr

/-- `miner.WPoStPeriodDeadlines` (`miner0`). -/
def wPoStPeriodDeadlines : ℕ := 48

/-- `miner.AddressedSectorsMax` (`miner2`). -/
def addressedSectorsMax : ℕ := 10000

/-- `miner.DeclarationsMax` (`miner2`). -/
def declarationsMax : ℕ := 3000

/-- The fields of `sealiface.Config` that `processBatch` reads. -/
structure TerminateConfig where
  terminateBatchMax : ℕ
  terminateBatchMin : ℕ

/-- `miner2.TerminationDeclaration`. -/
structure TerminationDeclaration where
  deadline : ℕ
  partition : ℕ
  sectors : Finset ℕ
  deriving DecidableEq

/-- `bf.Slice(start, count)`: the `count` set bits that follow the first `start`; `none` is the
error of a field with fewer. -/
def slice (s : Finset ℕ) (start count : ℕ) : Option (Finset ℕ) :=
  if s.card < start + count then none
  else some (((Bitfield.ascending s).drop start).take count).toFinset

/-- What the batcher reads from the chain, the address selector and the configuration, one function
of its arguments for each call: a sector's location (`none` for a nil one), the index of the
proving deadline, the live sectors of each partition of a deadline, the miner info, the address
`addrSel` picks for it, the CID `SendMsg` returns for the sender and the declarations, and the
sealing configuration. -/
structure TerminateBatcherApi where
  stateSectorPartition : ℕ → Except String (Option SectorLocation)
  stateMinerProvingDeadline : Except String ℕ
  stateMinerPartitions : ℕ → Except String (List (Finset ℕ))
  stateMinerInfo : Except String ℕ
  addrSel : ℕ → Except String ℕ
  sendMsg : ℕ → List TerminationDeclaration → Except String ℕ
  getConfig : Except String TerminateConfig

/-- The batcher's state: `todo` and `waiting`, whether a notification is pending, the sector each
channel was made for (channel `i` waits on `chans[i]`), every CID sent on a channel, with the
channel, and every `TerminateSectors` message sent, with its CID. -/
structure TerminateBatcher where
  todo : AList (fun _ : SectorLocation => Finset ℕ)
  waiting : AList (fun _ : ℕ => List ℕ)
  notify : Bool
  chans : List ℕ
  sent : List (ℕ × ℕ)
  messages : List (ℕ × List TerminationDeclaration)

namespace TerminateBatcher

/-- `NewTerminationBatcher`: empty maps, no notification. -/
def init : TerminateBatcher :=
  ⟨∅, ∅, false, [], [], []⟩

/-- `b.waiting[sn]`, `nil` for a sector nobody waits on. -/
def waiters (b : TerminateBatcher) (sn : ℕ) : List ℕ :=
  (b.waiting.lookup sn).getD []

/-- Whether `loc` is in the deadline being proved, the next one or the previous one, the three
`processBatch` skips. -/
def challenged (dlIdx : ℕ) (loc : SectorLocation) : Bool :=
  loc.deadline == GoInt.uint64 (dlIdx + 1) % wPoStPeriodDeadlines || loc.deadline == dlIdx ||
    GoInt.uint64 (loc.deadline + 1) % wPoStPeriodDeadlines == dlIdx

/-! ## `processBatch` -/

/-- What the loop body does with one location: `continue` (`skip`), panic on a partition index
out of range, or declare `toTerminate` counting `n` sectors, with what a slice leaves to write back
into `todo`. -/
inductive Visit
  | skip
  | panic
  | declare (n : ℕ) (toTerminate : Finset ℕ) (remainder : Option (Finset ℕ))

/-- The body of `processBatch`'s loop for the location `loc` with bitfield `sectors`, after `total`
sectors.  It counts the bitfield before intersecting it with the live sectors. -/
def visit (api : TerminateBatcherApi) (dlIdx total : ℕ) (loc : SectorLocation)
    (sectors : Finset ℕ) : Visit :=
  let n := GoInt.uint64 sectors.card
  if challenged dlIdx loc then .skip
  else if n < 1 then .skip
  else
    match api.stateMinerPartitions loc.deadline with
    | .error _ => .skip
    | .ok ps =>
      match ps[loc.partition]? with
      | none => .panic
      | some live =>
        let toTerminate := live ∩ sectors
        if GoInt.uint64 (total + n) > addressedSectorsMax then
          let n := GoInt.uint64 ((addressedSectorsMax : ℤ) - total)
          match slice toTerminate 0 n with
          | none => .skip
          | some toTerminate => .declare n toTerminate (some (sectors \ toTerminate))
        else .declare n toTerminate none

/-- The variables of `processBatch`'s loop: `params.Terminations`, `total`, and `todo`, into which
a slice writes back. -/
structure BatchAcc where
  terminations : List TerminationDeclaration
  total : ℕ
  todo : AList (fun _ : SectorLocation => Finset ℕ)

/-- `processBatch`'s loop over the entries of `todo`; `none` is a panic. -/
def batchLoop (api : TerminateBatcherApi) (cfg : TerminateConfig) (dlIdx : ℕ) :
    BatchAcc → List (Σ _ : SectorLocation, Finset ℕ) → Option BatchAcc
  | acc, [] => some acc
  | acc, ⟨loc, sectors⟩ :: rest =>
    match visit api dlIdx acc.total loc sectors with
    | .skip => batchLoop api cfg dlIdx acc rest
    | .panic => none
    | .declare n toTerminate remainder =>
      let acc : BatchAcc :=
        { terminations := acc.terminations ++ [⟨loc.deadline, loc.partition, toTerminate⟩]
          total := GoInt.uint64 (acc.total + n)
          todo := match remainder with
            | none => acc.todo
            | some s => acc.todo.replace loc s }
      if acc.total ≥ addressedSectorsMax ∨ acc.total ≥ cfg.terminateBatchMax then some acc
      else if acc.terminations.length ≥ declarationsMax then some acc
      else batchLoop api cfg dlIdx acc rest

/-- The message: the miner info, the sender `addrSel` picks, and `SendMsg`'s CID. -/
def sendTerminations (api : TerminateBatcherApi) (ts : List TerminationDeclaration) :
    Except String ℕ := do
  let mi ← api.stateMinerInfo.mapError ("couldn't get miner info: " ++ ·)
  let fromAddr ← (api.addrSel mi).mapError ("no good address found: " ++ ·)
  (api.sendMsg fromAddr ts).mapError ("sending message failed: " ++ ·)

/-- The body of `ForEach` over a declared sector: the CID to each channel waiting on it, and the
sector out of `waiting`. -/
def answer (mcid : ℕ) (b : TerminateBatcher) (sn : ℕ) : TerminateBatcher :=
  { b with
    sent := b.sent ++ (b.waiters sn).map (·, mcid)
    waiting := b.waiting.erase sn }

/-- One declaration after the message is sent: its location out of `todo`, then its sectors
answered in ascending order. -/
def settleDeclaration (mcid : ℕ) (b : TerminateBatcher) (t : TerminationDeclaration) :
    TerminateBatcher :=
  (Bitfield.ascending t.sectors).foldl (answer mcid)
    { b with todo := b.todo.erase ⟨t.deadline, t.partition⟩ }

/-- The end of `processBatch` once `SendMsg` returned `mcid` for the declarations `ts`. -/
def settle (mcid : ℕ) (b : TerminateBatcher) (ts : List TerminationDeclaration) :
    TerminateBatcher :=
  ts.foldl (settleDeclaration mcid) { b with messages := b.messages ++ [(mcid, ts)] }

/-- `processBatch(notif, after)`: the batcher after the call and the CID of the message sent
(`none` when nothing is sent) or the error; `none` is a panic.  The source wraps the error of
`getConfig` with `%W`, which `fmt` does not know; the model keeps the error's text. -/
def processBatch (api : TerminateBatcherApi) (b : TerminateBatcher) (notif after : Bool) :
    Option (TerminateBatcher × Except String (Option ℕ)) :=
  match api.stateMinerProvingDeadline with
  | .error e => some (b, .error ("getting proving deadline info failed: " ++ e))
  | .ok dlIdx =>
    match api.getConfig with
    | .error e => some (b, .error ("getting sealing config: " ++ e))
    | .ok cfg =>
      (batchLoop api cfg dlIdx ⟨[], 0, b.todo⟩ b.todo.entries).map fun acc =>
        let b := { b with todo := acc.todo }
        if acc.terminations.length = 0 then (b, .ok none)
        else if notif = true ∧ acc.total < cfg.terminateBatchMax then (b, .ok none)
        else if after = true ∧ acc.total < cfg.terminateBatchMin then (b, .ok none)
        else
          match sendTerminations api acc.terminations with
          | .error e => (b, .error e)
          | .ok mcid => (settle mcid b acc.terminations, .ok (some mcid))

/-! ## `AddTermination` and the run -/

/-- `AddTermination` after the checks: `sn` set in the bitfield of `loc` (a new one if there is
none), a new channel appended to the sector's waiters, and a notification pending. -/
def register (b : TerminateBatcher) (loc : SectorLocation) (sn : ℕ) : TerminateBatcher :=
  { b with
    todo := b.todo.insert loc (insert sn ((b.todo.lookup loc).getD ∅))
    waiting := b.waiting.insert sn (b.waiters sn ++ [b.chans.length])
    chans := b.chans ++ [sn]
    notify := true }

/-- `AddTermination` up to the wait on its channel: the error, `none` for a sector already
terminated, or the batcher that now waits for the sector's message; the outer `none` is a
panic. -/
def addTermination (api : TerminateBatcherApi) (b : TerminateBatcher) (sn : ℕ) :
    Option (Except String (Option TerminateBatcher)) :=
  match api.stateSectorPartition sn with
  | .error e => some (.error ("getting sector location: " ++ e))
  | .ok none => some (.error "sector location not found")
  | .ok (some loc) =>
    match api.stateMinerPartitions loc.deadline with
    | .error e => some (.error ("getting partitions: " ++ e))
    | .ok parts =>
      match parts[loc.partition]? with
      | none => none
      | some live => some (.ok (if sn ∈ live then some (b.register loc sn) else none))

/-- What wakes `run`: the notification, the timer, or `Flush`. -/
inductive Trigger
  | notify
  | timer
  | force
  deriving DecidableEq

/-- The events of a run: an `AddTermination` call, or one pass of `run`'s loop, each with the
chain's answers at that time. -/
inductive Event
  | addTermination (api : TerminateBatcherApi) (sn : ℕ)
  | wake (api : TerminateBatcherApi) (t : Trigger)

/-- One event; `none` is the batcher after a panic.  The notification wakes `run` only while one
is pending, and consumes it. -/
def step : Option TerminateBatcher → Event → Option TerminateBatcher
  | none, _ => none
  | some b, .addTermination api sn =>
    match addTermination api b sn with
    | none => none
    | some (.ok (some b')) => some b'
    | some _ => some b
  | some b, .wake api t =>
    if t = .notify ∧ b.notify = false then some b
    else
      let b := if t = .notify then { b with notify := false } else b
      (processBatch api b (decide (t = .notify)) (decide (t = .timer))).map Prod.fst

/-! ## Slices and visits -/

lemma slice_zero_eq_some {s t : Finset ℕ} {count : ℕ} (h : slice s 0 count = some t) :
    count ≤ s.card ∧ t = ((Bitfield.ascending s).take count).toFinset := by
  unfold slice at h
  by_cases hlt : s.card < 0 + count
  · rw [if_pos hlt] at h
    cases h
  · rw [if_neg hlt, List.drop_zero, Option.some.injEq] at h
    exact ⟨by omega, h.symm⟩

lemma slice_zero_of_le {s : Finset ℕ} {count : ℕ} (h : count ≤ s.card) :
    slice s 0 count = some ((Bitfield.ascending s).take count).toFinset := by
  rw [slice, if_neg (by omega), List.drop_zero]

lemma card_take_ascending {s : Finset ℕ} {count : ℕ} (h : count ≤ s.card) :
    ((Bitfield.ascending s).take count).toFinset.card = count := by
  rw [List.toFinset_card_of_nodup ((Bitfield.nodup_ascending s).sublist (List.take_sublist _ _)),
    List.length_take, Bitfield.length_ascending]
  omega

lemma take_ascending_subset (s : Finset ℕ) (count : ℕ) :
    ((Bitfield.ascending s).take count).toFinset ⊆ s := by
  intro x hx
  rw [List.mem_toFinset] at hx
  exact Bitfield.mem_ascending.1 (List.mem_of_mem_take hx)

/-- **What a declaring visit did**: the location is not challenged and its partition was read;
then either the total stays within the limit and everything live is declared, or it would not,
and a slice of what is live is declared, the rest going back to `todo`. -/
lemma visit_eq_declare {api : TerminateBatcherApi} {dlIdx total n : ℕ} {loc : SectorLocation}
    {sectors t : Finset ℕ} {w : Option (Finset ℕ)}
    (h : visit api dlIdx total loc sectors = .declare n t w) :
    challenged dlIdx loc = false ∧ ∃ ps live, api.stateMinerPartitions loc.deadline = .ok ps ∧
      ps[loc.partition]? = some live ∧
      ((GoInt.uint64 (total + GoInt.uint64 sectors.card) ≤ addressedSectorsMax ∧
          n = GoInt.uint64 sectors.card ∧ t = live ∩ sectors ∧ w = none) ∨
        (addressedSectorsMax < GoInt.uint64 (total + GoInt.uint64 sectors.card) ∧
          n = GoInt.uint64 ((addressedSectorsMax : ℤ) - total) ∧
          slice (live ∩ sectors) 0 n = some t ∧ w = some (sectors \ t))) := by
  dsimp only [visit] at h
  split at h
  · cases h
  rename_i hch
  split at h
  · cases h
  split at h
  · cases h
  rename_i ps hps
  split at h
  · cases h
  rename_i live hlive
  refine ⟨by simpa using hch, ps, live, hps, hlive, ?_⟩
  split at h
  · rename_i hgt
    split at h
    · cases h
    · rename_i t' hslice
      cases h
      exact .inr ⟨hgt, rfl, hslice, rfl⟩
  · rename_i hle
    cases h
    exact .inl ⟨not_lt.1 hle, rfl, rfl, rfl⟩

/-- A declaring visit below the limit, of a bitfield of fewer than `2 ^ 63` sectors, counts
without wrapping, stays within `AddressedSectorsMax`, and declares at most what it counts, all of
it from the bitfield. -/
lemma visit_declare_bounds {api : TerminateBatcherApi} {dlIdx total n : ℕ} {loc : SectorLocation}
    {sectors t : Finset ℕ} {w : Option (Finset ℕ)}
    (h : visit api dlIdx total loc sectors = .declare n t w) (htotal : total < addressedSectorsMax)
    (hcard : sectors.card < 2 ^ 63) :
    GoInt.uint64 (total + n) = total + n ∧ total + n ≤ addressedSectorsMax ∧ t.card ≤ n ∧
      t ⊆ sectors := by
  obtain ⟨-, ps, live, -, -, hcase⟩ := visit_eq_declare h
  have hmax : addressedSectorsMax = 10000 := rfl
  have hn : GoInt.uint64 sectors.card = sectors.card := GoInt.uint64_of_lt (by omega)
  rcases hcase with ⟨hle, rfl, rfl, -⟩ | ⟨-, rfl, hslice, -⟩
  · rw [hn] at hle ⊢
    have hsum : GoInt.uint64 (total + sectors.card) = total + sectors.card := by
      unfold GoInt.uint64
      omega
    rw [hsum] at hle
    exact ⟨hsum, hle, Finset.card_le_card Finset.inter_subset_right, Finset.inter_subset_right⟩
  · -- the slice takes exactly what is left under the limit
    have hleft : GoInt.uint64 ((addressedSectorsMax : ℤ) - total) = addressedSectorsMax - total := by
      unfold GoInt.uint64
      omega
    obtain ⟨hle, rfl⟩ := slice_zero_eq_some hslice
    rw [hleft] at hle ⊢
    refine ⟨by unfold GoInt.uint64; omega, by omega, (card_take_ascending hle).le, ?_⟩
    exact (take_ascending_subset _ _).trans Finset.inter_subset_right

/-! ## What a message declares -/

/-- What `processBatch` may declare against `todo`: a location it does not skip, sectors that were
in `todo` there, and sectors live in the partition the chain reports. -/
def Declarable (api : TerminateBatcherApi) (todo : AList (fun _ : SectorLocation => Finset ℕ))
    (dlIdx : ℕ) (t : TerminationDeclaration) : Prop :=
  challenged dlIdx ⟨t.deadline, t.partition⟩ = false ∧
    (∃ sectors, todo.lookup ⟨t.deadline, t.partition⟩ = some sectors ∧ t.sectors ⊆ sectors) ∧
    ∃ ps live, api.stateMinerPartitions t.deadline = .ok ps ∧ ps[t.partition]? = some live ∧
      t.sectors ⊆ live

/-- What the declarations gathered so far satisfy. -/
structure Collected (api : TerminateBatcherApi) (todo : AList (fun _ : SectorLocation => Finset ℕ))
    (dlIdx : ℕ) (acc : BatchAcc) : Prop where
  total_le : acc.total ≤ addressedSectorsMax
  length_le : acc.terminations.length ≤ declarationsMax
  sum_le : (acc.terminations.map fun t => t.sectors.card).sum ≤ acc.total
  declarable : ∀ t ∈ acc.terminations, Declarable api todo dlIdx t

lemma visit_declarable {api : TerminateBatcherApi} {dlIdx total n : ℕ} {loc : SectorLocation}
    {sectors t : Finset ℕ} {w : Option (Finset ℕ)}
    {todo : AList (fun _ : SectorLocation => Finset ℕ)}
    (h : visit api dlIdx total loc sectors = .declare n t w)
    (hmem : (⟨loc, sectors⟩ : Σ _ : SectorLocation, Finset ℕ) ∈ todo.entries) :
    Declarable api todo dlIdx ⟨loc.deadline, loc.partition, t⟩ := by
  obtain ⟨hch, ps, live, hps, hlive, hcase⟩ := visit_eq_declare h
  have hsub : t ⊆ live ∩ sectors := by
    rcases hcase with ⟨-, -, rfl, -⟩ | ⟨-, -, hslice, -⟩
    · exact subset_rfl
    · obtain ⟨-, rfl⟩ := slice_zero_eq_some hslice
      exact take_ascending_subset _ _
  exact ⟨hch, ⟨sectors, AList.mem_lookup_iff.2 hmem, hsub.trans Finset.inter_subset_right⟩,
    ps, live, hps, hlive, hsub.trans Finset.inter_subset_left⟩

/-- The loop keeps `Collected`: each declaration it adds stays within the limits, and it stops
as soon as a limit is reached. -/
lemma batchLoop_collected {api : TerminateBatcherApi} {cfg : TerminateConfig} {dlIdx : ℕ}
    {todo : AList (fun _ : SectorLocation => Finset ℕ)}
    (hcard : ∀ x ∈ todo.entries, x.2.card < 2 ^ 63) :
    ∀ (entries : List (Σ _ : SectorLocation, Finset ℕ)) {acc acc' : BatchAcc},
      entries ⊆ todo.entries → Collected api todo dlIdx acc → acc.total < addressedSectorsMax →
      acc.terminations.length < declarationsMax →
      batchLoop api cfg dlIdx acc entries = some acc' → Collected api todo dlIdx acc'
  | [], _, _, _, hacc, _, _, h => by
    cases h
    exact hacc
  | ⟨loc, sectors⟩ :: rest, acc, acc', hsub, hacc, htot, hlen, h => by
    have hmem := hsub List.mem_cons_self
    have hrest : rest ⊆ todo.entries := fun x hx => hsub (List.mem_cons_of_mem _ hx)
    rw [batchLoop] at h
    cases hv : visit api dlIdx acc.total loc sectors with
    | skip =>
      rw [hv] at h
      exact batchLoop_collected hcard rest hrest hacc htot hlen h
    | panic =>
      rw [hv] at h
      cases h
    | declare n t w =>
      rw [hv] at h
      obtain ⟨hwrap, hle, htn, -⟩ := visit_declare_bounds hv htot (hcard _ hmem)
      -- the declarations after this one, whatever the loop writes back into `todo`
      have hnext : ∀ todo', Collected api todo dlIdx
          ⟨acc.terminations ++ [⟨loc.deadline, loc.partition, t⟩], acc.total + n, todo'⟩ := by
        intro todo'
        constructor
        · exact hle
        · simp only [List.length_append, List.length_singleton]
          omega
        · have := hacc.sum_le
          simp only [List.map_append, List.sum_append, List.map_singleton, List.sum_singleton]
          omega
        · intro x hx
          rcases List.mem_append.1 hx with hx | hx
          · exact hacc.declarable x hx
          · rw [List.mem_singleton.1 hx]
            exact visit_declarable hv hmem
      dsimp only at h
      rw [hwrap] at h
      split_ifs at h with hstop hfull
      · cases h
        exact hnext _
      · cases h
        exact hnext _
      · simp only [List.length_append, List.length_singleton] at hfull
        exact batchLoop_collected hcard rest hrest (hnext _) (by dsimp only; omega)
          (by dsimp only; simp only [List.length_append, List.length_singleton]; omega) h

/-- **What a call that sends did**: it read the proving deadline and the configuration, the loop
gathered declarations, `SendMsg` returned the CID, and `settle` ran on the batcher with the loop's
`todo`. -/
lemma processBatch_eq_sent {api : TerminateBatcherApi} {b b' : TerminateBatcher}
    {notif after : Bool} {mcid : ℕ}
    (h : processBatch api b notif after = some (b', .ok (some mcid))) :
    ∃ dlIdx cfg acc, api.stateMinerProvingDeadline = .ok dlIdx ∧ api.getConfig = .ok cfg ∧
      batchLoop api cfg dlIdx ⟨[], 0, b.todo⟩ b.todo.entries = some acc ∧
      acc.terminations ≠ [] ∧ sendTerminations api acc.terminations = .ok mcid ∧
      b' = settle mcid { b with todo := acc.todo } acc.terminations := by
  unfold processBatch at h
  split at h
  · cases h
  rename_i dlIdx hdl
  split at h
  · cases h
  rename_i cfg hcfg
  obtain ⟨acc, hloop, h⟩ := Option.map_eq_some_iff.1 h
  dsimp only at h
  split_ifs at h with h0
  · cases h
  · cases h
  · cases h
  split at h
  · cases h
  rename_i mcid' hsend
  cases h
  exact ⟨dlIdx, cfg, acc, hdl, hcfg, hloop, List.ne_nil_of_length_pos (by omega), hsend, rfl⟩

lemma settleDeclaration_messages (mcid : ℕ) (b : TerminateBatcher) (t : TerminationDeclaration) :
    (settleDeclaration mcid b t).messages = b.messages :=
  @Run.run_invariant _ _ (answer mcid) (fun b' => b'.messages = b.messages) (fun _ _ h => h) _ _ rfl

lemma settle_messages (mcid : ℕ) (b : TerminateBatcher) (ts : List TerminationDeclaration) :
    (settle mcid b ts).messages = b.messages ++ [(mcid, ts)] :=
  @Run.run_invariant _ _ (settleDeclaration mcid) (fun b' => b'.messages = b.messages ++ [(mcid, ts)])
    (fun b' t h => (settleDeclaration_messages mcid b' t).trans h) _ _ rfl

/-- **A message stays within the protocol's limits.**  Whatever the chain answers and whatever the
trigger, a `processBatch` that sends a message, on a `todo` of bitfields of fewer than `2 ^ 63`
sectors, sends one of at most `DeclarationsMax` declarations and `AddressedSectorsMax` sectors in
all, each for a location outside the deadline being proved and its two neighbours, of sectors that
were in `todo` there and are live. -/
theorem processBatch_message_bounds {api : TerminateBatcherApi} {b b' : TerminateBatcher}
    {notif after : Bool} {mcid : ℕ} (hcard : ∀ x ∈ b.todo.entries, x.2.card < 2 ^ 63)
    (h : processBatch api b notif after = some (b', .ok (some mcid))) :
    ∃ dlIdx ts, api.stateMinerProvingDeadline = .ok dlIdx ∧
      b'.messages = b.messages ++ [(mcid, ts)] ∧ ts ≠ [] ∧ ts.length ≤ declarationsMax ∧
      (ts.map fun t => t.sectors.card).sum ≤ addressedSectorsMax ∧
      ∀ t ∈ ts, Declarable api b.todo dlIdx t := by
  obtain ⟨dlIdx, cfg, acc, hdl, -, hloop, hne, -, rfl⟩ := processBatch_eq_sent h
  have hinit : Collected api b.todo dlIdx ⟨[], 0, b.todo⟩ :=
    ⟨Nat.zero_le _, Nat.zero_le _, le_rfl, fun _ h => by cases h⟩
  have hacc := batchLoop_collected hcard b.todo.entries (fun _ h => h) hinit
    (show 0 < addressedSectorsMax by decide) (show 0 < declarationsMax by decide) hloop
  exact ⟨dlIdx, acc.terminations, hdl, settle_messages _ _ _, hne, hacc.length_le,
    hacc.sum_le.trans hacc.total_le, hacc.declarable⟩

/-- A chain whose proving deadline is `0`, on which every sector is at deadline `5`, partition
`0`, where the sectors `live` are live, and on which every call succeeds. -/
def chainApi (live : Finset ℕ) : TerminateBatcherApi where
  stateSectorPartition _ := .ok (some ⟨5, 0⟩)
  stateMinerProvingDeadline := .ok 0
  stateMinerPartitions _ := .ok [live]
  stateMinerInfo := .ok 0
  addrSel _ := .ok 0
  sendMsg _ _ := .ok 1
  getConfig := .ok ⟨100, 1⟩

/-- Sectors `1` to `3` to terminate at deadline `5`, partition `0`. -/
def smallBatcher : TerminateBatcher :=
  ⟨AList.singleton ⟨5, 0⟩ {1, 2, 3}, ∅, false, [], [], []⟩

theorem processBatch_message_bounds_small :
    ∃ b', processBatch (chainApi {1, 2}) smallBatcher false false = some (b', .ok (some 1)) ∧
      ∃ dlIdx ts, (chainApi {1, 2}).stateMinerProvingDeadline = .ok dlIdx ∧
        b'.messages = smallBatcher.messages ++ [(1, ts)] ∧ ts ≠ [] ∧ ts.length ≤ declarationsMax ∧
        (ts.map fun t => t.sectors.card).sum ≤ addressedSectorsMax ∧
        ∀ t ∈ ts, Declarable (chainApi {1, 2}) smallBatcher.todo dlIdx t := by
  obtain ⟨b', h⟩ : ∃ b', processBatch (chainApi {1, 2}) smallBatcher false false =
      some (b', .ok (some 1)) := ⟨_, rfl⟩
  exact ⟨b', h, processBatch_message_bounds (by decide) h⟩

/-! ## The waiters over a run -/

@[simp] lemma waiters_init (sn : ℕ) : init.waiters sn = [] := rfl

lemma waiters_answer (mcid : ℕ) (b : TerminateBatcher) (sn sn' : ℕ) :
    (answer mcid b sn).waiters sn' = if sn' = sn then [] else b.waiters sn' := by
  unfold waiters answer
  split_ifs with h
  · subst h
    simp
  · simp [AList.lookup_erase_ne h]

lemma waiters_register (b : TerminateBatcher) (loc : SectorLocation) (sn sn' : ℕ) :
    (b.register loc sn).waiters sn' = if sn' = sn then b.waiters sn ++ [b.chans.length]
      else b.waiters sn' := by
  unfold register waiters
  split_ifs with h
  · subst h
    simp
  · simp [AList.lookup_insert_ne h]

/-- `cid` is the CID of a message the batcher sent that declares `sn`. -/
def Declares (msgs : List (ℕ × List TerminationDeclaration)) (cid sn : ℕ) : Prop :=
  ∃ ts, (cid, ts) ∈ msgs ∧ ∃ t ∈ ts, sn ∈ t.sectors

/-- The waiters' invariant: a channel waits on the sector it was made for, once, and has not been
answered; no channel has been answered twice; and each answer is the CID of a message that
declares the channel's sector. -/
structure Inv (b : TerminateBatcher) : Prop where
  waiting_chans : ∀ {sn ch}, ch ∈ b.waiters sn → b.chans[ch]? = some sn
  waiters_nodup : ∀ sn, (b.waiters sn).Nodup
  waiting_unsent : ∀ {sn ch}, ch ∈ b.waiters sn → ch ∉ b.sent.map Prod.fst
  sent_nodup : (b.sent.map Prod.fst).Nodup
  sent_declares : ∀ p ∈ b.sent, ∃ sn, b.chans[p.1]? = some sn ∧ Declares b.messages p.2 sn

lemma inv_init : Inv init where
  waiting_chans h := by simp at h
  waiters_nodup _ := by simp
  waiting_unsent h := by simp at h
  sent_nodup := List.nodup_nil
  sent_declares _ h := by cases h

/-- The invariant reads only the waiters, the channels, the answers and the messages. -/
lemma Inv.congr {b b' : TerminateBatcher} (hb : Inv b) (hw : b'.waiting = b.waiting)
    (hc : b'.chans = b.chans) (hs : b'.sent = b.sent) (hm : b'.messages = b.messages) : Inv b' := by
  have hwt : ∀ sn, b'.waiters sn = b.waiters sn := fun sn => by simp only [waiters, hw]
  refine ⟨fun h => ?_, fun sn => ?_, fun h => ?_, ?_, fun p hp => ?_⟩
  · rw [hwt] at h
    rw [hc]
    exact hb.waiting_chans h
  · rw [hwt]
    exact hb.waiters_nodup sn
  · rw [hwt] at h
    rw [hs]
    exact hb.waiting_unsent h
  · rw [hs]
    exact hb.sent_nodup
  · rw [hs] at hp
    rw [hc, hm]
    exact hb.sent_declares p hp

lemma Inv.register {b : TerminateBatcher} (hb : Inv b) (loc : SectorLocation) (sn : ℕ) :
    Inv (b.register loc sn) := by
  -- every channel in use is below `chans.length`, so the new one is fresh
  have hlt : ∀ {ch sn' : ℕ}, b.chans[ch]? = some sn' → ch < b.chans.length := fun h =>
    (List.getElem?_eq_some_iff.1 h).1
  have hchans : ∀ {ch sn' : ℕ}, b.chans[ch]? = some sn' → (b.chans ++ [sn])[ch]? = some sn' := by
    intro ch sn' h
    rw [List.getElem?_append_left (hlt h)]
    exact h
  have hfresh : b.chans.length ∉ b.sent.map Prod.fst := by
    intro hm
    obtain ⟨p, hp, hfst⟩ := List.mem_map.1 hm
    obtain ⟨_, hc, -⟩ := hb.sent_declares p hp
    exact (hlt hc).ne hfst
  constructor
  · intro sn' ch h
    rw [waiters_register] at h
    split_ifs at h with hs
    · subst hs
      rcases List.mem_append.1 h with h | h
      · exact hchans (hb.waiting_chans h)
      · rw [List.mem_singleton.1 h]
        simp [TerminateBatcher.register]
    · exact hchans (hb.waiting_chans h)
  · intro sn'
    rw [waiters_register]
    split_ifs
    · refine List.nodup_append.2 ⟨hb.waiters_nodup sn, List.nodup_singleton _, ?_⟩
      intro a ha c hc
      rw [List.mem_singleton.1 hc]
      exact (hlt (hb.waiting_chans ha)).ne
    · exact hb.waiters_nodup sn'
  · intro sn' ch h
    rw [waiters_register] at h
    split_ifs at h
    · rcases List.mem_append.1 h with h | h
      · exact hb.waiting_unsent h
      · rw [List.mem_singleton.1 h]
        exact hfresh
    · exact hb.waiting_unsent h
  · exact hb.sent_nodup
  · intro p hp
    obtain ⟨sn', hc, hd⟩ := hb.sent_declares p hp
    exact ⟨sn', hchans hc, hd⟩

/-- Answering a sector that a sent message declares keeps the invariant: its channels move from
waiting to answered, each once. -/
lemma Inv.answer {b : TerminateBatcher} (hb : Inv b) {mcid sn : ℕ}
    (hd : Declares b.messages mcid sn) : Inv (answer mcid b sn) := by
  have hfst : ((b.waiters sn).map (·, mcid)).map Prod.fst = b.waiters sn := by
    simp [List.map_map, Function.comp_def]
  constructor
  · intro sn' ch h
    rw [waiters_answer] at h
    split_ifs at h
    · simp at h
    · exact hb.waiting_chans h
  · intro sn'
    rw [waiters_answer]
    split_ifs
    · exact List.nodup_nil
    · exact hb.waiters_nodup sn'
  · intro sn' ch h
    rw [waiters_answer] at h
    split_ifs at h with hs
    · simp at h
    · simp only [TerminateBatcher.answer, List.map_append, hfst, List.mem_append, not_or]
      refine ⟨hb.waiting_unsent h, fun hm => hs ?_⟩
      -- `ch` waits on `sn'`, so it is none of the channels of `sn`
      have h2 := hb.waiting_chans hm
      rw [hb.waiting_chans h] at h2
      exact Option.some.inj h2
  · simp only [TerminateBatcher.answer, List.map_append, hfst]
    refine List.nodup_append.2 ⟨hb.sent_nodup, hb.waiters_nodup sn, ?_⟩
    intro a ha c hc hac
    exact hb.waiting_unsent hc (hac ▸ ha)
  · intro p hp
    simp only [TerminateBatcher.answer, List.mem_append, List.mem_map] at hp
    rcases hp with hp | ⟨ch, hch, rfl⟩
    · exact hb.sent_declares p hp
    · exact ⟨sn, hb.waiting_chans hch, hd⟩

lemma Inv.settleDeclaration {b : TerminateBatcher} (hb : Inv b) {mcid : ℕ}
    {ts : List TerminationDeclaration} (hts : (mcid, ts) ∈ b.messages) {t : TerminationDeclaration}
    (ht : t ∈ ts) : Inv (settleDeclaration mcid b t) := by
  have hstep : ∀ (b' : TerminateBatcher) (sn : ℕ), Inv b' ∧ b'.messages = b.messages →
      sn ∈ Bitfield.ascending t.sectors →
      Inv (TerminateBatcher.answer mcid b' sn) ∧
        (TerminateBatcher.answer mcid b' sn).messages = b.messages := by
    rintro b' sn ⟨hb', hm⟩ hsn
    exact ⟨hb'.answer ⟨ts, hm ▸ hts, t, ht, Bitfield.mem_ascending.1 hsn⟩, hm⟩
  have hstart : Inv { b with todo := b.todo.erase ⟨t.deadline, t.partition⟩ } :=
    hb.congr rfl rfl rfl rfl
  exact (@Run.run_invariant_mem _ _ (TerminateBatcher.answer mcid) _ _ hstep _ _ ⟨hstart, rfl⟩
    fun _ h => h).1

lemma Inv.settle {b : TerminateBatcher} (hb : Inv b) (mcid : ℕ) (ts : List TerminationDeclaration) :
    Inv (settle mcid b ts) := by
  have hstep : ∀ (b' : TerminateBatcher) (t : TerminationDeclaration),
      Inv b' ∧ (mcid, ts) ∈ b'.messages → t ∈ ts →
      Inv (TerminateBatcher.settleDeclaration mcid b' t) ∧
        (mcid, ts) ∈ (TerminateBatcher.settleDeclaration mcid b' t).messages := by
    rintro b' t ⟨hb', hm⟩ ht
    exact ⟨hb'.settleDeclaration hm ht, (settleDeclaration_messages mcid b' t).symm ▸ hm⟩
  have hstart : Inv { b with messages := b.messages ++ [(mcid, ts)] } := by
    refine ⟨hb.waiting_chans, hb.waiters_nodup, hb.waiting_unsent, hb.sent_nodup, ?_⟩
    intro p hp
    obtain ⟨sn, hc, ts', hts', ht⟩ := hb.sent_declares p hp
    exact ⟨sn, hc, ts', List.mem_append_left _ hts', ht⟩
  exact (@Run.run_invariant_mem _ _ (TerminateBatcher.settleDeclaration mcid) _ _ hstep _ _
    ⟨hstart, by simp⟩ fun _ h => h).1

/-- Every batcher `processBatch` returns is the one it was given with another `todo`, settled
after a message or not. -/
lemma processBatch_cases {api : TerminateBatcherApi} {b b' : TerminateBatcher}
    {notif after : Bool} {r : Except String (Option ℕ)}
    (h : processBatch api b notif after = some (b', r)) :
    ∃ todo, b' = { b with todo := todo } ∨
      ∃ mcid ts, b' = settle mcid { b with todo := todo } ts := by
  unfold processBatch at h
  split at h
  · cases h
    exact ⟨b.todo, .inl rfl⟩
  split at h
  · cases h
    exact ⟨b.todo, .inl rfl⟩
  obtain ⟨acc, -, h⟩ := Option.map_eq_some_iff.1 h
  refine ⟨acc.todo, ?_⟩
  dsimp only at h
  split_ifs at h
  · cases h
    exact .inl rfl
  · cases h
    exact .inl rfl
  · cases h
    exact .inl rfl
  split at h
  · cases h
    exact .inl rfl
  · cases h
    exact .inr ⟨_, _, rfl⟩

lemma Inv.processBatch {b b' : TerminateBatcher} (hb : Inv b) {api : TerminateBatcherApi}
    {notif after : Bool} {r : Except String (Option ℕ)}
    (h : TerminateBatcher.processBatch api b notif after = some (b', r)) : Inv b' := by
  obtain ⟨todo, rfl | ⟨mcid, ts, rfl⟩⟩ := processBatch_cases h
  · exact hb.congr rfl rfl rfl rfl
  · exact (show Inv { b with todo := todo } from hb.congr rfl rfl rfl rfl).settle mcid ts

lemma addTermination_eq_register {api : TerminateBatcherApi} {b b' : TerminateBatcher} {sn : ℕ}
    (h : addTermination api b sn = some (.ok (some b'))) : ∃ loc, b' = b.register loc sn := by
  unfold addTermination at h
  split at h
  · cases h
  · cases h
  rename_i loc _
  split at h
  · cases h
  split at h
  · cases h
  split_ifs at h
  · cases h
    exact ⟨loc, rfl⟩
  · cases h

/-- One event keeps the invariant of a batcher that has not panicked. -/
lemma Inv.of_step {s : Option TerminateBatcher} (hs : ∀ b, s = some b → Inv b) (e : Event) :
    ∀ b', step s e = some b' → Inv b' := by
  intro b' h
  cases s with
  | none => cases h
  | some b =>
    have hb := hs b rfl
    cases e with
    | addTermination api sn =>
      simp only [step] at h
      split at h
      · cases h
      · rename_i b'' hadd
        cases h
        obtain ⟨loc, rfl⟩ := addTermination_eq_register hadd
        exact hb.register loc sn
      · cases h
        exact hb
    | wake api t =>
      simp only [step] at h
      split_ifs at h with hidle hnotify
      · cases h
        exact hb
      · obtain ⟨⟨b'', r⟩, hpb, rfl⟩ := Option.map_eq_some_iff.1 h
        exact (show Inv { b with notify := false } from hb.congr rfl rfl rfl rfl).processBatch hpb
      · obtain ⟨⟨b'', r⟩, hpb, rfl⟩ := Option.map_eq_some_iff.1 h
        exact hb.processBatch hpb

/-- **Every waiter is answered at most once, and rightly.**  Over every run of `AddTermination`
calls and wake-ups of `run`, whatever the chain answers: no channel is sent two CIDs, and the CID
a channel is sent is that of a `TerminateSectors` message the batcher sent that declares the
sector the channel waits on. -/
theorem waiters_answered_once (evs : List Event) {b : TerminateBatcher}
    (h : Run.run step (some init) evs = some b) :
    (b.sent.map Prod.fst).Nodup ∧
      ∀ p ∈ b.sent, ∃ sn, b.chans[p.1]? = some sn ∧ Declares b.messages p.2 sn := by
  have hrun := Run.run_invariant (P := fun s => ∀ b, s = some b → Inv b)
    (fun s e hs => Inv.of_step hs e) evs (s := some init) (fun b h => by cases h; exact inv_init)
  have hb := hrun b h
  exact ⟨hb.sent_nodup, hb.sent_declares⟩

theorem waiters_answered_once_flush :
    ∃ b, Run.run step (some init)
        [.addTermination (chainApi {1, 2}) 1, .wake (chainApi {1, 2}) .force] = some b ∧
      (b.sent.map Prod.fst).Nodup ∧
      ∀ p ∈ b.sent, ∃ sn, b.chans[p.1]? = some sn ∧ Declares b.messages p.2 sn := by
  obtain ⟨b, h⟩ : ∃ b, Run.run step (some init)
      [.addTermination (chainApi {1, 2}) 1, .wake (chainApi {1, 2}) .force] = some b := ⟨_, rfl⟩
  exact ⟨b, h, waiters_answered_once _ h⟩

/-! ## A sliced location's remainder -/

lemma settleDeclaration_todo (mcid : ℕ) (b : TerminateBatcher) (t : TerminationDeclaration) :
    (settleDeclaration mcid b t).todo = b.todo.erase ⟨t.deadline, t.partition⟩ :=
  @Run.run_invariant _ _ (answer mcid) (fun b' => b'.todo = b.todo.erase ⟨t.deadline, t.partition⟩)
    (fun _ _ h => h) _ _ rfl

/-- A sector a declaration does not hold keeps its waiters when the declaration is settled. -/
lemma waiters_settleDeclaration {sn : ℕ} {t : TerminationDeclaration} (hsn : sn ∉ t.sectors)
    (mcid : ℕ) (b : TerminateBatcher) : (settleDeclaration mcid b t).waiters sn = b.waiters sn := by
  have hstep : ∀ (b' : TerminateBatcher) (sn' : ℕ), b'.waiters sn = b.waiters sn →
      sn' ∈ Bitfield.ascending t.sectors → (answer mcid b' sn').waiters sn = b.waiters sn := by
    intro b' sn' hb' hsn'
    have hne : sn ≠ sn' := fun h => hsn (h ▸ Bitfield.mem_ascending.1 hsn')
    rw [waiters_answer, if_neg hne, hb']
  exact @Run.run_invariant_mem _ _ (answer mcid) _ _ hstep _ _ rfl fun _ h => h

/-- The declaration of a whole `todo` entry. -/
def declOf (e : Σ _ : SectorLocation, Finset ℕ) : TerminationDeclaration :=
  ⟨e.1.deadline, e.1.partition, e.2⟩

/-- The number of sectors the entries hold. -/
def cardSum (l : List (Σ _ : SectorLocation, Finset ℕ)) : ℕ :=
  (l.map fun e => e.2.card).sum

/-- A `todo` entry `processBatch` declares: outside the three challenged deadlines, its partition
on chain, and all its sectors live. -/
def LiveEntry (api : TerminateBatcherApi) (dlIdx : ℕ) (e : Σ _ : SectorLocation, Finset ℕ) :
    Prop :=
  challenged dlIdx e.1 = false ∧ ∃ ps live, api.stateMinerPartitions e.1.deadline = .ok ps ∧
    ps[e.1.partition]? = some live ∧ e.2 ⊆ live

/-- A live entry that fits under `AddressedSectorsMax` is declared whole. -/
lemma visit_of_fits {api : TerminateBatcherApi} {dlIdx total : ℕ} {e : Σ _ : SectorLocation, Finset ℕ}
    (he : LiveEntry api dlIdx e) (hpos : 0 < e.2.card) (hfit : total + e.2.card ≤ addressedSectorsMax) :
    visit api dlIdx total e.1 e.2 = .declare e.2.card e.2 none := by
  obtain ⟨hch, ps, live, hps, hlive, hsub⟩ := he
  have hmax : addressedSectorsMax = 10000 := rfl
  have hn : GoInt.uint64 e.2.card = e.2.card := GoInt.uint64_of_lt (by omega)
  have hsum : GoInt.uint64 (total + e.2.card : ℕ) = total + e.2.card :=
    GoInt.uint64_of_lt (by omega)
  dsimp only [visit]
  rw [if_neg (by simp [hch]), hn, if_neg (by omega)]
  simp only [hps, hlive, Finset.inter_eq_right.2 hsub]
  rw [if_neg (by push_cast at hsum ⊢; omega)]

/-- A live entry that crosses `AddressedSectorsMax` is sliced: the first of its sectors up to the
limit are declared, and the rest is written back. -/
lemma visit_of_crosses {api : TerminateBatcherApi} {dlIdx total : ℕ} {loc : SectorLocation}
    {sectors : Finset ℕ} (he : LiveEntry api dlIdx ⟨loc, sectors⟩)
    (htotal : total ≤ addressedSectorsMax) (hcross : addressedSectorsMax < total + sectors.card)
    (hcard : sectors.card < 2 ^ 63) :
    visit api dlIdx total loc sectors = .declare (addressedSectorsMax - total)
      ((Bitfield.ascending sectors).take (addressedSectorsMax - total)).toFinset
      (some (sectors \ ((Bitfield.ascending sectors).take (addressedSectorsMax - total)).toFinset)) := by
  obtain ⟨hch, ps, live, hps, hlive, hsub⟩ := he
  have hmax : addressedSectorsMax = 10000 := rfl
  have hn : GoInt.uint64 sectors.card = sectors.card := GoInt.uint64_of_lt (by omega)
  have hsum : GoInt.uint64 (total + sectors.card : ℕ) = total + sectors.card :=
    GoInt.uint64_of_lt (by omega)
  -- what is left under the limit, in `uint64`
  have hleft : GoInt.uint64 ((addressedSectorsMax : ℤ) - total) = addressedSectorsMax - total := by
    unfold GoInt.uint64
    omega
  dsimp only [visit]
  rw [if_neg (by simp [hch]), hn, if_neg (by omega)]
  simp only [hps, hlive, Finset.inter_eq_right.2 hsub]
  rw [if_pos (by push_cast at hsum ⊢; omega), hleft, slice_zero_of_le (by omega)]

/-- Live entries that stay under the limits are declared whole, one after another, and the loop
goes on past them. -/
lemma batchLoop_append_fits {api : TerminateBatcherApi} {cfg : TerminateConfig} {dlIdx : ℕ} :
    ∀ (pre : List (Σ _ : SectorLocation, Finset ℕ)) (acc : BatchAcc)
      (l : List (Σ _ : SectorLocation, Finset ℕ)),
      (∀ e ∈ pre, LiveEntry api dlIdx e ∧ 0 < e.2.card) →
      acc.total + cardSum pre < addressedSectorsMax →
      acc.total + cardSum pre < cfg.terminateBatchMax →
      acc.terminations.length + pre.length < declarationsMax →
      batchLoop api cfg dlIdx acc (pre ++ l) =
        batchLoop api cfg dlIdx
          ⟨acc.terminations ++ pre.map declOf, acc.total + cardSum pre, acc.todo⟩ l
  | [], acc, l, _, _, _, _ => by simp [cardSum]
  | e :: pre, acc, l, hlive, hmax, htbm, hlen => by
    have hsum : cardSum (e :: pre) = e.2.card + cardSum pre := by simp [cardSum]
    have he := hlive e List.mem_cons_self
    have hlen' : (e :: pre).length = pre.length + 1 := rfl
    have htotal : GoInt.uint64 (acc.total + e.2.card : ℕ) = acc.total + e.2.card :=
      GoInt.uint64_of_lt (by rw [show addressedSectorsMax = 10000 from rfl] at hmax; omega)
    rw [List.cons_append, batchLoop, visit_of_fits he.1 he.2 (by omega)]
    dsimp only
    push_cast at htotal
    -- the total and the declarations stay under every limit
    rw [htotal, if_neg (by omega), if_neg (by simp only [List.length_append, List.length_singleton]; omega),
      batchLoop_append_fits pre _ l (fun e' he' => hlive e' (List.mem_cons_of_mem _ he'))
        (by dsimp only; omega) (by dsimp only; omega)
        (by simp only [List.length_append, List.length_singleton]; omega)]
    simp only [List.map_cons, List.append_assoc, List.singleton_append, hsum, Nat.add_assoc]
    rfl

/-- Replacing the value of a key that a prefix does not hold leaves the prefix alone. -/
lemma kreplace_append_of_not_mem {loc : SectorLocation} {v : Finset ℕ} :
    ∀ (pre l : List (Σ _ : SectorLocation, Finset ℕ)), loc ∉ pre.keys →
      (pre ++ l).kreplace loc v = pre ++ l.kreplace loc v
  | [], _, _ => rfl
  | e :: pre, l, h => by
    have hne : loc ≠ e.1 := fun heq => h (heq ▸ List.mem_cons_self)
    have hpre : loc ∉ pre.keys := fun hm => h (List.mem_cons_of_mem _ hm)
    have hnone : (if loc = e.1 then some (⟨loc, v⟩ : Σ _ : SectorLocation, Finset ℕ) else none) =
        none := if_neg hne
    rw [List.cons_append, List.kreplace, List.lookmap_cons_none _ _ hnone, ← List.kreplace,
      kreplace_append_of_not_mem pre l hpre, List.cons_append]

/-- Settling the declarations of whole entries at the front of `todo` takes them off it. -/
lemma todo_settle_leading (mcid : ℕ) :
    ∀ (pre l : List (Σ _ : SectorLocation, Finset ℕ)) (b : TerminateBatcher),
      b.todo.entries = pre ++ l → ((pre.map declOf).foldl (settleDeclaration mcid) b).todo.entries = l
  | [], _, _, h => h
  | e :: pre, l, b, h => by
    apply todo_settle_leading mcid pre l
    rw [settleDeclaration_todo]
    show (b.todo.entries.kerase _) = _
    rw [h, List.cons_append, List.kerase_cons_eq (by rfl)]

/-- A sector no declaration holds keeps its waiters when they are settled. -/
lemma waiters_settle_of_not_mem {sn : ℕ} (mcid : ℕ) :
    ∀ (ts : List TerminationDeclaration) (b : TerminateBatcher), (∀ t ∈ ts, sn ∉ t.sectors) →
      (ts.foldl (settleDeclaration mcid) b).waiters sn = b.waiters sn
  | [], _, _ => rfl
  | t :: ts, b, h => by
    rw [List.foldl_cons, waiters_settle_of_not_mem mcid ts _ fun t' ht' => h t' (List.mem_cons_of_mem _ ht'),
      waiters_settleDeclaration (h t List.mem_cons_self)]

/-- **A sliced location loses what the slice left.**  Say `processBatch` visits, in order, whole
locations `pre` whose sectors are all live, outside the challenged deadlines, fewer than
`DeclarationsMax` of them and fewer sectors in all than `TerminateBatchMax`, and then a live
location whose sectors take the total past `AddressedSectorsMax`; the batch limits are at most
`AddressedSectorsMax`, and the message goes out.  Then the message declares `pre` and the first
sectors of the last location up to the limit, and the last location's whole entry leaves `todo`
with the others: the remaining sectors are neither declared nor pending, and their waiters keep
waiting. -/
theorem processBatch_drops_sliced_remainder {api : TerminateBatcherApi} {b : TerminateBatcher}
    {notif after : Bool} {dlIdx : ℕ} {cfg : TerminateConfig}
    {pre rest : List (Σ _ : SectorLocation, Finset ℕ)} {loc : SectorLocation}
    {sectors : Finset ℕ} {mi fromAddr mcid : ℕ}
    (hdl : api.stateMinerProvingDeadline = .ok dlIdx) (hcfg : api.getConfig = .ok cfg)
    (hbatch : cfg.terminateBatchMax ≤ addressedSectorsMax ∧
      cfg.terminateBatchMin ≤ addressedSectorsMax)
    (htodo : b.todo.entries = pre ++ ⟨loc, sectors⟩ :: rest)
    (hpre : ∀ e ∈ pre, LiveEntry api dlIdx e ∧ 0 < e.2.card ∧ Disjoint e.2 sectors)
    (hloc : LiveEntry api dlIdx ⟨loc, sectors⟩) (hunder : cardSum pre < cfg.terminateBatchMax)
    (hdecl : pre.length < declarationsMax) (hcross : addressedSectorsMax < cardSum pre + sectors.card)
    (hcard : sectors.card < 2 ^ 63) (hmi : api.stateMinerInfo = .ok mi)
    (haddr : api.addrSel mi = .ok fromAddr) (hsend : ∀ ts, api.sendMsg fromAddr ts = .ok mcid) :
    ∃ b' t, processBatch api b notif after = some (b', .ok (some mcid)) ∧
      b'.messages = b.messages ++
        [(mcid, pre.map declOf ++ [⟨loc.deadline, loc.partition, t⟩])] ∧
      t ⊆ sectors ∧ t.card = addressedSectorsMax - cardSum pre ∧ b'.todo.entries = rest ∧
      ∀ sn ∈ sectors \ t, b'.waiters sn = b.waiters sn := by
  set k := addressedSectorsMax - cardSum pre with hk
  set t := ((Bitfield.ascending sectors).take k).toFinset with ht
  have hmax : addressedSectorsMax = 10000 := rfl
  have hkle : k ≤ sectors.card := by omega
  -- the loop declares `pre` whole, then slices the last location and stops at the limit
  have hloop : batchLoop api cfg dlIdx ⟨[], 0, b.todo⟩ b.todo.entries =
      some ⟨pre.map declOf ++ [⟨loc.deadline, loc.partition, t⟩], addressedSectorsMax,
        b.todo.replace loc (sectors \ t)⟩ := by
    have htotal : GoInt.uint64 (cardSum pre + k : ℕ) = addressedSectorsMax :=
      by rw [GoInt.uint64_of_lt (by omega)]; omega
    rw [htodo, batchLoop_append_fits pre _ _ (fun e he => ⟨(hpre e he).1, (hpre e he).2.1⟩)
      (by simp only [zero_add]; omega) (by simpa using hunder) (by simpa using hdecl)]
    simp only [List.nil_append, zero_add]
    rw [batchLoop, visit_of_crosses hloc (by omega) hcross hcard]
    dsimp only
    push_cast at htotal
    rw [htotal, if_pos (Or.inl le_rfl)]
  have hsendT : sendTerminations api (pre.map declOf ++ [⟨loc.deadline, loc.partition, t⟩]) =
      .ok mcid := by
    simp only [sendTerminations, hmi, Except.mapError, bind, Except.bind, haddr, hsend]
  have hpb : processBatch api b notif after =
      some (settle mcid { b with todo := b.todo.replace loc (sectors \ t) }
        (pre.map declOf ++ [⟨loc.deadline, loc.partition, t⟩]), .ok (some mcid)) := by
    simp only [processBatch, hdl, hcfg, hloop, Option.map_some]
    rw [if_neg (by simp), if_neg (by omega), if_neg (by omega), hsendT]
  refine ⟨_, t, hpb, settle_messages _ _ _, take_ascending_subset _ _, card_take_ascending hkle,
    ?_, ?_⟩
  · -- `settle` erases the locations of `pre`, then the one the slice wrote back into
    have hnd := b.todo.nodupKeys
    rw [htodo, List.NodupKeys, List.keys_append, List.nodup_append] at hnd
    have hnot : loc ∉ pre.keys := fun hm => hnd.2.2 loc hm loc (List.mem_cons_self) rfl
    have hrep : (b.todo.replace loc (sectors \ t)).entries =
        pre ++ ⟨loc, sectors \ t⟩ :: rest := by
      show (b.todo.entries.kreplace loc (sectors \ t)) = _
      have hsome : (if loc = loc then some (⟨loc, sectors \ t⟩ : Σ _ : SectorLocation, Finset ℕ)
          else none) = some ⟨loc, sectors \ t⟩ := if_pos rfl
      rw [htodo, kreplace_append_of_not_mem pre _ hnot, List.kreplace,
        List.lookmap_cons_some _ _ hsome]
    simp only [settle, List.foldl_append, List.foldl_cons, List.foldl_nil]
    rw [settleDeclaration_todo]
    show ((List.foldl (settleDeclaration mcid) _ (pre.map declOf)).todo.entries.kerase loc) = rest
    rw [todo_settle_leading mcid pre (⟨loc, sectors \ t⟩ :: rest) _ hrep, List.kerase_cons_eq (by rfl)]
  · -- the rest is in no declaration: not in `pre`'s, which are disjoint, and not in the slice
    intro sn hsn
    rw [Finset.mem_sdiff] at hsn
    refine waiters_settle_of_not_mem mcid _ _ fun d hd => ?_
    rcases List.mem_append.1 hd with hd | hd
    · obtain ⟨e, he, rfl⟩ := List.mem_map.1 hd
      exact Finset.disjoint_right.1 (hpre e he).2.2 hsn.1
    · rw [List.mem_singleton] at hd
      subst hd
      exact hsn.2

/-- The sectors of partition `j` when every partition is full: `WindowPoStPartitionSectors` is
2349 for 32 GiB and 64 GiB sectors. -/
def fullPartition (j : ℕ) : Finset ℕ :=
  Finset.Ico (2349 * j) (2349 * (j + 1))

/-- A chain whose proving deadline is `0`, whose deadline `5` has five full partitions, all live,
on which every call succeeds, with `TerminateBatchMax` raised to `AddressedSectorsMax`. -/
def fullPartitionsApi : TerminateBatcherApi where
  stateSectorPartition sn := .ok (some ⟨5, sn / 2349⟩)
  stateMinerProvingDeadline := .ok 0
  stateMinerPartitions _ := .ok ((List.range 5).map fullPartition)
  stateMinerInfo := .ok 0
  addrSel _ := .ok 0
  sendMsg _ _ := .ok 1
  getConfig := .ok ⟨10000, 1⟩

/-- The first four of the five partitions, each a whole location of `todo`. -/
def fullPre : List (Σ _ : SectorLocation, Finset ℕ) :=
  [⟨⟨5, 0⟩, fullPartition 0⟩, ⟨⟨5, 1⟩, fullPartition 1⟩, ⟨⟨5, 2⟩, fullPartition 2⟩,
    ⟨⟨5, 3⟩, fullPartition 3⟩]

/-- Every sector of the five partitions to terminate, with channel `0` waiting on the last one,
sector `11744`. -/
def fullBatcher : TerminateBatcher :=
  ⟨⟨fullPre ++ [⟨⟨5, 4⟩, fullPartition 4⟩], by unfold List.NodupKeys List.keys; decide⟩,
    AList.singleton 11744 [0], true, [11744], [], []⟩

theorem processBatch_drops_sliced_remainder_full :
    ∃ b' t, processBatch fullPartitionsApi fullBatcher true false = some (b', .ok (some 1)) ∧
      b'.messages = fullBatcher.messages ++ [(1, fullPre.map declOf ++ [⟨5, 4, t⟩])] ∧
      t ⊆ fullPartition 4 ∧ t.card = addressedSectorsMax - cardSum fullPre ∧
      b'.todo.entries = [] ∧ ∀ sn ∈ fullPartition 4 \ t, b'.waiters sn = fullBatcher.waiters sn := by
  have hcardj : ∀ j, (fullPartition j).card = 2349 := fun j => by
    simp only [fullPartition, Nat.card_Ico]
    omega
  -- every partition is live, outside the challenged deadlines
  have hlive : ∀ j < 5, LiveEntry fullPartitionsApi 0 ⟨⟨5, j⟩, fullPartition j⟩ := fun j hj =>
    ⟨rfl, _, fullPartition j, rfl, by simp [hj], subset_rfl⟩
  have hsum : cardSum fullPre = 9396 := by
    simp [cardSum, fullPre, hcardj]
  have hpre : ∀ e ∈ fullPre, LiveEntry fullPartitionsApi 0 e ∧ 0 < e.2.card ∧
      Disjoint e.2 (fullPartition 4) := by
    intro e he
    simp only [fullPre, List.mem_cons, List.not_mem_nil, or_false] at he
    -- the four partitions lie below the fifth
    have hdisj : ∀ j < 4, Disjoint (fullPartition j) (fullPartition 4) := fun j hj => by
      rw [Finset.disjoint_left]
      intro x hx hx4
      simp only [fullPartition, Finset.mem_Ico] at hx hx4
      omega
    rcases he with rfl | rfl | rfl | rfl
    all_goals exact ⟨hlive _ (by decide), by rw [hcardj]; decide, hdisj _ (by decide)⟩
  have htodo : fullBatcher.todo.entries = fullPre ++ ⟨⟨5, 4⟩, fullPartition 4⟩ :: [] := rfl
  exact processBatch_drops_sliced_remainder rfl rfl ⟨by decide, by decide⟩ htodo hpre
    (hlive 4 (by decide)) (by rw [hsum]; decide) (by decide) (by rw [hsum, hcardj]; decide)
    (by rw [hcardj]; decide) rfl rfl fun _ => rfl

end TerminateBatcher

end Sealing

end Lotus
