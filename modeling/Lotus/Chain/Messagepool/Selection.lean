import Lotus.Chain.Messagepool.HeadChange
import Lotus.Chain.Store.Coalescer
import Lotus.Lib.SortSlice

/-!
# Selecting the messages of a block (`chain/messagepool/selection.go`)

`SelectMessages` selects greedily when the ticket quality is above `0.84`
(`selectMessagesGreedy`), and cuts the result to `MaxBlockMessages`.  Greedy selection
loads the pending messages for the target tipset (`getPendingMessages`): the pool's own sets when
the target is the pool's head, and otherwise those sets moved to the target by
`runHeadChange`, which buffers a reverted message under its `From` as the message writes it
and its nonce.  The priority addresses' chains are then packed first (`selectPriorityMessages`),
and the other senders' chains after them, with the gas left.

A sender's pending messages become chains (`createMessageChains`): sorted by nonce, cut at the
first gap after the actor's nonce, at a message below its on-chain gas, at the block gas limit or
at the balance, and grouped so that each chain performs better than the next.  Packing
(`packChains`) takes the chains whole, best first, while they fit; then it trims the chain at the
edge, which invalidates the chains after it, pushes it down to its place, and goes on with the
gas left (`tailLoop`).  A chain is a pointer in the source; here it has an `id`, and `next` names
its successor by `id`.  Go's `sort.Slice` leaves the order of ties open, so the sort is a
parameter that meets its contract (`SortSlice.Sorts`).  A performance value is a `float64` in the
source; here it is any value of a linear order, so every result holds whatever they are.

**What holds.**  The messages greedy selection returns never use more gas than
`BlockGasLimit` (`selectMessagesGreedy_gas_le`).

**What does not.**  Out of sync with the pool's head, the reverted messages of one actor are
buffered under each form of its address their `From` takes.  An actor whose reverted tipset holds
its nonce-0 message written with its ID address in one block and another nonce-0 message written
with its key address in another gets two chains, one per address, both at its nonce: the block
selected holds two messages of the actor at nonce 0 (`selectMessagesGreedy_repeats_nonce`).
-/

namespace Lotus

/-- `gasguess.MinGas`. -/
def minGas : ℤ := 1298450

/-- `MaxBlockMessages`. -/
def maxBlockMessages : ℕ := 16000

/-- A `msgChain` with the fields chain building and greedy selection use: the chain's identity,
its messages, `gasReward`, `gasLimit`, `gasPerf`, `valid`, the chain `next` after it and the chain
`prev` before it. -/
structure MsgChain (P : Type) where
  id : ℕ
  msgs : List SignedMessage
  gasReward : ℤ
  gasLimit : ℤ
  gasPerf : P
  valid : Bool
  next : Option ℕ
  prev : Option ℕ
  deriving DecidableEq, Repr

/-- What selection reads of the state at the target tipset: `ChainComputeBaseFee`,
`GetActorAfter` (an actor's nonce and balance), the on-chain gas of storing a message from the
price list at the tipset's height, `getGasPerf`, and the configured `PriorityAddrs`. -/
structure SelectEnv (P : Type) where
  baseFee : ℤ
  actorAfter : Address → Option (ℕ × ℤ)
  onChainMessageGas : SignedMessage → ℤ
  gasPerf : ℤ → ℤ → P
  priorityAddrs : List Address

/-- Why greedy selection fails: `runHeadChange`'s errors, wrapped in "failed to process
difference between mpool head and given head". -/
inductive SelectError (TS Blk : Type)
  /-- "failed to compute reorg ops for mpool pending messages". -/
  | reorgOps (e : String)
  /-- The errors `runHeadChange` gathers in `merr`. -/
  | headChange (errs : List (HeadChangeError TS Blk))

namespace MsgChain

variable {P : Type} [LinearOrder P]

/-- `msgChain.Before`: better performance first, then the larger reward. -/
def before (c d : MsgChain P) : Bool :=
  decide (c.gasPerf > d.gasPerf) || (decide (c.gasPerf = d.gasPerf) && decide (c.gasReward > d.gasReward))

end MsgChain

namespace MessagePool

/-! ## Pending messages for the target tipset -/

section Pending

variable {Cid TS Blk : Type} [DecidableEq TS] (T : HeightTree TS) (chain : HeadChangeEnv Cid TS Blk)

/-- `rm` of `runHeadChange`: an applied message drops the buffered message of its `From` and
nonce, if there is one. -/
def bufferRm (rmsgs : AList (fun _ : Address => AList (fun _ : ℕ => SignedMessage)))
    (fromAddr : Address) (nonce : ℕ) : AList (fun _ : Address => AList (fun _ : ℕ => SignedMessage)) :=
  match rmsgs.lookup fromAddr with
  | some s => if nonce ∈ s then rmsgs.insert fromAddr (s.erase nonce) else rmsgs
  | none => rmsgs

/-- One reverted tipset of `runHeadChange`: its messages are buffered; a tipset whose messages
cannot be read adds its error. -/
def revertInto (st : AList (fun _ : Address => AList (fun _ : ℕ => SignedMessage)) ×
    List (HeadChangeError TS Blk)) (ts : TS) :
    AList (fun _ : Address => AList (fun _ : ℕ => SignedMessage)) × List (HeadChangeError TS Blk) :=
  match messagesForBlocks chain (chain.blocks ts) with
  | none => (st.1, st.2 ++ [.messagesForBlocks ts])
  | some msgs => (Run.run bufferAdd st.1 msgs, st.2)

/-- One block of an applied tipset: its signed and then its BLS messages drop what they apply. -/
def applyInto (st : AList (fun _ : Address => AList (fun _ : ℕ => SignedMessage)) ×
    List (HeadChangeError TS Blk)) (b : Blk) :
    AList (fun _ : Address => AList (fun _ : ℕ => SignedMessage)) × List (HeadChangeError TS Blk) :=
  match chain.messagesForBlock b with
  | none => (st.1, st.2 ++ [.messagesForBlock b])
  | some (bmsgs, smsgs) =>
    (Run.run (fun r m => bufferRm r m.fromAddr m.nonce)
      (Run.run (fun r sm => bufferRm r sm.message.fromAddr sm.message.nonce) st.1 smsgs) bmsgs, st.2)

/-- `runHeadChange`: the pending messages moved from `fromTs` to `toTs`, or what failed. -/
def runHeadChange (fromTs toTs : TS) (rmsgs : AList (fun _ : Address => AList (fun _ : ℕ => SignedMessage))) :
    Except (SelectError TS Blk) (AList (fun _ : Address => AList (fun _ : ℕ => SignedMessage))) :=
  match Store.reorgOps T fromTs toTs with
  | .error e => .error (.reorgOps e)
  | .ok (revert, apply) =>
    let reverted := Run.run (revertInto chain) (rmsgs, []) revert
    let applied := Run.run (fun st ts => Run.run (applyInto chain) st (chain.blocks ts)) reverted apply
    if applied.2 = [] then .ok applied.1 else .error (.headChange applied.2)

/-- The pool's pending messages, sender by sender. -/
def pendingMsgs (mp : MessagePool) : AList (fun _ : Address => AList (fun _ : ℕ => SignedMessage)) :=
  mp.pending.entries.foldr (fun e acc => acc.insert e.1 e.2.msgs) ∅

/-- `getPendingMessages`: the pool's pending messages when the target is its head `curTs`, and
otherwise those messages moved to the target. -/
def getPendingMessages (mp : MessagePool) (curTs ts : TS) :
    Except (SelectError TS Blk) (AList (fun _ : Address => AList (fun _ : ℕ => SignedMessage))) :=
  if curTs = ts then .ok (pendingMsgs mp) else runHeadChange T chain curTs ts (pendingMsgs mp)

end Pending

/-! ## Chains -/

section Chains

variable {P : Type} [LinearOrder P] [Zero P] (env : SelectEnv P)

/-- `getGasReward`: the premium, capped by the fee cap over the base fee, for every unit of gas
the message may use; a negative reward counts three times. -/
def getGasReward (m : SignedMessage) : ℤ :=
  let reward := min (m.message.gasFeeCap - env.baseFee) m.message.gasPremium *
    (m.message.gasLimit % 2 ^ 64)
  if reward < 0 then reward * 3 else reward

/-- The sanity loop of `createMessageChains` over the messages sorted by nonce: messages below
the actor's nonce are skipped, and it stops at a gap, at a message below its on-chain gas, past
the block gas limit, or at a balance short of the required funds.  It returns `skip`, the index
`i` it stopped at, and the rewards of the messages it accepted. -/
def sanityLoop : List SignedMessage → ℕ → ℤ → ℤ → ℕ → ℕ → List ℤ → ℕ × ℕ × List ℤ
  | [], _, _, _, skip, i, rewards => (skip, i, rewards)
  | m :: ms, curNonce, balance, gasLimit, skip, i, rewards =>
    if m.message.nonce < curNonce then sanityLoop ms curNonce balance gasLimit (skip + 1) (i + 1) rewards
    else if m.message.nonce ≠ curNonce then (skip, i, rewards)
    else if m.message.gasLimit < env.onChainMessageGas m then (skip, i, rewards)
    else if gasLimit + m.message.gasLimit > blockGasLimit then (skip, i, rewards)
    else if balance < m.message.requiredFunds then (skip, i, rewards)
    else
      sanityLoop ms (curNonce + 1) (balance - m.message.requiredFunds - m.message.value)
        (gasLimit + m.message.gasLimit) skip (i + 1) (rewards ++ [getGasReward env m])

/-- A chain under construction: its messages, reward, gas limit and performance. -/
structure ChainDraft (P : Type) where
  msgs : List SignedMessage
  gasReward : ℤ
  gasLimit : ℤ
  gasPerf : P

/-- `newChain`. -/
def newChain (m : SignedMessage) (reward : ℤ) : ChainDraft P :=
  ⟨[m], reward, m.message.gasLimit, env.gasPerf reward m.message.gasLimit⟩

/-- The first pass of `createMessageChains`: a message joins the current chain unless it lowers
the chain's performance.  The chains are returned last first, with the current one at the
head. -/
def buildChains : List (ChainDraft P) → List (SignedMessage × ℤ) → List (ChainDraft P)
  | acc, [] => acc
  | [], (m, r) :: rest => buildChains [newChain env m r] rest
  | cur :: done, (m, r) :: rest =>
    let gasReward := cur.gasReward + r
    let gasLimit := cur.gasLimit + m.message.gasLimit
    let gasPerf := env.gasPerf gasReward gasLimit
    if gasPerf < cur.gasPerf then buildChains (newChain env m r :: cur :: done) rest
    else buildChains (⟨cur.msgs ++ [m], gasReward, gasLimit, gasPerf⟩ :: done) rest

/-- One pass of the merge loop, from the last chain back: a chain that performs at least as well
as the one before it is merged into it.  The chains left, and how many were merged. -/
def mergePass : List (ChainDraft P) → List (ChainDraft P) × ℕ
  | [] => ([], 0)
  | c :: rest =>
    match mergePass rest with
    | ([], k) => ([c], k)
    | (d :: rest', k) =>
      if d.gasPerf ≥ c.gasPerf then
        (⟨c.msgs ++ d.msgs, c.gasReward + d.gasReward, c.gasLimit + d.gasLimit,
          env.gasPerf (c.gasReward + d.gasReward) (c.gasLimit + d.gasLimit)⟩ :: rest', k + 1)
      else (c :: d :: rest', k)

/-- The merge loop: passes until one merges nothing.  Each pass that merges shortens the list,
so as many passes as chains are enough. -/
def mergeChains : ℕ → List (ChainDraft P) → List (ChainDraft P)
  | 0, chains => chains
  | fuel + 1, chains =>
    match mergePass env chains with
    | (_, 0) => chains
    | (chains', _ + 1) => mergeChains fuel chains'

/-- The chains linked in order, numbered from `start`: each points to the one after it and to
the one before it, `prev`. -/
def linkChains (prev : Option ℕ) (start : ℕ) : List (ChainDraft P) → List (MsgChain P)
  | [] => []
  | [c] => [⟨start, c.msgs, c.gasReward, c.gasLimit, c.gasPerf, true, none, prev⟩]
  | c :: d :: rest =>
    ⟨start, c.msgs, c.gasReward, c.gasLimit, c.gasPerf, true, some (start + 1), prev⟩ ::
      linkChains (some start) (start + 1) (d :: rest)

/-- `createMessageChains` for `actor`'s messages `mset`, numbering the chains from `start`. -/
def createMessageChains (actor : Address) (mset : AList (fun _ : ℕ => SignedMessage)) (start : ℕ) :
    List (MsgChain P) :=
  let msgs := (mset.entries.map (·.2)).insertionSort fun a b => a.message.nonce ≤ b.message.nonce
  match env.actorAfter actor with
  | none => []
  | some (nonce, balance) =>
    let (skip, i, rewards) := sanityLoop env msgs nonce balance 0 0 0 []
    if i > skip then
      let accepted := (msgs.drop skip).take (i - skip)
      let drafts := (buildChains env [] (accepted.zip rewards)).reverse
      linkChains none start (mergeChains env drafts.length drafts)
    else []

/-- The chains of every sender of `pending`, numbered one after another from `start`. -/
def chainsOf (pending : List (Σ _ : Address, AList (fun _ : ℕ => SignedMessage))) (start : ℕ) :
    List (MsgChain P) :=
  match pending with
  | [] => []
  | ⟨actor, mset⟩ :: rest =>
    let cs := createMessageChains env actor mset start
    cs ++ chainsOf rest (start + cs.length)

end Chains

/-! ## Packing chains into the block -/

section Packing

variable {P : Type} [LinearOrder P] [Zero P] (env : SelectEnv P)

/-- The loop of `msgChain.Trim`, on the messages last first: drop the last message while the
chain is over `gasLimit` or performs below zero.  The messages kept, last first, with the reward,
gas limit and performance left. -/
def trimLoop (gasLimit : ℤ) : List SignedMessage → ℤ → ℤ → P → List SignedMessage × ℤ × ℤ × P
  | [], reward, limit, perf => ([], reward, limit, perf)
  | m :: rest, reward, limit, perf =>
    if limit > gasLimit ∨ perf < 0 then
      let reward' := reward - getGasReward env m
      let limit' := limit - m.message.gasLimit
      trimLoop gasLimit rest reward' limit' (if limit' > 0 then env.gasPerf reward' limit' else 0)
    else (m :: rest, reward, limit, perf)

/-- `msgChain.Trim` on the chain itself: a chain left with no message is no longer valid.  The
invalidation of the chains after it is `trimAt`'s. -/
def trim (c : MsgChain P) (gasLimit : ℤ) : MsgChain P :=
  match trimLoop env gasLimit c.msgs.reverse c.gasReward c.gasLimit c.gasPerf with
  | ([], reward, limit, perf) =>
    { c with msgs := [], gasReward := reward, gasLimit := limit, gasPerf := perf, valid := false }
  | (kept, reward, limit, perf) =>
    { c with msgs := kept.reverse, gasReward := reward, gasLimit := limit, gasPerf := perf }

/-- `msgChain.Invalidate` of the chain `id` and, through `next`, of every chain after it.  The
`next` links run along one sender's chains, so as many steps as chains are enough. -/
def invalidate : ℕ → List (MsgChain P) → ℕ → List (MsgChain P)
  | 0, chains, _ => chains
  | fuel + 1, chains, id =>
    match chains.find? (·.id = id) with
    | none => chains
    | some c =>
      let chains := chains.map fun d =>
        if d.id = id then { d with msgs := [], valid := false, next := none } else d
      match c.next with
      | none => chains
      | some j => invalidate fuel chains j

/-- `chains[last].Trim(gasLimit)`: the chain is trimmed and the chains after it invalidated. -/
def trimAt (chains : List (MsgChain P)) (last : ℕ) (gasLimit : ℤ) : List (MsgChain P) :=
  match chains[last]? with
  | none => chains
  | some c =>
    let chains := chains.set last { trim env c gasLimit with next := none }
    match c.next with
    | none => chains
    | some j => invalidate chains.length chains j

/-- Pushing a chain down past every chain it is not `before`. -/
def bubble (c : MsgChain P) : List (MsgChain P) → List (MsgChain P)
  | [] => [c]
  | d :: rest => if c.before d then c :: d :: rest else d :: bubble c rest

/-- The push-down of the tail loop: the chain at `last` moves down to its place. -/
def pushDown (chains : List (MsgChain P)) (last : ℕ) : List (MsgChain P) :=
  match chains.drop last with
  | [] => chains
  | c :: rest => chains.take last ++ bubble c rest

/-- The merge loop of packing: whole chains, best first, while they fit.  The messages and gas
left, and the index of the chain that does not fit, if one does not before a chain performs below
zero. -/
def mergeLoop : List (MsgChain P) → ℕ → ℤ → List SignedMessage →
    List SignedMessage × ℤ × Option ℕ
  | [], _, gasLimit, result => (result, gasLimit, none)
  | c :: rest, i, gasLimit, result =>
    if c.gasPerf < 0 then (result, gasLimit, none)
    else if c.gasLimit ≤ gasLimit then mergeLoop rest (i + 1) (gasLimit - c.gasLimit) (result ++ c.msgs)
    else (result, gasLimit, some i)

/-- How a scan of the tail loop ends. -/
inductive ScanEnd
  /-- Every chain was looked at. -/
  | done
  /-- A chain performs below zero. -/
  | negative
  /-- The chain this many places on does not fit, and is to be trimmed. -/
  | trimAt (i : ℕ)

/-- The inner loop of the tail loop over `chains[last:]`: skip invalid chains, take the chains
that fit, and stop at a chain that performs below zero or does not fit. -/
def scan : List (MsgChain P) → ℕ → ℤ → List SignedMessage → ScanEnd × ℤ × List SignedMessage
  | [], _, gasLimit, result => (.done, gasLimit, result)
  | c :: rest, i, gasLimit, result =>
    if !c.valid then scan rest (i + 1) gasLimit result
    else if c.gasPerf < 0 then (.negative, gasLimit, result)
    else if c.gasLimit ≤ gasLimit then scan rest (i + 1) (gasLimit - c.gasLimit) (result ++ c.msgs)
    else (.trimAt i, gasLimit, result)

/-- The start of a round of the tail loop: `chains[last]` is trimmed to the gas left, and pushed
down if it is still valid. -/
def trimAndPush (chains : List (MsgChain P)) (last : ℕ) (gasLimit : ℤ) : List (MsgChain P) :=
  let chains := trimAt env chains last gasLimit
  if (chains[last]?.map (·.valid)).getD false then pushDown chains last else chains

/-- The tail loop: while at least `MinGas` is left, trim the chain at `last`, push it down, and
scan on from it.  Each round trims a chain that does not fit, which drops at least one of its
messages, so one more round than there are messages is enough. -/
def tailLoop : ℕ → List (MsgChain P) → ℤ → List SignedMessage → ℕ → List SignedMessage × ℤ
  | 0, _, gasLimit, result, _ => (result, gasLimit)
  | fuel + 1, chains, gasLimit, result, last =>
    if gasLimit ≥ minGas ∧ last < chains.length then
      let chains := trimAndPush env chains last gasLimit
      match scan (chains.drop last) 0 gasLimit result with
      | (.trimAt i, gasLimit', result') => tailLoop fuel chains gasLimit' result' (last + i)
      | (_, gasLimit', result') => (result', gasLimit')
    else (result, gasLimit)

/-- The number of messages in the chains. -/
def msgCount (chains : List (MsgChain P)) : ℕ :=
  (chains.map (·.msgs.length)).sum

/-- The merge and tail loops of `selectPriorityMessages` and `selectMessagesGreedy` on the sorted
chains, from the messages already selected and the gas left. -/
def packChains (chains : List (MsgChain P)) (gasLimit : ℤ) (result : List SignedMessage) :
    List SignedMessage × ℤ :=
  match mergeLoop chains 0 gasLimit result with
  | (result', gasLimit', none) => (result', gasLimit')
  | (result', gasLimit', some last) =>
    tailLoop env (msgCount chains + 1) chains gasLimit' result' last

end Packing

/-! ## Selection -/

section Select

variable {P : Type} [LinearOrder P] [Zero P] (env : SelectEnv P) (api : PoolApi)
  (sortChains : List (MsgChain P) → List (MsgChain P))

/-- The loop of `selectPriorityMessages` over the priority addresses: each pending sender's
chains are added and the sender leaves `pending`.  It stops at an address that does not resolve,
and says whether every address did. -/
def priorityChains : List Address → List (MsgChain P) →
    AList (fun _ : Address => AList (fun _ : ℕ => SignedMessage)) →
    List (MsgChain P) × AList (fun _ : Address => AList (fun _ : ℕ => SignedMessage)) × Bool
  | [], chains, pending => (chains, pending, true)
  | actor :: rest, chains, pending =>
    match api.resolveToKey actor with
    | none => (chains, pending, false)
    | some pk =>
      match pending.lookup pk with
      | none => priorityChains rest chains pending
      | some mset =>
        priorityChains rest (chains ++ createMessageChains env actor mset chains.length) (pending.erase pk)

/-- `selectPriorityMessages`: the chains of the priority addresses found pending, packed from
the full block gas limit, with the gas left and the pending messages of the other senders.  An
address that does not resolve ends it with nothing selected. -/
def selectPriorityMessages (pending : AList (fun _ : Address => AList (fun _ : ℕ => SignedMessage))) :
    List SignedMessage × ℤ × AList (fun _ : Address => AList (fun _ : ℕ => SignedMessage)) :=
  match priorityChains env api env.priorityAddrs [] pending with
  | (_, pending', false) => ([], blockGasLimit, pending')
  | (chains, pending', true) =>
    match sortChains chains with
    | [] => ([], blockGasLimit, pending')
    | c :: rest =>
      if c.gasPerf < 0 then ([], blockGasLimit, pending')
      else
        let packed := packChains env (c :: rest) blockGasLimit []
        (packed.1, packed.2, pending')

variable {Cid TS Blk : Type} [DecidableEq TS] (T : HeightTree TS) (chain : HeadChangeEnv Cid TS Blk)

/-- `selectMessagesGreedy` for the target tipset `ts`, from the pool `mp` at `curTs`: the
priority messages, then the other senders' chains packed into the gas left. -/
def selectMessagesGreedy (mp : MessagePool) (curTs ts : TS) :
    Except (SelectError TS Blk) (List SignedMessage) :=
  match getPendingMessages T chain mp curTs ts with
  | .error e => .error e
  | .ok pending =>
    if pending.entries = [] then .ok []
    else
      let (result, gasLimit, pending') := selectPriorityMessages env api sortChains pending
      if gasLimit < minGas then .ok result
      else
        match sortChains (chainsOf env pending'.entries 0) with
        | [] => .ok result
        | c :: rest => if c.gasPerf < 0 then .ok result else .ok (packChains env (c :: rest) gasLimit result).1

/-- The end of `SelectMessages`: the selection cut to `MaxBlockMessages`. -/
def truncateSelection (msgs : List SignedMessage) : List SignedMessage :=
  if msgs.length > maxBlockMessages then msgs.take maxBlockMessages else msgs

end Select

end MessagePool

namespace MsgChain

variable {P : Type} [LinearOrder P]

/-- `Before` orders by performance, then by reward, the better first. -/
lemma before_eq_true_iff (c d : MsgChain P) :
    c.before d = true ↔ d.gasPerf < c.gasPerf ∨ (c.gasPerf = d.gasPerf ∧ d.gasReward < c.gasReward) := by
  simp [before]

/-- Sorting by `Before` with `List.insertionSort`. -/
def sortByBefore (l : List (MsgChain P)) : List (MsgChain P) :=
  l.insertionSort fun a b => (!b.before a) = true

/-- `sortByBefore` meets `sort.Slice`'s contract. -/
theorem before_sorts : SortSlice.Sorts before (sortByBefore (P := P)) := by
  refine SortSlice.insertionSort_sorts (fun a b c hba hcb => ?_) (fun a b => ?_)
  · rw [Bool.eq_false_iff, ne_eq, before_eq_true_iff] at hba hcb ⊢
    grind
  · rw [Bool.eq_false_iff, Bool.eq_false_iff, ne_eq, ne_eq, before_eq_true_iff, before_eq_true_iff]
    grind

end MsgChain

namespace MessagePool

/-! ## The block gas limit -/

/-- The gas the messages may use. -/
def gasSum (msgs : List SignedMessage) : ℤ :=
  (msgs.map (·.message.gasLimit)).sum

@[simp] lemma gasSum_nil : gasSum [] = 0 := rfl

@[simp] lemma gasSum_cons (m : SignedMessage) (msgs : List SignedMessage) :
    gasSum (m :: msgs) = m.message.gasLimit + gasSum msgs := by
  simp [gasSum]

@[simp] lemma gasSum_append (l₁ l₂ : List SignedMessage) : gasSum (l₁ ++ l₂) = gasSum l₁ + gasSum l₂ := by
  simp [gasSum]

@[simp] lemma gasSum_reverse (msgs : List SignedMessage) : gasSum msgs.reverse = gasSum msgs := by
  simp [gasSum, List.sum_reverse]

section Gas

variable {P : Type} (env : SelectEnv P)

/-- A valid chain's gas limit is that of its messages. -/
def ChainOk (c : MsgChain P) : Prop :=
  c.valid = true → c.gasLimit = gasSum c.msgs

/-- What is selected and the gas left add up to the block gas limit, and no gas is owed. -/
def Budget (result : List SignedMessage) (gasLimit : ℤ) : Prop :=
  gasSum result + gasLimit = blockGasLimit ∧ 0 ≤ gasLimit

/-- Taking a chain that fits keeps the budget. -/
lemma Budget.take {result : List SignedMessage} {gasLimit : ℤ} {c : MsgChain P}
    (h : Budget result gasLimit) (hc : c.gasLimit = gasSum c.msgs) (hfit : c.gasLimit ≤ gasLimit) :
    Budget (result ++ c.msgs) (gasLimit - c.gasLimit) := by
  obtain ⟨hsum, hpos⟩ := h
  refine ⟨?_, by omega⟩
  rw [gasSum_append]
  omega

/-- The trim loop drops each message with its gas. -/
lemma trimLoop_gasLimit [LinearOrder P] [Zero P] (g : ℤ) (rev : List SignedMessage) :
    ∀ (reward limit : ℤ) (perf : P), limit = gasSum rev →
      (trimLoop env g rev reward limit perf).2.2.1 = gasSum (trimLoop env g rev reward limit perf).1 := by
  induction rev with
  | nil => intro reward limit perf h; simpa [trimLoop] using h
  | cons m rest ih =>
    intro reward limit perf h
    rw [gasSum_cons] at h
    unfold trimLoop
    split
    · exact ih _ _ _ (by omega)
    · simpa using h

lemma chainOk_trim [LinearOrder P] [Zero P] {c : MsgChain P} (h : ChainOk c) (g : ℤ) : ChainOk (trim env c g) := by
  have hloop := trimLoop_gasLimit env g c.msgs.reverse c.gasReward c.gasLimit c.gasPerf
  unfold trim
  rcases hres : trimLoop env g c.msgs.reverse c.gasReward c.gasLimit c.gasPerf with
    ⟨kept, reward, limit, perf⟩
  rw [hres] at hloop
  cases kept with
  | nil => intro hv; simp at hv
  | cons k ks =>
    -- the kept messages, last first, are the chain's
    intro hv
    have hsum : c.gasLimit = gasSum c.msgs.reverse := by rw [gasSum_reverse]; exact h hv
    show limit = gasSum (k :: ks).reverse
    rw [gasSum_reverse]
    exact hloop hsum

lemma chainOk_invalidate (fuel : ℕ) :
    ∀ (chains : List (MsgChain P)) (id : ℕ), (∀ c ∈ chains, ChainOk c) →
      ∀ c ∈ invalidate fuel chains id, ChainOk c := by
  induction fuel with
  | zero => intro chains id h; simpa [invalidate] using h
  | succ fuel ih =>
    intro chains id h
    unfold invalidate
    -- the chains invalidated are no longer valid; the others are as they were
    have hmap : ∀ c ∈ chains.map (fun d : MsgChain P =>
        if d.id = id then { d with msgs := [], valid := false, next := none } else d), ChainOk c := by
      intro c hc
      obtain ⟨d, hd, rfl⟩ := List.mem_map.1 hc
      by_cases hid : d.id = id
      · intro hv; simp [hid] at hv
      · simpa [hid] using h d hd
    split
    · exact h
    · split
      · exact hmap
      · exact ih _ _ hmap

lemma chainOk_trimAt [LinearOrder P] [Zero P] {chains : List (MsgChain P)} (h : ∀ c ∈ chains, ChainOk c) (last : ℕ) (g : ℤ) :
    ∀ c ∈ trimAt env chains last g, ChainOk c := by
  unfold trimAt
  split
  · exact h
  · rename_i c hc
    have hset : ∀ d ∈ chains.set last { trim env c g with next := none }, ChainOk d := by
      intro d hd
      rcases List.mem_or_eq_of_mem_set hd with hd | rfl
      · exact h d hd
      · exact chainOk_trim env (h c (List.mem_of_getElem? hc)) g
    split
    · exact hset
    · exact chainOk_invalidate _ _ _ hset

lemma mem_bubble [LinearOrder P] {c x : MsgChain P} : ∀ {rest : List (MsgChain P)}, x ∈ bubble c rest → x = c ∨ x ∈ rest
  | [], h => by simpa [bubble] using h
  | d :: rest, h => by
    unfold bubble at h
    split at h
    · simpa using h
    · rcases List.mem_cons.1 h with rfl | h
      · exact .inr List.mem_cons_self
      · rcases mem_bubble h with rfl | h
        · exact .inl rfl
        · exact .inr (List.mem_cons_of_mem _ h)

lemma mem_pushDown [LinearOrder P] {chains : List (MsgChain P)} {last : ℕ} {x : MsgChain P}
    (h : x ∈ pushDown chains last) : x ∈ chains := by
  unfold pushDown at h
  split at h
  · exact h
  · rename_i c rest hdrop
    rw [← List.take_append_drop last chains, hdrop]
    rcases List.mem_append.1 h with h | h
    · exact List.mem_append_left _ h
    · rcases mem_bubble h with rfl | h
      · exact List.mem_append_right _ List.mem_cons_self
      · exact List.mem_append_right _ (List.mem_cons_of_mem _ h)

/-- A scan takes valid chains that fit, so it keeps the budget. -/
lemma scan_budget [LinearOrder P] [Zero P] : ∀ (chains : List (MsgChain P)) (i : ℕ) (g : ℤ) (result : List SignedMessage),
    (∀ c ∈ chains, ChainOk c) → Budget result g →
      Budget (scan chains i g result).2.2 (scan chains i g result).2.1
  | [], _, _, _, _, hb => hb
  | c :: rest, i, g, result, h, hb => by
    have hrest : ∀ d ∈ rest, ChainOk d := fun d hd => h d (List.mem_cons_of_mem _ hd)
    unfold scan
    split
    · exact scan_budget rest _ _ _ hrest hb
    · split
      · exact hb
      · split
        · rename_i hv _ hfit
          exact scan_budget rest _ _ _ hrest (hb.take (h c List.mem_cons_self (by simpa using hv)) hfit)
        · exact hb

/-- The tail loop keeps the budget, round by round. -/
lemma chainOk_trimAndPush [LinearOrder P] [Zero P] {chains : List (MsgChain P)}
    (h : ∀ c ∈ chains, ChainOk c) (last : ℕ) (g : ℤ) : ∀ c ∈ trimAndPush env chains last g, ChainOk c := by
  have htrim := chainOk_trimAt env h last g
  unfold trimAndPush
  dsimp only
  split
  · exact fun c hc => htrim c (mem_pushDown hc)
  · exact htrim

lemma tailLoop_budget [LinearOrder P] [Zero P] (fuel : ℕ) : ∀ (chains : List (MsgChain P)) (g : ℤ) (result : List SignedMessage)
    (last : ℕ), (∀ c ∈ chains, ChainOk c) → Budget result g →
      Budget (tailLoop env fuel chains g result last).1 (tailLoop env fuel chains g result last).2 := by
  induction fuel with
  | zero => intro chains g result last _ hb; exact hb
  | succ fuel ih =>
    intro chains g result last h hb
    unfold tailLoop
    split
    · -- the chains after the trim and the push-down are still well formed
      have hpush := chainOk_trimAndPush env h last g
      have hscan := scan_budget ((trimAndPush env chains last g).drop last) 0 g result
        (fun c hc => hpush c (List.mem_of_mem_drop hc)) hb
      dsimp only
      rcases hres : scan ((trimAndPush env chains last g).drop last) 0 g result with ⟨e, g', r'⟩
      rw [hres] at hscan
      cases e with
      | trimAt i => exact ih _ _ _ _ hpush hscan
      | done => exact hscan
      | negative => exact hscan
    · exact hb

/-- The merge loop takes chains that fit, so it keeps the budget. -/
lemma mergeLoop_budget [LinearOrder P] [Zero P] : ∀ (chains : List (MsgChain P)) (i : ℕ) (g : ℤ) (result : List SignedMessage),
    (∀ c ∈ chains, c.gasLimit = gasSum c.msgs) → Budget result g →
      Budget (mergeLoop chains i g result).1 (mergeLoop chains i g result).2.1
  | [], _, _, _, _, hb => hb
  | c :: rest, i, g, result, h, hb => by
    unfold mergeLoop
    split
    · exact hb
    · split
      · rename_i hfit
        exact mergeLoop_budget rest _ _ _ (fun d hd => h d (List.mem_cons_of_mem _ hd))
          (hb.take (h c List.mem_cons_self) hfit)
      · exact hb

/-- Packing fresh chains keeps the budget. -/
lemma packChains_budget [LinearOrder P] [Zero P] {chains : List (MsgChain P)} {g : ℤ} {result : List SignedMessage}
    (h : ∀ c ∈ chains, c.valid = true ∧ c.gasLimit = gasSum c.msgs) (hb : Budget result g) :
    Budget (packChains env chains g result).1 (packChains env chains g result).2 := by
  have hmerge := mergeLoop_budget chains 0 g result (fun c hc => (h c hc).2) hb
  unfold packChains
  split
  · rename_i h'; rw [h'] at hmerge; exact hmerge
  · rename_i h'; rw [h'] at hmerge
    exact tailLoop_budget env _ _ _ _ _ (fun c hc _ => (h c hc).2) hmerge

end Gas

end MessagePool

namespace MessagePool

section Fresh

variable {P : Type} (env : SelectEnv P)

/-- A valid chain whose gas limit is that of its messages, as chains start out. -/
def Fresh (c : MsgChain P) : Prop :=
  c.valid = true ∧ c.gasLimit = gasSum c.msgs

/-- A chain under construction whose gas limit is that of its messages. -/
def DraftOk (d : ChainDraft P) : Prop :=
  d.gasLimit = gasSum d.msgs

lemma buildChains_ok [LinearOrder P] : ∀ (acc : List (ChainDraft P)) (ms : List (SignedMessage × ℤ)),
    (∀ d ∈ acc, DraftOk d) → ∀ d ∈ buildChains env acc ms, DraftOk d
  | acc, [], h => by simpa [buildChains] using h
  | [], (m, r) :: rest, _ => by
    unfold buildChains
    exact buildChains_ok _ rest (by simp [DraftOk, newChain])
  | cur :: done, (m, r) :: rest, h => by
    have hcur : DraftOk cur := h cur List.mem_cons_self
    unfold buildChains
    dsimp only
    split
    · -- a new chain starts at `m`
      refine buildChains_ok _ rest fun d hd => ?_
      rcases List.mem_cons.1 hd with rfl | hd
      · simp [DraftOk, newChain]
      · exact h d hd
    · -- `m` joins the current chain
      refine buildChains_ok _ rest fun d hd => ?_
      rcases List.mem_cons.1 hd with rfl | hd
      · simp only [DraftOk, gasSum_append, gasSum_cons, gasSum_nil]
        rw [hcur]
        omega
      · exact h d (List.mem_cons_of_mem _ hd)

lemma mergePass_ok [LinearOrder P] : ∀ (chains : List (ChainDraft P)), (∀ d ∈ chains, DraftOk d) →
    ∀ d ∈ (mergePass env chains).1, DraftOk d
  | [], _ => by simp [mergePass]
  | c :: rest, h => by
    have hc : DraftOk c := h c List.mem_cons_self
    have ih := mergePass_ok rest fun d hd => h d (List.mem_cons_of_mem _ hd)
    unfold mergePass
    split
    · rename_i k hrest
      simpa using hc
    · rename_i d rest' k hrest
      rw [hrest] at ih
      have hd : DraftOk d := ih d List.mem_cons_self
      split
      · -- `d` is merged into `c`
        intro x hx
        rcases List.mem_cons.1 hx with rfl | hx
        · simp only [DraftOk, gasSum_append]
          rw [hc, hd]
        · exact ih x (List.mem_cons_of_mem _ hx)
      · intro x hx
        rcases List.mem_cons.1 hx with rfl | hx
        · exact hc
        · exact ih x hx

lemma mergeChains_ok [LinearOrder P] (fuel : ℕ) : ∀ (chains : List (ChainDraft P)), (∀ d ∈ chains, DraftOk d) →
    ∀ d ∈ mergeChains env fuel chains, DraftOk d := by
  induction fuel with
  | zero => intro chains h; simpa [mergeChains] using h
  | succ fuel ih =>
    intro chains h
    unfold mergeChains
    split
    · exact h
    · rename_i chains' k hpass
      have hok := mergePass_ok env chains h
      rw [hpass] at hok
      exact ih _ hok

lemma linkChains_fresh : ∀ (prev : Option ℕ) (start : ℕ) (drafts : List (ChainDraft P)),
    (∀ d ∈ drafts, DraftOk d) → ∀ c ∈ linkChains prev start drafts, Fresh c
  | _, _, [], _ => by simp [linkChains]
  | prev, start, [d], h => by
    simpa [linkChains, Fresh, DraftOk] using h d List.mem_cons_self
  | prev, start, d :: e :: rest, h => by
    intro c hc
    unfold linkChains at hc
    rcases List.mem_cons.1 hc with rfl | hc
    · exact ⟨rfl, h d List.mem_cons_self⟩
    · exact linkChains_fresh (some start) (start + 1) (e :: rest)
        (fun x hx => h x (List.mem_cons_of_mem _ hx)) c hc

lemma createMessageChains_fresh [LinearOrder P] (actor : Address) (mset : AList (fun _ : ℕ => SignedMessage))
    (start : ℕ) : ∀ c ∈ createMessageChains env actor mset start, Fresh c := by
  unfold createMessageChains
  dsimp only
  split
  · simp
  · split
    · refine linkChains_fresh _ _ _ (mergeChains_ok env _ _ fun d hd => ?_)
      exact buildChains_ok env [] _ (by simp) d (List.mem_reverse.1 hd)
    · simp

lemma chainsOf_fresh [LinearOrder P] : ∀ (pending : List (Σ _ : Address, AList (fun _ : ℕ => SignedMessage)))
    (start : ℕ), ∀ c ∈ chainsOf env pending start, Fresh c
  | [], _ => by simp [chainsOf]
  | ⟨actor, mset⟩ :: rest, start => by
    intro c hc
    unfold chainsOf at hc
    rcases List.mem_append.1 hc with hc | hc
    · exact createMessageChains_fresh env actor mset start c hc
    · exact chainsOf_fresh rest _ c hc

lemma priorityChains_fresh [LinearOrder P] (api : PoolApi) : ∀ (addrs : List Address) (chains : List (MsgChain P))
    (pending : AList (fun _ : Address => AList (fun _ : ℕ => SignedMessage))),
    (∀ c ∈ chains, Fresh c) → ∀ c ∈ (priorityChains env api addrs chains pending).1, Fresh c
  | [], _, _, h => h
  | actor :: rest, chains, pending, h => by
    unfold priorityChains
    split
    · exact h
    · split
      · exact priorityChains_fresh api rest _ _ h
      · refine priorityChains_fresh api rest _ _ fun c hc => ?_
        rcases List.mem_append.1 hc with hc | hc
        · exact h c hc
        · exact createMessageChains_fresh env actor _ _ c hc

variable [LinearOrder P] [Zero P] (api : PoolApi) {sortChains : List (MsgChain P) → List (MsgChain P)}

/-- The priority messages and the gas left keep the budget. -/
lemma selectPriorityMessages_budget (hsort : SortSlice.Sorts MsgChain.before sortChains)
    (pending : AList (fun _ : Address => AList (fun _ : ℕ => SignedMessage))) :
    Budget (selectPriorityMessages env api sortChains pending).1
      (selectPriorityMessages env api sortChains pending).2.1 := by
  have hstart : Budget [] blockGasLimit := ⟨by simp, by decide⟩
  unfold selectPriorityMessages
  split
  · exact hstart
  · rename_i chains pending' hchains
    have hfresh := priorityChains_fresh env api env.priorityAddrs [] pending (by simp)
    rw [hchains] at hfresh
    split
    · exact hstart
    · rename_i c rest hsorted
      split
      · exact hstart
      · -- the sort only reorders the fresh chains
        have hmem : ∀ x ∈ c :: rest, Fresh x := fun x hx =>
          hfresh x ((hsort chains).1.subset (hsorted ▸ hx))
        exact packChains_budget env hmem hstart

variable {Cid TS Blk : Type} [DecidableEq TS] (T : HeightTree TS) (chain : HeadChangeEnv Cid TS Blk)

/-- **Greedy selection stays within the block gas limit**: whatever the pool, the target
tipset, the chain and state answers and the performance values, the messages it selects use at
most `BlockGasLimit` gas. -/
theorem selectMessagesGreedy_gas_le (hsort : SortSlice.Sorts MsgChain.before sortChains)
    {mp : MessagePool} {curTs ts : TS} {msgs : List SignedMessage}
    (h : selectMessagesGreedy env api sortChains T chain mp curTs ts = .ok msgs) :
    gasSum msgs ≤ blockGasLimit := by
  unfold selectMessagesGreedy at h
  split at h
  · cases h
  · rename_i pending _
    split at h
    · cases h
      decide
    · have hprio := selectPriorityMessages_budget env api hsort pending
      -- the other senders' chains are packed into the gas the priority messages left
      rcases hsel : selectPriorityMessages env api sortChains pending with ⟨result, gasLimit, pending'⟩
      rw [hsel] at hprio h
      dsimp only at hprio h
      have hle : gasSum result ≤ blockGasLimit := by linarith [hprio.1, hprio.2]
      split at h
      · cases h
        exact hle
      · split at h
        · cases h
          exact hle
        · rename_i c rest hsorted
          have hmem : ∀ x ∈ c :: rest, Fresh x := fun x hx =>
            chainsOf_fresh env _ 0 x ((hsort _).1.subset (hsorted ▸ hx))
          have hpack := packChains_budget env hmem hprio
          split at h
          · cases h
            exact hle
          · cases h
            linarith [hpack.1, hpack.2]

end Fresh

end MessagePool

namespace MessagePool

/-! ## An actor whose address two blocks write two ways -/

/-- `getGasPerf`, computed exactly: the reward for a whole block's gas at the chain's rate. -/
def getGasPerf (gasReward gasLimit : ℤ) : ℚ :=
  ((gasReward * blockGasLimit : ℤ) : ℚ) / gasLimit

/-- The pool's head 2 has two blocks: block 20 holds the actor's nonce-0 transfer written with
its ID address, block 21 another nonce-0 transfer written with its key address.  The target 3, a
sibling of 2, has one empty block. -/
def twoFormsChain : HeadChangeEnv Message ℕ ℕ where
  loadParent _ := some 1
  blocks ts := if ts = 2 then [20, 21] else [ts * 10]
  messagesForBlock b :=
    some ([], if b = 20 then [transferFrom idAddr 1] else if b = 21 then [transferFrom keyAddr 2] else [])
  messageCid := id
  blsSigCache _ := none
  republished _ := false

/-- The state at 3: no base fee, the actor at nonce 0 with a large balance, 1000 gas to store a
message, exact performance, and no priority address. -/
def twoFormsEnv : SelectEnv ℚ where
  baseFee := 0
  actorAfter _ := some (0, 10 ^ 18)
  onChainMessageGas _ := 1000
  gasPerf := getGasPerf
  priorityAddrs := []

/-- A pool with nothing pending. -/
def emptyPool : MessagePool :=
  ⟨∅, 0, []⟩

/-- **Two messages of one actor at one nonce.**  Selecting greedily for 3 from the pool at 2
(a run of `sort.Slice` by `Before`), the actor's two reverted nonce-0 messages are buffered under
its two addresses, each starts a chain at the actor's nonce 0, and both are selected, in a block
`SelectMessages` does not cut. -/
theorem selectMessagesGreedy_repeats_nonce :
    SortSlice.Sorts MsgChain.before (MsgChain.sortByBefore (P := ℚ)) ∧
      (selectMessagesGreedy twoFormsEnv aliasApi MsgChain.sortByBefore Store.forkTree twoFormsChain
        emptyPool 2 3).toOption = some [transferFrom keyAddr 2, transferFrom idAddr 1] ∧
      truncateSelection [transferFrom keyAddr 2, transferFrom idAddr 1] =
        [transferFrom keyAddr 2, transferFrom idAddr 1] ∧
      aliasApi.resolveToKey idAddr = some keyAddr ∧ aliasApi.resolveToKey keyAddr = some keyAddr ∧
      (twoFormsEnv.actorAfter keyAddr).map Prod.fst = some 0 ∧
      [transferFrom keyAddr 2, transferFrom idAddr 1].map (·.message.nonce) = [0, 0] :=
  ⟨MsgChain.before_sorts, by decide +kernel, by decide, by decide, by decide, rfl, rfl⟩

/-- The block greedy selection packs from the two address forms stays within the gas limit. -/
theorem selectMessagesGreedy_gas_le_twoForms :
    gasSum [transferFrom keyAddr 2, transferFrom idAddr 1] ≤ blockGasLimit := by
  -- the kernel runs the selection; its result is read back from `toOption`
  have hsel : (selectMessagesGreedy twoFormsEnv aliasApi MsgChain.sortByBefore Store.forkTree
      twoFormsChain emptyPool 2 3).toOption = some [transferFrom keyAddr 2, transferFrom idAddr 1] := by
    decide +kernel
  revert hsel
  generalize hr : selectMessagesGreedy twoFormsEnv aliasApi MsgChain.sortByBefore Store.forkTree
    twoFormsChain emptyPool 2 3 = r
  cases r with
  | error e => simp [Except.toOption]
  | ok l =>
    intro hl
    cases hl
    exact @selectMessagesGreedy_gas_le ℚ twoFormsEnv _ _ aliasApi MsgChain.sortByBefore _ _ _ _
      Store.forkTree twoFormsChain MsgChain.before_sorts emptyPool 2 3 _ hr

end MessagePool

end Lotus
