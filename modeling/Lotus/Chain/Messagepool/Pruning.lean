import Mathlib
import Lotus.Chain.Messagepool.MessageChains

/-!
# Pruning the pool (`pruneMessages`)

When the pool has grown past `SizeLimitHigh`, `pruneMessages` cuts it back towards
`SizeLimitLow`.  The actors it protects (the keys of the configured priority addresses and the
local addresses) keep all their messages, which count towards the low water mark.  Every other
sender's messages are first marked for removal by their CID, and that sender's chains are built
as for a block, at the lower bound of the base fee.  The chains of all senders are sorted best
first, and their messages are kept, one after another, while fewer than `SizeLimitLow` are kept.
Whatever is still marked is then removed.

For a pool whose sets are stored under their senders' keys and by nonce (`PendingKeyed`), and
CIDs that tell messages apart, `pruneMessages_spec` says what is left: every message of a
protected actor; at most `SizeLimitLow` less the protected messages of the others; and of each
other sender, a run of its nonces from the actor's nonce, that is, a prefix of its chains.  That
the order of one sender's chains survives the sort is `SortSlice.filter_mem_sort`: its chains
strictly decrease in performance, and the sort may only reorder ties.
-/

namespace Lotus

namespace MessagePool

/-- `baseFeeLowerBoundFactor`. -/
def baseFeeLowerBoundFactor : ℤ := 10

/-- `build.MinimumBaseFee`, in attoFIL. -/
def minimumBaseFee : ℤ := 100

/-- `getBaseFeeLowerBound`: the base fee divided by the factor, and at least the minimum. -/
def getBaseFeeLowerBound (baseFee factor : ℤ) : ℤ :=
  if baseFee / factor < minimumBaseFee then minimumBaseFee else baseFee / factor

section Prune

variable {P : Type} [LinearOrder P] [Zero P] (env : SelectEnv P) (api : PoolApi)
  {Cid : Type} [DecidableEq Cid] (cid : Message → Cid)

/-- The selection environment at the lower bound of the base fee, at which `pruneMessages` builds
the chains. -/
def lowerBoundEnv : SelectEnv P :=
  { env with baseFee := getBaseFeeLowerBound env.baseFee baseFeeLowerBoundFactor }

/-- The protected actors: the key of each priority address (the undefined address where it does
not resolve) and the local addresses. -/
def protectedActors (mp : MessagePool) : List Address :=
  env.priorityAddrs.map (fun a => (api.resolveToKey a).getD Address.undef) ++ mp.localAddrs

omit [LinearOrder P] [Zero P] in
/-- The key a priority address resolves to, and a local sender, are protected. -/
lemma mem_protectedActors {mp : MessagePool} {K : Address}
    (hprot : (∃ a ∈ env.priorityAddrs, api.resolveToKey a = some K) ∨ K ∈ mp.localAddrs) :
    K ∈ protectedActors env api mp := by
  rcases hprot with ⟨a, ha, hK⟩ | hl
  · refine List.mem_append_left _ (List.mem_map.2 ⟨a, ha, ?_⟩)
    rw [hK]
    rfl
  · exact List.mem_append_right _ hl

/-- The loop over the pending senders.  A protected sender's messages are counted as kept; every
other sender's messages are marked for removal by their CID, and its chains, numbered on from
those before, are added. -/
def collectPrune (protectedAddrs : List Address) :
    List (Σ _ : Address, AList (fun _ : ℕ => SignedMessage)) → ℤ →
      AList (fun _ : Cid => SignedMessage) → List (MsgChain P) →
      ℤ × AList (fun _ : Cid => SignedMessage) × List (MsgChain P)
  | [], keepCount, pruneMsgs, chains => (keepCount, pruneMsgs, chains)
  | ⟨actor, mset⟩ :: rest, keepCount, pruneMsgs, chains =>
    if actor ∈ protectedAddrs then
      collectPrune protectedAddrs rest (keepCount + AList.size mset) pruneMsgs chains
    else
      collectPrune protectedAddrs rest keepCount
        (mset.entries.foldl (fun pm e => pm.insert (cid e.2.message) e.2) pruneMsgs)
        (chains ++ createMessageChains env actor mset chains.length)

/-- The keep loop over the messages of the sorted chains: while fewer than `loWaterMark` are
kept, the next message is kept, its mark removed; at the mark the loop breaks. -/
def keepLoop (loWaterMark : ℤ) : List SignedMessage → ℤ → AList (fun _ : Cid => SignedMessage) →
    ℤ × AList (fun _ : Cid => SignedMessage)
  | [], keepCount, pruneMsgs => (keepCount, pruneMsgs)
  | m :: ms, keepCount, pruneMsgs =>
    if keepCount < loWaterMark then
      keepLoop loWaterMark ms (keepCount + 1) (pruneMsgs.erase (cid m.message))
    else (keepCount, pruneMsgs)

/-- `pruneMessages` at the pool's head, whose base fee is `env.baseFee`, with `sort.Slice` of the
chains by `Before` and the configured `SizeLimitLow`. -/
def pruneMessages (sortChains : List (MsgChain P) → List (MsgChain P)) (sizeLimitLow : ℤ)
    (mp : MessagePool) : MessagePool :=
  let (keepCount, pruneMsgs, chains) :=
    collectPrune (lowerBoundEnv env) cid (protectedActors env api mp) (pendingMsgs mp).entries 0 ∅ []
  let (_, pruneMsgs) :=
    keepLoop cid sizeLimitLow ((sortChains chains).flatMap (·.msgs)) keepCount pruneMsgs
  (pruneMsgs.entries.map (·.2)).foldl
    (fun mp m => mp.remove api m.message.fromAddr m.message.nonce false) mp

/-! ## The loops -/

/-- The senders of a list of pending sets that are not protected. -/
def unprotected (protectedAddrs : List Address)
    (pending : List (Σ _ : Address, AList (fun _ : ℕ => SignedMessage))) :
    List (Σ _ : Address, AList (fun _ : ℕ => SignedMessage)) :=
  pending.filter fun e => e.1 ∉ protectedAddrs

/-- The messages of the pending sets, in order. -/
def allMsgs (pending : List (Σ _ : Address, AList (fun _ : ℕ => SignedMessage))) :
    List SignedMessage :=
  pending.flatMap fun e => e.2.entries.map (·.2)

omit [Zero P] in
/-- **The collecting loop** counts the protected messages, marks the others, and builds the
chains of the unprotected senders. -/
lemma collectPrune_eq (protectedAddrs : List Address) :
    ∀ (pending : List (Σ _ : Address, AList (fun _ : ℕ => SignedMessage))) (keepCount : ℤ)
      (pruneMsgs : AList (fun _ : Cid => SignedMessage)) (chains : List (MsgChain P)),
      collectPrune env cid protectedAddrs pending keepCount pruneMsgs chains =
        (keepCount + (((pending.filter fun e => e.1 ∈ protectedAddrs).map fun e =>
            (AList.size e.2 : ℤ)).sum),
          (allMsgs (unprotected protectedAddrs pending)).foldl
            (fun pm m => pm.insert (cid m.message) m) pruneMsgs,
          chains ++ chainsOf env (unprotected protectedAddrs pending) chains.length)
  | [], keepCount, pruneMsgs, chains => by simp [collectPrune, unprotected, allMsgs, chainsOf]
  | ⟨actor, mset⟩ :: rest, keepCount, pruneMsgs, chains => by
    by_cases hp : actor ∈ protectedAddrs
    · rw [collectPrune, if_pos hp, collectPrune_eq protectedAddrs rest]
      simp [unprotected, hp, add_assoc]
    · rw [collectPrune, if_neg hp, collectPrune_eq protectedAddrs rest]
      simp [unprotected, allMsgs, hp, chainsOf, List.foldl_map, List.foldl_append]

/-- **The keep loop** keeps the first `min (length) (loWaterMark - keepCount)` messages. -/
lemma keepLoop_eq (loWaterMark : ℤ) : ∀ (ms : List SignedMessage) (keepCount : ℤ)
    (pruneMsgs : AList (fun _ : Cid => SignedMessage)),
      keepLoop cid loWaterMark ms keepCount pruneMsgs =
        (keepCount + min ms.length (loWaterMark - keepCount).toNat,
          (ms.take (min ms.length (loWaterMark - keepCount).toNat)).foldl
            (fun pm m => pm.erase (cid m.message)) pruneMsgs)
  | [], keepCount, pruneMsgs => by simp [keepLoop]
  | m :: ms, keepCount, pruneMsgs => by
    rw [keepLoop]
    split_ifs with h
    · -- one more is kept, and the mark is one nearer
      have hj : min (m :: ms).length (loWaterMark - keepCount).toNat =
          min ms.length (loWaterMark - (keepCount + 1)).toNat + 1 := by
        simp only [List.length_cons]
        omega
      rw [keepLoop_eq loWaterMark ms, hj, List.take_succ_cons, List.foldl_cons]
      simp only [Prod.mk.injEq, and_true]
      push_cast
      omega
    · have hj : min (m :: ms).length (loWaterMark - keepCount).toNat = 0 := by omega
      rw [hj]
      simp

/-! ## What is removed -/

/-- The chains `pruneMessages` builds: those of the senders it does not protect. -/
def pruneChains (mp : MessagePool) : List (MsgChain P) :=
  chainsOf (lowerBoundEnv env) (unprotected (protectedActors env api mp) (pendingMsgs mp).entries) 0

/-- The number of messages of the protected actors, where the keep loop starts counting. -/
def protectedCount (mp : MessagePool) : ℤ :=
  (((pendingMsgs mp).entries.filter fun e => e.1 ∈ protectedActors env api mp).map fun e =>
    (AList.size e.2 : ℤ)).sum

/-- The messages the keep loop keeps: the first ones of the sorted chains, up to the low water
mark. -/
def keptMsgs (sortChains : List (MsgChain P) → List (MsgChain P)) (sizeLimitLow : ℤ)
    (mp : MessagePool) : List SignedMessage :=
  ((sortChains (pruneChains env api mp)).flatMap (·.msgs)).take
    (min ((sortChains (pruneChains env api mp)).flatMap (·.msgs)).length
      (sizeLimitLow - protectedCount env api mp).toNat)

omit [Zero P] in
/-- The messages left marked for removal are those of the unprotected senders, without the kept
ones. -/
lemma pruneMessages_eq (sortChains : List (MsgChain P) → List (MsgChain P)) (sizeLimitLow : ℤ)
    (mp : MessagePool) :
    pruneMessages env api cid sortChains sizeLimitLow mp =
      (((keptMsgs env api sortChains sizeLimitLow mp).foldl
          (fun (pm : AList (fun _ : Cid => SignedMessage)) m => pm.erase (cid m.message))
          ((allMsgs (unprotected (protectedActors env api mp) (pendingMsgs mp).entries)).foldl
            (fun pm m => pm.insert (cid m.message) m) ∅)).entries.map (·.2)).foldl
        (fun mp m => mp.remove api m.message.fromAddr m.message.nonce false) mp := by
  simp only [pruneMessages, collectPrune_eq, keepLoop_eq, zero_add, List.nil_append, List.length_nil]
  rfl

/-! ## Counting the pending messages -/

/-- The number of pending messages of the senders that `p` selects. -/
def countPending (mp : MessagePool) (p : Address → Prop) [DecidablePred p] : ℕ :=
  ((mp.pending.entries.filter fun e => p e.1).map fun e => AList.size e.2.msgs).sum

/-- The keys and nonces of those messages. -/
def heldKeys (mp : MessagePool) (p : Address → Prop) [DecidablePred p] : List (Address × ℕ) :=
  (mp.pending.entries.filter fun e => p e.1).flatMap fun e => e.2.msgs.keys.map (e.1, ·)

section Count

variable {mp : MessagePool} {p : Address → Prop} [DecidablePred p]

lemma length_heldKeys : (heldKeys mp p).length = countPending mp p := by
  simp [heldKeys, countPending, List.length_flatMap, AList.size]

lemma heldKeys_nodup : (heldKeys mp p).Nodup := by
  rw [heldKeys, List.nodup_flatMap]
  refine ⟨fun e _ => e.2.msgs.keys_nodup.map (Prod.mk_right_injective e.1), ?_⟩
  -- the senders' keys differ, so their pairs do
  refine ((List.nodupKeys_iff_pairwise.1 mp.pending.nodupKeys).filter _).imp fun hne => ?_
  refine List.disjoint_left.2 fun x hx hx' => ?_
  obtain ⟨n, -, rfl⟩ := List.mem_map.1 hx
  obtain ⟨n', -, h⟩ := List.mem_map.1 hx'
  exact hne (Prod.mk.inj h).1.symm

lemma mem_heldKeys {K : Address} {n : ℕ} : (K, n) ∈ heldKeys mp p ↔ p K ∧ ∃ m, Holds mp K n m := by
  simp only [heldKeys, List.mem_flatMap, List.mem_filter, List.mem_map, decide_eq_true_eq,
    Prod.mk.injEq]
  constructor
  · rintro ⟨e, ⟨he, hp⟩, n', hn', rfl, rfl⟩
    obtain ⟨m, hm⟩ := Option.isSome_iff_exists.1 (AList.lookup_isSome.2 (AList.mem_keys.2 hn'))
    exact ⟨hp, m, e.2, AList.mem_lookup_iff.2 he, hm⟩
  · rintro ⟨hp, m, ms, hK, hm⟩
    refine ⟨⟨K, ms⟩, ⟨AList.mem_lookup_iff.1 hK, hp⟩, n, ?_, rfl, rfl⟩
    exact AList.mem_keys.1 (AList.lookup_isSome.1 (by simp [hm]))

/-- The messages `p` selects number at most the length of a list that holds the key and nonce of
each. -/
lemma countPending_le (L : List (Address × ℕ)) (h : ∀ K n m, p K → Holds mp K n m → (K, n) ∈ L) :
    countPending mp p ≤ L.length := by
  rw [← length_heldKeys]
  refine (List.subperm_of_subset heldKeys_nodup fun x hx => ?_).length_le
  obtain ⟨hp, m, hm⟩ := mem_heldKeys.1 hx
  exact h x.1 x.2 m hp hm

end Count

/-- The pending sets `pruneMessages` reads are the pool's. -/
lemma pendingMsgs_entries (mp : MessagePool) :
    (pendingMsgs mp).entries = mp.pending.entries.map fun e => ⟨e.1, e.2.msgs⟩ := by
  unfold pendingMsgs
  exact AList.entries_foldr_insert MsgSet.msgs _ mp.pending.nodupKeys

omit [LinearOrder P] [Zero P] in
/-- The keep loop starts from the number of protected messages. -/
lemma protectedCount_eq (mp : MessagePool) :
    protectedCount env api mp = countPending mp (· ∈ protectedActors env api mp) := by
  simp [protectedCount, countPending, pendingMsgs_entries, List.filter_map, Function.comp_def,
    Nat.cast_list_sum]

lemma mem_pendingMsgs_entries {mp : MessagePool} {e : Σ _ : Address, AList (fun _ : ℕ => SignedMessage)} :
    e ∈ (pendingMsgs mp).entries ↔ ∃ ms, mp.pending.lookup e.1 = some ms ∧ e.2 = ms.msgs := by
  rw [pendingMsgs_entries, List.mem_map]
  constructor
  · rintro ⟨⟨K, ms⟩, h, rfl⟩
    exact ⟨ms, AList.mem_lookup_iff.2 h, rfl⟩
  · rintro ⟨ms, h, he⟩
    obtain ⟨K, msgs⟩ := e
    dsimp only at h he
    subst he
    exact ⟨⟨K, ms⟩, AList.mem_lookup_iff.1 h, rfl⟩

/-- The messages marked for removal are those the pool holds for the unprotected senders. -/
lemma mem_allMsgs_unprotected {mp : MessagePool} {protectedAddrs : List Address} {x : SignedMessage} :
    x ∈ allMsgs (unprotected protectedAddrs (pendingMsgs mp).entries) ↔
      ∃ K n, K ∉ protectedAddrs ∧ Holds mp K n x := by
  simp only [allMsgs, unprotected, List.mem_flatMap, List.mem_filter, List.mem_map,
    mem_pendingMsgs_entries, decide_eq_true_eq]
  constructor
  · rintro ⟨e, ⟨⟨ms, hK, he⟩, hp⟩, ⟨n, x'⟩, hx, rfl⟩
    rw [he] at hx
    exact ⟨e.1, n, hp, ms, hK, AList.mem_lookup_iff.2 hx⟩
  · rintro ⟨K, n, hp, ms, hK, hx⟩
    exact ⟨⟨K, ms.msgs⟩, ⟨⟨ms, hK, rfl⟩, hp⟩, ⟨n, x⟩, AList.mem_lookup_iff.1 hx, rfl⟩

/-! ## The chains of the unprotected senders -/

/-- A chain's messages are messages of one of the sets it was built from. -/
lemma msgs_of_mem_chainsOf :
    ∀ (pending : List (Σ _ : Address, AList (fun _ : ℕ => SignedMessage))) (start : ℕ),
      (∀ e ∈ pending, ∀ n m, e.2.lookup n = some m → m.message.nonce = n) →
      ∀ c ∈ chainsOf env pending start, ∃ e ∈ pending, ∀ x ∈ c.msgs, ∃ n, e.2.lookup n = some x
  | [], _, _, c, hc => by simp [chainsOf] at hc
  | ⟨a, ms⟩ :: rest, start, hkeys, c, hc => by
    simp only [chainsOf, List.mem_append] at hc
    rcases hc with hc | hc
    · refine ⟨⟨a, ms⟩, List.mem_cons_self, fun x hx => ?_⟩
      have hk := hkeys _ List.mem_cons_self
      rcases hactor : env.actorAfter a with _ | ⟨nonce, balance⟩
      · simp [createMessageChains, hactor] at hc
      · -- the chains hold the sender's run, which is made of its messages
        have hx' : x ∈ (createMessageChains env a ms start).flatMap (·.msgs) :=
          List.mem_flatMap.2 ⟨c, hc, hx⟩
        rw [createMessageChains_flatMap env hk hactor] at hx'
        exact (chainRun_longest env hk nonce balance).1 x hx'
    · obtain ⟨e, he, h⟩ := msgs_of_mem_chainsOf rest _
        (fun e he => hkeys e (List.mem_cons_of_mem _ he)) c hc
      exact ⟨e, List.mem_cons_of_mem _ he, h⟩

omit [Zero P] in
lemma chainsOf_append : ∀ (A B : List (Σ _ : Address, AList (fun _ : ℕ => SignedMessage))) (start : ℕ),
    chainsOf env (A ++ B) start =
      chainsOf env A start ++ chainsOf env B (start + (chainsOf env A start).length)
  | [], B, start => by simp [chainsOf]
  | ⟨a, ms⟩ :: A, B, start => by
    simp only [List.cons_append, chainsOf, chainsOf_append A B, List.append_assoc,
      List.length_append, Nat.add_assoc]

/-- The chains of all senders are numbered one after another, so no chain appears twice. -/
lemma chainsOf_map_id :
    ∀ (pending : List (Σ _ : Address, AList (fun _ : ℕ => SignedMessage))) (start : ℕ),
      (chainsOf env pending start).map (·.id) = List.range' start (chainsOf env pending start).length
  | [], start => rfl
  | ⟨a, ms⟩ :: rest, start => by
    simp only [chainsOf, List.map_append, createMessageChains_map_id, chainsOf_map_id rest,
      List.length_append, List.range'_append_1]

lemma chainsOf_nodup (pending : List (Σ _ : Address, AList (fun _ : ℕ => SignedMessage))) (start : ℕ) :
    (chainsOf env pending start).Nodup :=
  List.Nodup.of_map (·.id) (chainsOf_map_id env pending start ▸ List.nodup_range')

omit [Zero P] in
/-- `Before` is asymmetric. -/
lemma before_asymm (c d : MsgChain P) (h : c.before d = true) : d.before c = false := by
  rw [Bool.eq_false_iff, ne_eq, MsgChain.before_eq_true_iff]
  rw [MsgChain.before_eq_true_iff] at h
  grind

/-- One sender's chains come in `Before` order, each strictly better than those after it. -/
lemma createMessageChains_before {actor : Address} {mset : AList (fun _ : ℕ => SignedMessage)}
    {nonce : ℕ} {balance : ℤ} (hkeys : ∀ n m, mset.lookup n = some m → m.message.nonce = n)
    (hactor : env.actorAfter actor = some (nonce, balance)) (start : ℕ) :
    (createMessageChains env actor mset start).Pairwise fun c d => c.before d = true := by
  have : Trans (fun c d : MsgChain P => d.gasPerf < c.gasPerf)
      (fun c d : MsgChain P => d.gasPerf < c.gasPerf) (fun c d : MsgChain P => d.gasPerf < c.gasPerf) :=
    ⟨fun h₁ h₂ => lt_trans h₂ h₁⟩
  exact (createMessageChains_decreasing env hkeys hactor start).pairwise.imp fun h =>
    (MsgChain.before_eq_true_iff _ _).2 (.inl h)

/-! ## Runs of a sender's set -/

section Runs

variable {E : SelectEnv P} {mset : AList (fun _ : ℕ => SignedMessage)}
  (hkeys : ∀ n m, mset.lookup n = some m → m.message.nonce = n) {nonce : ℕ} {balance : ℤ}
  {run : List SignedMessage} (hrun : IsLongestRun E mset nonce balance run)
include hkeys hrun

omit [LinearOrder P] [Zero P] in
/-- The `i`-th message of the run is the set's message at `nonce + i`. -/
lemma IsLongestRun.lookup_getElem (i : ℕ) (hi : i < run.length) :
    mset.lookup (nonce + i) = some run[i] := by
  obtain ⟨n, hn⟩ := hrun.1 _ (List.getElem_mem hi)
  have hn' : n = nonce + i := (hkeys n _ hn).symm.trans (IsRun.getElem_nonce E hrun.2.1 i hi)
  rwa [hn'] at hn

omit [LinearOrder P] [Zero P] in
/-- The first `k` messages of the run are the set's messages at nonces `nonce, …`, as many as the
run has up to `k`. -/
lemma IsLongestRun.mem_take_iff (k : ℕ) {n : ℕ} {m : SignedMessage} (hm : mset.lookup n = some m) :
    m ∈ run.take k ↔ nonce ≤ n ∧ n < nonce + min k run.length := by
  constructor
  · intro h
    obtain ⟨i, hi, hmi⟩ := List.getElem_of_mem h
    rw [List.length_take] at hi
    rw [List.getElem_take] at hmi
    -- the message at index `i` is at nonce `nonce + i`, which is `n`
    have hi' : i < run.length := lt_of_lt_of_le hi (min_le_right _ _)
    have hn : n = nonce + i :=
      (hkeys n m hm).symm.trans (hmi ▸ IsRun.getElem_nonce E hrun.2.1 i hi')
    omega
  · rintro ⟨h₁, h₂⟩
    have hi : n - nonce < run.length := by omega
    have hl := hrun.lookup_getElem hkeys (n - nonce) hi
    rw [Nat.add_sub_cancel' h₁, hm, Option.some.injEq] at hl
    rw [hl]
    exact List.mem_iff_getElem.2 ⟨n - nonce, by rw [List.length_take]; omega, List.getElem_take⟩

end Runs

section Keyed

variable {mp : MessagePool} (hkeyed : PendingKeyed api mp)
include hkeyed

/-- In a keyed pool, each pending set keeps its messages under their nonces and from its key. -/
lemma keyed_of_mem_pendingMsgs {e : Σ _ : Address, AList (fun _ : ℕ => SignedMessage)}
    (he : e ∈ (pendingMsgs mp).entries) (n : ℕ) (m : SignedMessage) (hm : e.2.lookup n = some m) :
    m.message.nonce = n ∧ api.resolveToKey m.message.fromAddr = some e.1 := by
  obtain ⟨ms, hK, he⟩ := mem_pendingMsgs_entries.1 he
  rw [he] at hm
  exact hkeyed e.1 n m ⟨ms, hK, hm⟩

/-- What the keep loop keeps is among the messages marked for removal. -/
lemma keptMsgs_subset {sortChains : List (MsgChain P) → List (MsgChain P)}
    (hsort : SortSlice.Sorts MsgChain.before sortChains) (sizeLimitLow : ℤ) :
    ∀ x ∈ keptMsgs env api sortChains sizeLimitLow mp,
      x ∈ allMsgs (unprotected (protectedActors env api mp) (pendingMsgs mp).entries) := by
  intro x hx
  obtain ⟨c, hc, hxc⟩ := List.mem_flatMap.1 (List.mem_of_mem_take hx)
  have hc' : c ∈ pruneChains env api mp := ((hsort _).1.mem_iff).1 hc
  obtain ⟨e, he, hmsgs⟩ := msgs_of_mem_chainsOf (lowerBoundEnv env) _ 0
    (fun e he n m hm => (keyed_of_mem_pendingMsgs api hkeyed (List.mem_filter.1 he).1 n m hm).1) c hc'
  obtain ⟨n, hn⟩ := hmsgs x hxc
  exact List.mem_flatMap.2 ⟨e, he, List.mem_map.2 ⟨⟨n, x⟩, AList.mem_lookup_iff.1 hn, rfl⟩⟩

/-- The messages of chains built from pending sets of senders other than `K` are not `K`'s. -/
lemma not_key_of_mem_chainsOf {E : SelectEnv P} {K : Address}
    {pending : List (Σ _ : Address, AList (fun _ : ℕ => SignedMessage))}
    (hpending : ∀ e ∈ pending, e ∈ (pendingMsgs mp).entries ∧ e.1 ≠ K) (start : ℕ)
    {c : MsgChain P} (hc : c ∈ chainsOf E pending start) {x : SignedMessage} (hx : x ∈ c.msgs) :
    api.resolveToKey x.message.fromAddr ≠ some K := by
  obtain ⟨e, he, hmsgs⟩ := msgs_of_mem_chainsOf E pending start
    (fun e he n m hm => (keyed_of_mem_pendingMsgs api hkeyed (hpending e he).1 n m hm).1) c hc
  obtain ⟨n, hn⟩ := hmsgs x hx
  rw [(keyed_of_mem_pendingMsgs api hkeyed (hpending e he).1 n x hn).2]
  exact fun h => (hpending e he).2 (Option.some.inj h)

/-- **One sender's messages in the sorted chains are its run**: its chains are a block of the
chains, without repeats and strictly ordered by `Before`, so the sort leaves them in order. -/
lemma filter_sorted_msgs {sortChains : List (MsgChain P) → List (MsgChain P)}
    (hsort : SortSlice.Sorts MsgChain.before sortChains) {K : Address} {ms : MsgSet}
    (hK : K ∉ protectedActors env api mp) (hl : mp.pending.lookup K = some ms) {nonce : ℕ}
    {balance : ℤ} (hactor : env.actorAfter K = some (nonce, balance)) :
    ((sortChains (pruneChains env api mp)).flatMap (·.msgs)).filter
        (fun x => api.resolveToKey x.message.fromAddr = some K) =
      chainRun (lowerBoundEnv env) ms.msgs nonce balance := by
  set E := lowerBoundEnv env
  set U := unprotected (protectedActors env api mp) (pendingMsgs mp).entries with hUdef
  have hkeysK : ∀ n m, ms.msgs.lookup n = some m → m.message.nonce = n :=
    fun n m h => (hkeyed K n m ⟨ms, hl, h⟩).1
  have hmem : ⟨K, ms.msgs⟩ ∈ U :=
    List.mem_filter.2 ⟨mem_pendingMsgs_entries.2 ⟨ms, hl, rfl⟩, by simpa using hK⟩
  obtain ⟨U₁, U₂, hU⟩ := List.append_of_mem hmem
  -- the other senders of `U` are not `K`, as `U` has each key once
  have hnd : (U₁ ++ ⟨K, ms.msgs⟩ :: U₂).Pairwise fun s s' => s.1 ≠ s'.1 := by
    rw [← hU, ← List.nodupKeys_iff_pairwise]
    exact (pendingMsgs mp).nodupKeys.sublist List.filter_sublist
  rw [List.pairwise_append, List.pairwise_cons] at hnd
  have hsub : ∀ e ∈ U₁ ++ U₂, e ∈ (pendingMsgs mp).entries ∧ e.1 ≠ K := fun e he => by
    refine ⟨(List.mem_filter.1 (hU ▸ ?_ : e ∈ U)).1, ?_⟩
    · rcases List.mem_append.1 he with he | he
      · exact List.mem_append_left _ he
      · exact List.mem_append_right _ (List.mem_cons_of_mem _ he)
    · rcases List.mem_append.1 he with he | he
      · exact hnd.2.2 e he _ List.mem_cons_self
      · exact fun h => hnd.2.1.1 e he h.symm
  -- the chains are those before `K`'s, `K`'s, and those after
  set A := chainsOf E U₁ 0
  set CK := createMessageChains E K ms.msgs A.length
  set B := chainsOf E U₂ (A.length + CK.length)
  have hC : pruneChains env api mp = A ++ CK ++ B := by
    rw [pruneChains, ← hUdef, hU, chainsOf_append]
    simp only [chainsOf, zero_add, List.append_assoc, A, CK, B]
    rfl
  have hnodup : (A ++ CK ++ B).Nodup := hC ▸ chainsOf_nodup E U 0
  -- each chain's messages are all `K`'s or all another sender's
  have hblocks : ∀ c ∈ sortChains (pruneChains env api mp), ∀ x ∈ c.msgs,
      decide (api.resolveToKey x.message.fromAddr = some K) = decide (c ∈ CK) := by
    intro c hc x hx
    rw [(hsort _).1.mem_iff, hC] at hc
    by_cases hcK : c ∈ CK
    · have hx' : x ∈ CK.flatMap (·.msgs) := List.mem_flatMap.2 ⟨c, hcK, hx⟩
      rw [createMessageChains_flatMap E hkeysK hactor] at hx'
      obtain ⟨n, hn⟩ := (chainRun_longest E hkeysK nonce balance).1 x hx'
      simp [hcK, (hkeyed K n x ⟨ms, hl, hn⟩).2]
    · have hAB : c ∈ A ∨ c ∈ B := by simpa [hcK, or_assoc] using hc
      have hne : api.resolveToKey x.message.fromAddr ≠ some K := by
        rcases hAB with hcA | hcB
        · exact not_key_of_mem_chainsOf api hkeyed (fun e he => hsub e (List.mem_append_left _ he))
            0 hcA hx
        · exact not_key_of_mem_chainsOf api hkeyed (fun e he => hsub e (List.mem_append_right _ he))
            _ hcB hx
      simp [hcK, hne]
  rw [SortSlice.filter_flatMap_of_blocks _ _ _ _ hblocks, hC,
    SortSlice.filter_mem_sort hsort before_asymm hnodup (createMessageChains_before E hkeysK hactor _)]
  exact createMessageChains_flatMap E hkeysK hactor _

variable {cid} (hcid : Function.Injective cid) {protectedAddrs : List Address}
include hcid

/-- A CID marks exactly the message of the unprotected senders that has it. -/
lemma lookup_marks (c : Cid) (b : SignedMessage) :
    ((allMsgs (unprotected protectedAddrs (pendingMsgs mp).entries)).foldl
        (fun (pm : AList (fun _ : Cid => SignedMessage)) m => pm.insert (cid m.message) m) ∅).lookup c =
          some b ↔
      b ∈ allMsgs (unprotected protectedAddrs (pendingMsgs mp).entries) ∧ cid b.message = c := by
  rw [AList.lookup_foldl_insert (fun m : SignedMessage => cid m.message) _ _ (fun x hx y hy hxy => ?_)]
  · simp
  · -- two marked messages with one CID have one `Message`, so they are one
    obtain ⟨K, n, -, hx⟩ := mem_allMsgs_unprotected.1 hx
    obtain ⟨K', n', -, hy⟩ := mem_allMsgs_unprotected.1 hy
    exact hkeyed.eq_of_message_eq api hx hy (hcid hxy)

/-- What is still marked after the keep loop: the messages of the unprotected senders that were not
kept. -/
lemma mem_pruned {kept : List SignedMessage}
    (hkept : ∀ x ∈ kept, x ∈ allMsgs (unprotected protectedAddrs (pendingMsgs mp).entries))
    (r : SignedMessage) :
    r ∈ (kept.foldl (fun (pm : AList (fun _ : Cid => SignedMessage)) m => pm.erase (cid m.message))
        ((allMsgs (unprotected protectedAddrs (pendingMsgs mp).entries)).foldl
          (fun pm m => pm.insert (cid m.message) m) ∅)).entries.map (·.2) ↔
      r ∈ allMsgs (unprotected protectedAddrs (pendingMsgs mp).entries) ∧ r ∉ kept := by
  have hlookup : ∀ c, (kept.foldl (fun (pm : AList (fun _ : Cid => SignedMessage)) m =>
      pm.erase (cid m.message)) ((allMsgs (unprotected protectedAddrs (pendingMsgs mp).entries)).foldl
        (fun pm m => pm.insert (cid m.message) m) ∅)).lookup c = some r ↔
      (∀ x ∈ kept, cid x.message ≠ c) ∧
        r ∈ allMsgs (unprotected protectedAddrs (pendingMsgs mp).entries) ∧ cid r.message = c :=
    fun c => by rw [AList.lookup_foldl_erase, lookup_marks api hkeyed hcid]
  constructor
  · intro hr
    obtain ⟨⟨c, r'⟩, he, rfl⟩ := List.mem_map.1 hr
    obtain ⟨hne, hr, hc⟩ := (hlookup c).1 (AList.mem_lookup_iff.2 he)
    exact ⟨hr, fun hk => hne _ hk hc⟩
  · rintro ⟨hr, hk⟩
    refine List.mem_map.2 ⟨⟨cid r.message, r⟩,
      AList.mem_lookup_iff.1 ((hlookup _).2 ⟨fun x hx hxr => hk ?_, hr, rfl⟩), rfl⟩
    -- a kept message with the CID of `r` is `r`
    obtain ⟨K, n, -, hx'⟩ := mem_allMsgs_unprotected.1 (hkept x hx)
    obtain ⟨K', n', -, hr'⟩ := mem_allMsgs_unprotected.1 hr
    rwa [← hkeyed.eq_of_message_eq api hx' hr' (hcid hxr)]

/-- **What `pruneMessages` leaves**: a message stays exactly when its sender is protected or the
keep loop kept it. -/
theorem holds_pruneMessages {sortChains : List (MsgChain P) → List (MsgChain P)}
    (hsort : SortSlice.Sorts MsgChain.before sortChains) (sizeLimitLow : ℤ) (K : Address) (n : ℕ)
    (m : SignedMessage) :
    Holds (pruneMessages env api cid sortChains sizeLimitLow mp) K n m ↔
      Holds mp K n m ∧
        (K ∈ protectedActors env api mp ∨ m ∈ keptMsgs env api sortChains sizeLimitLow mp) := by
  rw [pruneMessages_eq, holds_foldl_remove api (fun r => (r.message.fromAddr, r.message.nonce)) false]
  dsimp only
  refine and_congr_right fun hm => ?_
  obtain ⟨hnonce, hres⟩ := hkeyed K n m hm
  have hpruned := mem_pruned api hkeyed hcid (keptMsgs_subset env api hkeyed hsort sizeLimitLow)
  constructor
  · -- `m` itself is removed unless its sender is protected or it is kept
    intro hall
    by_contra hcon
    push Not at hcon
    exact hall m ((hpruned m).2 ⟨mem_allMsgs_unprotected.2 ⟨K, n, hcon.1, hm⟩, hcon.2⟩) ⟨hres, hnonce⟩
  · -- a removed message at `K` and `n` is `m`, of an unprotected sender and not kept
    rintro hor r hr ⟨hrK, hrn⟩
    obtain ⟨hrU, hrk⟩ := (hpruned r).1 hr
    obtain ⟨K', n', hK', hr'⟩ := mem_allMsgs_unprotected.1 hrU
    obtain ⟨hn', hK''⟩ := hkeyed K' n' r hr'
    rw [hrK, Option.some.injEq] at hK''
    subst hK''
    have hnn : n' = n := hn'.symm.trans hrn
    subst hnn
    have hrm : r = m := hr'.unique hm
    subst hrm
    exact hor.elim hK' hrk

/-- **Each unprotected sender keeps a run of its nonces** from the actor's nonce: the kept
messages of the sender are a prefix of its run in the sorted chains. -/
theorem pruneMessages_keeps_run {sortChains : List (MsgChain P) → List (MsgChain P)}
    (hsort : SortSlice.Sorts MsgChain.before sortChains) (sizeLimitLow : ℤ) {K : Address}
    (hK : K ∉ protectedActors env api mp) {nonce : ℕ} {balance : ℤ}
    (hactor : env.actorAfter K = some (nonce, balance)) :
    ∃ k, (∀ n m, Holds (pruneMessages env api cid sortChains sizeLimitLow mp) K n m ↔
        Holds mp K n m ∧ nonce ≤ n ∧ n < nonce + k) ∧
      ∀ n, nonce ≤ n → n < nonce + k → ∃ m, Holds mp K n m := by
  rcases hl : mp.pending.lookup K with _ | ms
  · -- no set under `K`: nothing is held there, before or after
    have hnone : ∀ n m, ¬ Holds mp K n m := fun n m ⟨ms, hK', _⟩ => by
      rw [hl] at hK'
      cases hK'
    refine ⟨0, fun n m => ?_, fun n h₁ h₂ => by omega⟩
    rw [holds_pruneMessages env api hkeyed hcid hsort]
    simp [hnone n m]
  have hholds : ∀ n m, Holds mp K n m ↔ ms.msgs.lookup n = some m := fun n m => by simp [Holds, hl]
  have hkeysK : ∀ n m, ms.msgs.lookup n = some m → m.message.nonce = n :=
    fun n m h => (hkeyed K n m ((hholds n m).2 h)).1
  have hrun := chainRun_longest (lowerBoundEnv env) hkeysK nonce balance
  -- the kept messages of `K` are a prefix of its run
  obtain ⟨k, hk⟩ : ∃ k, (keptMsgs env api sortChains sizeLimitLow mp).filter
      (fun x => api.resolveToKey x.message.fromAddr = some K) =
        (chainRun (lowerBoundEnv env) ms.msgs nonce balance).take k := by
    have hpre := (List.take_prefix (min ((sortChains (pruneChains env api mp)).flatMap (·.msgs)).length
        (sizeLimitLow - protectedCount env api mp).toNat)
      ((sortChains (pruneChains env api mp)).flatMap (·.msgs))).filter
        (fun x => decide (api.resolveToKey x.message.fromAddr = some K))
    rw [filter_sorted_msgs env api hkeyed hsort hK hl hactor] at hpre
    exact ⟨_, List.prefix_iff_eq_take.1 hpre⟩
  refine ⟨min k (chainRun (lowerBoundEnv env) ms.msgs nonce balance).length, fun n m => ?_,
    fun n h₁ h₂ => ?_⟩
  · rw [holds_pruneMessages env api hkeyed hcid hsort, or_iff_right hK]
    refine and_congr_right fun hm => ?_
    have hmK := (hkeyed K n m hm).2
    rw [← hrun.mem_take_iff hkeysK k ((hholds n m).1 hm), ← hk, List.mem_filter]
    simp [hmK]
  · -- the run's message at `n` is the set's
    have hi : n - nonce < (chainRun (lowerBoundEnv env) ms.msgs nonce balance).length := by omega
    have hlk := hrun.lookup_getElem hkeysK (n - nonce) hi
    rw [Nat.add_sub_cancel' h₁] at hlk
    exact ⟨_, (hholds n _).2 hlk⟩

/-- **At most the low water mark, less the protected messages, of the others stay**: each of them
is a kept message, and the keep loop stops at the mark. -/
theorem pruneMessages_count_le {sortChains : List (MsgChain P) → List (MsgChain P)}
    (hsort : SortSlice.Sorts MsgChain.before sortChains) (sizeLimitLow : ℤ) :
    (countPending (pruneMessages env api cid sortChains sizeLimitLow mp)
        (· ∉ protectedActors env api mp) : ℤ) ≤
      max 0 (sizeLimitLow - countPending mp (· ∈ protectedActors env api mp)) := by
  have hle := countPending_le ((keptMsgs env api sortChains sizeLimitLow mp).map fun x =>
    ((api.resolveToKey x.message.fromAddr).getD Address.undef, x.message.nonce)) fun K n m hK hm => by
      -- a message that stays is kept, and it is keyed by its sender and nonce
      obtain ⟨hm', hkept⟩ := (holds_pruneMessages env api hkeyed hcid hsort sizeLimitLow K n m).1 hm
      obtain ⟨hn, hres⟩ := hkeyed K n m hm'
      exact List.mem_map.2 ⟨m, hkept.resolve_left hK, by simp [hres, hn]⟩
  rw [List.length_map, keptMsgs, List.length_take] at hle
  rw [← protectedCount_eq]
  have := Int.toNat_eq_max (sizeLimitLow - protectedCount env api mp)
  omega

end Keyed

/-- **What `pruneMessages` keeps.**  In a pool whose sets are kept under their senders' keys and by
nonce, with CIDs that tell messages apart and any `sort.Slice` by `Before`: no message is removed
whose sender's key a priority address resolves to, or whose sender is local; the other senders
keep at most `SizeLimitLow` less the protected messages; and each other sender whose actor is at `nonce` keeps exactly its
messages at `nonce, nonce + 1, …, nonce + k - 1` for some `k`, all of which it had. -/
theorem pruneMessages_spec {mp : MessagePool} (hkeyed : PendingKeyed api mp)
    (hcid : Function.Injective cid) {sortChains : List (MsgChain P) → List (MsgChain P)}
    (hsort : SortSlice.Sorts MsgChain.before sortChains) (sizeLimitLow : ℤ) :
    (∀ K n m, Holds mp K n m →
      ((∃ a ∈ env.priorityAddrs, api.resolveToKey a = some K) ∨ K ∈ mp.localAddrs) →
      Holds (pruneMessages env api cid sortChains sizeLimitLow mp) K n m) ∧
    (countPending (pruneMessages env api cid sortChains sizeLimitLow mp)
        (· ∉ protectedActors env api mp) : ℤ) ≤
      max 0 (sizeLimitLow - countPending mp (· ∈ protectedActors env api mp)) ∧
    ∀ K, K ∉ protectedActors env api mp → ∀ nonce balance, env.actorAfter K = some (nonce, balance) →
      ∃ k, (∀ n m, Holds (pruneMessages env api cid sortChains sizeLimitLow mp) K n m ↔
          Holds mp K n m ∧ nonce ≤ n ∧ n < nonce + k) ∧
        ∀ n, nonce ≤ n → n < nonce + k → ∃ m, Holds mp K n m := by
  refine ⟨fun K n m hm hprot => ?_, pruneMessages_count_le env api hkeyed hcid hsort sizeLimitLow,
    fun K hK nonce balance hactor =>
      pruneMessages_keeps_run env api hkeyed hcid hsort sizeLimitLow hK hactor⟩
  exact (holds_pruneMessages env api hkeyed hcid hsort sizeLimitLow K n m).2
    ⟨hm, .inl (mem_protectedActors env api hprot)⟩

/-- The pool after pushing one sender's transfers at nonces `0` and `1`. -/
def twoPushed : MessagePool :=
  Run.run (step (fun m : SignedMessage => m) okApi) empty
    [.add (MsgSet.transferAt 0) true false, .add (MsgSet.transferAt 1) true false]

/-- Pruned to one message, the sender keeps the run of its nonces up to some `k`, here the transfer
at nonce `0`. -/
theorem pruneMessages_spec_twoPushed :
    (∃ k, ∀ n m, Holds (pruneMessages (balanceEnv (10 ^ 9)) okApi (id : Message → Message)
        MsgChain.sortByBefore 1 twoPushed) ⟨"t01001"⟩ n m ↔
          Holds twoPushed ⟨"t01001"⟩ n m ∧ 0 ≤ n ∧ n < 0 + k) ∧
      ((pruneMessages (balanceEnv (10 ^ 9)) okApi (id : Message → Message) MsgChain.sortByBefore 1
        twoPushed).pending.lookup ⟨"t01001"⟩).map (fun ms => ms.msgs.keys) = some [0] := by
  obtain ⟨-, -, hrun⟩ := pruneMessages_spec (balanceEnv (10 ^ 9)) okApi (id : Message → Message)
    (run_pendingKeyed (fun m : SignedMessage => m) okApi
      [.add (MsgSet.transferAt 0) true false, .add (MsgSet.transferAt 1) true false])
    Function.injective_id
    MsgChain.before_sorts 1
  obtain ⟨k, hk, -⟩ := hrun ⟨"t01001"⟩ (by decide) 0 (10 ^ 9) rfl
  exact ⟨⟨k, hk⟩, by decide⟩

end Prune

end MessagePool

end Lotus
