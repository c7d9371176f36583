import Mathlib
import Lotus.Chain.Messagepool.Pool

/-!
# Reorganisations in the message pool (`chain/messagepool/messagepool.go`, `HeadChange`)

`HeadChange(revert, apply)` moves the pool from the old head to the new one.  The messages of
each reverted tipset (from `MessagesForBlocks`, which keeps a BLS message only while
`blsSigCache` holds its signature) are buffered in `rmsgs`, under their `From` address as the
message writes it and their nonce.  Each applied message then cancels the buffered message of
its `From` and nonce, or else is `Remove`d from the pool with `applied = true`.  Last, the
buffered messages left are re-added with `addSkipChecks`, in whatever order the two ranges over
`rmsgs` take.

The pool resolves senders to their key addresses; a pending key is a key address with a pending
nonce (`pendingKeys`), and the pool key of a message is its sender's key address and its nonce
(`msgKey`).

**What holds.**  The pending keys after `HeadChange` are those before and the reverted ones,
less the applied ones (`headChange_pendingKeys`), when every chain and state call succeeds,
every reverted BLS message's signature is still cached, no pending key is both reverted and
applied, and a reverted and an applied message with one pool key write their `From` the same
way.

**What does not.**  The buffer is keyed by `From` as written, the pool by the key address.  An
actor's message reverted with its ID address as `From` is not cancelled by the applied message
of the same nonce written with the key address: the applied one is `Remove`d, from a set that
does not hold it yet, and the reverted one is re-added after it, so the pool keeps a message
whose nonce the new head has used (`headChange_readds_applied_nonce`).
-/

namespace Lotus

/-- What `HeadChange` reads besides the pending sets: the chain store (`LoadTipSet` of a
tipset's parents, a tipset's blocks, and `MessagesForBlock` with a block's BLS and signed
messages), the CID of an unsigned message, and the pool's `blsSigCache` and `republished`,
which `HeadChange` reads before it writes either. -/
structure HeadChangeEnv (Cid TS Blk : Type) where
  loadParent : TS → Option TS
  blocks : TS → List Blk
  messagesForBlock : Blk → Option (List Message × List SignedMessage)
  messageCid : Message → Cid
  blsSigCache : Cid → Option Signature
  republished : Cid → Bool

/-- The errors `HeadChange` gathers in `merr`, by the call that failed. -/
inductive HeadChangeError (TS Blk : Type)
  /-- "error loading reverted tipset parent". -/
  | loadParent (ts : TS)
  /-- "error retrieving messages for reverted block". -/
  | messagesForBlocks (ts : TS)
  /-- "failed to get messages for apply block". -/
  | messagesForBlock (b : Blk)

/-- What `HeadChange` works on: the pool, `curTs`, the buffer `rmsgs` of reverted messages by
`From` and nonce, `repubTrigger`, and `merr`. -/
structure HeadChangeState (TS Blk : Type) where
  pool : MessagePool
  curTs : TS
  rmsgs : AList (fun _ : Address => AList (fun _ : ℕ => SignedMessage))
  repubTrigger : Bool
  merr : List (HeadChangeError TS Blk)

namespace MessagePool

variable {Cid TS Blk : Type} (cid : SignedMessage → Cid) (api : PoolApi)
  (env : HeadChangeEnv Cid TS Blk)

/-- `RecoverSig`: a BLS message with the signature the cache holds for it. -/
def recoverSig (msg : Message) : Option SignedMessage :=
  (env.blsSigCache (env.messageCid msg)).map fun sig => ⟨msg, sig⟩

/-- `MessagesForBlocks`: block by block, the signed messages and then the BLS messages whose
signature can be recovered; one block that cannot be read fails the whole. -/
def messagesForBlocks : List Blk → Option (List SignedMessage)
  | [] => some []
  | b :: bs =>
    match env.messagesForBlock b, messagesForBlocks bs with
    | some (bmsgs, smsgs), some rest => some (smsgs ++ bmsgs.filterMap (recoverSig env) ++ rest)
    | _, _ => none

/-- `add`: buffer a reverted message under its `From` and nonce. -/
def bufferAdd (rmsgs : AList (fun _ : Address => AList (fun _ : ℕ => SignedMessage)))
    (m : SignedMessage) : AList (fun _ : Address => AList (fun _ : ℕ => SignedMessage)) :=
  rmsgs.insert m.message.fromAddr
    (((rmsgs.lookup m.message.fromAddr).getD ∅).insert m.message.nonce m)

/-- `rm`: an applied message cancels the buffered message of its `From` and nonce, and is
otherwise removed from the pool as applied. -/
def cancelOrRemove (st : HeadChangeState TS Blk) (fromAddr : Address) (nonce : ℕ) :
    HeadChangeState TS Blk :=
  match st.rmsgs.lookup fromAddr with
  | some s =>
    if nonce ∈ s then { st with rmsgs := st.rmsgs.insert fromAddr (s.erase nonce) }
    else { st with pool := st.pool.remove api fromAddr nonce true }
  | none => { st with pool := st.pool.remove api fromAddr nonce true }

/-- `maybeRepub`: the republish trigger is set once an applied message is one the pool
republished. -/
def maybeRepub (st : HeadChangeState TS Blk) (c : Cid) : HeadChangeState TS Blk :=
  { st with repubTrigger := st.repubTrigger || env.republished c }

/-- One applied message, with the CID `maybeRepub` looks up. -/
def applyMessage (st : HeadChangeState TS Blk) (m : Message) (c : Cid) : HeadChangeState TS Blk :=
  maybeRepub env (cancelOrRemove api st m.fromAddr m.nonce) c

/-- One block of an applied tipset: its signed messages, then its BLS messages. -/
def applyBlock (st : HeadChangeState TS Blk) (b : Blk) : HeadChangeState TS Blk :=
  match env.messagesForBlock b with
  | none => { st with merr := st.merr ++ [.messagesForBlock b] }
  | some (bmsgs, smsgs) =>
    Run.run (fun st m => applyMessage api env st m (env.messageCid m))
      (Run.run (fun st sm => applyMessage api env st sm.message (cid sm)) st smsgs) bmsgs

/-- One applied tipset: it becomes `curTs`, and its blocks are applied. -/
def applyTipSet (st : HeadChangeState TS Blk) (ts : TS) : HeadChangeState TS Blk :=
  Run.run (applyBlock cid api env) { st with curTs := ts } (env.blocks ts)

/-- One reverted tipset: its parent becomes `curTs`, and its messages are buffered. -/
def revertTipSet (st : HeadChangeState TS Blk) (ts : TS) : HeadChangeState TS Blk :=
  match env.loadParent ts with
  | none => { st with merr := st.merr ++ [.loadParent ts] }
  | some pts =>
    match messagesForBlocks env (env.blocks ts) with
    | none => { st with curTs := pts, merr := st.merr ++ [.messagesForBlocks ts] }
    | some msgs => { st with curTs := pts, rmsgs := Run.run bufferAdd st.rmsgs msgs }

/-- The buffered messages, sender by sender. -/
def survivors (rmsgs : AList (fun _ : Address => AList (fun _ : ℕ => SignedMessage))) :
    List SignedMessage :=
  rmsgs.entries.flatMap fun e => e.2.entries.map (·.2)

/-- `addSkipChecks` of a buffered message; a refusal is only logged. -/
def readd [DecidableEq Cid] (mp : MessagePool) (m : SignedMessage) : MessagePool :=
  (mp.addLocked cid api m false false).1

/-- `MessagePool.HeadChange` from the pool `mp` at `curTs`.  `order` is the order in which the
ranges over `rmsgs` visit the buffered messages, which Go leaves open. -/
def headChange [DecidableEq Cid] (order : List SignedMessage → List SignedMessage) (mp : MessagePool) (curTs : TS)
    (revert apply : List TS) : HeadChangeState TS Blk :=
  let reverted := Run.run (revertTipSet env) ⟨mp, curTs, ∅, false, []⟩ revert
  let applied := Run.run (applyTipSet cid api env) reverted apply
  { applied with pool := Run.run (readd cid api) applied.pool (order (survivors applied.rmsgs)) }

/-! ## Keys -/

/-- The pool key of a `From` and nonce pair: the key address and the nonce. -/
def resolveKey (k : Address × ℕ) : Option (Address × ℕ) :=
  (api.resolveToKey k.1).map fun ra => (ra, k.2)

/-- A message's `From` and nonce, as the buffer keys it. -/
def rawKey (m : Message) : Address × ℕ :=
  (m.fromAddr, m.nonce)

/-- The pool key of a message. -/
def msgKey (m : Message) : Option (Address × ℕ) :=
  resolveKey api (rawKey m)

/-- The `From` and nonce pairs of some messages. -/
def rawKeys (msgs : List Message) : Set (Address × ℕ) :=
  {k | k ∈ msgs.map rawKey}

/-- The pool keys of some messages. -/
def keysOf (msgs : List Message) : Set (Address × ℕ) :=
  {k | k ∈ msgs.filterMap (msgKey api)}

/-- The keys of a map of pending sets. -/
def keysIn (pending : AList (fun _ : Address => MsgSet)) : Set (Address × ℕ) :=
  {k | ∃ ms ∈ pending.lookup k.1, k.2 ∈ ms.msgs}

/-- The pending keys of the pool. -/
def pendingKeys (mp : MessagePool) : Set (Address × ℕ) :=
  keysIn mp.pending

/-- The `From` and nonce pairs the buffer holds. -/
def bufferKeys (rmsgs : AList (fun _ : Address => AList (fun _ : ℕ => SignedMessage))) :
    Set (Address × ℕ) :=
  {k | ∃ s ∈ rmsgs.lookup k.1, k.2 ∈ s}

instance (msgs : List Message) (k : Address × ℕ) : Decidable (k ∈ rawKeys msgs) :=
  inferInstanceAs (Decidable (k ∈ msgs.map rawKey))

instance (msgs : List Message) (k : Address × ℕ) : Decidable (k ∈ keysOf api msgs) :=
  inferInstanceAs (Decidable (k ∈ msgs.filterMap (msgKey api)))

instance (mp : MessagePool) (k : Address × ℕ) : Decidable (k ∈ pendingKeys mp) :=
  inferInstanceAs (Decidable (∃ ms ∈ mp.pending.lookup k.1, k.2 ∈ ms.msgs))

instance (rmsgs : AList (fun _ : Address => AList (fun _ : ℕ => SignedMessage)))
    (k : Address × ℕ) : Decidable (k ∈ bufferKeys rmsgs) :=
  inferInstanceAs (Decidable (∃ s ∈ rmsgs.lookup k.1, k.2 ∈ s))

/-- Every buffered message sits under its own `From` and nonce. -/
def BufferOk (rmsgs : AList (fun _ : Address => AList (fun _ : ℕ => SignedMessage))) : Prop :=
  ∀ f s, rmsgs.lookup f = some s → ∀ n m, s.lookup n = some m → rawKey m.message = (f, n)

/-- The messages of a block as the chain store has them: the signed ones, then the BLS ones. -/
def blockMessages (b : Blk) : List Message :=
  match env.messagesForBlock b with
  | some (bmsgs, smsgs) => smsgs.map (·.message) ++ bmsgs
  | none => []

/-- The messages of some tipsets, in order. -/
def tipSetsMessages (tss : List TS) : List Message :=
  tss.flatMap fun ts => (env.blocks ts).flatMap (blockMessages env)

/-! ## The pending keys under `Remove` and `addSkipChecks` -/

@[simp] lemma mem_keysIn {pending : AList (fun _ : Address => MsgSet)} {k : Address × ℕ} :
    k ∈ keysIn pending ↔ ∃ ms ∈ pending.lookup k.1, k.2 ∈ ms.msgs := Iff.rfl

/-- Storing a set under `ra` makes its nonces the keys of `ra`. -/
lemma mem_keysIn_insert {pending : AList (fun _ : Address => MsgSet)} {ra : Address}
    {ms : MsgSet} {k : Address × ℕ} :
    k ∈ keysIn (pending.insert ra ms) ↔
      (k.1 = ra ∧ k.2 ∈ ms.msgs) ∨ (k.1 ≠ ra ∧ k ∈ keysIn pending) := by
  obtain ⟨a, n⟩ := k
  by_cases h : a = ra
  · subst h
    simp [AList.lookup_insert]
  · simp [h, AList.lookup_insert_ne h]

/-- Deleting the set of `ra` drops the keys of `ra`. -/
lemma mem_keysIn_erase {pending : AList (fun _ : Address => MsgSet)} {ra : Address}
    {k : Address × ℕ} : k ∈ keysIn (pending.erase ra) ↔ k.1 ≠ ra ∧ k ∈ keysIn pending := by
  obtain ⟨a, n⟩ := k
  by_cases h : a = ra
  · subst h
    simp [AList.lookup_erase]
  · simp [h, AList.lookup_erase_ne h]

/-- `Remove` takes the key of its sender and nonce out of the pending keys, and no other. -/
theorem pendingKeys_remove {mp : MessagePool} {sender ra : Address}
    (hra : api.resolveToKey sender = some ra) (nonce : ℕ) (applied : Bool) :
    pendingKeys (mp.remove api sender nonce applied) = pendingKeys mp \ {(ra, nonce)} := by
  ext ⟨a, n⟩
  rw [pendingKeys, pendingKeys, Set.mem_sdiff, Set.mem_singleton_iff, Prod.mk.injEq]
  rcases hl : mp.pending.lookup ra with _ | mset
  · -- no set under the key: nothing changes, and nothing was pending under it
    have hsame : mp.remove api sender nonce applied = mp := by simp [remove, hra, hl]
    rw [hsame]
    refine ⟨fun h => ⟨h, ?_⟩, And.left⟩
    rintro ⟨rfl, -⟩
    simp [hl] at h
  · have hkeys : ∀ n, n ∈ (mset.rm nonce applied).msgs ↔ n ≠ nonce ∧ n ∈ mset.msgs := fun n => by
      rw [MsgSet.rm_msgs, AList.mem_erase]
    rw [remove_pending api hra hl]
    by_cases ha : a = ra
    · subst ha
      have hmem : (a, n) ∈ keysIn mp.pending ↔ n ∈ mset.msgs := by simp [hl]
      split_ifs with hsize
      · -- the emptied set goes with its key, and it held nothing but `nonce`
        have hnot : n ∉ (mset.rm nonce applied).msgs := fun hn => by
          have hpos := List.length_pos_of_mem (AList.mem_keys.mp hn)
          simp only [AList.size] at hsize
          omega
        rw [hkeys] at hnot
        rw [mem_keysIn_erase, hmem]
        simp only [ne_eq, not_true_eq_false, false_and, false_iff, not_and, true_and]
        intro hn hne
        exact hnot ⟨hne, hn⟩
      · rw [mem_keysIn_insert, hmem, hkeys]
        simp [and_comm]
    · split_ifs <;> simp [ha]

/-- With the state answering, `pendingOrNew` succeeds, and the empty set it may store adds no
key. -/
lemma pendingOrNew_keys {mp : MessagePool} {ra sender : Address}
    (hn : (api.stateNonce sender).isSome) :
    ∃ mp₁ mset, pendingOrNew api mp ra sender = .ok (mp₁, mset) ∧
      keysIn mp₁.pending = keysIn mp.pending := by
  unfold pendingOrNew
  rcases hl : mp.pending.lookup ra with _ | ms
  · obtain ⟨nonce, hnonce⟩ := Option.isSome_iff_exists.mp hn
    refine ⟨_, _, by rw [hnonce], ?_⟩
    ext ⟨a, n⟩
    rw [mem_keysIn_insert]
    by_cases ha : a = ra
    · subst ha
      simp [newMsgSet, hl]
    · simp [ha]
  · exact ⟨_, _, rfl, rfl⟩

/-- `addSkipChecks`, with every call answering, puts the message's key among the pending keys,
whether `msgSet.add` takes the message or refuses it. -/
theorem pendingKeys_readd [DecidableEq Cid] {mp : MessagePool} {m : SignedMessage} {ra : Address}
    (hput : api.putSigned m = true ∧ api.putUnsigned m.message = true)
    (hra : api.resolveToKey m.message.fromAddr = some ra)
    (hn : (api.stateNonce m.message.fromAddr).isSome) :
    pendingKeys (mp.readd cid api m) = insert (ra, m.message.nonce) (pendingKeys mp) := by
  obtain ⟨mp₁, mset, hp, hkeys⟩ : ∃ mp₁ mset,
      pendingOrNew api mp ra m.message.fromAddr = .ok (mp₁, mset) ∧
        keysIn mp₁.pending = keysIn mp.pending := pendingOrNew_keys api hn
  obtain ⟨hl, -, -⟩ := pendingOrNew_ok api hp
  -- refused or not, the set after `add` is stored back under the key
  have hpool : (mp.readd cid api m).pending =
      mp₁.pending.insert ra (mset.add cid m false false).1 := by
    simp only [readd, addLocked, hput.1, hput.2, Bool.not_true, Bool.or_false, Bool.false_eq_true,
      if_false, hra, hp]
    split
    · rfl
    · split <;> rfl
  ext ⟨a, n⟩
  rw [pendingKeys, hpool, mem_keysIn_insert, Set.mem_insert_iff, pendingKeys, ← hkeys]
  by_cases ha : a = ra
  · subst ha
    simp [MsgSet.mem_add_nonstrict, hl]
  · simp [ha]

/-! ## The key sets -/

@[simp] lemma mem_rawKeys {msgs : List Message} {k : Address × ℕ} :
    k ∈ rawKeys msgs ↔ ∃ m ∈ msgs, rawKey m = k := by
  simp [rawKeys]

@[simp] lemma mem_keysOf {msgs : List Message} {k : Address × ℕ} :
    k ∈ keysOf api msgs ↔ ∃ m ∈ msgs, msgKey api m = some k := by
  simp [keysOf]

/-- The pool keys of messages are their resolved `From` and nonce pairs. -/
lemma keysOf_eq_resolve (msgs : List Message) :
    keysOf api msgs = {k | ∃ rk ∈ rawKeys msgs, resolveKey api rk = some k} := by
  ext k
  simp [msgKey]

lemma keysOf_append (l l' : List Message) : keysOf api (l ++ l') = keysOf api l ∪ keysOf api l' := by
  ext k
  simp [or_and_right, exists_or]

lemma rawKeys_singleton (m : Message) : rawKeys [m] = {rawKey m} := by
  ext k
  simp [eq_comm]

lemma rawKeys_append (l l' : List Message) : rawKeys (l ++ l') = rawKeys l ∪ rawKeys l' := by
  ext k
  simp [or_and_right, exists_or]

/-- Only which messages are listed counts, not their order or repetitions. -/
lemma keysOf_congr {l l' : List Message} (h : ∀ m, m ∈ l ↔ m ∈ l') :
    keysOf api l = keysOf api l' := by
  ext k
  simp [h]

lemma tipSetsMessages_append (tss tss' : List TS) :
    tipSetsMessages env (tss ++ tss') = tipSetsMessages env tss ++ tipSetsMessages env tss' := by
  simp [tipSetsMessages]

/-! ## The buffer -/

section Buffer

variable {rmsgs : AList (fun _ : Address => AList (fun _ : ℕ => SignedMessage))}

@[simp] lemma mem_bufferKeys {k : Address × ℕ} :
    k ∈ bufferKeys rmsgs ↔ ∃ s ∈ rmsgs.lookup k.1, k.2 ∈ s := Iff.rfl

lemma bufferOk_empty : BufferOk ∅ := by
  intro f s hs
  simp at hs

/-- Buffering a message adds its `From` and nonce pair. -/
lemma bufferKeys_bufferAdd (m : SignedMessage) :
    bufferKeys (bufferAdd rmsgs m) = insert (rawKey m.message) (bufferKeys rmsgs) := by
  ext ⟨a, n⟩
  by_cases ha : a = m.message.fromAddr
  · subst ha
    rcases hl : rmsgs.lookup m.message.fromAddr with _ | s
    · simp [bufferAdd, hl, rawKey, AList.lookup_insert, AList.mem_keys, AList.keys_singleton]
    · simp [bufferAdd, hl, rawKey, AList.lookup_insert, AList.mem_insert]
  · simp [bufferAdd, ha, rawKey, AList.lookup_insert_ne ha]

lemma bufferOk_bufferAdd (h : BufferOk rmsgs) (m : SignedMessage) :
    BufferOk (bufferAdd rmsgs m) := by
  intro f s hs n m' hm'
  by_cases hf : f = m.message.fromAddr
  · subst hf
    rw [bufferAdd, AList.lookup_insert, Option.some.injEq] at hs
    subst hs
    by_cases hn : n = m.message.nonce
    · subst hn
      rw [AList.lookup_insert, Option.some.injEq] at hm'
      subst hm'
      rfl
    · rw [AList.lookup_insert_ne hn] at hm'
      rcases hl : rmsgs.lookup m.message.fromAddr with _ | s₀
      · simp [hl] at hm'
      · rw [hl, Option.getD_some] at hm'
        exact h _ _ hl n m' hm'
  · rw [bufferAdd, AList.lookup_insert_ne hf] at hs
    exact h f s hs n m' hm'

/-- Buffering messages one after another adds their pairs and keeps every message under its
own pair. -/
lemma run_bufferAdd (h : BufferOk rmsgs) (msgs : List SignedMessage) :
    bufferKeys (Run.run bufferAdd rmsgs msgs) =
        bufferKeys rmsgs ∪ rawKeys (msgs.map (·.message)) ∧
      BufferOk (Run.run bufferAdd rmsgs msgs) := by
  exact Run.run_invariant_prefix (Q := fun _ => True)
    (I := fun pre r => bufferKeys r = bufferKeys rmsgs ∪ rawKeys (pre.map (·.message)) ∧
      BufferOk r)
    (fun pre r m _ ⟨hk, hok⟩ => ⟨by
        rw [bufferKeys_bufferAdd, hk, List.map_append, rawKeys_append, List.map_singleton,
          rawKeys_singleton, Set.insert_eq]
        ac_rfl, bufferOk_bufferAdd hok m⟩)
    msgs (fun _ _ => trivial) ⟨by simp [rawKeys], h⟩

/-- Cancelling a buffered pair takes it out of the buffer. -/
lemma bufferKeys_cancel {f : Address} {s : AList (fun _ : ℕ => SignedMessage)}
    (hs : rmsgs.lookup f = some s) (n : ℕ) :
    bufferKeys (rmsgs.insert f (s.erase n)) = bufferKeys rmsgs \ {(f, n)} := by
  ext ⟨a, k⟩
  by_cases ha : a = f
  · subst ha
    simp [hs, AList.lookup_insert, AList.mem_erase, and_comm]
  · simp [ha, AList.lookup_insert_ne ha]

lemma bufferOk_cancel (h : BufferOk rmsgs) {f : Address} {s : AList (fun _ : ℕ => SignedMessage)}
    (hs : rmsgs.lookup f = some s) (n : ℕ) : BufferOk (rmsgs.insert f (s.erase n)) := by
  intro f' s' hs' k m hm
  by_cases hf : f' = f
  · subst hf
    rw [AList.lookup_insert, Option.some.injEq] at hs'
    subst hs'
    by_cases hk : k = n
    · subst hk
      simp [AList.lookup_erase] at hm
    · rw [AList.lookup_erase_ne hk] at hm
      exact h _ _ hs k m hm
  · rw [AList.lookup_insert_ne hf] at hs'
    exact h f' s' hs' k m hm

lemma mem_survivors {m : SignedMessage} :
    m ∈ survivors rmsgs ↔ ∃ f s n, rmsgs.lookup f = some s ∧ s.lookup n = some m := by
  simp only [survivors, List.mem_flatMap, List.mem_map]
  constructor
  · rintro ⟨⟨f, s⟩, hfs, ⟨n, m'⟩, hnm, rfl⟩
    exact ⟨f, s, n, AList.mem_lookup_iff.mpr hfs, AList.mem_lookup_iff.mpr hnm⟩
  · rintro ⟨f, s, n, hs, hm⟩
    exact ⟨⟨f, s⟩, AList.mem_lookup_iff.mp hs, ⟨n, m⟩, AList.mem_lookup_iff.mp hm, rfl⟩

/-- The messages left in a well-kept buffer are one for each pair it holds. -/
lemma rawKeys_survivors (h : BufferOk rmsgs) :
    rawKeys ((survivors rmsgs).map (·.message)) = bufferKeys rmsgs := by
  ext ⟨a, n⟩
  simp only [rawKeys, List.map_map, Set.mem_ofPred_eq, List.mem_map, Function.comp_apply,
    mem_survivors, mem_bufferKeys]
  constructor
  · rintro ⟨m, ⟨f, s, k, hs, hm⟩, hkey⟩
    rw [h f s hs k m hm] at hkey
    obtain ⟨rfl, rfl⟩ := Prod.mk.injEq _ _ _ _ ▸ hkey
    exact ⟨s, hs, AList.lookup_isSome.mp (by simp [hm])⟩
  · rintro ⟨s, hs, hn⟩
    obtain ⟨m, hm⟩ := Option.isSome_iff_exists.mp (AList.lookup_isSome.mpr hn)
    exact ⟨m, ⟨a, s, n, hs, hm⟩, h a s hs n m hm⟩

end Buffer

/-! ## The revert loop -/

/-- The chain store answers for a reverted tipset: its parent and its blocks load, and the
signatures of its BLS messages are cached. -/
structure RevertAnswers (ts : TS) : Prop where
  parent : (env.loadParent ts).isSome
  read : ∀ b ∈ env.blocks ts, (env.messagesForBlock b).isSome
  sig : ∀ b ∈ env.blocks ts, ∀ bmsgs smsgs, env.messagesForBlock b = some (bmsgs, smsgs) →
    ∀ m ∈ bmsgs, (env.blsSigCache (env.messageCid m)).isSome

/-- A BLS message whose signature is cached comes back whole. -/
lemma filterMap_recoverSig {bmsgs : List Message}
    (hsig : ∀ m ∈ bmsgs, (env.blsSigCache (env.messageCid m)).isSome) :
    (bmsgs.filterMap (recoverSig env)).map (·.message) = bmsgs := by
  induction bmsgs with
  | nil => rfl
  | cons m rest ih =>
    obtain ⟨sig, hs⟩ := Option.isSome_iff_exists.mp (hsig m List.mem_cons_self)
    rw [List.filterMap_cons, recoverSig, hs]
    simp [ih fun m' hm' => hsig m' (List.mem_cons_of_mem _ hm')]

/-- When every block loads and every BLS signature is cached, `MessagesForBlocks` returns all
the blocks' messages. -/
lemma messagesForBlocks_eq : ∀ (bs : List Blk), (∀ b ∈ bs, (env.messagesForBlock b).isSome) →
    (∀ b ∈ bs, ∀ bmsgs smsgs, env.messagesForBlock b = some (bmsgs, smsgs) →
      ∀ m ∈ bmsgs, (env.blsSigCache (env.messageCid m)).isSome) →
    ∃ msgs, messagesForBlocks env bs = some msgs ∧
      msgs.map (·.message) = bs.flatMap (blockMessages env)
  | [], _, _ => ⟨[], rfl, rfl⟩
  | b :: bs, hread, hsig => by
    obtain ⟨⟨bmsgs, smsgs⟩, hb⟩ := Option.isSome_iff_exists.mp (hread b List.mem_cons_self)
    obtain ⟨rest, hrest, hmap⟩ := messagesForBlocks_eq bs
      (fun b' hb' => hread b' (List.mem_cons_of_mem _ hb'))
      (fun b' hb' => hsig b' (List.mem_cons_of_mem _ hb'))
    refine ⟨smsgs ++ bmsgs.filterMap (recoverSig env) ++ rest,
      by simp only [messagesForBlocks, hb, hrest], ?_⟩
    simp [blockMessages, hb, hmap, filterMap_recoverSig env (hsig b List.mem_cons_self bmsgs smsgs hb)]

/-- What the revert loop keeps after the reverted tipsets `pre`: the pool as it was, and the
buffer holding the `From` and nonce pairs of their messages. -/
structure RevertInv (mp : MessagePool) (pre : List TS) (st : HeadChangeState TS Blk) : Prop where
  pool_eq : st.pool = mp
  buffer_keys : bufferKeys st.rmsgs = rawKeys (tipSetsMessages env pre)
  buffer_ok : BufferOk st.rmsgs

theorem revertInv_revertTipSet {mp : MessagePool} {pre : List TS} {st : HeadChangeState TS Blk}
    (h : RevertInv env mp pre st) {ts : TS} (hts : RevertAnswers env ts) :
    RevertInv env mp (pre ++ [ts]) (revertTipSet env st ts) := by
  obtain ⟨pts, hp⟩ := Option.isSome_iff_exists.mp hts.parent
  obtain ⟨msgs, hmsgs, hmap⟩ := messagesForBlocks_eq env _ hts.read hts.sig
  obtain ⟨hkeys, hok⟩ := run_bufferAdd h.buffer_ok msgs
  have hst : revertTipSet env st ts =
      { st with curTs := pts, rmsgs := Run.run bufferAdd st.rmsgs msgs } := by
    simp only [revertTipSet, hp, hmsgs]
  rw [hst]
  refine ⟨h.pool_eq, ?_, hok⟩
  rw [hkeys, h.buffer_keys, hmap, tipSetsMessages_append, rawKeys_append]
  simp [tipSetsMessages]

/-- **The revert loop**: the pool is untouched, and the buffer holds the pairs of all the
reverted messages. -/
theorem revertInv_run (mp : MessagePool) (curTs : TS) (revert : List TS)
    (hrev : ∀ ts ∈ revert, RevertAnswers env ts) :
    RevertInv env mp revert (Run.run (revertTipSet env) ⟨mp, curTs, ∅, false, []⟩ revert) := by
  have h0 : RevertInv env mp [] (⟨mp, curTs, ∅, false, []⟩ : HeadChangeState TS Blk) :=
    ⟨rfl, by ext k; simp [tipSetsMessages], bufferOk_empty⟩
  exact Run.run_invariant_prefix (I := RevertInv env mp) (Q := RevertAnswers env)
    (fun _ _ _ hts h => revertInv_revertTipSet env h hts) revert hrev h0

/-! ## The apply loop -/

/-- What the apply loop keeps after the applied messages `A`, from a pool with the keys `P` and
a buffer of the reverted messages `R`: the pool has lost the keys of `A`, and the buffer their
pairs. -/
structure ApplyInv (P : Set (Address × ℕ)) (R A : List Message) (st : HeadChangeState TS Blk) :
    Prop where
  pool_keys : pendingKeys st.pool = P \ keysOf api A
  buffer_keys : bufferKeys st.rmsgs = rawKeys R \ rawKeys A
  buffer_ok : BufferOk st.rmsgs

/-- An applied message the apply loop can take: its sender resolves, and its key is not both
reverted and pending. -/
def AppliedOk (P : Set (Address × ℕ)) (R : List Message) (m : Message) : Prop :=
  ∃ k, msgKey api m = some k ∧ (k ∈ keysOf api R → k ∉ P)

/-- What an applied message does: it cancels its buffered pair and leaves the pool, or finds no
such pair and is removed from the pool. -/
lemma cancelOrRemove_cases (st : HeadChangeState TS Blk) (f : Address) (n : ℕ) :
    (∃ s, st.rmsgs.lookup f = some s ∧ n ∈ s ∧
      cancelOrRemove api st f n = { st with rmsgs := st.rmsgs.insert f (s.erase n) }) ∨
    ((f, n) ∉ bufferKeys st.rmsgs ∧
      cancelOrRemove api st f n = { st with pool := st.pool.remove api f n true }) := by
  unfold cancelOrRemove
  rcases hl : st.rmsgs.lookup f with _ | s
  · exact .inr ⟨by simp [hl], rfl⟩
  · by_cases hn : n ∈ s
    · exact .inl ⟨s, rfl, hn, by simp only [hn, if_true]⟩
    · exact .inr ⟨by simp [hl, hn], by simp only [hn, if_false]⟩

theorem applyInv_applyMessage {P : Set (Address × ℕ)} {R A : List Message}
    {st : HeadChangeState TS Blk} (h : ApplyInv api P R A st) {m : Message}
    (hm : AppliedOk api P R m) (c : Cid) :
    ApplyInv api P R (A ++ [m]) (applyMessage api env st m c) := by
  obtain ⟨k, hk, hfresh⟩ := hm
  -- `maybeRepub` touches neither the pool nor the buffer
  suffices hc : ApplyInv api P R (A ++ [m]) (cancelOrRemove api st m.fromAddr m.nonce) from
    ⟨hc.pool_keys, hc.buffer_keys, hc.buffer_ok⟩
  have hkeys : keysOf api (A ++ [m]) = keysOf api A ∪ {k} := by
    rw [keysOf_append]
    congr 1
    ext x
    simp [hk, eq_comm]
  have hraw : rawKeys (A ++ [m]) = rawKeys A ∪ {rawKey m} := by
    rw [rawKeys_append, rawKeys_singleton]
  rcases cancelOrRemove_cases api st m.fromAddr m.nonce with ⟨s, hs, hn, heq⟩ | ⟨hnot, heq⟩
  · -- the pair was buffered, so the key is reverted, and by freshness not pending
    rw [heq]
    have hbuf : rawKey m ∈ rawKeys R := by
      have hin : rawKey m ∈ bufferKeys st.rmsgs := ⟨s, hs, hn⟩
      rw [h.buffer_keys] at hin
      exact hin.1
    have hnotP : k ∉ P := hfresh (by rw [keysOf_eq_resolve]; exact ⟨rawKey m, hbuf, hk⟩)
    refine ⟨?_, ?_, bufferOk_cancel h.buffer_ok hs _⟩
    · show pendingKeys st.pool = _
      rw [h.pool_keys, hkeys, ← Set.sdiff_sdiff, Set.sdiff_singleton_eq_self]
      exact fun hx => hnotP hx.1
    · show bufferKeys (st.rmsgs.insert m.fromAddr (s.erase m.nonce)) = _
      rw [bufferKeys_cancel hs, h.buffer_keys, hraw, Set.sdiff_sdiff]
      rfl
  · -- no buffered pair: the message is removed from the pool, and the buffer stays
    rw [heq]
    obtain ⟨ra, hra, rfl⟩ : ∃ ra, api.resolveToKey m.fromAddr = some ra ∧ (ra, m.nonce) = k := by
      simpa [msgKey, resolveKey, rawKey] using hk
    refine ⟨?_, ?_, h.buffer_ok⟩
    · show pendingKeys (st.pool.remove api m.fromAddr m.nonce true) = _
      rw [pendingKeys_remove api hra, h.pool_keys, hkeys, Set.sdiff_sdiff]
    · show bufferKeys st.rmsgs = _
      have hnot' : rawKey m ∉ rawKeys R \ rawKeys A := h.buffer_keys ▸ hnot
      rw [h.buffer_keys, hraw, ← Set.sdiff_sdiff, Set.sdiff_singleton_eq_self hnot']

/-- A block of an applied tipset keeps the invariant, its messages joining the applied ones. -/
theorem applyInv_applyBlock {P : Set (Address × ℕ)} {R A : List Message}
    {st : HeadChangeState TS Blk} (h : ApplyInv api P R A st) {b : Blk}
    (hb : (env.messagesForBlock b).isSome)
    (hq : ∀ m ∈ blockMessages env b, AppliedOk api P R m) :
    ApplyInv api P R (A ++ blockMessages env b) (applyBlock cid api env st b) := by
  obtain ⟨⟨bmsgs, smsgs⟩, hbm⟩ := Option.isSome_iff_exists.mp hb
  have hmsgs : blockMessages env b = smsgs.map (·.message) ++ bmsgs := by
    simp [blockMessages, hbm]
  rw [hmsgs] at hq ⊢
  rw [← List.append_assoc]
  simp only [applyBlock, hbm]
  -- the BLS messages after the signed ones
  refine Run.run_invariant_prefix
    (I := fun pre st => ApplyInv api P R (A ++ smsgs.map (·.message) ++ pre) st)
    (fun pre st m hm h => ?_) bmsgs (fun m hm => hq m (List.mem_append_right _ hm)) ?_
  · simpa using applyInv_applyMessage api env h hm (env.messageCid m)
  · simp only [List.append_nil]
    refine Run.run_invariant_prefix
      (I := fun pre st => ApplyInv api P R (A ++ pre.map (·.message)) st)
      (fun pre st sm hm h => ?_) smsgs
      (fun sm hsm => hq _ (List.mem_append_left _ (List.mem_map_of_mem hsm))) (by simpa using h)
    simpa using applyInv_applyMessage api env h hm (cid sm)

/-- The messages of an applied tipset the invariant can take: every block loads, and every
message is one the apply loop can take. -/
def ApplyAnswers (P : Set (Address × ℕ)) (R : List Message) (ts : TS) : Prop :=
  ∀ b ∈ env.blocks ts, (env.messagesForBlock b).isSome ∧
    ∀ m ∈ blockMessages env b, AppliedOk api P R m

theorem applyInv_applyTipSet {P : Set (Address × ℕ)} {R A : List Message}
    {st : HeadChangeState TS Blk} (h : ApplyInv api P R A st) {ts : TS}
    (hts : ApplyAnswers api env P R ts) :
    ApplyInv api P R (A ++ tipSetsMessages env [ts]) (applyTipSet cid api env st ts) := by
  have hmsgs : tipSetsMessages env [ts] = (env.blocks ts).flatMap (blockMessages env) := by
    simp [tipSetsMessages]
  rw [hmsgs, applyTipSet]
  -- the new `curTs` is no part of the invariant
  refine Run.run_invariant_prefix
    (I := fun pre st => ApplyInv api P R (A ++ pre.flatMap (blockMessages env)) st)
    (fun pre st b hb h => ?_) (env.blocks ts) hts ⟨by simpa using h.pool_keys,
      by simpa using h.buffer_keys, h.buffer_ok⟩
  simpa using applyInv_applyBlock cid api env h hb.1 hb.2

/-- **The apply loop**: from the state the revert loop leaves, the pool loses the keys of the
applied messages and the buffer their pairs. -/
theorem applyInv_run {P : Set (Address × ℕ)} {R : List Message} {st : HeadChangeState TS Blk}
    (h : ApplyInv api P R [] st) (apply : List TS)
    (happ : ∀ ts ∈ apply, ApplyAnswers api env P R ts) :
    ApplyInv api P R (tipSetsMessages env apply) (Run.run (applyTipSet cid api env) st apply) := by
  refine Run.run_invariant_prefix (I := fun pre st => ApplyInv api P R (tipSetsMessages env pre) st)
    (fun pre st ts hts h => ?_) apply happ (by simpa [tipSetsMessages] using h)
  rw [tipSetsMessages_append]
  exact applyInv_applyTipSet cid api env h hts

/-! ## The re-add loop -/

/-- Every call `addSkipChecks` and `Remove` make to the state answers. -/
structure StateAnswers : Prop where
  resolve : ∀ a, (api.resolveToKey a).isSome
  nonce : ∀ a, (api.stateNonce a).isSome
  put : ∀ m, api.putSigned m = true ∧ api.putUnsigned m.message = true

/-- **The re-add loop** adds the keys of the messages it re-adds, in any order. -/
theorem pendingKeys_run_readd [DecidableEq Cid] (hs : StateAnswers api) (mp : MessagePool)
    (msgs : List SignedMessage) :
    pendingKeys (Run.run (readd cid api) mp msgs) =
      pendingKeys mp ∪ keysOf api (msgs.map (·.message)) := by
  refine Run.run_invariant_prefix (Q := fun _ => True)
    (I := fun pre p => pendingKeys p = pendingKeys mp ∪ keysOf api (pre.map (·.message)))
    (fun pre p m _ hp => ?_) msgs (fun _ _ => trivial) ?_
  · obtain ⟨ra, hra⟩ := Option.isSome_iff_exists.mp (hs.resolve m.message.fromAddr)
    have hkey : keysOf api [m.message] = {(ra, m.message.nonce)} := by
      ext k
      simp [msgKey, resolveKey, rawKey, hra, eq_comm]
    rw [pendingKeys_readd cid api (hs.put m) hra (hs.nonce _), hp, List.map_append,
      List.map_singleton, keysOf_append, hkey, Set.insert_eq]
    ac_rfl
  · simp [keysOf]

/-- The keys of the messages left in a well-kept buffer are the resolved pairs it holds. -/
lemma keysOf_survivors {rmsgs : AList (fun _ : Address => AList (fun _ : ℕ => SignedMessage))}
    (h : BufferOk rmsgs) :
    keysOf api ((survivors rmsgs).map (·.message)) =
      {k | ∃ rk ∈ bufferKeys rmsgs, resolveKey api rk = some k} := by
  rw [keysOf_eq_resolve, rawKeys_survivors h]

/-- A message's pool key has the message's nonce. -/
lemma msgKey_nonce {m : Message} {k : Address × ℕ} (h : msgKey api m = some k) :
    k.2 = m.nonce := by
  obtain ⟨ra, -, rfl⟩ : ∃ ra, api.resolveToKey m.fromAddr = some ra ∧ (ra, m.nonce) = k := by
    simpa [msgKey, resolveKey, rawKey] using h
  rfl

/-- Resolving the reverted pairs that no applied message cancelled gives the reverted keys that
are not applied, when a reverted and an applied message of one key write their `From` alike. -/
lemma resolve_rawKeys_sdiff {R A : List Message}
    (hfrom : ∀ m ∈ R, ∀ m' ∈ A, ∀ k, msgKey api m = some k → msgKey api m' = some k →
      m.fromAddr = m'.fromAddr) :
    {k | ∃ rk ∈ rawKeys R \ rawKeys A, resolveKey api rk = some k} =
      keysOf api R \ keysOf api A := by
  ext k
  simp only [Set.mem_ofPred_eq, Set.mem_sdiff, mem_rawKeys, mem_keysOf]
  constructor
  · rintro ⟨rk, ⟨⟨m, hm, rfl⟩, hnot⟩, hk⟩
    refine ⟨⟨m, hm, hk⟩, ?_⟩
    rintro ⟨m', hm', hk'⟩
    -- an applied message of the same key has the same `From` and nonce: it cancelled `m`
    have hfa := hfrom m hm m' hm' k hk hk'
    have hn : m'.nonce = m.nonce := (msgKey_nonce api hk').symm.trans (msgKey_nonce api hk)
    exact hnot ⟨m', hm', by simp [rawKey, hfa, hn]⟩
  · rintro ⟨⟨m, hm, hk⟩, hnot⟩
    refine ⟨rawKey m, ⟨⟨m, hm, rfl⟩, ?_⟩, hk⟩
    rintro ⟨m', hm', heq⟩
    exact hnot ⟨m', hm', by rw [msgKey, heq]; exact hk⟩

/-! ## The pending keys after `HeadChange` -/

/-- The chain store answers every call `HeadChange` makes. -/
structure ChainAnswers (revert apply : List TS) : Prop where
  revert : ∀ ts ∈ revert, RevertAnswers env ts
  apply : ∀ ts ∈ apply, ∀ b ∈ env.blocks ts, (env.messagesForBlock b).isSome

/-- **`HeadChange` moves the pending keys by the head change**: after it the pending keys are
those before and the reverted ones, less the applied ones, in whatever order the buffered
messages are re-added.  This needs every call to answer, no pending key to be both reverted and
applied, and a reverted and an applied message of one key to write their `From` alike. -/
theorem headChange_pendingKeys [DecidableEq Cid] (order : List SignedMessage → List SignedMessage)
    (horder : ∀ l m, m ∈ order l ↔ m ∈ l) (mp : MessagePool) (curTs : TS)
    (revert apply : List TS) (hc : ChainAnswers env revert apply) (hs : StateAnswers api)
    (hfresh : pendingKeys mp ∩ keysOf api (tipSetsMessages env revert) ∩
      keysOf api (tipSetsMessages env apply) = ∅)
    (hfrom : ∀ m ∈ tipSetsMessages env revert, ∀ m' ∈ tipSetsMessages env apply, ∀ k,
      msgKey api m = some k → msgKey api m' = some k → m.fromAddr = m'.fromAddr) :
    pendingKeys (headChange cid api env order mp curTs revert apply).pool =
      (pendingKeys mp ∪ keysOf api (tipSetsMessages env revert)) \
        keysOf api (tipSetsMessages env apply) := by
  have hrev := revertInv_run env mp curTs revert hc.revert
  -- after the revert loop nothing is applied yet
  have h0 : ApplyInv api (pendingKeys mp) (tipSetsMessages env revert) []
      (Run.run (revertTipSet env) ⟨mp, curTs, ∅, false, []⟩ revert) :=
    ⟨by simp [hrev.pool_eq, keysOf], by simp [hrev.buffer_keys, rawKeys], hrev.buffer_ok⟩
  -- every applied message resolves, and by freshness its key is not both reverted and pending
  have happ : ∀ ts ∈ apply,
      ApplyAnswers api env (pendingKeys mp) (tipSetsMessages env revert) ts := by
    intro ts hts b hb
    refine ⟨hc.apply ts hts b hb, fun m hm => ?_⟩
    have hmA : m ∈ tipSetsMessages env apply := by
      simp only [tipSetsMessages, List.mem_flatMap]
      exact ⟨ts, hts, b, hb, hm⟩
    obtain ⟨ra, hra⟩ := Option.isSome_iff_exists.mp (hs.resolve m.fromAddr)
    have hk : msgKey api m = some (ra, m.nonce) := by simp [msgKey, resolveKey, rawKey, hra]
    refine ⟨(ra, m.nonce), hk, fun hR hP => ?_⟩
    have hall : (ra, m.nonce) ∈ pendingKeys mp ∩ keysOf api (tipSetsMessages env revert) ∩
        keysOf api (tipSetsMessages env apply) := ⟨⟨hP, hR⟩, (mem_keysOf api).mpr ⟨m, hmA, hk⟩⟩
    rw [hfresh] at hall
    exact hall
  have happlied := applyInv_run cid api env h0 apply happ
  -- the messages re-added are the reverted ones that no applied message cancelled
  have hsurv : ∀ rmsgs, BufferOk rmsgs →
      keysOf api ((order (survivors rmsgs)).map (·.message)) =
        {k | ∃ rk ∈ bufferKeys rmsgs, resolveKey api rk = some k} := by
    intro rmsgs hok
    rw [← keysOf_survivors api hok]
    exact keysOf_congr api fun m => by simp [horder]
  simp only [headChange]
  rw [pendingKeys_run_readd cid api hs, happlied.pool_keys, hsurv _ happlied.buffer_ok,
    happlied.buffer_keys, resolve_rawKeys_sdiff api hfrom, Set.union_sdiff_distrib]

/-! ## The head, and the senders' next nonces -/

/-! ## An actor that writes its address two ways -/

/-- An actor's ID address. -/
def idAddr : Address := ⟨"t0100"⟩

/-- The same actor's key address. -/
def keyAddr : Address := ⟨"t1key"⟩

/-- The state at the new head: the ID address resolves to the key address, every other address
is a key address, and every actor is at nonce 1. -/
def aliasApi : PoolApi :=
  ⟨fun a => if a = idAddr then some keyAddr else some a, fun _ => some 1, fun _ => true,
    fun _ => true⟩

/-- A transfer of `value` from `fromAddr` at nonce 0. -/
def transferFrom (fromAddr : Address) (value : ℤ) : SignedMessage :=
  ⟨{ version := 0, toAddr := ⟨"t01000"⟩, fromAddr := fromAddr, nonce := 0, value := value,
     gasLimit := 1000000, gasFeeCap := 100, gasPremium := 10, method := 0, params := [] },
   ⟨.secp256k1, []⟩⟩

/-- A fork at tipset 0: the old head 1 holds the actor's nonce-0 message written with its ID
address, the new head 2 another nonce-0 message of the actor written with its key address.
Every tipset has one block, of its own number. -/
def forkEnv : HeadChangeEnv Message ℕ ℕ where
  loadParent _ := some 0
  blocks ts := [ts]
  messagesForBlock b :=
    some ([], if b = 1 then [transferFrom idAddr 1] else if b = 2 then [transferFrom keyAddr 2] else [])
  messageCid := id
  blsSigCache _ := none
  republished _ := false

/-- Every call of the head change from 1 to 2 answers. -/
lemma forkEnv_answers : ChainAnswers forkEnv [1] [2] ∧ StateAnswers aliasApi := by
  refine ⟨⟨fun ts _ => ⟨rfl, fun b _ => rfl, fun b _ bmsgs smsgs hb m hm => ?_⟩,
    fun ts _ b _ => rfl⟩, ⟨fun a => ?_, fun _ => rfl, fun _ => ⟨rfl, rfl⟩⟩⟩
  · -- no block holds a BLS message
    simp only [forkEnv, Option.some.injEq, Prod.mk.injEq] at hb
    rw [← hb.1] at hm
    cases hm
  · simp only [aliasApi]
    split <;> rfl

/-- **The reverted message comes back although its nonce was applied.**  From an empty pool,
revert 1 and apply 2: the key address's nonce 0 is both reverted and applied, yet the pool ends
holding the reverted message at it. -/
theorem headChange_readds_applied_nonce :
    (keyAddr, 0) ∈ keysOf aliasApi (tipSetsMessages forkEnv [1]) ∧
      (keyAddr, 0) ∈ keysOf aliasApi (tipSetsMessages forkEnv [2]) ∧
      (keyAddr, 0) ∈ pendingKeys (headChange (·.message) aliasApi forkEnv id empty 1 [1] [2]).pool ∧
      ((headChange (·.message) aliasApi forkEnv id empty 1 [1] [2]).pool.pending.lookup
        keyAddr).bind (fun ms => ms.msgs.lookup 0) = some (transferFrom idAddr 1) := by
  refine ⟨?_, ?_, ?_, ?_⟩ <;> decide

/-! ## A head change that applies a pending message -/

/-- Another actor's key address, with a message pending. -/
def carolAddr : Address := ⟨"t1carol"⟩

/-- A third actor's key address. -/
def daveAddr : Address := ⟨"t1dave"⟩

/-- A pool holding `carolAddr`'s nonce-0 transfer of 3. -/
def carolPool : MessagePool :=
  ⟨AList.singleton carolAddr ⟨AList.singleton 0 (transferFrom carolAddr 3), 1, 0⟩, 1, []⟩

/-- A fork at tipset 0: the old head 1 holds the actor's and `daveAddr`'s nonce-0 messages, the
new head 2 the actor's nonce-0 message again and `carolAddr`'s pending one.  The actor writes its
key address in both. -/
def applyEnv : HeadChangeEnv Message ℕ ℕ where
  loadParent _ := some 0
  blocks ts := [ts]
  messagesForBlock b :=
    some ([], if b = 1 then [transferFrom keyAddr 1, transferFrom daveAddr 4]
      else if b = 2 then [transferFrom keyAddr 2, transferFrom carolAddr 3] else [])
  messageCid := id
  blsSigCache _ := none
  republished _ := false

lemma applyEnv_answers : ChainAnswers applyEnv [1] [2] := by
  refine ⟨fun ts _ => ⟨rfl, fun b _ => rfl, fun b _ bmsgs smsgs hb m hm => ?_⟩, fun ts _ b _ => rfl⟩
  -- no block holds a BLS message
  simp only [applyEnv, Option.some.injEq, Prod.mk.injEq] at hb
  rw [← hb.1] at hm
  cases hm

/-- Applying 2 to `carolPool` after reverting 1 removes the key of `carolAddr`'s applied message
and the actor's key, reverted and applied alike, and adds `daveAddr`'s reverted one. -/
theorem headChange_pendingKeys_applyFork :
    pendingKeys (headChange (·.message) aliasApi applyEnv id carolPool 1 [1] [2]).pool =
      {(daveAddr, 0)} := by
  have hrev : (tipSetsMessages applyEnv [1]).filterMap (msgKey aliasApi) =
      [(keyAddr, 0), (daveAddr, 0)] := by decide
  have happ : (tipSetsMessages applyEnv [2]).filterMap (msgKey aliasApi) =
      [(keyAddr, 0), (carolAddr, 0)] := by decide
  have hpool : pendingKeys carolPool = {(carolAddr, 0)} := by
    ext ⟨a, n⟩
    by_cases ha : a = carolAddr
    · subst ha
      simp only [pendingKeys, carolPool, mem_keysIn, AList.lookup, AList.singleton_entries,
        List.dlookup_cons_eq, Option.mem_def, Option.some.injEq, exists_eq_left',
        Set.mem_singleton_iff, Prod.mk.injEq, true_and]
      change n ∈ (AList.singleton 0 (transferFrom carolAddr 3)).keys ↔ n = 0
      rw [AList.keys_singleton, List.mem_singleton]
    · simp [pendingKeys, carolPool, AList.lookup, AList.singleton_entries, ha]
  -- the one key both reverted and applied is the actor's, written alike in both
  have hpairs : ∀ m ∈ tipSetsMessages applyEnv [1], ∀ m' ∈ tipSetsMessages applyEnv [2],
      msgKey aliasApi m = msgKey aliasApi m' → m.fromAddr = m'.fromAddr := by decide
  have hfresh : pendingKeys carolPool ∩ keysOf aliasApi (tipSetsMessages applyEnv [1]) ∩
      keysOf aliasApi (tipSetsMessages applyEnv [2]) = ∅ := by
    rw [hpool, keysOf, keysOf, hrev, happ]
    ext ⟨a, n⟩
    simp only [Set.mem_inter_iff, Set.mem_singleton_iff, Set.mem_ofPred_eq, List.mem_cons,
      List.not_mem_nil, Prod.mk.injEq, Set.mem_empty_iff_false, iff_false, not_and, or_false]
    rintro ⟨⟨rfl, rfl⟩, ⟨h, -⟩ | ⟨h, -⟩⟩
    · exact absurd h (by decide)
    · exact absurd h (by decide)
  rw [headChange_pendingKeys (·.message) aliasApi applyEnv id (fun _ _ => Iff.rfl) carolPool 1
    [1] [2] applyEnv_answers forkEnv_answers.2 hfresh
    (fun m hm m' hm' k h h' => hpairs m hm m' hm' (h.trans h'.symm)), hpool, keysOf, keysOf, hrev, happ]
  ext ⟨a, n⟩
  simp only [Set.mem_sdiff, Set.mem_union, Set.mem_singleton_iff, Set.mem_ofPred_eq, List.mem_cons,
    List.not_mem_nil, Prod.mk.injEq, or_false]
  constructor
  · rintro ⟨⟨rfl, rfl⟩ | ⟨rfl, rfl⟩ | ⟨rfl, rfl⟩, hnot⟩
    · exact absurd (.inr ⟨rfl, rfl⟩) hnot
    · exact absurd (.inl ⟨rfl, rfl⟩) hnot
    · exact ⟨rfl, rfl⟩
  · rintro ⟨rfl, rfl⟩
    refine ⟨.inr (.inr ⟨rfl, rfl⟩), ?_⟩
    rintro (⟨h, -⟩ | ⟨h, -⟩)
    · exact absurd h (by decide)
    · exact absurd h (by decide)

end MessagePool

end Lotus
