import Lotus.Chain.Messagepool.MsgSet

/-!
# The pool's message count (`chain/messagepool/messagepool.go`, `MessagePool`)

`MessagePool.currentSize` counts the pending messages of all senders; pruning is triggered when
it passes `SizeLimitHigh`.  It is kept incrementally: `addLocked` adds one when `msgSet.add`
reports a new nonce, and `remove` takes one off when the nonce is pending.  Every other way
messages reach or leave the pending sets goes through these two: `HeadChange` re-adds reverted
messages with `addSkipChecks` (that is `addLocked` with `strict = false`) and removes applied ones,
and `pruneMessages` ends with one `remove` per pruned message.

`addLocked` and `remove` keep `currentSize` equal to the number of pending messages
(`addLocked_sizeInv`, `remove_sizeInv`), so every run of them does (`run_sizeInv_of_noClear`).
`Clear` does not: it drops whole sets, with `clearPending` or `deletePendingMset`, and leaves
`currentSize` as it was (`clear_keeps_currentSize`).

The chain store and the state tree live outside this package; they are the parameter `api`:
`resolveToKey` and the actor nonce at the current tipset fail with `none`, and `PutMessage`
reports whether it stored the message.
-/

namespace Lotus

/-- What the pool asks of the chain store and the state tree. -/
structure PoolApi where
  resolveToKey : Address → Option Address
  stateNonce : Address → Option ℕ
  putSigned : SignedMessage → Bool
  putUnsigned : Message → Bool

/-- The fields of `MessagePool` that its pending sets and their count consist of. -/
structure MessagePool where
  pending : AList (fun _ : Address => MsgSet)
  currentSize : ℤ
  localAddrs : List Address

/-- The errors of `addLocked`. -/
inductive PoolError
  /-- "mpooladd cs.PutMessage failed". -/
  | putMessage
  /-- `resolveToKey` failed. -/
  | resolve
  /-- "failed to get initial actor nonce". -/
  | stateNonce
  /-- `msgSet.add` refused the message. -/
  | add (e : AddError)

namespace MessagePool

variable {Cid : Type} [DecidableEq Cid] (cid : SignedMessage → Cid) (api : PoolApi)

/-- The set `addLocked` adds to: the sender's pending set, or a `newMsgSet` at the actor's nonce,
stored under the key before the message is added to it. -/
def pendingOrNew (mp : MessagePool) (ra sender : Address) :
    Except PoolError (MessagePool × MsgSet) :=
  match mp.pending.lookup ra with
  | some mset => .ok (mp, mset)
  | none =>
    match api.stateNonce sender with
    | none => .error .stateNonce
    | some nonce => .ok ({ mp with pending := mp.pending.insert ra (newMsgSet nonce) }, newMsgSet nonce)

/-- `MessagePool.addLocked`.  The set is a pointer held by `pending`, so what `msgSet.add` does to
it is stored back under the key whether or not it refused. -/
def addLocked (mp : MessagePool) (m : SignedMessage) (strict untrusted : Bool) :
    MessagePool × Except PoolError Unit :=
  if !api.putSigned m || !api.putUnsigned m.message then (mp, .error .putMessage)
  else
    match api.resolveToKey m.message.fromAddr with
    | none => (mp, .error .resolve)
    | some ra =>
      match pendingOrNew api mp ra m.message.fromAddr with
      | .error e => (mp, .error e)
      | .ok (mp₁, mset) =>
        let (mset', r) := mset.add cid m strict untrusted
        let mp₂ := { mp₁ with pending := mp₁.pending.insert ra mset' }
        match r with
        | .error e => (mp₂, .error (.add e))
        | .ok incr => (if incr then { mp₂ with currentSize := mp₂.currentSize + 1 } else mp₂, .ok ())

/-- `MessagePool.remove`.  `deletePendingMset` resolves the sender again, to the same key. -/
def remove (mp : MessagePool) (sender : Address) (nonce : ℕ) (applied : Bool) : MessagePool :=
  match api.resolveToKey sender with
  | none => mp
  | some ra =>
    match mp.pending.lookup ra with
    | none => mp
    | some mset =>
      let mp₁ := if nonce ∈ mset.msgs then { mp with currentSize := mp.currentSize - 1 } else mp
      let mset' := mset.rm nonce applied
      let mp₂ := { mp₁ with pending := mp₁.pending.insert ra mset' }
      if AList.size mset'.msgs = 0 then { mp₂ with pending := mp₂.pending.erase ra } else mp₂

/-- One step of `Clear(ctx, false)`'s `forEachPending`: drop the set of a sender that is not
local.  A key deleted earlier in the same `range` is not visited again. -/
def clearIfNotLocal (mp : MessagePool) (a : Address) : MessagePool :=
  if a ∉ mp.pending then mp
  else
    match api.resolveToKey a with
    | none => mp
    | some ra =>
      if ra ∈ mp.localAddrs then mp
      else
        match api.resolveToKey a with
        | none => mp
        | some ra' => { mp with pending := mp.pending.erase ra' }

/-- `MessagePool.Clear`.  With `local` every set goes (`clearPending`; the local messages are also
deleted from the datastore, which this model does not hold); without it the sets of senders that
are not local go. -/
def clear (mp : MessagePool) (clearLocal : Bool) : MessagePool :=
  if clearLocal then { mp with pending := ∅ }
  else mp.pending.keys.foldl (clearIfNotLocal api) mp

/-- The number of pending messages over all senders. -/
def pendingCount (pending : AList (fun _ : Address => MsgSet)) : ℤ :=
  AList.sumValues (fun ms : MsgSet => (AList.size ms.msgs : ℤ)) pending

/-- `currentSize` counts the pending messages. -/
def SizeInv (mp : MessagePool) : Prop :=
  mp.currentSize = pendingCount mp.pending

instance (mp : MessagePool) : Decidable mp.SizeInv := inferInstanceAs (Decidable (_ = _))

/-! ## `addLocked` and `remove` keep the count -/

/-- Replacing the set under a key changes the count by the difference of the two sets' sizes. -/
lemma pendingCount_insert {pending : AList (fun _ : Address => MsgSet)} {ra : Address}
    {ms ms' : MsgSet} (h : pending.lookup ra = some ms) :
    pendingCount (pending.insert ra ms') =
      pendingCount pending - AList.size ms.msgs + AList.size ms'.msgs := by
  simp only [pendingCount]
  rw [AList.sumValues_insert, AList.sumValues_eq_add_erase _ h]
  omega

/-- Deleting a key takes its set's size off the count. -/
lemma pendingCount_erase {pending : AList (fun _ : Address => MsgSet)} {ra : Address}
    {ms : MsgSet} (h : pending.lookup ra = some ms) :
    pendingCount (pending.erase ra) = pendingCount pending - AList.size ms.msgs := by
  simp only [pendingCount]
  rw [AList.sumValues_eq_add_erase _ h]
  omega

/-- The set `pendingOrNew` hands back is the one stored under the key, and storing a new empty
set does not change the count. -/
lemma pendingOrNew_ok {mp mp₁ : MessagePool} {ra sender : Address} {mset : MsgSet}
    (h : pendingOrNew api mp ra sender = .ok (mp₁, mset)) :
    mp₁.pending.lookup ra = some mset ∧ mp₁.currentSize = mp.currentSize ∧
      pendingCount mp₁.pending = pendingCount mp.pending := by
  unfold pendingOrNew at h
  rcases hl : mp.pending.lookup ra with _ | ms
  · rw [hl] at h
    rcases hn : api.stateNonce sender with _ | nonce <;> rw [hn] at h <;> cases h
    refine ⟨AList.lookup_insert _, rfl, ?_⟩
    simp [pendingCount, AList.sumValues_insert, AList.erase_of_notMem (AList.lookup_eq_none.mp hl),
      newMsgSet]
  · rw [hl] at h
    cases h
    exact ⟨hl, rfl, rfl⟩

theorem addLocked_sizeInv {mp : MessagePool} (m : SignedMessage) (strict untrusted : Bool)
    (h : mp.SizeInv) : (mp.addLocked cid api m strict untrusted).1.SizeInv := by
  unfold addLocked
  split_ifs
  · exact h
  split
  · exact h
  next ra hr =>
  split
  · exact h
  next mp₁ mset hp =>
  obtain ⟨hl, hsz, hcnt⟩ := pendingOrNew_ok api hp
  have hsize := MsgSet.add_size cid mset m strict untrusted
  rcases hadd : mset.add cid m strict untrusted with ⟨mset', r⟩
  rw [hadd] at hsize
  -- storing the set back moves the count by one exactly when `add` reports a new nonce
  have hstore : pendingCount (mp₁.pending.insert ra mset') =
      mp.currentSize + if r = .ok true then 1 else 0 := by
    rw [pendingCount_insert hl, hsize, hcnt, ← h]
    push_cast
    omega
  simp only [SizeInv] at h ⊢
  rcases r with e | incr
  · simpa [hsz] using hstore.symm
  · cases incr
    · simpa [hsz] using hstore.symm
    · simpa [hsz] using hstore.symm

theorem remove_sizeInv {mp : MessagePool} (sender : Address) (nonce : ℕ) (applied : Bool)
    (h : mp.SizeInv) : (mp.remove api sender nonce applied).SizeInv := by
  unfold remove
  split
  · exact h
  next ra hr =>
  split
  · exact h
  next mset hl =>
  have hrm := MsgSet.rm_size mset nonce applied
  have hcnt : pendingCount (mp.pending.insert ra (mset.rm nonce applied)) = _ :=
    pendingCount_insert hl
  -- after the insert the emptied set sits under `ra`, and erasing it takes its size off
  have herase := pendingCount_erase (AList.lookup_insert (a := ra) (s := mp.pending) (b := mset.rm nonce applied))
  simp only [SizeInv] at h ⊢
  by_cases hmem : nonce ∈ mset.msgs
  · rw [if_pos hmem] at hrm
    simp only [if_pos hmem]
    split_ifs <;> simp only [herase, hcnt] <;> omega
  · rw [if_neg hmem] at hrm
    simp only [if_neg hmem]
    split_ifs <;> simp only [herase, hcnt] <;> omega

/-! ## Where each message is kept -/

/-- Message `m` is pending under the key `K`, at nonce `n`. -/
def Holds (mp : MessagePool) (K : Address) (n : ℕ) (m : SignedMessage) : Prop :=
  ∃ ms, mp.pending.lookup K = some ms ∧ ms.msgs.lookup n = some m

/-- Each sender's set is stored under the key its messages' `From` resolves to, and each message
under its own nonce: what `addLocked` does. -/
def PendingKeyed (mp : MessagePool) : Prop :=
  ∀ K n m, Holds mp K n m → m.message.nonce = n ∧ api.resolveToKey m.message.fromAddr = some K

/-- One key and nonce hold at most one message. -/
lemma Holds.unique {mp : MessagePool} {K : Address} {n : ℕ} {x y : SignedMessage}
    (hx : Holds mp K n x) (hy : Holds mp K n y) : x = y := by
  obtain ⟨ms, hK, hx⟩ := hx
  obtain ⟨ms', hK', hy⟩ := hy
  rw [hK, Option.some.injEq] at hK'
  subst hK'
  rw [hx, Option.some.injEq] at hy
  exact hy

/-- In a keyed pool, a message is where its sender and nonce say, so two held messages with one
`Message` are one. -/
lemma PendingKeyed.eq_of_message_eq {mp : MessagePool} (hkeyed : PendingKeyed api mp)
    {K K' : Address} {n n' : ℕ} {x y : SignedMessage} (hx : Holds mp K n x) (hy : Holds mp K' n' y)
    (hxy : x.message = y.message) : x = y := by
  obtain ⟨hxn, hxK⟩ := hkeyed K n x hx
  obtain ⟨hyn, hyK⟩ := hkeyed K' n' y hy
  rw [hxy, hyK, Option.some.injEq] at hxK
  rw [hxy, hyn] at hxn
  subst hxK hxn
  exact hx.unique hy

/-- A set with no keys holds nothing. -/
lemma lookup_of_size_eq_zero {β : Type} {s : AList (fun _ : ℕ => β)} (h : AList.size s = 0) (n : ℕ) :
    s.lookup n = none := by
  rw [AList.size, List.length_eq_zero_iff] at h
  exact AList.lookup_eq_none.2 fun hn => by
    rw [AList.mem_keys, h] at hn
    simp at hn

/-- The pending sets after `Remove` of a sender with a set: the set without the nonce, deleted
with its key when nothing is left in it. -/
lemma remove_pending {mp : MessagePool} {sender ra : Address} {mset : MsgSet}
    (hr : api.resolveToKey sender = some ra) (hl : mp.pending.lookup ra = some mset)
    (nonce : ℕ) (applied : Bool) :
    (mp.remove api sender nonce applied).pending =
      if AList.size (mset.rm nonce applied).msgs = 0 then
        (mp.pending.insert ra (mset.rm nonce applied)).erase ra
      else mp.pending.insert ra (mset.rm nonce applied) := by
  simp only [remove, hr, hl]
  split_ifs <;> rfl

/-- **`remove` drops one message**: the one at `nonce` under the key `sender` resolves to. -/
lemma holds_remove {mp : MessagePool} {sender : Address} {nonce : ℕ} {applied : Bool} {K : Address}
    {n : ℕ} {m : SignedMessage} :
    Holds (mp.remove api sender nonce applied) K n m ↔
      Holds mp K n m ∧ ¬ (api.resolveToKey sender = some K ∧ nonce = n) := by
  rcases hr : api.resolveToKey sender with _ | ra
  · have : mp.remove api sender nonce applied = mp := by simp only [remove, hr]
    simp [this]
  rcases hl : mp.pending.lookup ra with _ | mset
  · -- no set under `ra`, so nothing is held there
    have : mp.remove api sender nonce applied = mp := by simp only [remove, hr, hl]
    rw [this]
    refine ⟨fun h => ⟨h, fun ⟨hra, _⟩ => ?_⟩, fun h => h.1⟩
    obtain ⟨ms, hK, -⟩ := h
    cases hra
    rw [hl] at hK
    cases hK
  -- under `ra` the old set without `nonce`, deleted when that leaves it empty
  have hms' : ∀ n', (mset.rm nonce applied).msgs.lookup n' = some m ↔
      n' ≠ nonce ∧ mset.msgs.lookup n' = some m := fun n' => by
    rw [MsgSet.rm_msgs]
    by_cases hn : n' = nonce
    · subst hn
      simp [AList.lookup_erase]
    · simp [AList.lookup_erase_ne hn, hn]
  simp only [Holds, remove_pending api hr hl]
  by_cases hK : K = ra
  · subst hK
    split_ifs with hsize
    · -- an emptied set holds nothing, and neither did the old one outside `nonce`
      simp only [AList.lookup_erase, reduceCtorEq, false_and, exists_false, false_iff, hl,
        Option.some.injEq, exists_eq_left', true_and, not_and]
      intro hm hne
      have hleft := (hms' n).2 ⟨fun h => hne h.symm, hm⟩
      rw [lookup_of_size_eq_zero hsize] at hleft
      cases hleft
    · simp only [AList.lookup_insert, Option.some.injEq, exists_eq_left', hms', hl, true_and]
      grind
  · have hne : some ra ≠ some K := fun h => hK (Option.some.inj h).symm
    split_ifs <;> simp [AList.lookup_erase_ne hK, AList.lookup_insert_ne hK, hne]

/-- Removing messages one after another drops exactly theirs. -/
lemma holds_foldl_remove (sel : SignedMessage → Address × ℕ) (applied : Bool) :
    ∀ (R : List SignedMessage) (mp : MessagePool) (K : Address) (n : ℕ) (m : SignedMessage),
      Holds (R.foldl (fun mp r => mp.remove api (sel r).1 (sel r).2 applied) mp) K n m ↔
        Holds mp K n m ∧ ∀ r ∈ R, ¬ (api.resolveToKey (sel r).1 = some K ∧ (sel r).2 = n)
  | [], mp, K, n, m => by simp
  | r :: R, mp, K, n, m => by
    rw [List.foldl_cons, holds_foldl_remove sel applied R, holds_remove, List.forall_mem_cons, and_assoc]

/-! ## Runs of the pool -/

/-- One operation on the pool: `HeadChange` and `pruneMessages` are sequences of the first two. -/
inductive Op
  | add (m : SignedMessage) (strict untrusted : Bool)
  | remove (sender : Address) (nonce : ℕ) (applied : Bool)
  | clear (clearLocal : Bool)

/-- Apply one operation. -/
def step (mp : MessagePool) : Op → MessagePool
  | .add m strict untrusted => (mp.addLocked cid api m strict untrusted).1
  | .remove sender nonce applied => mp.remove api sender nonce applied
  | .clear clearLocal => mp.clear api clearLocal

/-- The operations other than `Clear`. -/
def NotClear (_ : MessagePool) : Op → Prop
  | .clear _ => False
  | _ => True

/-- The pool `NewMessagePool` starts from: nothing pending, nothing counted. -/
def empty : MessagePool :=
  ⟨∅, 0, []⟩

lemma empty_sizeInv : empty.SizeInv := rfl

/-- A chain store and state tree on which every call succeeds: addresses are already key
addresses, and every actor is at nonce 0. -/
def okApi : PoolApi :=
  ⟨some, fun _ => some 0, fun _ => true, fun _ => true⟩

/-- **Without `Clear`, `currentSize` counts the pending messages after every run.** -/
theorem run_sizeInv_of_noClear (ops : List Op) {mp : MessagePool} (h : mp.SizeInv)
    (hg : Run.Guarded (step cid api) NotClear mp ops) : (Run.run (step cid api) mp ops).SizeInv := by
  refine Run.run_invariant_guarded (fun mp op hmp hop => ?_) ops h hg
  cases op with
  | add m strict untrusted => exact addLocked_sizeInv cid api m strict untrusted hmp
  | remove sender nonce applied => exact remove_sizeInv api sender nonce applied hmp
  | clear clearLocal => exact hop.elim

/-- Two messages of one sender added, and the first removed as applied. -/
theorem run_sizeInv_of_noClear_twoAdds :
    (Run.run (step (fun m : SignedMessage => m) okApi) empty
      [.add (MsgSet.transferAt 0) true false, .add (MsgSet.transferAt 1) true false,
        .remove ⟨"t01001"⟩ 0 true]).SizeInv :=
  run_sizeInv_of_noClear _ _ _ empty_sizeInv ⟨trivial, trivial, trivial, trivial⟩

/-! ## Every message is kept under its sender's key and its nonce -/

/-- Dropping a key's set drops only what it held. -/
lemma holds_of_holds_erase {mp : MessagePool} {ra K : Address} {n : ℕ} {x : SignedMessage}
    (h : Holds { mp with pending := mp.pending.erase ra } K n x) : Holds mp K n x := by
  obtain ⟨ms, hK, hx⟩ := h
  by_cases hKra : K = ra
  · subst hKra
    simp [AList.lookup_erase] at hK
  · exact ⟨ms, by rwa [AList.lookup_erase_ne hKra] at hK, hx⟩

/-- `pendingOrNew` stores at most an empty set, so it holds nothing new. -/
lemma holds_pendingOrNew {mp mp₁ : MessagePool} {ra sender : Address} {mset : MsgSet}
    (h : pendingOrNew api mp ra sender = .ok (mp₁, mset)) {K : Address} {n : ℕ} {x : SignedMessage}
    (hx : Holds mp₁ K n x) : Holds mp K n x := by
  unfold pendingOrNew at h
  rcases hl : mp.pending.lookup ra with _ | ms
  · rw [hl] at h
    rcases hn : api.stateNonce sender with _ | nonce <;> rw [hn] at h <;> cases h
    obtain ⟨ms, hK, hx⟩ := hx
    by_cases hKra : K = ra
    · -- the new set is empty
      subst hKra
      rw [AList.lookup_insert, Option.some.injEq] at hK
      subst hK
      simp [newMsgSet] at hx
    · exact ⟨ms, by rwa [AList.lookup_insert_ne hKra] at hK, hx⟩
  · rw [hl] at h
    cases h
    exact hx

theorem addLocked_pendingKeyed {mp : MessagePool} (m : SignedMessage) (strict untrusted : Bool)
    (h : PendingKeyed api mp) : PendingKeyed api (mp.addLocked cid api m strict untrusted).1 := by
  unfold addLocked
  split_ifs
  · exact h
  split
  · exact h
  next ra hr =>
  split
  · exact h
  next mp₁ mset hp =>
  have hl := (pendingOrNew_ok api hp).1
  -- the set stored back is the old one, or the old one with `m` at its nonce
  have hstore : PendingKeyed api
      { mp₁ with pending := mp₁.pending.insert ra (mset.add cid m strict untrusted).1 } := by
    rintro K n x ⟨ms, hK, hx⟩
    by_cases hKra : K = ra
    · subst hKra
      rw [AList.lookup_insert, Option.some.injEq] at hK
      subst hK
      rcases MsgSet.lookup_add_msgs cid hx with hx | ⟨rfl, rfl⟩
      · exact h K n x (holds_pendingOrNew api hp ⟨mset, hl, hx⟩)
      · exact ⟨rfl, hr⟩
    · rw [AList.lookup_insert_ne hKra] at hK
      exact h K n x (holds_pendingOrNew api hp ⟨ms, hK, hx⟩)
  rcases hadd : mset.add cid m strict untrusted with ⟨mset', r⟩
  rw [hadd] at hstore
  rcases r with e | incr
  · exact hstore
  · cases incr <;> exact hstore

theorem remove_pendingKeyed {mp : MessagePool} (sender : Address) (nonce : ℕ) (applied : Bool)
    (h : PendingKeyed api mp) : PendingKeyed api (mp.remove api sender nonce applied) :=
  fun K n x hx => h K n x (holds_remove api |>.1 hx).1

lemma holds_clearIfNotLocal {mp : MessagePool} {a K : Address} {n : ℕ} {x : SignedMessage}
    (h : Holds (clearIfNotLocal api mp a) K n x) : Holds mp K n x := by
  unfold clearIfNotLocal at h
  split_ifs at h
  · split at h
    · exact h
    split_ifs at h
    · exact h
    split at h
    · exact h
    · exact holds_of_holds_erase h
  · exact h

/-- `Clear` only drops sets. -/
lemma holds_clear {mp : MessagePool} {clearLocal : Bool} {K : Address} {n : ℕ} {x : SignedMessage}
    (h : Holds (mp.clear api clearLocal) K n x) : Holds mp K n x := by
  unfold clear at h
  split_ifs at h
  · obtain ⟨ms, hK, -⟩ := h
    simp at hK
  · -- each visit of the loop drops a set or nothing
    have hloop : ∀ (l : List Address) (mp : MessagePool),
        Holds (l.foldl (clearIfNotLocal api) mp) K n x → Holds mp K n x := by
      intro l
      induction l with
      | nil => exact fun _ h => h
      | cons a l ih => exact fun mp h => holds_clearIfNotLocal api (ih _ h)
    exact hloop _ mp h

theorem step_pendingKeyed {mp : MessagePool} (op : Op) (h : PendingKeyed api mp) :
    PendingKeyed api (step cid api mp op) := by
  cases op with
  | add m strict untrusted => exact addLocked_pendingKeyed cid api m strict untrusted h
  | remove sender nonce applied => exact remove_pendingKeyed api sender nonce applied h
  | clear clearLocal => exact fun K n x hx => h K n x (holds_clear api hx)

lemma empty_pendingKeyed : PendingKeyed api empty := fun K n x ⟨ms, hK, _⟩ => by
  simp [empty] at hK

/-- **Every pool a run reaches from the empty one keeps each message under its sender's key and
its nonce.** -/
theorem run_pendingKeyed (ops : List Op) : PendingKeyed api (Run.run (step cid api) empty ops) :=
  Run.run_invariant (fun _ op h => step_pendingKeyed cid api op h) ops (empty_pendingKeyed api)

/-- **`Clear` leaves `currentSize` behind.**  Add one message to an empty pool and clear the
senders that are not local: the set is gone, `currentSize` still counts its message. -/
theorem clear_keeps_currentSize :
    (Run.run (step (fun m : SignedMessage => m) okApi) empty
        [.add (MsgSet.transferAt 0) true false, .clear false]).currentSize = 1 ∧
    pendingCount (Run.run (step (fun m : SignedMessage => m) okApi) empty
        [.add (MsgSet.transferAt 0) true false, .clear false]).pending = 0 := by
  decide

end MessagePool

end Lotus
