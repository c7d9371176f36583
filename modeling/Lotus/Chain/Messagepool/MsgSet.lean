import Lotus.Lib.MapSum
import Lotus.Lib.Run
import Lotus.Chain.Types.Message

/-!
# One sender's pending messages (`chain/messagepool/messagepool.go`, `msgSet`)

A `msgSet` holds a sender's pending messages by nonce, the next nonce the pool expects from the
sender, and a running total of the funds those messages require.  `add` has three nonce cases
(the expected nonce, which advances `nextNonce` past every pending nonce it reaches; a gap, refused
under `strict` beyond `MaxNonceGap`; a nonce below) and, when the nonce is already pending, the
replace-by-fee rules; `rm` adjusts `nextNonce` differently for applied and pruned removals of
known and unknown nonces.

Three facts hold over every run of `add` and `rm` from `newMsgSet`: the running total is the sum
over the stored messages (`FundsInv`), every key stores a message with that nonce (`KeysInv`),
and an `add` that fails changes nothing (`add_error_state`).  The fourth candidate, that
`nextNonce` is never a pending nonce (`NextFree`), is kept by every operation except one: an
applied removal of a pending nonce at or above `nextNonce` sets `nextNonce := nonce + 1` without
the scan past pending nonces that the other branches run
(`applied_rm_leaves_nextNonce_pending`).

Message CIDs are hashes of the serialised message, computed outside the repository; they are
the parameter `cid`, used only to tell a replacement from a duplicate.
-/

namespace Lotus

/-- `MaxNonceGap`. -/
def maxNonceGap : ℕ := 4

/-- `MaxActorPendingMessages`. -/
def maxActorPendingMessages : ℕ := 1000

/-- `MaxUntrustedActorPendingMessages`. -/
def maxUntrustedActorPendingMessages : ℕ := 10

/-- `rbfNumBig = (ReplaceByFeeRatioDefault - 1) * RbfDenom = 0.25 * 256`. -/
def rbfNum : ℤ := 64

/-- `RbfDenom`. -/
def rbfDenom : ℤ := 256

/-- `ComputeMinRBF`: the smallest premium that replaces a pending message by fee. -/
def computeMinRBF (curPrem : ℤ) : ℤ :=
  curPrem + curPrem * rbfNum / rbfDenom + 1

/-- The errors of `msgSet.add`, with the values their texts report. -/
inductive AddError
  /-- "message nonce has too big a gap from expected nonce (Nonce, nextNonce)": `ErrNonceGap`. -/
  | nonceGapTooBig (nonce nextNonce : ℕ)
  /-- "rejecting replace by fee because of nonce gap (Nonce, nextNonce)": `ErrNonceGap`. -/
  | rbfNonceGap (nonce nextNonce : ℕ)
  /-- "message ... already in mpool, increase GasPremium to (minPrice) from (premium)":
  `ErrRBFTooLowPremium`. -/
  | rbfTooLowPremium (nonce : ℕ) (minPrice premium : ℤ)
  /-- "message ... with nonce ... already in mpool": `ErrSoftValidationFailure`. -/
  | duplicate (nonce : ℕ)
  /-- `ErrTooManyPendingMessages`. -/
  | tooManyPendingMessages
  deriving DecidableEq, Repr

/-- `msgSet`. -/
structure MsgSet where
  msgs : AList (fun _ : ℕ => SignedMessage)
  nextNonce : ℕ
  requiredFunds : ℤ

/-- `newMsgSet`. -/
def newMsgSet (nonce : ℕ) : MsgSet :=
  ⟨∅, nonce, 0⟩

namespace MsgSet

/-- The Go loop `for _, fillGap := ms.msgs[n]; fillGap; _, fillGap = ms.msgs[n] { n++ }`.  It is
run with one step of fuel per key (`skipPending`): it cannot pass more keys than there are. -/
def fillGap (msgs : AList (fun _ : ℕ => SignedMessage)) : ℕ → ℕ → ℕ
  | 0, n => n
  | fuel + 1, n => if n ∈ msgs then fillGap msgs fuel (n + 1) else n

/-- The first nonce from `n` on that is not pending. -/
def skipPending (msgs : AList (fun _ : ℕ => SignedMessage)) (n : ℕ) : ℕ :=
  fillGap msgs (AList.size msgs) n

/-- The funds `requiredFunds` should hold: the sum of `RequiredFunds` over the pending messages. -/
def fundsOf (msgs : AList (fun _ : ℕ => SignedMessage)) : ℤ :=
  AList.sumValues (fun m : SignedMessage => m.message.requiredFunds) msgs

variable {Cid : Type} [DecidableEq Cid] (cid : SignedMessage → Cid)

/-- The `switch` at the top of `add`: the `nextNonce` it computes and whether the message leaves
a gap, or the refusal of a strict add whose gap is too big. -/
def addNonce (ms : MsgSet) (nonce : ℕ) (strict : Bool) (maxGap : ℕ) :
    Except AddError (ℕ × Bool) :=
  if nonce = ms.nextNonce then .ok (skipPending ms.msgs (ms.nextNonce + 1), false)
  else if strict ∧ nonce > ms.nextNonce + maxGap then .error (.nonceGapTooBig nonce ms.nextNonce)
  else .ok (ms.nextNonce, decide (nonce > ms.nextNonce))

/-- The `if has { ... }` block of `add` for a pending message `exms` at the same nonce: refuse a
strict replacement over a gap, a duplicate, or a replacement whose premium is too low, and
otherwise take `exms`'s funds off the total. -/
def replaceByFee (ms : MsgSet) (m exms : SignedMessage) (nextNonce : ℕ) (strict nonceGap : Bool) :
    Except AddError MsgSet :=
  let nonce := m.message.nonce
  if strict ∧ nonceGap then .error (.rbfNonceGap nonce nextNonce)
  else if cid m ≠ cid exms then
    let minPrice := computeMinRBF exms.message.gasPremium
    if m.message.gasPremium ≥ minPrice then
      .ok { ms with requiredFunds := ms.requiredFunds - exms.message.requiredFunds }
    else .error (.rbfTooLowPremium nonce minPrice m.message.gasPremium)
  else .error (.duplicate nonce)

/-- `msgSet.add`.  The Go method mutates the set in place and returns `(!has, err)`; here the set
after the call is returned beside the result.  Every refusal returns the set as it stands at that
point of the code. -/
def add (ms : MsgSet) (m : SignedMessage) (strict untrusted : Bool) : MsgSet × Except AddError Bool :=
  let nonce := m.message.nonce
  let maxGap := if untrusted then 0 else maxNonceGap
  let maxPending := if untrusted then maxUntrustedActorPendingMessages else maxActorPendingMessages
  match addNonce ms nonce strict maxGap with
  | .error e => (ms, .error e)
  | .ok (nextNonce, nonceGap) =>
    let has := ms.msgs.lookup nonce
    let afterHas : Except AddError MsgSet :=
      match has with
      | some exms => replaceByFee cid ms m exms nextNonce strict nonceGap
      | none => .ok ms
    match afterHas with
    | .error e => (ms, .error e)
    | .ok ms₁ =>
      if has.isNone ∧ strict ∧ AList.size ms₁.msgs ≥ maxPending then
        (ms₁, .error .tooManyPendingMessages)
      else
        ({ msgs := ms₁.msgs.insert nonce m
           nextNonce := nextNonce
           requiredFunds := ms₁.requiredFunds + m.message.requiredFunds }, .ok has.isNone)

/-- `msgSet.rm`. -/
def rm (ms : MsgSet) (nonce : ℕ) (applied : Bool) : MsgSet :=
  match ms.msgs.lookup nonce with
  | none =>
    -- an applied message we did not know about: move past it and past pending nonces
    if applied ∧ nonce ≥ ms.nextNonce then { ms with nextNonce := skipPending ms.msgs (nonce + 1) }
    else ms
  | some m =>
    let ms₁ := { ms with requiredFunds := ms.requiredFunds - m.message.requiredFunds,
                         msgs := ms.msgs.erase nonce }
    if applied then
      -- "we can't possibly have filled a gap in this case"
      if nonce ≥ ms₁.nextNonce then { ms₁ with nextNonce := nonce + 1 } else ms₁
    else if nonce < ms₁.nextNonce then { ms₁ with nextNonce := nonce } else ms₁

/-! ## The scan past pending nonces -/

/-- The scan moves up from `n` through pending nonces only, and stops on a free one unless it
ran out of fuel. -/
lemma fillGap_spec (msgs : AList (fun _ : ℕ => SignedMessage)) :
    ∀ (fuel n : ℕ), n ≤ fillGap msgs fuel n ∧
      (∀ j, n ≤ j → j < fillGap msgs fuel n → j ∈ msgs) ∧
      (fillGap msgs fuel n ∉ msgs ∨ fillGap msgs fuel n = n + fuel)
  | 0, n => ⟨le_rfl, fun j h1 h2 => absurd h2 (by simp [fillGap]; omega), .inr rfl⟩
  | fuel + 1, n => by
      by_cases hn : n ∈ msgs
      · obtain ⟨hle, hall, hend⟩ := fillGap_spec msgs fuel (n + 1)
        simp only [fillGap, if_pos hn]
        refine ⟨by omega, fun j h1 h2 => ?_, hend.imp id fun h => by omega⟩
        rcases Nat.eq_or_lt_of_le h1 with rfl | h1'
        · exact hn
        · exact hall j h1' h2
      · simp only [fillGap, if_neg hn]
        exact ⟨le_rfl, fun j h1 h2 => absurd h2 (by omega), .inl hn⟩

/-- `skipPending` never stops on a pending nonce: with one step per key, running out of fuel
would mean `size + 1` pending nonces in a row. -/
lemma skipPending_notMem (msgs : AList (fun _ : ℕ => SignedMessage)) (n : ℕ) :
    skipPending msgs n ∉ msgs := by
  obtain ⟨-, hall, hend⟩ := fillGap_spec msgs (AList.size msgs) n
  rcases hend with h | h
  · exact h
  · intro hmem
    obtain ⟨i, hi, hnot⟩ := AList.exists_notMem_of_le_size msgs n
    apply hnot
    unfold skipPending at hmem
    rcases Nat.eq_or_lt_of_le hi with rfl | hi'
    · rwa [h] at hmem
    · exact hall (n + i) (by omega) (by omega)

lemma le_skipPending (msgs : AList (fun _ : ℕ => SignedMessage)) (n : ℕ) :
    n ≤ skipPending msgs n :=
  (fillGap_spec msgs _ n).1

/-! ## What `add` can do -/

/-- The state `add` leaves when it accepts `m` with the new `nextNonce`: `m` stored at its nonce,
and the total with the funds of the message it replaces (if any) exchanged for `m`'s. -/
def accept (ms : MsgSet) (m : SignedMessage) (nextNonce : ℕ) : MsgSet where
  msgs := ms.msgs.insert m.message.nonce m
  nextNonce := nextNonce
  requiredFunds := ms.requiredFunds -
    ((ms.msgs.lookup m.message.nonce).map fun e => e.message.requiredFunds).getD 0 +
    m.message.requiredFunds

/-- The `switch` either refuses or yields the old `nextNonce` (for a nonce elsewhere) or the scan
past pending nonces from the expected one. -/
lemma addNonce_ok {ms : MsgSet} {nonce : ℕ} {strict : Bool} {maxGap nn : ℕ} {gap : Bool}
    (h : addNonce ms nonce strict maxGap = .ok (nn, gap)) :
    (nonce ≠ ms.nextNonce ∧ nn = ms.nextNonce) ∨
      (nonce = ms.nextNonce ∧ nn = skipPending ms.msgs (nonce + 1)) := by
  unfold addNonce at h
  split_ifs at h with h1 h2
  · cases h; exact .inr ⟨h1, by rw [h1]⟩
  · cases h; exact .inl ⟨h1, rfl⟩

omit [DecidableEq Cid] in
lemma replaceByFee_ok {ms ms₁ : MsgSet} {m exms : SignedMessage} {nn : ℕ} {strict gap : Bool}
    [DecidableEq Cid] (h : replaceByFee cid ms m exms nn strict gap = .ok ms₁) :
    ms₁ = { ms with requiredFunds := ms.requiredFunds - exms.message.requiredFunds } := by
  simp only [replaceByFee] at h
  split_ifs at h
  cases h; rfl

/-- **Inversion of `add`.**  Either it refuses and returns the set untouched, or it accepts and
leaves `accept` with the `nextNonce` the `switch` computed. -/
lemma add_cases (ms : MsgSet) (m : SignedMessage) (strict untrusted : Bool) :
    (∃ e, ms.add cid m strict untrusted = (ms, .error e)) ∨
    ∃ nn, ((m.message.nonce ≠ ms.nextNonce ∧ nn = ms.nextNonce) ∨
        (m.message.nonce = ms.nextNonce ∧ nn = skipPending ms.msgs (m.message.nonce + 1))) ∧
      ms.add cid m strict untrusted =
        (accept ms m nn, .ok (ms.msgs.lookup m.message.nonce).isNone) := by
  simp only [add]
  rcases hsw : addNonce ms m.message.nonce strict (if untrusted = true then 0 else maxNonceGap)
    with e | ⟨nn, gap⟩
  · exact .inl ⟨e, rfl⟩
  have hnn := addNonce_ok hsw
  simp only
  rcases hl : ms.msgs.lookup m.message.nonce with _ | exms
  · -- a new nonce: only the pending-count check can refuse
    simp only [Option.isNone_none, true_and]
    split_ifs
    all_goals first
      | exact .inl ⟨_, rfl⟩
      | exact .inr ⟨nn, hnn, by simp [accept, hl]⟩
  · -- a pending nonce: the replace-by-fee rules decide
    simp only [Option.isNone_some, Bool.false_eq_true, false_and, if_false]
    rcases hr : replaceByFee cid ms m exms nn strict gap with e | ms₁
    · exact .inl ⟨e, rfl⟩
    · obtain rfl := replaceByFee_ok cid hr
      refine .inr ⟨nn, hnn, ?_⟩
      simp [accept, hl]

/-- **An `add` that fails leaves the set as it was.** -/
theorem add_error_state {ms : MsgSet} {m : SignedMessage} {strict untrusted : Bool}
    {e : AddError} (h : (ms.add cid m strict untrusted).2 = .error e) :
    (ms.add cid m strict untrusted).1 = ms := by
  rcases add_cases cid ms m strict untrusted with ⟨e', he⟩ | ⟨nn, -, he⟩
  · rw [he]
  · rw [he] at h; cases h

/-- Without `strict` the `switch` never refuses. -/
lemma addNonce_nonstrict (ms : MsgSet) (nonce maxGap : ℕ) :
    ∃ nn gap, addNonce ms nonce false maxGap = .ok (nn, gap) := by
  unfold addNonce
  by_cases h : nonce = ms.nextNonce
  · exact ⟨_, _, if_pos h⟩
  · rw [if_neg h, if_neg (by simp)]
    exact ⟨_, _, rfl⟩

/-- A non-strict `add` (`addSkipChecks`) refuses only a message whose nonce is already pending:
neither the gap nor the pending-count limit applies. -/
lemma mem_of_add_nonstrict_error {ms : MsgSet} {m : SignedMessage} {untrusted : Bool}
    {e : AddError} (h : (ms.add cid m false untrusted).2 = .error e) : m.message.nonce ∈ ms.msgs := by
  by_contra hnot
  have hl : ms.msgs.lookup m.message.nonce = none := AList.lookup_eq_none.mpr hnot
  obtain ⟨nn, gap, hsw⟩ :=
    addNonce_nonstrict ms m.message.nonce (if untrusted = true then 0 else maxNonceGap)
  simp [add, hsw, hl] at h

/-- After a non-strict `add` the pending nonces are those before and the message's, whether it
was taken or refused. -/
lemma mem_add_nonstrict (ms : MsgSet) (m : SignedMessage) (untrusted : Bool) (n : ℕ) :
    n ∈ (ms.add cid m false untrusted).1.msgs ↔ n = m.message.nonce ∨ n ∈ ms.msgs := by
  rcases add_cases cid ms m false untrusted with ⟨e, he⟩ | ⟨nn, -, he⟩
  · have hmem : m.message.nonce ∈ ms.msgs :=
      mem_of_add_nonstrict_error cid (e := e) (by rw [he])
    rw [he]
    constructor
    · exact .inr
    · rintro (rfl | h)
      · exact hmem
      · exact h
  · rw [he]
    simp [accept, AList.mem_insert]

/-! ## The invariants of a sender's set -/

/-- `requiredFunds` is the sum of `RequiredFunds` over the pending messages. -/
def FundsInv (ms : MsgSet) : Prop :=
  ms.requiredFunds = fundsOf ms.msgs

/-- Every key stores a message with that nonce. -/
def KeysInv (ms : MsgSet) : Prop :=
  ∀ k m, ms.msgs.lookup k = some m → m.message.nonce = k

/-- `nextNonce` is the first free nonce: it is not pending. -/
def NextFree (ms : MsgSet) : Prop :=
  ms.nextNonce ∉ ms.msgs

instance (ms : MsgSet) : Decidable ms.FundsInv := inferInstanceAs (Decidable (_ = _))

instance (ms : MsgSet) : Decidable ms.NextFree := inferInstanceAs (Decidable (_ ∉ _))

lemma newMsgSet_fundsInv (n : ℕ) : (newMsgSet n).FundsInv := rfl

lemma newMsgSet_keysInv (n : ℕ) : (newMsgSet n).KeysInv := by
  intro k m h
  simp [newMsgSet] at h

lemma newMsgSet_nextFree (n : ℕ) : (newMsgSet n).NextFree :=
  AList.notMem_empty n

lemma accept_fundsInv {ms : MsgSet} (m : SignedMessage) (nn : ℕ) (h : ms.FundsInv) :
    (accept ms m nn).FundsInv := by
  simp only [FundsInv, accept, fundsOf, AList.sumValues_insert] at h ⊢
  rcases hl : ms.msgs.lookup m.message.nonce with _ | e
  · rw [AList.erase_of_notMem (AList.lookup_eq_none.mp hl), h]
    simp only [Option.map_none, Option.getD_none]
    omega
  · rw [AList.sumValues_eq_add_erase _ hl] at h
    rw [h]
    simp only [Option.map_some, Option.getD_some]
    omega

lemma accept_keysInv {ms : MsgSet} (m : SignedMessage) (nn : ℕ) (h : ms.KeysInv) :
    (accept ms m nn).KeysInv := by
  intro k e hk
  simp only [accept] at hk
  by_cases hkm : k = m.message.nonce
  · subst hkm
    rw [AList.lookup_insert] at hk
    cases hk; rfl
  · rw [AList.lookup_insert_ne hkm] at hk
    exact h k e hk

/-- The scan and the old `nextNonce` both land on a nonce that stays free once `m` is stored. -/
lemma accept_nextFree {ms : MsgSet} {m : SignedMessage} {nn : ℕ} (h : ms.NextFree)
    (hnn : (m.message.nonce ≠ ms.nextNonce ∧ nn = ms.nextNonce) ∨
      (m.message.nonce = ms.nextNonce ∧ nn = skipPending ms.msgs (m.message.nonce + 1))) :
    (accept ms m nn).NextFree := by
  simp only [NextFree, accept, AList.mem_insert, not_or]
  rcases hnn with ⟨hne, rfl⟩ | ⟨-, rfl⟩
  · exact ⟨Ne.symm hne, h⟩
  · exact ⟨by have := le_skipPending ms.msgs (m.message.nonce + 1); omega,
      skipPending_notMem ms.msgs _⟩

lemma add_fundsInv {ms : MsgSet} (m : SignedMessage) (strict untrusted : Bool)
    (h : ms.FundsInv) : (ms.add cid m strict untrusted).1.FundsInv := by
  rcases add_cases cid ms m strict untrusted with ⟨e, he⟩ | ⟨nn, -, he⟩ <;> rw [he]
  · exact h
  · exact accept_fundsInv m nn h

lemma add_keysInv {ms : MsgSet} (m : SignedMessage) (strict untrusted : Bool)
    (h : ms.KeysInv) : (ms.add cid m strict untrusted).1.KeysInv := by
  rcases add_cases cid ms m strict untrusted with ⟨e, he⟩ | ⟨nn, -, he⟩ <;> rw [he]
  · exact h
  · exact accept_keysInv m nn h

lemma add_nextFree {ms : MsgSet} (m : SignedMessage) (strict untrusted : Bool)
    (h : ms.NextFree) : (ms.add cid m strict untrusted).1.NextFree := by
  rcases add_cases cid ms m strict untrusted with ⟨e, he⟩ | ⟨nn, hnn, he⟩ <;> rw [he]
  · exact h
  · exact accept_nextFree h hnn

/-- **Inversion of `rm`.**  An unknown nonce leaves the messages alone; a known one is deleted
and its funds taken off, with `nextNonce` set as the branch for `applied` decides. -/
lemma rm_msgs_funds (ms : MsgSet) (nonce : ℕ) (applied : Bool) :
    (ms.msgs.lookup nonce = none ∧ (ms.rm nonce applied).msgs = ms.msgs ∧
        (ms.rm nonce applied).requiredFunds = ms.requiredFunds) ∨
    ∃ m, ms.msgs.lookup nonce = some m ∧ (ms.rm nonce applied).msgs = ms.msgs.erase nonce ∧
      (ms.rm nonce applied).requiredFunds = ms.requiredFunds - m.message.requiredFunds := by
  unfold rm
  rcases hl : ms.msgs.lookup nonce with _ | m
  · left
    simp only [true_and]
    split_ifs <;> exact ⟨rfl, rfl⟩
  · right
    refine ⟨m, rfl, ?_⟩
    simp only
    split_ifs <;> exact ⟨rfl, rfl⟩

/-- Whatever the branch, `rm` leaves the pending nonces without `nonce`. -/
lemma rm_msgs (ms : MsgSet) (nonce : ℕ) (applied : Bool) :
    (ms.rm nonce applied).msgs = ms.msgs.erase nonce := by
  rcases rm_msgs_funds ms nonce applied with ⟨hl, hm, -⟩ | ⟨m, -, hm, -⟩
  · rw [hm, AList.erase_of_notMem (AList.lookup_eq_none.mp hl)]
  · exact hm

lemma rm_fundsInv {ms : MsgSet} (nonce : ℕ) (applied : Bool) (h : ms.FundsInv) :
    (ms.rm nonce applied).FundsInv := by
  unfold FundsInv fundsOf at h ⊢
  rcases rm_msgs_funds ms nonce applied with ⟨-, hm, hf⟩ | ⟨m, hl, hm, hf⟩
  · rw [hm, hf, h]
  · rw [hm, hf, h, AList.sumValues_eq_add_erase _ hl]
    omega

lemma rm_keysInv {ms : MsgSet} (nonce : ℕ) (applied : Bool) (h : ms.KeysInv) :
    (ms.rm nonce applied).KeysInv := by
  intro k e hk
  rcases rm_msgs_funds ms nonce applied with ⟨-, hm, -⟩ | ⟨m, -, hm, -⟩ <;> rw [hm] at hk
  · exact h k e hk
  · by_cases hkn : k = nonce
    · subst hkn; simp [AList.lookup_erase] at hk
    · rw [AList.lookup_erase_ne hkn] at hk
      exact h k e hk

/-- The removal that breaks `NextFree`: an applied message that is pending at or above
`nextNonce`. -/
def SkipsGapFill (ms : MsgSet) (nonce : ℕ) (applied : Bool) : Prop :=
  applied = true ∧ nonce ∈ ms.msgs ∧ ms.nextNonce ≤ nonce

/-- Every other removal keeps `nextNonce` free: the unknown applied nonce runs the scan, a pruned
nonce below `nextNonce` becomes the new `nextNonce` after it is deleted, and the rest leave
`nextNonce` where it was while only deleting. -/
lemma rm_nextFree {ms : MsgSet} {nonce : ℕ} {applied : Bool} (h : ms.NextFree)
    (hg : ¬ ms.SkipsGapFill nonce applied) : (ms.rm nonce applied).NextFree := by
  unfold NextFree at h ⊢
  unfold SkipsGapFill at hg
  unfold rm
  rcases hl : ms.msgs.lookup nonce with _ | m
  · simp only
    split_ifs
    · exact skipPending_notMem ms.msgs _
    · exact h
  · have hmem : nonce ∈ ms.msgs := AList.lookup_isSome.mp (by simp [hl])
    simp only
    split_ifs with ha hle hlt
    · exact absurd ⟨ha, hmem, hle⟩ hg
    · exact fun hx => h (AList.mem_erase.mp hx).2
    · simp [AList.mem_erase]
    · exact fun hx => h (AList.mem_erase.mp hx).2

/-! ## How many messages a set holds -/

/-- `add` reports a new nonce exactly when it grew the set by one; otherwise the size stays. -/
lemma add_size (ms : MsgSet) (m : SignedMessage) (strict untrusted : Bool) :
    AList.size (ms.add cid m strict untrusted).1.msgs =
      AList.size ms.msgs + if (ms.add cid m strict untrusted).2 = .ok true then 1 else 0 := by
  rcases add_cases cid ms m strict untrusted with ⟨e, he⟩ | ⟨nn, -, he⟩ <;> rw [he]
  · simp
  · simp only [accept, AList.size_insert, Except.ok.injEq]
    by_cases hmem : m.message.nonce ∈ ms.msgs
    · have hl : (ms.msgs.lookup m.message.nonce).isNone = false := by
        rw [Option.isNone_eq_false_iff]
        exact AList.lookup_isSome.mpr hmem
      simp [hmem, hl]
    · have hl : (ms.msgs.lookup m.message.nonce).isNone = true := by
        simpa [Option.isNone_iff_eq_none, AList.lookup_eq_none] using hmem
      simp [hmem, hl]

/-- After `add`, each nonce holds what it held, or the added message at its own nonce. -/
lemma lookup_add_msgs {ms : MsgSet} {m : SignedMessage} {strict untrusted : Bool} {n : ℕ}
    {x : SignedMessage} (h : (ms.add cid m strict untrusted).1.msgs.lookup n = some x) :
    ms.msgs.lookup n = some x ∨ (n = m.message.nonce ∧ x = m) := by
  rcases add_cases cid ms m strict untrusted with ⟨e, he⟩ | ⟨nn, -, he⟩ <;> rw [he] at h
  · exact .inl h
  · dsimp only [accept] at h
    by_cases hn : n = m.message.nonce
    · subst hn
      rw [AList.lookup_insert, Option.some.injEq] at h
      exact .inr ⟨rfl, h.symm⟩
    · rw [AList.lookup_insert_ne hn] at h
      exact .inl h

/-- `rm` takes one message off exactly when the nonce was pending. -/
lemma rm_size (ms : MsgSet) (nonce : ℕ) (applied : Bool) :
    AList.size (ms.rm nonce applied).msgs + (if nonce ∈ ms.msgs then 1 else 0) =
      AList.size ms.msgs := by
  rcases rm_msgs_funds ms nonce applied with ⟨hl, hm, -⟩ | ⟨m, hl, hm, -⟩ <;> rw [hm]
  · simp [AList.lookup_eq_none.mp hl]
  · have hmem : nonce ∈ ms.msgs := AList.lookup_isSome.mp (by simp [hl])
    simpa [hmem] using AList.size_erase_of_mem hmem

/-! ## Runs of `add` and `rm` -/

/-- One operation on the set. -/
inductive Op
  | add (m : SignedMessage) (strict untrusted : Bool)
  | rm (nonce : ℕ) (applied : Bool)

/-- Apply one operation. -/
def step (ms : MsgSet) : Op → MsgSet
  | .add m strict untrusted => (ms.add cid m strict untrusted).1
  | .rm nonce applied => ms.rm nonce applied

/-- The guard under which an operation keeps `NextFree`. -/
def KeepsNextFree (ms : MsgSet) : Op → Prop
  | .add .. => True
  | .rm nonce applied => ¬ ms.SkipsGapFill nonce applied

/-- **The set's invariants over every run.**  From `newMsgSet n`, after any sequence of adds and
removals, `requiredFunds` is the sum over the stored messages and every key stores a message of
that nonce; a failed `add` changes nothing; and `nextNonce` is free after every run that never
removes an applied message pending at or above `nextNonce`. -/
theorem msgSet_run_invariants (n : ℕ) (ops : List Op) :
    (Run.run (step cid) (newMsgSet n) ops).FundsInv ∧
    (Run.run (step cid) (newMsgSet n) ops).KeysInv ∧
    (∀ (ms : MsgSet) (m : SignedMessage) (strict untrusted : Bool) (e : AddError),
      (ms.add cid m strict untrusted).2 = .error e → (ms.add cid m strict untrusted).1 = ms) ∧
    (Run.Guarded (step cid) KeepsNextFree (newMsgSet n) ops →
      (Run.run (step cid) (newMsgSet n) ops).NextFree) := by
  refine ⟨?_, ?_, fun ms m strict untrusted e h => add_error_state cid h, ?_⟩
  · refine Run.run_invariant (fun ms op h => ?_) ops (newMsgSet_fundsInv n)
    cases op with
    | add m strict untrusted => exact add_fundsInv cid m strict untrusted h
    | rm nonce applied => exact rm_fundsInv nonce applied h
  · refine Run.run_invariant (fun ms op h => ?_) ops (newMsgSet_keysInv n)
    cases op with
    | add m strict untrusted => exact add_keysInv cid m strict untrusted h
    | rm nonce applied => exact rm_keysInv nonce applied h
  · refine Run.run_invariant_guarded (fun ms op h hg => ?_) ops (newMsgSet_nextFree n)
    cases op with
    | add m strict untrusted => exact add_nextFree cid m strict untrusted h
    | rm nonce applied => exact rm_nextFree h hg

/-- A plain transfer from one sender at nonce `n`. -/
def transferAt (n : ℕ) : SignedMessage :=
  ⟨{ version := 0, toAddr := ⟨"t01000"⟩, fromAddr := ⟨"t01001"⟩, nonce := n, value := 1,
     gasLimit := 1000000, gasFeeCap := 100, gasPremium := 10, method := 0, params := [] },
   ⟨.secp256k1, []⟩⟩

/-- **`nextNonce` can be pending.**  From `newMsgSet 0`, push nonces 1 and 2 (a gap of one and
two, within `MaxNonceGap`), then remove nonce 1 as applied: `nextNonce` becomes 2, which is
still pending. -/
theorem applied_rm_leaves_nextNonce_pending :
    ¬ (Run.run (step fun m : SignedMessage => m) (newMsgSet 0)
        [.add (transferAt 1) true false, .add (transferAt 2) true false, .rm 1 true]).NextFree := by
  decide

end MsgSet

end Lotus
