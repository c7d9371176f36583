import Lotus.Chain.Sync

/-!
# The messages a tipset executes (`chain/store/store.go`)

`ChainStore.BlockMsgsForTipset` walks the tipset's blocks in order, the BLS messages of each before
its secp messages, and keeps one map `applied` of next nonces by sender for the whole walk: a
sender's first message sets its entry to its own nonce, a message on the entry is taken and moves
it on, and any other is dropped.  From the hyperdrive upgrade's epoch on a sender is keyed by its ID
address.  `MessagesForTipset` concatenates what it takes.

The walk is the selector of `SeqNo` over the concatenation of the blocks' messages
(`messagesForTipset_eq_select`).

**Agreement with the block checks** (`messagesForTipset_of_checked`).  When every block of the
tipset passes `checkBlockMessages` against the parent state, and the two key senders the same way
at the tipset's height, the messages of each sender are those of nonces `n, n + 1, …`, where `n`
is the nonce of its actor, for as many as the block with the most of them has; the `j`-th comes
from the first block that has `j + 1` of them.

**Where they disagree** (`messagesForTipset_drops_sender`).  `checkBlockMessages` keys by ID address
from network version 13 on, and the hyperdrive upgrade moves to version 13 only the epoch after
its own; `BlockMsgsForTipset` keys by ID address from the upgrade's epoch itself.  At that epoch a
block may carry two messages of the same nonce from one account, one naming its ID address and one
its key address: the checks count them as two senders and accept the block, and the selection
counts them as one and drops the second.
-/

namespace Lotus

namespace Store

/-- `BlockMessages`, by the fields `MessagesForTipset` reads and the miner. -/
structure BlockMessages where
  miner : Address
  blsMessages : List ChainMsg
  secpkMessages : List ChainMsg

/-- The sender `selectMsg` keys a message by: by ID address from the hyperdrive upgrade's epoch
on. -/
def senderAt (st : StateTree) (height upgradeHyperdriveHeight : ℤ) (m : Message) :
    Except String Address :=
  st.sender (decide (height ≥ upgradeHyperdriveHeight)) m

section Select

variable (st : StateTree) (height upgradeHyperdriveHeight : ℤ)

/-- `selectMsg`: whether to take a message, against the map `applied` of next nonces by
sender. -/
def selectMsg (applied : Address → Option ℕ) (m : Message) :
    Except String (Bool × (Address → Option ℕ)) := do
  let sender ← senderAt st height upgradeHyperdriveHeight m
  -- the first match for a sender is guaranteed to have the right nonce
  let applied := if (applied sender).isSome then applied
    else Function.update applied sender (some m.nonce)
  let n := (applied sender).getD 0
  if n ≠ m.nonce then return (false, applied)
  return (true, Function.update applied sender (some (n + 1)))

/-- The loop over one of a block's two message lists: the messages taken, and the map after. -/
def selectMsgs : (Address → Option ℕ) → List ChainMsg →
    Except String (List ChainMsg × (Address → Option ℕ))
  | applied, [] => .ok ([], applied)
  | applied, msg :: msgs => do
    let (b, applied) ← (selectMsg st height upgradeHyperdriveHeight applied msg.vmMessage).mapError
      ("failed to decide whether to select message for block: " ++ ·)
    let (rest, applied) ← selectMsgs applied msgs
    pure (if b then msg :: rest else rest, applied)

/-- The loop of `BlockMsgsForTipset` over the tipset's blocks; `messagesForBlock` is the store's
`MessagesForBlock`. -/
def blockMsgsLoop (messagesForBlock : BlockHeader → Except String (List Message × List SignedMessage)) :
    (Address → Option ℕ) → List BlockHeader → Except String (List BlockMessages)
  | _, [] => .ok []
  | applied, b :: bs => do
    let (bms, sms) ← (messagesForBlock b).mapError ("failed to get messages for block: " ++ ·)
    let (bls, applied) ← selectMsgs st height upgradeHyperdriveHeight applied (bms.map .bls)
    let (secp, applied) ← selectMsgs st height upgradeHyperdriveHeight applied (sms.map .secp)
    let out ← blockMsgsLoop messagesForBlock applied bs
    pure (⟨b.miner, bls, secp⟩ :: out)

end Select

/-- `ChainStore.BlockMsgsForTipset`, against the state tree `st` of the tipset's parent state. -/
def blockMsgsForTipset (st : StateTree) (upgradeHyperdriveHeight : ℤ)
    (messagesForBlock : BlockHeader → Except String (List Message × List SignedMessage))
    (ts : TipSet) : Except String (List BlockMessages) :=
  blockMsgsLoop st ts.height upgradeHyperdriveHeight messagesForBlock (fun _ => none) ts.blks

/-- `ChainStore.MessagesForTipset`. -/
def messagesForTipset (st : StateTree) (upgradeHyperdriveHeight : ℤ)
    (messagesForBlock : BlockHeader → Except String (List Message × List SignedMessage))
    (ts : TipSet) : Except String (List ChainMsg) := do
  let bmsgs ← blockMsgsForTipset st upgradeHyperdriveHeight messagesForBlock ts
  pure (bmsgs.flatMap fun bm => bm.blsMessages ++ bm.secpkMessages)

/-! ## The walk is the selector -/

section Walk

variable {st : StateTree} {height upgradeHyperdriveHeight : ℤ} {k : ChainMsg → Address}

/-- `selectMsg` is the selector's step, at a message whose sender is found. -/
lemma selectMsg_eq {applied : Address → Option ℕ} {msg : ChainMsg}
    (h : senderAt st height upgradeHyperdriveHeight msg.vmMessage = .ok (k msg)) :
    selectMsg st height upgradeHyperdriveHeight applied msg.vmMessage =
      .ok (SeqNo.selectStep k ChainMsg.nonce applied msg) := by
  simp only [selectMsg, h, SeqNo.selectStep, ChainMsg.nonce, bind, Except.bind, pure,
    Except.pure]
  cases happ : applied (k msg) with
  | none =>
    -- the first message of a sender: taken, whatever its nonce
    simp [Function.update_idem]
  | some n =>
    by_cases hn : n = msg.vmMessage.nonce
    · simp [happ, hn]
    · have hn' : msg.vmMessage.nonce ≠ n := Ne.symm hn
      simp [happ, hn, hn']

/-- One list of a block: the selector over it. -/
lemma selectMsgs_eq :
    ∀ (applied : Address → Option ℕ) (msgs : List ChainMsg),
      (∀ msg ∈ msgs, senderAt st height upgradeHyperdriveHeight msg.vmMessage = .ok (k msg)) →
      selectMsgs st height upgradeHyperdriveHeight applied msgs =
        .ok (SeqNo.select k ChainMsg.nonce applied msgs)
  | _, [], _ => rfl
  | applied, msg :: msgs, h => by
    have ih := selectMsgs_eq (SeqNo.selectStep k ChainMsg.nonce applied msg).2 msgs
      fun x hx => h x (List.mem_cons_of_mem _ hx)
    simp only [selectMsgs, selectMsg_eq (h msg List.mem_cons_self), Except.mapError, bind,
      Except.bind, ih, pure, Except.pure, SeqNo.select]

/-- **The walk over the blocks is one selector pass over all their messages**, each block's BLS
messages before its secp ones. -/
lemma blockMsgsLoop_eq
    {messagesForBlock : BlockHeader → Except String (List Message × List SignedMessage)} :
    ∀ (applied : Address → Option ℕ) (bs : List FullBlock),
      (∀ b ∈ bs, messagesForBlock b.header = .ok (b.blsMessages, b.secpkMessages)) →
      (∀ b ∈ bs, ∀ msg ∈ b.chainMsgs,
        senderAt st height upgradeHyperdriveHeight msg.vmMessage = .ok (k msg)) →
      ∃ bmsgs, blockMsgsLoop st height upgradeHyperdriveHeight messagesForBlock applied
          (bs.map (·.header)) = .ok bmsgs ∧
        bmsgs.flatMap (fun bm => bm.blsMessages ++ bm.secpkMessages) =
          (SeqNo.select k ChainMsg.nonce applied (bs.map (·.chainMsgs)).flatten).1
  | _, [], _, _ => ⟨[], rfl, rfl⟩
  | applied, b :: bs, hmsgs, hkey => by
    have hb := hkey b List.mem_cons_self
    -- what the block's two lists select, and the maps they leave
    obtain ⟨⟨bls, a₁⟩, hr₁⟩ :
        ∃ r, SeqNo.select k ChainMsg.nonce applied (b.blsMessages.map .bls) = r := ⟨_, rfl⟩
    obtain ⟨⟨secp, a₂⟩, hr₂⟩ :
        ∃ r, SeqNo.select k ChainMsg.nonce a₁ (b.secpkMessages.map .secp) = r := ⟨_, rfl⟩
    have hbls := (selectMsgs_eq applied _ fun x hx => hb x (List.mem_append_left _ hx)).trans
      (congrArg _ hr₁)
    have hsecp := (selectMsgs_eq a₁ _ fun x hx => hb x (List.mem_append_right _ hx)).trans
      (congrArg _ hr₂)
    obtain ⟨out, hout, hflat⟩ := blockMsgsLoop_eq a₂ bs
      (fun b' hb' => hmsgs b' (List.mem_cons_of_mem _ hb'))
      (fun b' hb' => hkey b' (List.mem_cons_of_mem _ hb'))
    refine ⟨⟨b.header.miner, bls, secp⟩ :: out, ?_, ?_⟩
    · simp only [List.map_cons, blockMsgsLoop, hmsgs b List.mem_cons_self, Except.mapError, bind,
        Except.bind, hbls, hsecp, hout, pure, Except.pure]
    · rw [List.flatMap_cons, hflat, List.map_cons, List.flatten_cons, FullBlock.chainMsgs,
        List.append_assoc, SeqNo.select_append, SeqNo.select_append, hr₁, hr₂]
      simp only [List.append_assoc]

/-- `MessagesForTipset` is the selector over the tipset's messages, block after block. -/
theorem messagesForTipset_eq_select
    {messagesForBlock : BlockHeader → Except String (List Message × List SignedMessage)}
    {ts : TipSet} {bs : List FullBlock} (hblks : ts.blks = bs.map (·.header))
    (hmsgs : ∀ b ∈ bs, messagesForBlock b.header = .ok (b.blsMessages, b.secpkMessages))
    (hkey : ∀ b ∈ bs, ∀ msg ∈ b.chainMsgs,
      senderAt st ts.height upgradeHyperdriveHeight msg.vmMessage = .ok (k msg)) :
    messagesForTipset st upgradeHyperdriveHeight messagesForBlock ts =
      .ok (SeqNo.select k ChainMsg.nonce (fun _ => none) (bs.map (·.chainMsgs)).flatten).1 := by
  obtain ⟨bmsgs, hloop, hflat⟩ := blockMsgsLoop_eq (fun _ => none) bs hmsgs hkey
  simp only [messagesForTipset, blockMsgsForTipset, hblks, hloop, bind, Except.bind, hflat, pure,
    Except.pure]

end Walk

/-! ## A schedule and a state tree to run on -/

/-- The end of an upgrade schedule: turbo, to version 12 at epoch 10, and hyperdrive, to version
13 at epoch 20. -/
def turboHyperdrive : List Stmgr.Upgrade :=
  [⟨10, 12, false, []⟩, ⟨20, 13, false, []⟩]

/-- The state manager of `turboHyperdrive`: version 0 to epoch 10, 12 to epoch 20, then 13. -/
def turboHyperdriveSm : Stmgr.StateManager :=
  ⟨[⟨0, 10⟩, ⟨12, 20⟩], 13, ∅⟩

/-- An account actor of nonce 7 at ID address `f0100`, whose key address is `f1abcde`. -/
def oneAccount : StateTree :=
  ⟨fun a => if a = ⟨"f1abcde"⟩ then .ok ⟨"f0100"⟩ else .error "actor not found",
    fun a => if a = ⟨"f0100"⟩ then some ⟨[1], 7⟩ else none⟩

/-- Checks whose signatures, price list and message root all pass. -/
def passingEnv : Sync.CheckEnv :=
  ⟨fun _ => .ok [], fun _ _ => .ok (), fun _ _ => 0, fun _ => true, fun a => .ok a,
    fun _ _ => .ok (), fun _ => true⟩

/-! ## Agreement with the block checks -/

/-- Each block's messages from sender `a`, as `k` keys senders, in the tipset's order. -/
def fromSender (k : ChainMsg → Address) (a : Address) (bs : List FullBlock) :
    List (List ChainMsg) :=
  bs.map fun b => SeqNo.ofKey k a b.chainMsgs

/-- **What a tipset executes, from blocks that pass their checks.**  Where the checks and the
selection key senders the same way at the tipset's height, the messages `MessagesForTipset`
gives of each sender, as the checks key it, carry the nonces `n, n + 1, …`, once each and in
order, from the nonce `n` of its actor in the parent state, for as many as the block with the
most of them has; and the `j`-th of them is the `j`-th of the sender's messages in the first
block that has more than `j`. -/
theorem messagesForTipset_of_checked {env : Sync.CheckEnv} {sm : Stmgr.StateManager}
    {st : StateTree} {baseHeight upgradeHyperdriveHeight : ℤ}
    {messagesForBlock : BlockHeader → Except String (List Message × List SignedMessage)}
    {ts : TipSet} {bs : List FullBlock} (hblks : ts.blks = bs.map (·.header))
    (hmsgs : ∀ b ∈ bs, messagesForBlock b.header = .ok (b.blsMessages, b.secpkMessages))
    (hheight : ∀ b ∈ bs, b.header.height = ts.height)
    (hcheck : ∀ b ∈ bs, Sync.checkBlockMessages env sm st baseHeight b = .ok ())
    (hagree : Sync.networkVersion13 ≤ sm.getNtwkVersion ts.height ↔
      upgradeHyperdriveHeight ≤ ts.height) :
    ∃ out, messagesForTipset st upgradeHyperdriveHeight messagesForBlock ts = .ok out ∧
      ∀ a, (SeqNo.ofKey (Sync.checkKey st (sm.getNtwkVersion ts.height)) a out).map
          ChainMsg.nonce = List.range' (st.initNonce a)
            (SeqNo.longest (fromSender (Sync.checkKey st (sm.getNtwkVersion ts.height)) a bs)) ∧
        ∀ j, (SeqNo.ofKey (Sync.checkKey st (sm.getNtwkVersion ts.height)) a out)[j]? =
          ((fromSender (Sync.checkKey st (sm.getNtwkVersion ts.height)) a bs).find?
            fun l => j < l.length).bind (·[j]?) := by
  set k := Sync.checkKey st (sm.getNtwkVersion ts.height)
  -- every block was checked at the tipset's height
  have hchecked : ∀ b ∈ bs, ∃ c, Sync.Checked st (sm.getNtwkVersion ts.height) b.chainMsgs c := by
    intro b hb
    rw [← hheight b hb]
    exact Sync.checkBlockMessages_checked (hcheck b hb)
  -- and the selection finds each sender where the checks did
  have hkey : ∀ b ∈ bs, ∀ msg ∈ b.chainMsgs,
      senderAt st ts.height upgradeHyperdriveHeight msg.vmMessage = .ok (k msg) := by
    intro b hb msg hmsg
    obtain ⟨c, hc⟩ := hchecked b hb
    have hsame : decide (ts.height ≥ upgradeHyperdriveHeight) =
        decide (sm.getNtwkVersion ts.height ≥ Sync.networkVersion13) :=
      decide_eq_decide.mpr hagree.symm
    rw [senderAt, hsame]
    exact hc.sender_ok msg hmsg
  refine ⟨_, messagesForTipset_eq_select hblks hmsgs hkey, fun a => ?_⟩
  -- each block numbers each sender's messages from its actor's nonce
  have hval : ∀ l ∈ bs.map (·.chainMsgs), (SeqNo.ofKey k a l).map ChainMsg.nonce =
      List.range' (st.initNonce a) (SeqNo.ofKey k a l).length := by
    intro l hl
    obtain ⟨b, hb, rfl⟩ := List.mem_map.mp hl
    obtain ⟨c, hc⟩ := hchecked b hb
    exact hc.consecutive a
  have htaken : SeqNo.ofKey k a (SeqNo.select k ChainMsg.nonce (fun _ => none)
      (bs.map (·.chainMsgs)).flatten).1 = SeqNo.taken 0 (fromSender k a bs) := by
    rw [SeqNo.ofKey_select_flatten k ChainMsg.nonce a (st.initNonce a) _ hval, List.map_map]
    rfl
  refine ⟨?_, fun j => ?_⟩
  · have hblock : ∀ l ∈ fromSender k a bs,
        l.map ChainMsg.nonce = List.range' (st.initNonce a) l.length := by
      intro l hl
      obtain ⟨b, hb, rfl⟩ := List.mem_map.mp hl
      exact hval _ (List.mem_map_of_mem hb)
    rw [htaken, SeqNo.map_taken ChainMsg.nonce _ 0 hblock]
    simp
  · rw [htaken, SeqNo.getElem?_taken]
    simp

/-- A transfer from `a` at nonce `n`. -/
def transferAt (a : Address) (n : ℕ) : Message :=
  ⟨0, ⟨"f0200"⟩, a, n, 0, 1000000, 100, 1, 0, []⟩

/-- Two blocks at epoch 21, after the hyperdrive upgrade, from the account of `f0100`: the first
with its nonces 7 and 8, by its ID and then by its key address, the second with nonce 7 again. -/
def twoBlocks : List FullBlock :=
  [⟨⟨⟨"f01000"⟩, ⟨[]⟩, [], 21⟩, [transferAt ⟨"f0100"⟩ 7, transferAt ⟨"f1abcde"⟩ 8], []⟩,
    ⟨⟨⟨"f01001"⟩, ⟨[]⟩, [], 21⟩, [transferAt ⟨"f1abcde"⟩ 7], []⟩]

/-- The store's messages of `twoBlocks`, by miner. -/
def twoBlocksMessages (h : BlockHeader) : Except String (List Message × List SignedMessage) :=
  if h.miner = ⟨"f01000"⟩ then .ok ([transferAt ⟨"f0100"⟩ 7, transferAt ⟨"f1abcde"⟩ 8], [])
  else .ok ([transferAt ⟨"f1abcde"⟩ 7], [])

theorem messagesForTipset_of_checked_twoBlocks :
    ∃ out, messagesForTipset oneAccount 20 twoBlocksMessages
        ⟨[], twoBlocks.map (·.header), 21⟩ = .ok out ∧
      ∀ a, (SeqNo.ofKey (Sync.checkKey oneAccount (turboHyperdriveSm.getNtwkVersion 21)) a
          out).map ChainMsg.nonce = List.range' (oneAccount.initNonce a)
            (SeqNo.longest (fromSender (Sync.checkKey oneAccount
              (turboHyperdriveSm.getNtwkVersion 21)) a twoBlocks)) ∧
        ∀ j, (SeqNo.ofKey (Sync.checkKey oneAccount (turboHyperdriveSm.getNtwkVersion 21)) a
            out)[j]? =
          ((fromSender (Sync.checkKey oneAccount (turboHyperdriveSm.getNtwkVersion 21)) a
            twoBlocks).find? fun l => j < l.length).bind (·[j]?) := by
  have hcheck : ∀ b ∈ twoBlocks, Sync.checkBlockMessages passingEnv turboHyperdriveSm
      oneAccount 20 b = .ok () := by
    intro b hb
    simp only [twoBlocks, List.mem_cons, List.not_mem_nil, or_false] at hb
    rcases hb with rfl | rfl <;> rfl
  have hmsgs : ∀ b ∈ twoBlocks, twoBlocksMessages b.header = .ok (b.blsMessages, b.secpkMessages) := by
    intro b hb
    simp only [twoBlocks, List.mem_cons, List.not_mem_nil, or_false] at hb
    rcases hb with rfl | rfl <;> rfl
  exact messagesForTipset_of_checked rfl hmsgs (by simp [twoBlocks]) hcheck (by decide)

/-! ## Where they disagree -/

/-- **At the hyperdrive upgrade's epoch, execution drops a message the checks accept.**  Under an
upgrade schedule in which every upgrade before epoch `H` is to a version below 13, take a tipset
at `H` that keys senders by ID address from `H` on, and a block at `H` with two BLS messages at the
nonce of one account actor, one from each of two addresses of it.  The checks run at the version of
`H`, below 13, count the two addresses as two senders and accept the block; the selection counts
them as one and drops the second message, so the second sender, as the checks key it, has a
message in the block and none in what the tipset executes. -/
theorem messagesForTipset_drops_sender {us : List Stmgr.Upgrade} {sm : Stmgr.StateManager}
    (hsm : Stmgr.newStateManagerWithUpgradeSchedule us = .ok sm) (hne : us ≠ [])
    {H : ℤ} (hH : 0 ≤ H) (hbelow : ∀ u ∈ us, u.height < H → u.network < Sync.networkVersion13)
    {env : Sync.CheckEnv} {st : StateTree} {baseHeight : ℤ}
    {messagesForBlock : BlockHeader → Except String (List Message × List SignedMessage)}
    {header : BlockHeader} {cids : List Cid} {m₁ m₂ : Message} {i : Address} {act : Actor}
    {k₁ k₂ : List UInt8} (hheader : header.height = H)
    (hblock : messagesForBlock header = .ok ([m₁, m₂], []))
    (hfrom : m₁.fromAddr ≠ m₂.fromAddr)
    (hid₁ : st.lookupID m₁.fromAddr = .ok i) (hid₂ : st.lookupID m₂.fromAddr = .ok i)
    (hact : st.actors i = some act) (hacc : env.isAccountActor act.code = true)
    (hn₁ : m₁.nonce = act.nonce) (hn₂ : m₂.nonce = act.nonce)
    (hv₁ : m₁.validForBlockInclusion (env.onChainMessageGas baseHeight (.bls m₁))
      (sm.getNtwkVersion H) = .ok ())
    (hv₂ : m₂.validForBlockInclusion (env.onChainMessageGas baseHeight (.bls m₂))
      (sm.getNtwkVersion H) = .ok ())
    (hgas : m₁.gasLimit + m₂.gasLimit ≤ blockGasLimit)
    (hpub₁ : env.getBlsPublicKey m₁.fromAddr = .ok k₁)
    (hpub₂ : env.getBlsPublicKey m₂.fromAddr = .ok k₂)
    (hagg : env.verifyBlsAggregate ⟨header, [m₁, m₂], []⟩ [k₁, k₂] = .ok ())
    (hroot : env.messagesRootMatches ⟨header, [m₁, m₂], []⟩ = true) :
    Sync.checkBlockMessages env sm st baseHeight ⟨header, [m₁, m₂], []⟩ = .ok () ∧
      messagesForTipset st H messagesForBlock ⟨cids, [header], H⟩ = .ok [.bls m₁] := by
  have hv : sm.getNtwkVersion H < Sync.networkVersion13 :=
    Stmgr.getNtwkVersion_lt hsm hne hH (by decide) hbelow
  -- below version 13 the checks key a sender by the address its message names
  have hraw : ∀ m : Message, Sync.senderAt st (sm.getNtwkVersion H) m = .ok m.fromAddr := by
    intro m
    simp [Sync.senderAt, StateTree.sender, not_le.mpr hv]
  have hact₁ := StateTree.getActor_eq (Message.fromAddr_ne_undef_of_valid hv₁) hid₁ hact
  have hact₂ := StateTree.getActor_eq (Message.fromAddr_ne_undef_of_valid hv₂) hid₂ hact
  have hlim₁ := (Message.gasBounds_of_valid hv₁).gasLimit_le
  -- so each message is the first of its sender, at its actor's nonce
  obtain ⟨s₁, hc₁, hs₁, hg₁⟩ : ∃ s₁ : Sync.CheckState,
      Sync.checkMsg env st baseHeight (sm.getNtwkVersion H) (.bls m₁) ⟨fun _ => none, 0⟩ = .ok s₁ ∧
        s₁.nonces m₂.fromAddr = none ∧ s₁.sumGasLimit = m₁.gasLimit :=
    ⟨_, Sync.checkMsg_eq_ok hv₁ (by simpa [ChainMsg.vmMessage] using hlim₁) (hraw m₁)
      (Sync.senderNonces_first rfl hact₁ hacc) (by simp [ChainMsg.nonce, ChainMsg.vmMessage, hn₁]),
      by simp [Function.update_of_ne (Ne.symm hfrom)], by simp [ChainMsg.vmMessage]⟩
  have hc₂ := @Sync.checkMsg_eq_ok env st baseHeight (sm.getNtwkVersion H) (.bls m₂) s₁ _ _ hv₂
    (by rw [hg₁]; exact hgas) (hraw m₂) (Sync.senderNonces_first hs₁ hact₂ hacc)
    (by simp [ChainMsg.nonce, ChainMsg.vmMessage, hn₂])
  constructor
  · simp [Sync.checkBlockMessages, hheader, hpub₁, hpub₂, hagg, Sync.checkBlsMsgs, hc₁, hc₂,
      Sync.checkSecpkMsgs, hroot, bind, Except.bind, Except.mapError, pure, Except.pure]
  · -- at `H` the selection keys both messages by the one ID address
    rw [messagesForTipset_eq_select (k := fun _ => i)
      (show [header] = [(⟨header, [m₁, m₂], []⟩ : FullBlock)].map (·.header) from rfl)
      (by simpa using hblock) ?_]
    · -- the first message moves the account's entry past the nonce the second carries
      simp [FullBlock.chainMsgs, SeqNo.select, SeqNo.selectStep, ChainMsg.nonce,
        ChainMsg.vmMessage, hn₁, hn₂]
    intro b hb msg hmsg
    rw [List.mem_singleton] at hb
    subst hb
    simp only [FullBlock.chainMsgs, List.map_cons, List.map_nil, List.append_nil, List.mem_cons,
      List.not_mem_nil, or_false] at hmsg
    rcases hmsg with rfl | rfl
    · simp [senderAt, StateTree.sender, ChainMsg.vmMessage, hid₁]
    · simp [senderAt, StateTree.sender, ChainMsg.vmMessage, hid₂]

/-- A message at nonce 7 from the account, by the given address. -/
def sendFrom (a : Address) : Message :=
  ⟨0, ⟨"f0200"⟩, a, 7, 0, 1000000, 100, 1, 0, []⟩

/-- A block header at epoch 20. -/
def headerAt20 : BlockHeader :=
  ⟨⟨"f01000"⟩, ⟨[]⟩, [], 20⟩

theorem messagesForTipset_drops_sender_turbo :
    Stmgr.newStateManagerWithUpgradeSchedule turboHyperdrive = .ok turboHyperdriveSm ∧
      Sync.checkBlockMessages passingEnv turboHyperdriveSm oneAccount 19
        ⟨headerAt20, [sendFrom ⟨"f0100"⟩, sendFrom ⟨"f1abcde"⟩], []⟩ = .ok () ∧
      messagesForTipset oneAccount 20 (fun _ => .ok ([sendFrom ⟨"f0100"⟩, sendFrom ⟨"f1abcde"⟩], []))
        ⟨[], [headerAt20], 20⟩ = .ok [.bls (sendFrom ⟨"f0100"⟩)] :=
  ⟨rfl, messagesForTipset_drops_sender
    (show Stmgr.newStateManagerWithUpgradeSchedule turboHyperdrive = .ok turboHyperdriveSm from rfl)
    (List.cons_ne_nil _ _)
    (by decide) (by decide) rfl rfl (by decide) rfl rfl rfl rfl rfl rfl rfl rfl (by decide) rfl rfl
    rfl rfl⟩

end Store

end Lotus
