import Lotus.Lib.Run
import Lotus.Lib.SeqNo
import Lotus.Chain.Types.Tipset
import Lotus.Chain.Stmgr.Forks

/-!
# The message checks of a block (`chain/sync.go`, `chain/state/statetree.go`)

`Syncer.checkBlockMessages` checks the BLS aggregate of a block, then runs `checkMsg` on each BLS
message and then on each secp message, the latter with its signature checked after it, and last
compares the message root.  `checkMsg` checks the message on its own, adds its gas to the block's,
and checks its nonce against a map of next nonces by sender that the block's messages share: a
sender's first message is checked against the nonce of its actor in the parent state, which must
be an account actor.  From network version 13 on a sender is keyed by its ID address
(`StateTree.LookupID`), before by the address the message names.

The state tree is read through `LookupID` and `GetActor`, over the init actor's address table and
the actors by ID address.  The signatures, the price list and the message root are parameters
(`CheckEnv`): no result here depends on what they compute.

**What a block that passes guarantees** (`checkBlockMessages_consecutive`): each sender's
messages, BLS first and secp after, in the block's order, carry the nonces `n, n + 1, …` where
`n` is the nonce of the sender's actor in the parent state.  This is the checker of
`SeqNo` at the sender key, and `checkMsg_checkStep` is its step.
-/

namespace Lotus

/-- `addr.Protocol() == address.ID`: the digit after the network prefix is `0`. -/
def Address.isID (a : Address) : Bool :=
  a.str.toList[1]? = some '0'

/-- An actor of the state tree, by the fields read here. -/
structure Actor where
  code : Cid
  nonce : ℕ
  deriving DecidableEq, Repr

/-- A state tree as `LookupID` and `GetActor` read it: the init actor's table from other addresses
to ID addresses (`lookupIDFun`), and the actors by ID address. -/
structure StateTree where
  lookupIDFun : Address → Except String Address
  actors : Address → Option Actor

namespace StateTree

/-- `StateTree.LookupID`: an ID address is its own; any other is looked up in the table. -/
def lookupID (st : StateTree) (addr : Address) : Except String Address :=
  if addr.isID then .ok addr else st.lookupIDFun addr

/-- `StateTree.GetActor`: the actor of the address's ID address. -/
def getActor (st : StateTree) (addr : Address) : Except String Actor :=
  if addr = Address.undef then .error "GetActor called on undefined address"
  else
    match st.lookupID addr with
    | .error err => .error ("address resolution: " ++ err)
    | .ok iaddr =>
      match st.actors iaddr with
      | none => .error "actor not found"
      | some act => .ok act

/-- The key a message's sender is counted under: its ID address when `byID`, else the address
the message names.  `checkBlockMessages` and `BlockMsgsForTipset` each choose `byID` their own
way. -/
def sender (st : StateTree) (byID : Bool) (m : Message) : Except String Address :=
  if byID then st.lookupID m.fromAddr else .ok m.fromAddr

lemma getActor_eq {st : StateTree} {a i : Address} {act : Actor} (ha : a ≠ Address.undef)
    (hid : st.lookupID a = .ok i) (hact : st.actors i = some act) : st.getActor a = .ok act := by
  simp [getActor, ha, hid, hact]

/-- The nonce the checks start a sender at: its actor's, where it has one. -/
def initNonce (st : StateTree) (a : Address) : ℕ :=
  match st.getActor a with
  | .ok act => act.nonce
  | .error _ => 0

end StateTree

/-- `types.ChainMsg` as a block carries it: a BLS message unsigned, a secp message signed. -/
inductive ChainMsg
  | bls (m : Message)
  | secp (m : SignedMessage)
  deriving DecidableEq, Repr

/-- `ChainMsg.VMMessage`. -/
def ChainMsg.vmMessage : ChainMsg → Message
  | .bls m => m
  | .secp m => m.message

/-- The nonce of a chain message. -/
def ChainMsg.nonce (msg : ChainMsg) : ℕ :=
  msg.vmMessage.nonce

/-- A `FullBlock`: the header and the block's two message lists. -/
structure FullBlock where
  header : BlockHeader
  blsMessages : List Message
  secpkMessages : List SignedMessage

/-- A block's messages in the order the checks and the selection visit them: BLS, then secp. -/
def FullBlock.chainMsgs (b : FullBlock) : List ChainMsg :=
  b.blsMessages.map .bls ++ b.secpkMessages.map .secp

/-- A sender as a total function: the key `sender` gives, where it gives one. -/
def StateTree.senderKey (st : StateTree) (byID : Bool) (msg : ChainMsg) : Address :=
  match st.sender byID msg.vmMessage with
  | .ok a => a
  | .error _ => Address.undef

lemma StateTree.senderKey_of_ok {st : StateTree} {byID : Bool} {msg : ChainMsg} {a : Address}
    (h : st.sender byID msg.vmMessage = .ok a) : st.senderKey byID msg = a := by
  simp [senderKey, h]

namespace Sync

/-- `network.Version13`, from which `checkBlockMessages` keys a sender by its ID address. -/
def networkVersion13 : ℕ := 13

/-- What `checkBlockMessages` asks of the rest of the node, none of which bears on the nonces. -/
structure CheckEnv where
  /-- `GetBlsPublicKey` of a BLS message's sender. -/
  getBlsPublicKey : Address → Except String (List UInt8)
  /-- `verifyBlsAggregate` of the header's aggregate, over the BLS messages and their keys. -/
  verifyBlsAggregate : FullBlock → List (List UInt8) → Except String Unit
  /-- `pl.OnChainMessage(msg.ChainLength()).Total()`, with the price list of the parent's
  epoch. -/
  onChainMessageGas : ℤ → ChainMsg → ℤ
  /-- `builtin.IsAccountActor`. -/
  isAccountActor : Cid → Bool
  /-- `ResolveToKeyAddress` of a secp message's sender. -/
  resolveToKeyAddress : Address → Except String Address
  /-- `sigs.Verify` of a secp message's signature by that key. -/
  verifySig : SignedMessage → Address → Except String Unit
  /-- Whether the CID of the block's `MsgMeta` is the header's `Messages`. -/
  messagesRootMatches : FullBlock → Bool

/-- The map of next nonces by sender, and the gas of the block's messages so far. -/
structure CheckState where
  nonces : Address → Option ℕ
  sumGasLimit : ℤ

/-- The sender `checkMsg` keys a message by: by ID address from network version 13 on. -/
def senderAt (st : StateTree) (version : ℕ) (m : Message) : Except String Address :=
  st.sender (decide (version ≥ networkVersion13)) m

variable (env : CheckEnv) (st : StateTree) (baseHeight : ℤ) (version : ℕ)

/-- The map of nonces with the sender's entry in it: read from its actor, which must be an account
actor, for the sender's first message. -/
def senderNonces (s : CheckState) (sender : Address) : Except String (Address → Option ℕ) :=
  match s.nonces sender with
  | some _ => pure s.nonces
  | none => do
    let act ← (st.getActor sender).mapError ("failed to get actor: " ++ ·)
    if !env.isAccountActor act.code then throw "Sender must be an account actor"
    pure (Function.update s.nonces sender (some act.nonce))

/-- `checkMsg`: the message on its own, the block's gas, and the sender's nonce. -/
def checkMsg (msg : ChainMsg) (s : CheckState) : Except String CheckState := do
  let m := msg.vmMessage
  -- Phase 1: syntactic validation
  m.validForBlockInclusion (env.onChainMessageGas baseHeight msg) version
  let sumGasLimit := s.sumGasLimit + m.gasLimit
  if sumGasLimit > blockGasLimit then throw "block gas limit exceeded"
  -- Phase 2: the sender exists and is an account actor, and the nonces make sense
  let sender ← senderAt st version m
  let nonces ← senderNonces env st s sender
  let n := (nonces sender).getD 0
  if n ≠ m.nonce then
    throw ("wrong nonce (exp: " ++ toString n ++ ", got: " ++ toString m.nonce ++ ")")
  pure ⟨Function.update nonces sender (some (n + 1)), sumGasLimit⟩

/-- The loop over the BLS messages. -/
def checkBlsMsgs (msgs : List Message) (s : CheckState) : Except String CheckState :=
  msgs.zipIdx.foldlM (fun s (m, i) =>
    (checkMsg env st baseHeight version (.bls m) s).mapError fun err =>
      "block had invalid bls message at index " ++ toString i ++ ": " ++ err) s

/-- The loop over the secp messages: `checkMsg`, then the signature by the sender's key. -/
def checkSecpkMsgs (msgs : List SignedMessage) (s : CheckState) : Except String CheckState :=
  msgs.zipIdx.foldlM (fun s (m, i) => do
    let s ← (checkMsg env st baseHeight version (.secp m) s).mapError fun err =>
      "block had invalid secpk message at index " ++ toString i ++ ": " ++ err
    let kaddr ← (env.resolveToKeyAddress m.message.fromAddr).mapError
      ("failed to resolve key addr: " ++ ·)
    (env.verifySig m kaddr).mapError ("secpk message has invalid signature: " ++ ·)
    pure s) s

end Sync

/-- `Syncer.checkBlockMessages` of block `b` against the parent state `st`, whose tipset is at
`baseHeight`. -/
def Sync.checkBlockMessages (env : Sync.CheckEnv) (sm : Stmgr.StateManager) (st : StateTree)
    (baseHeight : ℤ) (b : FullBlock) : Except String Unit := do
  let pubks ← b.blsMessages.mapM fun m =>
    (env.getBlsPublicKey m.fromAddr).mapError ("failed to load bls public to validate block: " ++ ·)
  (env.verifyBlsAggregate b pubks).mapError ("bls aggregate signature was invalid: " ++ ·)
  let version := sm.getNtwkVersion b.header.height
  let s ← Sync.checkBlsMsgs env st baseHeight version b.blsMessages ⟨fun _ => none, 0⟩
  let _ ← Sync.checkSecpkMsgs env st baseHeight version b.secpkMessages s
  if env.messagesRootMatches b then pure () else throw "messages didnt match message root in header"

namespace Sync

variable {env : CheckEnv} {st : StateTree} {baseHeight : ℤ} {version : ℕ}

lemma senderNonces_ok {s : CheckState} {a : Address} {nonces : Address → Option ℕ}
    (h : senderNonces env st s a = .ok nonces) :
    (∀ y, Function.update nonces a y = Function.update s.nonces a y) ∧
      (nonces a).getD 0 = (s.nonces a).getD (st.initNonce a) := by
  unfold senderNonces at h
  split at h
  · cases h
    exact ⟨fun _ => rfl, by simp_all⟩
  · rename_i hnone
    cases hact : st.getActor a with
    | error err => simp [hact, bind, Except.bind, Except.mapError] at h
    | ok act =>
      simp only [hact, bind, Except.bind, Except.mapError] at h
      split_ifs at h
      cases h
      refine ⟨fun y => Function.update_idem _ _ _, ?_⟩
      simp [hnone, StateTree.initNonce, hact]

lemma checkMsg_ok {msg : ChainMsg} {s s' : CheckState}
    (h : checkMsg env st baseHeight version msg s = .ok s') :
    ∃ a nonces, senderAt st version msg.vmMessage = .ok a ∧ senderNonces env st s a = .ok nonces ∧
      (nonces a).getD 0 = msg.nonce ∧ s'.nonces = Function.update nonces a (some (msg.nonce + 1)) := by
  simp only [checkMsg, bind, Except.bind] at h
  cases hv : msg.vmMessage.validForBlockInclusion (env.onChainMessageGas baseHeight msg) version with
  | error e => simp [hv] at h
  | ok u =>
    simp only [hv] at h
    split_ifs at h with hgas
    cases hs : senderAt st version msg.vmMessage with
    | error e => simp [hs] at h
    | ok a =>
      simp only [hs] at h
      cases hn : senderNonces env st s a with
      | error e => simp [hn] at h
      | ok nonces =>
        simp only [hn] at h
        -- the throws of the gas and nonce checks cannot be `ok`
        split_ifs at h with hne
        cases h
        exact ⟨a, nonces, rfl, hn, by simpa [ChainMsg.nonce] using hne,
          by simp [ChainMsg.nonce, not_not.mp hne]⟩

/-- A sender's first message reads the sender's entry from its account actor. -/
lemma senderNonces_first {s : CheckState} {a : Address} {act : Actor} (hnone : s.nonces a = none)
    (hact : st.getActor a = .ok act) (hacc : env.isAccountActor act.code = true) :
    senderNonces env st s a = .ok (Function.update s.nonces a (some act.nonce)) := by
  simp [senderNonces, hnone, hact, hacc, bind, Except.bind, Except.mapError, pure, Except.pure]

/-- `checkMsg` passes a message that is valid, fits in the block's gas, and carries its sender's
next nonce. -/
lemma checkMsg_eq_ok {msg : ChainMsg} {s : CheckState} {a : Address} {nonces : Address → Option ℕ}
    (hv : msg.vmMessage.validForBlockInclusion (env.onChainMessageGas baseHeight msg) version =
      .ok ())
    (hgas : s.sumGasLimit + msg.vmMessage.gasLimit ≤ blockGasLimit)
    (hs : senderAt st version msg.vmMessage = .ok a) (hn : senderNonces env st s a = .ok nonces)
    (hnonce : (nonces a).getD 0 = msg.nonce) :
    checkMsg env st baseHeight version msg s =
      .ok ⟨Function.update nonces a (some (msg.nonce + 1)), s.sumGasLimit + msg.vmMessage.gasLimit⟩ := by
  simp only [ChainMsg.nonce] at hnonce
  simp [checkMsg, hv, hs, hn, hnonce, not_lt.mpr hgas, ChainMsg.nonce, bind, Except.bind, pure,
    Except.pure]

/-- The key `checkMsg` counts a message's nonce under. -/
abbrev checkKey (st : StateTree) (version : ℕ) : ChainMsg → Address :=
  st.senderKey (decide (version ≥ networkVersion13))

/-- **The nonce step of `checkMsg`**: a message that passes had its sender's next nonce, the one
after the sender's last message in the block or its actor's for the first, and moves it on. -/
theorem checkMsg_checkStep {msg : ChainMsg} {s s' : CheckState}
    (h : checkMsg env st baseHeight version msg s = .ok s') :
    senderAt st version msg.vmMessage = .ok (checkKey st version msg) ∧
      SeqNo.CheckStep (checkKey st version) ChainMsg.nonce st.initNonce s.nonces msg s'.nonces := by
  obtain ⟨a, nonces, hs, hn, hnonce, hs'⟩ := checkMsg_ok h
  have hkey : checkKey st version msg = a := StateTree.senderKey_of_ok hs
  obtain ⟨hupd, hget⟩ := senderNonces_ok hn
  refine ⟨hkey ▸ hs, ?_, ?_⟩
  · rw [hkey, ← hget, hnonce]
  · rw [hs', hkey, hupd]

variable (st) in
/-- What the checks have established of the messages so far: each sender found, each sender's
nonces consecutive from its actor's, and the map at the next ones. -/
structure Checked (version : ℕ) (l : List ChainMsg) (c : Address → Option ℕ) : Prop where
  sender_ok : ∀ x ∈ l, senderAt st version x.vmMessage = .ok (checkKey st version x)
  counted : SeqNo.Counted (checkKey st version) st.initNonce l c
  consecutive : SeqNo.Consecutive (checkKey st version) ChainMsg.nonce st.initNonce l

lemma checked_nil : Checked st version [] fun _ => none :=
  ⟨by simp, SeqNo.counted_nil _ _, SeqNo.consecutive_nil _ _ _⟩

/-- One more message that passes `checkMsg` keeps what the checks have established. -/
lemma Checked.checkMsg {l : List ChainMsg} {msg : ChainMsg} {s s' : CheckState}
    (hl : Checked st version l s.nonces) (h : checkMsg env st baseHeight version msg s = .ok s') :
    Checked st version (l ++ [msg]) s'.nonces := by
  obtain ⟨hsend, hstep⟩ := checkMsg_checkStep h
  obtain ⟨hc, hp⟩ := SeqNo.checkStep_invariant _ _ hl.counted hl.consecutive hstep
  refine ⟨fun x hx => ?_, hc, hp⟩
  rcases List.mem_append.mp hx with hx | hx
  · exact hl.sender_ok x hx
  · rw [List.mem_singleton.mp hx]
    exact hsend

/-- The BLS loop keeps what the checks have established. -/
lemma Checked.checkBlsMsgs {l : List ChainMsg} {msgs : List Message} {s s' : CheckState}
    (hl : Checked st version l s.nonces)
    (h : checkBlsMsgs env st baseHeight version msgs s = .ok s') :
    Checked st version (l ++ msgs.map .bls) s'.nonces := by
  have := Run.foldlM_prefix (P := fun p (s : CheckState) =>
      Checked st version (l ++ p.map fun x => .bls x.1) s.nonces)
    (fun p s x s' hp hx => by
      rw [List.map_append, List.map_singleton, ← List.append_assoc]
      exact hp.checkMsg (Run.mapError_eq_ok_iff.mp hx))
    msgs.zipIdx [] (by simpa using hl) h
  have hmap := congrArg (List.map ChainMsg.bls) (List.zipIdx_map_fst 0 msgs)
  rw [List.map_map] at hmap
  rw [← hmap]
  exact this

/-- The secp loop keeps what the checks have established. -/
lemma Checked.checkSecpkMsgs {l : List ChainMsg} {msgs : List SignedMessage} {s s' : CheckState}
    (hl : Checked st version l s.nonces)
    (h : checkSecpkMsgs env st baseHeight version msgs s = .ok s') :
    Checked st version (l ++ msgs.map .secp) s'.nonces := by
  have := Run.foldlM_prefix (P := fun p (s : CheckState) =>
      Checked st version (l ++ p.map fun x => .secp x.1) s.nonces)
    (fun p s x s' hp hx => by
      rw [List.map_append, List.map_singleton, ← List.append_assoc]
      obtain ⟨s₁, h₁, hrest⟩ := Run.bind_eq_ok_iff.mp hx
      -- the signature checks after `checkMsg` pass the state on as it is
      have hs₁ : s' = s₁ := by
        obtain ⟨k, -, hsig⟩ := Run.bind_eq_ok_iff.mp hrest
        obtain ⟨u, -, hpure⟩ := Run.bind_eq_ok_iff.mp hsig
        exact (Except.ok.inj hpure).symm
      exact hs₁ ▸ hp.checkMsg (Run.mapError_eq_ok_iff.mp h₁))
    msgs.zipIdx [] (by simpa using hl) h
  have hmap := congrArg (List.map ChainMsg.secp) (List.zipIdx_map_fst 0 msgs)
  rw [List.map_map] at hmap
  rw [← hmap]
  exact this

/-- **A block that passes `checkBlockMessages`**: each of its messages has a sender, and each
sender's messages, BLS first and secp after, carry the nonces `n, n + 1, …` from the nonce `n` of
its actor in the parent state. -/
theorem checkBlockMessages_checked {sm : Stmgr.StateManager} {b : FullBlock}
    (h : checkBlockMessages env sm st baseHeight b = .ok ()) :
    ∃ c, Checked st (sm.getNtwkVersion b.header.height) b.chainMsgs c := by
  obtain ⟨pubks, -, h⟩ := Run.bind_eq_ok_iff.mp h
  obtain ⟨u, -, h⟩ := Run.bind_eq_ok_iff.mp h
  obtain ⟨s, hbls, h⟩ := Run.bind_eq_ok_iff.mp h
  obtain ⟨s', hsecp, -⟩ := Run.bind_eq_ok_iff.mp h
  have h0 : Checked st (sm.getNtwkVersion b.header.height) [] fun _ => none := checked_nil
  have hb := h0.checkBlsMsgs hbls
  exact ⟨_, hb.checkSecpkMsgs hsecp⟩

end Sync

end Lotus
