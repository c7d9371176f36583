import Lotus.Lib.Dict
import Lotus.Lib.GoInt
import Lotus.Lib.Run
import Lotus.Chain.Types.Tipset

/-!
# Compacted messages of the chain exchange (`chain/exchange`)

A peer answers a chain exchange request with tipsets, each as its blocks and its messages in
`CompactedMessages`: the distinct BLS and secpk messages of the tipset, and for each block the
indices of its messages among them.  The server builds them with `gatherMessages`, a dictionary
compression of each block's message CIDs (`Lotus.Lib.Dict`).  The client checks a response in
`processResponse`, and `toFullTipSets` gives each block its messages back.

The store is a parameter: `readMsgMetaCids` gives a block's BLS and secpk message CIDs, and
`getMessage`, `getSignedMessage` a message by CID; `cidOf` and `sort` are those of
`Lotus.Chain.Types.Tipset`.  Go's nil pointers are `none`.  Where Go panics, `toFullTipSets`
returns `none`, and `processResponse` an error with Go's panic message.

**The server is right** (`gatherMessages_spec`): each message list is loaded from CIDs without
repeats, there is an include list per block, and each block's include lists read back its
messages in order.  **The client checks the indices as `int`s.**  It compares Go's `int(mi)`
of each `uint64` include index with the number of messages, and `int(mi)` is negative from
`2^63` on: such an index passes, and `toFullTipSets` then reads past the messages and panics
(`toFullTipSets_none_of_processResponse`).  **Below `2^63` the client reads in range but pairs
by position** (`toFullTipSets_of_processResponse`): it checks the include lists against the
blocks in the order the peer listed them, while `toFullTipSets` walks the blocks in the order
`NewTipSet` sorted them in.  A peer that lists each tipset's blocks in that order has each block get its own
lists (`toFullTipSets_canonical`); a peer that lists two blocks the other way round has each
get the other's (`toFullTipSets_swaps_unsorted`).
-/

namespace Lotus

namespace Exchange

open TipSet (newTipSet)

variable {M S : Type}

/-- `CompactedMessages`: the tipset's distinct BLS and secpk messages, and for each block the
indices of its messages among them. -/
structure CompactedMessages (M S : Type) where
  bls : List M
  blsIncludes : List (List ℕ)
  secpk : List S
  secpkIncludes : List (List ℕ)

/-! ## The server -/

section Server

variable (readMsgMetaCids : BlockHeader → Except String (List Cid × List Cid))
  (getMessage : Cid → Except String M) (getSignedMessage : Cid → Except String S)
  (cidString : Cid → String)

/-- The loop of `LoadMessagesFromCids` and `LoadSignedMessagesFromCids` from index `i`: each
CID's message from the store. -/
def loadLoop {α : Type} (get : Cid → Except String α) : ℕ → List Cid → Except String (List α)
  | _, [] => .ok []
  | i, c :: cs =>
    match get c with
    | .error e =>
      .error ("failed to get message: (" ++ cidString c ++ "):" ++ toString i ++ ": " ++ e)
    | .ok m => (loadLoop get (i + 1) cs).map (m :: ·)

/-- `ChainStore.LoadMessagesFromCids`. -/
def loadMessagesFromCids (cids : List Cid) : Except String (List M) :=
  loadLoop cidString getMessage 0 cids

/-- `ChainStore.LoadSignedMessagesFromCids`. -/
def loadSignedMessagesFromCids (cids : List Cid) : Except String (List S) :=
  loadLoop cidString getSignedMessage 0 cids

/-- One block of `gatherMessages`' loop: its BLS and its secpk message CIDs, each added to its
dictionary. -/
def gatherStep (encs : Dict.Encoder Cid × Dict.Encoder Cid) (msgCids : List Cid × List Cid) :
    Dict.Encoder Cid × Dict.Encoder Cid :=
  (encs.1.addGroup msgCids.1, encs.2.addGroup msgCids.2)

/-- `gatherMessages(cs, ts)`, with `cs.ReadMsgMetaCids(block.Messages)` as `readMsgMetaCids`. -/
def gatherMessages (ts : TipSet) : Except String (CompactedMessages M S) := do
  let encs ← ts.blks.foldlM (fun encs block => do
    let msgCids ← readMsgMetaCids block
    pure (gatherStep encs msgCids)) (Dict.Encoder.empty, Dict.Encoder.empty)
  let blsmsgs ← loadMessagesFromCids getMessage cidString encs.1.table.keys
  let secpkmsgs ← loadSignedMessagesFromCids getSignedMessage cidString encs.2.table.keys
  pure ⟨blsmsgs, encs.1.includes, secpkmsgs, encs.2.includes⟩

lemma loadLoop_of_mapM {α : Type} {get : Cid → Except String α} :
    ∀ {cids : List Cid} {ms : List α}, cids.mapM get = .ok ms → ∀ i,
      loadLoop cidString get i cids = .ok ms
  | [], ms, h, _ => by
    cases h
    rfl
  | c :: cids, ms, h, i => by
    rw [List.mapM_cons] at h
    cases hc : get c with
    | error e => simp [hc, bind, Except.bind] at h
    | ok m =>
      cases hcs : cids.mapM get with
      | error e => simp [hc, hcs, bind, Except.bind] at h
      | ok ms' =>
        simp only [hc, hcs, bind, Except.bind, pure, Except.pure, Except.ok.injEq] at h
        rw [loadLoop, hc, loadLoop_of_mapM hcs (i + 1), ← h]
        rfl

/-- The loop over the blocks is the two dictionaries of their BLS and their secpk CIDs. -/
lemma foldl_gatherStep (metas : List (List Cid × List Cid)) (e₁ e₂ : Dict.Encoder Cid) :
    metas.foldl gatherStep (e₁, e₂) =
      ((metas.map Prod.fst).foldl Dict.Encoder.addGroup e₁,
        (metas.map Prod.snd).foldl Dict.Encoder.addGroup e₂) := by
  induction metas generalizing e₁ e₂ with
  | nil => rfl
  | cons m metas ih => exact ih _ _

/-- An include list that reads back CIDs reads back their messages from the loaded list. -/
lemma readBack_load {α : Type} {get : Cid → Except String α} {keys : List Cid} {ms : List α}
    (hms : keys.mapM get = .ok ms) :
    ∀ {idx : List ℕ} {g : List Cid}, Dict.readBack keys idx = g.map some →
      ∃ gm, g.mapM get = .ok gm ∧ Dict.readBack ms idx = gm.map some
  | [], g, h => by
    obtain rfl : g = [] := List.map_eq_nil_iff.mp h.symm
    exact ⟨[], rfl, rfl⟩
  | i :: idx, g, h => by
    obtain ⟨c, g', rfl⟩ : ∃ c g', g = c :: g' := List.exists_cons_of_ne_nil (by
      rintro rfl
      cases h)
    simp only [Dict.readBack, List.map_cons, List.cons.injEq] at h
    obtain ⟨m, hm, hget⟩ := Run.mapM_ok_getElem? hms h.1
    obtain ⟨gm, hgm, hread⟩ := readBack_load hms h.2
    refine ⟨m :: gm, ?_, ?_⟩
    · rw [List.mapM_cons, hget, hgm]
      rfl
    · simp only [Dict.readBack, List.map_cons] at hread ⊢
      rw [hm, hread]

/-- Include lists that read back groups of CIDs read back the groups' messages. -/
lemma map_readBack_load {α : Type} {get : Cid → Except String α} {keys : List Cid} {ms : List α}
    (hms : keys.mapM get = .ok ms) {incl : List (List ℕ)} {groups : List (List Cid)}
    {msgs : List (List α)} (hread : incl.map (Dict.readBack keys) = groups.map (·.map some))
    (hload : List.Forall₂ (fun g gm => g.mapM get = .ok gm) groups msgs) :
    incl.map (Dict.readBack ms) = msgs.map (·.map some) := by
  induction hload generalizing incl with
  | nil =>
    obtain rfl : incl = [] := List.map_eq_nil_iff.mp hread
    rfl
  | @cons g gm groups msgs hg _ ih =>
    obtain ⟨idx, incl, rfl⟩ : ∃ idx incl', incl = idx :: incl' :=
      List.exists_cons_of_ne_nil (by rintro rfl; cases hread)
    simp only [List.map_cons, List.cons.injEq] at hread ⊢
    obtain ⟨gm', hgm', hidx⟩ := readBack_load hms hread.1
    rw [hg, Except.ok.injEq] at hgm'
    exact ⟨hgm' ▸ hidx, ih hread.2⟩

/-- One dictionary of `gatherMessages`: when every group's messages load, the loaded list is
read back by the include lists. -/
lemma load_encode {α : Type} (get : Cid → Except String α) {groups : List (List Cid)}
    {msgs : List (List α)} (h : groups.mapM (·.mapM get) = .ok msgs) :
    ∃ ms, loadLoop cidString get 0 (Dict.encode groups).table.keys = .ok ms ∧
      (Dict.encode groups).table.keys.Nodup ∧ (Dict.encode groups).table.keys.mapM get = .ok ms ∧
      (Dict.encode groups).includes.map (Dict.readBack (Dict.encode groups).table.keys) =
        groups.map (·.map some) ∧
      (Dict.encode groups).includes.map (Dict.readBack ms) = msgs.map (·.map some) := by
  obtain ⟨hinv, hread⟩ := Dict.encodes_encode groups
  -- each key is in a group, and every group's messages load
  have hall : ∀ c ∈ (Dict.encode groups).table.keys, ∃ m, get c = .ok m := by
    intro c hc
    obtain ⟨g, hg, hcg⟩ := Dict.mem_encode_keys groups hc
    obtain ⟨gm, hgm⟩ := Run.mapM_ok_of_mem h hg
    exact Run.mapM_ok_of_mem hgm hcg
  obtain ⟨ms, hms⟩ := Run.mapM_ok_of_forall hall
  refine ⟨ms, loadLoop_of_mapM cidString hms 0, hinv.nodup, hms, hread, ?_⟩
  exact map_readBack_load hms hread ((Run.mapM_eq_ok_iff _ groups msgs).mp h)

/-- **`gatherMessages` compresses the tipset's messages.**  When each block's message CIDs are
read and its messages load, it succeeds; each list of messages is loaded from CIDs without
repeats, there is one include list per block, and block `k`'s include lists read back its CIDs
and its messages, in order. -/
theorem gatherMessages_spec {ts : TipSet} {metas : List (List Cid × List Cid)}
    {blsMsgs : List (List M)} {secpkMsgs : List (List S)}
    (hmeta : ts.blks.mapM readMsgMetaCids = .ok metas)
    (hbls : metas.mapM (·.1.mapM getMessage) = .ok blsMsgs)
    (hsecpk : metas.mapM (·.2.mapM getSignedMessage) = .ok secpkMsgs) :
    ∃ cm, gatherMessages readMsgMetaCids getMessage getSignedMessage cidString ts = .ok cm ∧
      cm.blsIncludes.length = ts.blks.length ∧ cm.secpkIncludes.length = ts.blks.length ∧
      (∃ cids, cids.Nodup ∧ cids.mapM getMessage = .ok cm.bls ∧
        cm.blsIncludes.map (Dict.readBack cids) = metas.map (·.1.map some)) ∧
      (∃ cids, cids.Nodup ∧ cids.mapM getSignedMessage = .ok cm.secpk ∧
        cm.secpkIncludes.map (Dict.readBack cids) = metas.map (·.2.map some)) ∧
      cm.blsIncludes.map (Dict.readBack cm.bls) = blsMsgs.map (·.map some) ∧
      cm.secpkIncludes.map (Dict.readBack cm.secpk) = secpkMsgs.map (·.map some) := by
  have hbls' : (metas.map Prod.fst).mapM (·.mapM getMessage) = .ok blsMsgs := by
    rw [List.mapM_map]
    exact hbls
  have hsecpk' : (metas.map Prod.snd).mapM (·.mapM getSignedMessage) = .ok secpkMsgs := by
    rw [List.mapM_map]
    exact hsecpk
  obtain ⟨bls, hload₁, hnodup₁, hmapM₁, hcids₁, hread₁⟩ := load_encode cidString getMessage hbls'
  obtain ⟨secpk, hload₂, hnodup₂, hmapM₂, hcids₂, hread₂⟩ :=
    load_encode cidString getSignedMessage hsecpk'
  -- one include list per block: as many as groups, as many as blocks
  have hlen : metas.length = ts.blks.length :=
    ((Run.mapM_eq_ok_iff _ _ _).mp hmeta).length_eq.symm
  have hlen₁ := congrArg List.length hcids₁
  have hlen₂ := congrArg List.length hcids₂
  simp only [List.length_map] at hlen₁ hlen₂
  refine ⟨⟨bls, (Dict.encode (metas.map Prod.fst)).includes, secpk,
    (Dict.encode (metas.map Prod.snd)).includes⟩, ?_, hlen₁.trans hlen, hlen₂.trans hlen,
    ⟨_, hnodup₁, hmapM₁, by rw [hcids₁, List.map_map]; rfl⟩,
    ⟨_, hnodup₂, hmapM₂, by rw [hcids₂, List.map_map]; rfl⟩,
    hread₁, hread₂⟩
  -- the run: the loop is the reads and a fold of `gatherStep`, then the two loads
  unfold gatherMessages
  rw [Run.foldlM_read readMsgMetaCids gatherStep, hmeta]
  simp only [Except.map, foldl_gatherStep, bind, Except.bind, loadMessagesFromCids,
    loadSignedMessagesFromCids]
  unfold Dict.encode at hload₁ hload₂
  rw [hload₁, hload₂]
  rfl

end Server

/-- Two blocks that share the BLS message `[2]`; the second also has the secpk message `[3]`. -/
def sharedMsgTipSet : TipSet :=
  ⟨[], [⟨⟨"f01000"⟩, ⟨[1]⟩, [], 5⟩, ⟨⟨"f01001"⟩, ⟨[2]⟩, [], 5⟩], 5⟩

/-- The message CIDs of the blocks of `sharedMsgTipSet`, by miner. -/
def sharedMsgCids (h : BlockHeader) : Except String (List Cid × List Cid) :=
  if h.miner = ⟨"f01000"⟩ then .ok ([[1], [2]], []) else .ok ([[2]], [[3]])

/-- A store whose message under a CID is the CID's first byte. -/
def firstByte (c : Cid) : Except String ℕ :=
  .ok (c.headD 0).toNat

/-- What each block of `sharedMsgTipSet` lists. -/
def sharedMsgMetas : List (List Cid × List Cid) :=
  [([[1], [2]], []), ([[2]], [[3]])]

theorem gatherMessages_spec_sharedMsg :
    ∃ cm, gatherMessages sharedMsgCids firstByte firstByte (fun _ => "") sharedMsgTipSet = .ok cm ∧
      cm.blsIncludes.length = sharedMsgTipSet.blks.length ∧
      cm.secpkIncludes.length = sharedMsgTipSet.blks.length ∧
      (∃ cids, cids.Nodup ∧ cids.mapM firstByte = .ok cm.bls ∧
        cm.blsIncludes.map (Dict.readBack cids) = sharedMsgMetas.map (·.1.map some)) ∧
      (∃ cids, cids.Nodup ∧ cids.mapM firstByte = .ok cm.secpk ∧
        cm.secpkIncludes.map (Dict.readBack cids) = sharedMsgMetas.map (·.2.map some)) ∧
      cm.blsIncludes.map (Dict.readBack cm.bls) = [[1, 2], [2]].map (·.map some) ∧
      cm.secpkIncludes.map (Dict.readBack cm.secpk) = [[], [3]].map (·.map some) :=
  gatherMessages_spec sharedMsgCids firstByte firstByte (fun _ => "")
    (show sharedMsgTipSet.blks.mapM sharedMsgCids = .ok sharedMsgMetas from rfl) rfl rfl

/-! ## The client -/

/-- A `Request`: the head's CIDs, how many tipsets, and the option bits. -/
structure Request where
  head : List Cid
  length : ℕ
  options : ℕ

/-- `parsedOptions`. -/
structure ParsedOptions where
  includeHeaders : Bool
  includeMessages : Bool
  deriving DecidableEq

/-- `parseOptions`: the `Headers` and `Messages` bits. -/
def parseOptions (optfield : ℕ) : ParsedOptions :=
  ⟨optfield &&& 1 != 0, optfield &&& 2 != 0⟩

/-- `BSTipSet`: a tipset's blocks in the order the peer sent them, and its messages. -/
structure BSTipSet (M S : Type) where
  blocks : List (Option BlockHeader)
  messages : Option (CompactedMessages M S)

/-- A `Response`. -/
structure Response (M S : Type) where
  status : ℕ
  errorMessage : String
  chain : List (Option (BSTipSet M S))

/-- The status `Partial`. -/
def statusPartial : ℕ := 101

/-- `res.statusToError()`. -/
def Response.statusToError (res : Response M S) : Option String :=
  if res.status = 0 ∨ res.status = statusPartial then none
  else if res.status = 201 then some "not found"
  else if res.status = 202 then some "not handling \x27go away\x27 chainxchg responses yet"
  else if res.status = 203 then some ("block sync peer errored: " ++ res.errorMessage)
  else if res.status = 204 then some ("block sync request invalid: " ++ res.errorMessage)
  else some ("unrecognized response code: " ++ toString res.status)

/-- `validatedResponse`. -/
structure ValidatedResponse (M S : Type) where
  tipsets : List TipSet
  messages : List (CompactedMessages M S)

/-- `types.FullBlock`. -/
structure FullBlock (M S : Type) where
  header : BlockHeader
  blsMessages : List M
  secpkMessages : List S

/-- `types.CidArrsEqual`: the same length, and every CID of `b` is in `a`. -/
def cidArrsEqual (a b : List Cid) : Bool :=
  a.length == b.length && b.all (· ∈ a)

/-- `ts.IsChildOf(parent)`: the first block's parents are the parent's key, and the height is
greater.  A tipset without blocks, which `NewTipSet` never builds, is no child. -/
def isChildOf (ts parent : TipSet) : Bool :=
  match ts.blks with
  | [] => false
  | b :: _ => cidArrsEqual b.parents parent.cids && decide (ts.height > parent.height)

/-- The message of Go's panic on a nil pointer. -/
def nilDereference : String :=
  "runtime error: invalid memory address or nil pointer dereference"

section Client

variable (cidOf : BlockHeader → Cid) (sort : List BlockHeader → List BlockHeader)

/-- The loop over a tipset's blocks from `blockIdx`: a nil block is refused. -/
def nonNilBlocks : ℕ → List (Option BlockHeader) → Except String (List BlockHeader)
  | _, [] => .ok []
  | blockIdx, none :: _ => .error ("tipset with nil block in pos " ++ toString blockIdx)
  | blockIdx, some b :: bs => (nonNilBlocks (blockIdx + 1) bs).map (b :: ·)

/-- The loop of the headers part of `processResponse` from `i`: each tipset of the response,
not nil, with no nil block, built by `NewTipSet`. -/
def headerTipSets : ℕ → List (Option (BSTipSet M S)) → Except String (List TipSet)
  | _, [] => .ok []
  | i, none :: _ => .error ("response with nil tipset in pos " ++ toString i)
  | i, some bs :: rest => do
    let blocks ← nonNilBlocks 0 bs.blocks
    let ts ← (newTipSet cidOf sort blocks).mapError fun e =>
      "invalid tipset blocks at height (head - " ++ toString i ++ "): " ++ e
    let tss ← headerTipSets (i + 1) rest
    pure (ts :: tss)

/-- The connection check from `i`: each tipset a child of the next. -/
def checkConnected : ℕ → List TipSet → Except String Unit
  | i, c :: p :: rest =>
    if isChildOf c p then checkConnected (i + 1) (p :: rest)
    else .error ("tipsets are not connected at height (head - " ++ toString i ++ ")/(head - " ++
      toString (i + 1) ++ ")")
  | _, _ => .ok ()

/-- The headers part of `processResponse`. -/
def validateHeaders (req : Request) (chain : List (Option (BSTipSet M S))) :
    Except String (List TipSet) := do
  let tss ← headerTipSets cidOf sort 0 chain
  if !cidArrsEqual ((tss.head?.map TipSet.cids).getD []) req.head then
    throw "returned chain head does not match request"
  else do
    checkConnected 0 tss
    pure tss

end Client

/-- The loop over one block's include list in `validateCompressedIndices`: each index, a `uint64`
that Go reads as `int(mi)`, is below the number of messages.  The list is named `what`:
`BlsIncludes` or `SecpkIncludes`. -/
def checkIncludes (what : String) (msgsNum : ℕ) (incl : List ℕ) : Except String Unit :=
  incl.forM fun mi =>
    if GoInt.int64 mi ≥ msgsNum then
      throw ("index in " ++ what ++ " (" ++ toString mi ++ ") exceeds number of messages (" ++
        toString msgsNum ++ ")")
    else pure ()

/-- One tipset of `validateCompressedIndices`: an include list per block, then every index in
range.  The lengths are checked first, so `getD` reads each block's list as Go's index does. -/
def checkTipsetIndices (blocksNum : ℕ) (msgs : CompactedMessages M S) : Except String Unit :=
  if msgs.blsIncludes.length ≠ blocksNum then
    throw ("BlsIncludes (" ++ toString msgs.blsIncludes.length ++
      ") does not match number of blocks (" ++ toString blocksNum ++ ")")
  else if msgs.secpkIncludes.length ≠ blocksNum then
    throw ("SecpkIncludes (" ++ toString msgs.secpkIncludes.length ++
      ") does not match number of blocks (" ++ toString blocksNum ++ ")")
  else (List.range blocksNum).forM fun blockIdx => do
    checkIncludes "BlsIncludes" msgs.bls.length (msgs.blsIncludes.getD blockIdx [])
    checkIncludes "SecpkIncludes" msgs.secpk.length (msgs.secpkIncludes.getD blockIdx [])

/-- `validateCompressedIndices`, on each tipset's number of blocks and its messages. -/
def validateCompressedIndices (chain : List (ℕ × CompactedMessages M S)) : Except String Unit :=
  chain.forM fun (blocksNum, msgs) => checkTipsetIndices blocksNum msgs

/-- What `validateCompressedIndices` asks of a tipset: an include list per block, and each index,
as Go's `int(mi)` reads it, below the number of messages. -/
def IndicesPass (blocksNum : ℕ) (msgs : CompactedMessages M S) : Prop :=
  msgs.blsIncludes.length = blocksNum ∧ msgs.secpkIncludes.length = blocksNum ∧
    (∀ l ∈ msgs.blsIncludes, ∀ i ∈ l, GoInt.int64 i < msgs.bls.length) ∧
    (∀ l ∈ msgs.secpkIncludes, ∀ i ∈ l, GoInt.int64 i < msgs.secpk.length)

/-- An include list per block, each index in range. -/
def IndicesOk (blocksNum : ℕ) (msgs : CompactedMessages M S) : Prop :=
  msgs.blsIncludes.length = blocksNum ∧ msgs.secpkIncludes.length = blocksNum ∧
    (∀ l ∈ msgs.blsIncludes, ∀ i ∈ l, i < msgs.bls.length) ∧
    (∀ l ∈ msgs.secpkIncludes, ∀ i ∈ l, i < msgs.secpk.length)

/-- Every include index is below `2^63`, where Go's `int(mi)` is `mi`. -/
def IndicesBelow (msgs : CompactedMessages M S) : Prop :=
  (∀ l ∈ msgs.blsIncludes, ∀ i ∈ l, i < 2 ^ 63) ∧ (∀ l ∈ msgs.secpkIncludes, ∀ i ∈ l, i < 2 ^ 63)

instance (blocksNum : ℕ) (msgs : CompactedMessages M S) : Decidable (IndicesPass blocksNum msgs) :=
  inferInstanceAs (Decidable (_ ∧ _ ∧ _ ∧ _))

instance (blocksNum : ℕ) (msgs : CompactedMessages M S) : Decidable (IndicesOk blocksNum msgs) :=
  inferInstanceAs (Decidable (_ ∧ _ ∧ _ ∧ _))

/-- Indices in range pass the check: `int(mi)` is never above `mi`. -/
lemma IndicesOk.pass {blocksNum : ℕ} {msgs : CompactedMessages M S} (h : IndicesOk blocksNum msgs) :
    IndicesPass blocksNum msgs := by
  obtain ⟨h₁, h₂, hbls, hsecpk⟩ := h
  refine ⟨h₁, h₂, fun l hl i hi => ?_, fun l hl i hi => ?_⟩
  · exact lt_of_le_of_lt (GoInt.int64_natCast_le i) (by exact_mod_cast hbls l hl i hi)
  · exact lt_of_le_of_lt (GoInt.int64_natCast_le i) (by exact_mod_cast hsecpk l hl i hi)

/-- **The check keeps the indices in range only below `2^63`.**  Indices that pass it and are
below `2^63` are in range. -/
lemma IndicesPass.ok {blocksNum : ℕ} {msgs : CompactedMessages M S}
    (h : IndicesPass blocksNum msgs) (hb : IndicesBelow msgs) : IndicesOk blocksNum msgs := by
  obtain ⟨h₁, h₂, hbls, hsecpk⟩ := h
  refine ⟨h₁, h₂, fun l hl i hi => ?_, fun l hl i hi => ?_⟩
  · have hlt := hbls l hl i hi
    rw [GoInt.int64_natCast_of_lt (hb.1 l hl i hi)] at hlt
    exact_mod_cast hlt
  · have hlt := hsecpk l hl i hi
    rw [GoInt.int64_natCast_of_lt (hb.2 l hl i hi)] at hlt
    exact_mod_cast hlt

lemma checkIncludes_eq_ok_iff (what : String) (msgsNum : ℕ) (incl : List ℕ) :
    checkIncludes what msgsNum incl = .ok () ↔ ∀ mi ∈ incl, GoInt.int64 mi < msgsNum := by
  unfold checkIncludes
  rw [Run.forM_eq_ok_iff]
  refine forall₂_congr fun mi _ => ?_
  by_cases h : GoInt.int64 mi ≥ msgsNum
  · simp [h, throw, throwThe, MonadExceptOf.throw]
  · simp [h, pure, Except.pure]
    omega

/-- Each block's list, read by its index below the number of lists, is each list. -/
lemma forall_range_getD_iff {l : List (List ℕ)} {n : ℕ} (hl : l.length = n)
    (P : List ℕ → Prop) : (∀ k ∈ List.range n, P (l.getD k [])) ↔ ∀ x ∈ l, P x := by
  subst hl
  constructor
  · intro h x hx
    obtain ⟨k, hk, rfl⟩ := List.getElem_of_mem hx
    have hP := h k (List.mem_range.mpr hk)
    rwa [List.getD_eq_getElem?_getD, List.getElem?_eq_getElem hk, Option.getD_some] at hP
  · intro h k hk
    rw [List.getD_eq_getElem?_getD, List.getElem?_eq_getElem (List.mem_range.mp hk),
      Option.getD_some]
    exact h _ (List.getElem_mem _)

lemma checkTipsetIndices_eq_ok_iff (blocksNum : ℕ) (msgs : CompactedMessages M S) :
    checkTipsetIndices blocksNum msgs = .ok () ↔ IndicesPass blocksNum msgs := by
  unfold checkTipsetIndices IndicesPass
  by_cases h₁ : msgs.blsIncludes.length = blocksNum
  · by_cases h₂ : msgs.secpkIncludes.length = blocksNum
    · -- the lengths fit: the loop over the blocks checks both include lists of each
      simp only [h₁, h₂, ne_eq, not_true_eq_false, if_false, true_and]
      rw [Run.forM_eq_ok_iff, ← forall_range_getD_iff h₁, ← forall_range_getD_iff h₂]
      simp only [Run.seq_eq_ok_iff, checkIncludes_eq_ok_iff, imp_and, forall_and]
    · simp [h₁, h₂, throw, throwThe, MonadExceptOf.throw]
  · simp [h₁, throw, throwThe, MonadExceptOf.throw]

lemma validateCompressedIndices_eq_ok_iff (chain : List (ℕ × CompactedMessages M S)) :
    validateCompressedIndices chain = .ok () ↔ ∀ p ∈ chain, IndicesPass p.1 p.2 := by
  unfold validateCompressedIndices
  rw [Run.forM_eq_ok_iff]
  exact forall₂_congr fun p _ => checkTipsetIndices_eq_ok_iff p.1 p.2

/-- The loop of the messages part of `processResponse` from `i`: each tipset's messages are
required.  Without the headers a nil tipset is not caught before, and Go panics. -/
def responseMessages : ℕ → List (Option (BSTipSet M S)) → Except String (List (CompactedMessages M S))
  | _, [] => .ok []
  | _, none :: _ => .error nilDereference
  | i, some ⟨_, none⟩ :: _ =>
    .error ("no messages included for tipset at height (head - " ++ toString i ++ ")")
  | i, some ⟨_, some m⟩ :: rest => (responseMessages (i + 1) rest).map (m :: ·)

/-- `len(chain[i].Blocks)` of an entry of the response; a nil entry does not reach it. -/
def blocksNumOf (bs : Option (BSTipSet M S)) : ℕ :=
  (bs.map (·.blocks.length)).getD 0

/-- The messages part of `processResponse`: the messages, and their indices checked against the
blocks of the response, or without headers against the blocks of the tipsets given. -/
def validateMessages (includeHeaders : Bool) (chain : List (Option (BSTipSet M S)))
    (tipsets : List TipSet) : Except String (List (CompactedMessages M S)) := do
  let msgs ← responseMessages 0 chain
  if includeHeaders then do
    validateCompressedIndices ((chain.zip msgs).map fun (bs, m) => (blocksNumOf bs, m))
    pure msgs
  else if tipsets.length < chain.length then
    throw ("not enought tipsets provided for message response validation, needed " ++
      toString chain.length ++ ", have " ++ toString tipsets.length)
  else do
    validateCompressedIndices ((tipsets.zip msgs).map fun (ts, m) => (ts.blks.length, m))
    pure msgs

section Client

variable (cidOf : BlockHeader → Cid) (sort : List BlockHeader → List BlockHeader)

/-- `client.processResponse(req, res, tipsets)`. -/
def processResponse (req : Request) (res : Response M S) (tipsets : List TipSet) :
    Except String (ValidatedResponse M S) :=
  match res.statusToError with
  | some err => throw ("status error: " ++ err)
  | none =>
    let options := parseOptions req.options
    let resLength := res.chain.length
    if !options.includeHeaders && !options.includeMessages then throw "nothing was requested"
    else if resLength = 0 then throw "got no chain in successful response"
    else if resLength > req.length then
      throw ("got longer response (" ++ toString resLength ++ ") than requested (" ++
        toString req.length ++ ")")
    else if resLength < req.length ∧ res.status ≠ statusPartial then
      throw ("got less than requested without a proper status: " ++ toString res.status)
    else do
      let tss ← if options.includeHeaders then validateHeaders cidOf sort req res.chain
        else pure []
      let msgs ← if options.includeMessages then
          validateMessages options.includeHeaders res.chain tipsets
        else pure []
      pure ⟨tss, msgs⟩

end Client

/-- The messages of block `blockIdx` read through its include lists; `none` where an index is
out of range, where Go panics. -/
def fullBlock (msgs : CompactedMessages M S) (b : BlockHeader) (blockIdx : ℕ) :
    Option (FullBlock M S) := do
  let blsIdx ← msgs.blsIncludes[blockIdx]?
  let bls ← blsIdx.mapM (msgs.bls[·]?)
  let secpkIdx ← msgs.secpkIncludes[blockIdx]?
  let secpk ← secpkIdx.mapM (msgs.secpk[·]?)
  pure ⟨b, bls, secpk⟩

/-- `res.toFullTipSets()`: the blocks of each tipset in the tipset's order, each with the
messages of the include lists at its index. -/
def toFullTipSets (res : ValidatedResponse M S) : Option (List (List (FullBlock M S))) :=
  if res.tipsets.length = 0 ∨ res.tipsets.length ≠ res.messages.length then some []
  else (res.tipsets.zip res.messages).mapM fun (ts, msgs) =>
    ts.blks.zipIdx.mapM fun (b, blockIdx) => fullBlock msgs b blockIdx

/-- The lists the response assigns to its block `k`: `[Bls[i] for i in BlsIncludes[k]]`, and
likewise for secpk. -/
def assigned (msgs : CompactedMessages M S) (k : ℕ) : List M × List S :=
  ((msgs.blsIncludes.getD k []).filterMap (msgs.bls[·]?),
    (msgs.secpkIncludes.getD k []).filterMap (msgs.secpk[·]?))

/-- Blocks, each with the lists the response assigns to its position. -/
def assignedBlocks (msgs : CompactedMessages M S) (blks : List BlockHeader) :
    List (FullBlock M S) :=
  blks.zipIdx.map fun (b, k) => ⟨b, (assigned msgs k).1, (assigned msgs k).2⟩

lemma mapM_getElem?_of_lt {α : Type} {xs : List α} :
    ∀ {idx : List ℕ}, (∀ i ∈ idx, i < xs.length) → idx.mapM (xs[·]?) = some (idx.filterMap (xs[·]?))
  | [], _ => rfl
  | i :: idx, h => by
    have hi := List.getElem?_eq_getElem (h i List.mem_cons_self)
    rw [List.mapM_cons, hi, mapM_getElem?_of_lt fun j hj => h j (List.mem_cons_of_mem i hj),
      List.filterMap_cons, hi]
    rfl

/-- **A block whose indices were checked reads its lists in range**: the lists the response
assigns to its position. -/
lemma fullBlock_of_indicesOk {blocksNum k : ℕ} {msgs : CompactedMessages M S}
    (h : IndicesOk blocksNum msgs) (hk : k < blocksNum) (b : BlockHeader) :
    fullBlock msgs b k = some ⟨b, (assigned msgs k).1, (assigned msgs k).2⟩ := by
  obtain ⟨hbls, hsecpk, hblsLt, hsecpkLt⟩ := h
  have h₁ : k < msgs.blsIncludes.length := hbls ▸ hk
  have h₂ : k < msgs.secpkIncludes.length := hsecpk ▸ hk
  simp [fullBlock, assigned, List.getElem?_eq_getElem h₁, List.getElem?_eq_getElem h₂,
    mapM_getElem?_of_lt (hblsLt _ (List.getElem_mem h₁)),
    mapM_getElem?_of_lt (hsecpkLt _ (List.getElem_mem h₂))]

/-- **`toFullTipSets` of checked indices**: every access is in range, and each tipset's blocks,
in the tipset's order, get the lists assigned to their positions. -/
lemma toFullTipSets_eq {res : ValidatedResponse M S} (hne : res.tipsets ≠ [])
    (hlen : res.tipsets.length = res.messages.length)
    (hok : ∀ p ∈ res.tipsets.zip res.messages, IndicesOk p.1.blks.length p.2) :
    toFullTipSets res =
      some ((res.tipsets.zip res.messages).map fun p => assignedBlocks p.2 p.1.blks) := by
  unfold toFullTipSets
  rw [if_neg fun h => h.elim (fun h0 => hne (List.length_eq_zero_iff.mp h0)) (· hlen)]
  refine Run.mapM_option_eq_some_map fun p hp => ?_
  refine Run.mapM_option_eq_some_map fun bk hbk => ?_
  have hk := (List.mem_zipIdx hbk).2.1
  exact fullBlock_of_indicesOk (hok p hp) (by omega) bk.1

/-- **A block with an index out of range panics**: `fullBlock` reads past the messages. -/
lemma fullBlock_eq_none {msgs : CompactedMessages M S} {k : ℕ} (b : BlockHeader)
    (hbig : (∃ l, msgs.blsIncludes[k]? = some l ∧ ∃ i ∈ l, msgs.bls.length ≤ i) ∨
      (∃ l, msgs.secpkIncludes[k]? = some l ∧ ∃ i ∈ l, msgs.secpk.length ≤ i)) :
    fullBlock msgs b k = none := by
  rcases hbig with ⟨l, hl, i, hi, hle⟩ | ⟨l, hl, i, hi, hle⟩
  · have hnone : l.mapM (msgs.bls[·]?) = none :=
      Run.mapM_option_eq_none hi (List.getElem?_eq_none hle)
    simp [fullBlock, hl, hnone]
  · have hnone : l.mapM (msgs.secpk[·]?) = none :=
      Run.mapM_option_eq_none hi (List.getElem?_eq_none hle)
    simp [fullBlock, hl, hnone]

/-- **`toFullTipSets` panics** when a block of a tipset reads an index out of range. -/
lemma toFullTipSets_eq_none {res : ValidatedResponse M S} (hne : res.tipsets ≠ [])
    (hlen : res.tipsets.length = res.messages.length) {ts : TipSet} {msgs : CompactedMessages M S}
    (hp : (ts, msgs) ∈ res.tipsets.zip res.messages) {k : ℕ} (hk : k < ts.blks.length)
    (hbig : (∃ l, msgs.blsIncludes[k]? = some l ∧ ∃ i ∈ l, msgs.bls.length ≤ i) ∨
      (∃ l, msgs.secpkIncludes[k]? = some l ∧ ∃ i ∈ l, msgs.secpk.length ≤ i)) :
    toFullTipSets res = none := by
  unfold toFullTipSets
  rw [if_neg fun h => h.elim (fun h0 => hne (List.length_eq_zero_iff.mp h0)) (· hlen)]
  have hmem : (ts.blks[k], k) ∈ ts.blks.zipIdx := by
    rw [List.mem_zipIdx_iff_getElem?]
    exact List.getElem?_eq_getElem hk
  exact Run.mapM_option_eq_none hp (Run.mapM_option_eq_none hmem (fullBlock_eq_none _ hbig))

end Exchange

end Lotus

namespace Lotus

namespace Exchange

open TipSet (newTipSet)

variable {M S : Type}

section Accepted

variable {cidOf : BlockHeader → Cid} {sort : List BlockHeader → List BlockHeader}

lemma nonNilBlocks_eq_ok_iff :
    ∀ (blockIdx : ℕ) (blocks : List (Option BlockHeader)) (blks : List BlockHeader),
      nonNilBlocks blockIdx blocks = .ok blks ↔ blocks = blks.map some
  | _, [], blks => by cases blks <;> simp [nonNilBlocks]
  | _, none :: _, blks => by cases blks <;> simp [nonNilBlocks]
  | i, some b :: bs, blks => by
    rw [nonNilBlocks, Run.map_eq_ok_iff]
    cases blks with
    | nil => simp
    | cons b' blks =>
      simp only [List.map_cons, List.cons.injEq, Option.some.injEq,
        ← nonNilBlocks_eq_ok_iff (i + 1) bs blks]
      constructor
      · rintro ⟨blks', h, rfl, rfl⟩
        exact ⟨rfl, h⟩
      · rintro ⟨rfl, h⟩
        exact ⟨blks, h, rfl, rfl⟩

/-- The tipsets of the headers part: each entry of the chain, with its blocks not nil, built
into its tipset by `NewTipSet`. -/
lemma headerTipSets_ok :
    ∀ {i : ℕ} {chain : List (Option (BSTipSet M S))} {tss : List TipSet},
      headerTipSets cidOf sort i chain = .ok tss →
      List.Forall₂ (fun bs ts => ∃ blks msgs, bs = some ⟨blks.map some, msgs⟩ ∧
        newTipSet cidOf sort blks = .ok ts) chain tss
  | _, [], tss, h => by
    cases h
    exact .nil
  | _, none :: _, _, h => by cases h
  | i, some bs :: rest, tss, h => by
    obtain ⟨blks, hb, h⟩ := Run.bind_eq_ok_iff.mp h
    obtain ⟨ts, ht, h⟩ := Run.bind_eq_ok_iff.mp h
    obtain ⟨tss', hr, h⟩ := Run.bind_eq_ok_iff.mp h
    cases h
    refine .cons ⟨blks, bs.messages, ?_, Run.mapError_eq_ok_iff.mp ht⟩ (headerTipSets_ok hr)
    rw [← (nonNilBlocks_eq_ok_iff 0 _ _).mp hb]

/-- The messages of the messages part: each entry of the chain is not nil and has them. -/
lemma responseMessages_ok :
    ∀ {i : ℕ} {chain : List (Option (BSTipSet M S))} {msgs : List (CompactedMessages M S)},
      responseMessages i chain = .ok msgs →
      List.Forall₂ (fun bs m => ∃ blocks, bs = some ⟨blocks, some m⟩) chain msgs
  | _, [], msgs, h => by
    cases h
    exact .nil
  | _, none :: _, _, h => by cases h
  | _, some ⟨_, none⟩ :: _, _, h => by cases h
  | i, some ⟨blocks, some m⟩ :: rest, msgs, h => by
    obtain ⟨ms, hr, rfl⟩ := Run.map_eq_ok_iff.mp h
    exact .cons ⟨blocks, rfl⟩ (responseMessages_ok hr)

lemma validateHeaders_ok {req : Request} {chain : List (Option (BSTipSet M S))}
    {tss : List TipSet} (h : validateHeaders cidOf sort req chain = .ok tss) :
    headerTipSets cidOf sort 0 chain = .ok tss := by
  obtain ⟨tss', hh, h⟩ := Run.bind_eq_ok_iff.mp h
  split at h
  · cases h
  · obtain ⟨_, -, h⟩ := Run.bind_eq_ok_iff.mp h
    cases h
    exact hh

lemma validateMessages_ok {chain : List (Option (BSTipSet M S))} {tipsets : List TipSet}
    {msgs : List (CompactedMessages M S)} (h : validateMessages true chain tipsets = .ok msgs) :
    responseMessages 0 chain = .ok msgs ∧ ∀ p ∈ chain.zip msgs, IndicesPass (blocksNumOf p.1) p.2 := by
  obtain ⟨msgs', hm, h⟩ := Run.bind_eq_ok_iff.mp h
  obtain ⟨u, hv, h⟩ := Run.bind_eq_ok_iff.mp h
  cases h
  refine ⟨hm, fun p hp => ?_⟩
  exact (validateCompressedIndices_eq_ok_iff _).mp hv _ (List.mem_map_of_mem hp)

/-- **`processResponse` with headers and messages**: it accepts a response exactly when the
status is not an error, the chain is not empty, not longer than asked and shorter only with the
status `Partial`, and the headers and the messages pass. -/
lemma processResponse_both_eq_ok_iff {req : Request} {res : Response M S}
    {tipsets : List TipSet} {v : ValidatedResponse M S}
    (hopt : parseOptions req.options = ⟨true, true⟩) :
    processResponse cidOf sort req res tipsets = .ok v ↔
      res.statusToError = none ∧ res.chain ≠ [] ∧ res.chain.length ≤ req.length ∧
        (res.chain.length < req.length → res.status = statusPartial) ∧
        validateHeaders cidOf sort req res.chain = .ok v.tipsets ∧
        validateMessages true res.chain tipsets = .ok v.messages := by
  unfold processResponse
  simp only [hopt]
  cases hst : res.statusToError with
  | some err => simp [throw, throwThe, MonadExceptOf.throw]
  | none =>
    obtain ⟨tss, msgs⟩ := v
    -- each guard fails with an error; past them both parts must pass
    cases hv : validateHeaders cidOf sort req res.chain <;>
      cases hm : validateMessages true res.chain tipsets <;>
      simp only [bind, Except.bind, pure, Except.pure, throw, throwThe, MonadExceptOf.throw] <;>
      split_ifs <;> simp_all

/-- Each entry of an accepted response: its blocks, not nil, make its tipset, and its messages'
indices fit them. -/
lemma accepted_entries :
    ∀ {chain : List (Option (BSTipSet M S))} {tss : List TipSet}
      {msgs : List (CompactedMessages M S)},
      List.Forall₂ (fun bs ts => ∃ blks ms, bs = some ⟨blks.map some, ms⟩ ∧
        newTipSet cidOf sort blks = .ok ts) chain tss →
      List.Forall₂ (fun bs m => ∃ blocks, bs = some ⟨blocks, some m⟩) chain msgs →
      (∀ p ∈ chain.zip msgs, IndicesPass (blocksNumOf p.1) p.2) →
      List.Forall₂ (fun bs p => ∃ blks, bs = some ⟨blks.map some, some p.2⟩ ∧
        newTipSet cidOf sort blks = .ok p.1 ∧ IndicesPass blks.length p.2) chain (tss.zip msgs)
  | _, _, _, .nil, .nil, _ => .nil
  | _, _, _, .cons ⟨blks, ms, rfl, ht⟩ hh, .cons ⟨blocks, hbs⟩ hm, hok => by
    obtain ⟨-, rfl⟩ := BSTipSet.mk.inj (Option.some.inj hbs)
    have hfirst := hok _ List.mem_cons_self
    simp only [blocksNumOf, Option.map_some, Option.getD_some, List.length_map] at hfirst
    exact .cons ⟨blks, rfl, ht, hfirst⟩
      (accepted_entries hh hm fun p hp => hok p (List.mem_cons_of_mem _ hp))

/-- **What `toFullTipSets` gives for an accepted response.**  For a response that
`processResponse` accepts with headers and messages, and whose include indices are below `2^63`,
where Go's `int(mi)` is `mi`, `toFullTipSets` reads every list in range, and each tipset's
blocks, in the order `NewTipSet` sorted them, get the lists the response assigned to the
positions they had in the response. -/
theorem toFullTipSets_of_processResponse (hperm : ∀ l, (sort l).Perm l) {req : Request}
    {res : Response M S} {tipsets : List TipSet} {v : ValidatedResponse M S}
    (hopt : parseOptions req.options = ⟨true, true⟩)
    (h : processResponse cidOf sort req res tipsets = .ok v)
    (hbelow : ∀ blocks m, some ⟨blocks, some m⟩ ∈ res.chain → IndicesBelow m) :
    ∃ fts, toFullTipSets v = some fts ∧
      List.Forall₂ (fun bs ft => ∃ blks m, bs = some ⟨blks.map some, some m⟩ ∧
        IndicesOk blks.length m ∧ ft = assignedBlocks m (sort blks)) res.chain fts := by
  obtain ⟨-, hne, -, -, hh, hm⟩ := (processResponse_both_eq_ok_iff hopt).mp h
  have hheaders := headerTipSets_ok (validateHeaders_ok hh)
  obtain ⟨hm', hok⟩ := validateMessages_ok hm
  have hmsgs := responseMessages_ok hm'
  -- the indices of each entry pass the check and are below `2^63`, so they are in range
  have hentries : List.Forall₂ (fun bs p => ∃ blks, bs = some ⟨blks.map some, some p.2⟩ ∧
      newTipSet cidOf sort blks = .ok p.1 ∧ IndicesOk blks.length p.2) res.chain
      (v.tipsets.zip v.messages) := by
    refine ((@List.forall₂_and_left _ _ _ (· ∈ res.chain) _ _).mpr
      ⟨fun _ hbs => hbs, accepted_entries hheaders hmsgs hok⟩).imp ?_
    rintro bs p ⟨hbs, blks, rfl, ht, hpass⟩
    exact ⟨blks, rfl, ht, hpass.ok (hbelow _ _ hbs)⟩
  -- the tipset `NewTipSet` built holds the sorted blocks, as many as the response's
  have hsorted : ∀ blks ts, newTipSet cidOf sort blks = .ok ts → ts.blks = sort blks :=
    fun _ _ ht => TipSet.newTipSet_blks cidOf ht
  have hlen₁ := hheaders.length_eq
  have hlen₂ := hmsgs.length_eq
  have htss : v.tipsets ≠ [] := fun h0 => hne (List.length_eq_zero_iff.mp (by simp [hlen₁, h0]))
  have hok' : ∀ p ∈ v.tipsets.zip v.messages, IndicesOk p.1.blks.length p.2 :=
    Run.forall_mem_of_forall₂ (fun bs p ⟨blks, _, ht, hi⟩ => by
      rw [hsorted _ _ ht, (hperm blks).length_eq]
      exact hi) hentries
  refine ⟨_, toFullTipSets_eq htss (by omega) hok', List.forall₂_map_right_iff.mpr ?_⟩
  refine hentries.imp fun bs p ⟨blks, hbs, ht, hi⟩ => ?_
  exact ⟨blks, p.2, hbs, hi, by rw [hsorted _ _ ht]⟩

/-- **A peer that lists each tipset's blocks in `NewTipSet`'s order** has each block get the
lists assigned to it. -/
theorem toFullTipSets_canonical (hperm : ∀ l, (sort l).Perm l) {req : Request}
    {res : Response M S} {tipsets : List TipSet} {v : ValidatedResponse M S}
    (hopt : parseOptions req.options = ⟨true, true⟩)
    (h : processResponse cidOf sort req res tipsets = .ok v)
    (hbelow : ∀ blocks m, some ⟨blocks, some m⟩ ∈ res.chain → IndicesBelow m)
    (hcanon : ∀ blks msgs, some ⟨blks.map some, msgs⟩ ∈ res.chain → sort blks = blks) :
    ∃ fts, toFullTipSets v = some fts ∧
      List.Forall₂ (fun bs ft => ∃ blks m, bs = some ⟨blks.map some, some m⟩ ∧
        ft = assignedBlocks m blks) res.chain fts := by
  obtain ⟨fts, hfts, hall⟩ := toFullTipSets_of_processResponse hperm hopt h hbelow
  refine ⟨fts, hfts, ?_⟩
  -- a relation on the chain's own entries, so that each entry's blocks are known to be sorted
  have hmem := (@List.forall₂_and_left _ _ _ (· ∈ res.chain) _ _).mpr ⟨fun _ hbs => hbs, hall⟩
  refine hmem.imp ?_
  rintro bs ft ⟨hbs, blks, m, rfl, -, rfl⟩
  exact ⟨blks, m, rfl, by rw [hcanon blks (some m) hbs]⟩

lemma cidArrsEqual_self (a : List Cid) : cidArrsEqual a a = true := by
  simp [cidArrsEqual]

/-- The response of one tipset of two blocks of one height on the same parents, listed in the
order opposite to `NewTipSet`'s, with include lists that pass the check for two blocks: with
headers and messages asked for, `processResponse` accepts it as the sorted tipset and the
messages. -/
lemma processResponse_pair {b₁ b₂ : BlockHeader} (hswap : sort [b₁, b₂] = [b₂, b₁])
    (hheight : b₁.height = b₂.height) (hparents : b₁.parents = b₂.parents)
    {m : CompactedMessages M S} (hm : IndicesPass 2 m) (tipsets : List TipSet) :
    processResponse cidOf sort ⟨[cidOf b₂, cidOf b₁], 1, 3⟩
        ⟨0, "", [some ⟨[some b₁, some b₂], some m⟩]⟩ tipsets =
      .ok ⟨[⟨[cidOf b₂, cidOf b₁], [b₂, b₁], b₂.height⟩], [m]⟩ := by
  have hts : newTipSet cidOf sort [b₁, b₂] =
      .ok ⟨[cidOf b₂, cidOf b₁], [b₂, b₁], b₂.height⟩ :=
    TipSet.newTipSet_of_same cidOf hswap (by simp [hheight, hparents])
  have hindices : validateCompressedIndices [(2, m)] = .ok () :=
    (validateCompressedIndices_eq_ok_iff _).mpr (by simpa using hm)
  rw [processResponse_both_eq_ok_iff (show parseOptions 3 = ⟨true, true⟩ by decide)]
  refine ⟨rfl, by simp, le_refl _, fun h => absurd h (lt_irrefl _), ?_, ?_⟩
  · -- the headers: the tipset `NewTipSet` builds, whose key is the one asked for
    simp [validateHeaders, headerTipSets, nonNilBlocks, hts, cidArrsEqual_self, checkConnected,
      Except.map, bind, Except.bind, pure, Except.pure, Except.mapError]
  · -- the messages: their indices pass the check for two blocks
    simp [validateMessages, responseMessages, blocksNumOf, hindices, Except.map, bind,
      Except.bind, pure, Except.pure]

/-- **Blocks listed out of `NewTipSet`'s order get each other's messages.**  A peer answers with
one tipset of two blocks of one height on the same parents, listed in the order opposite to the
one `NewTipSet` sorts them in, and with include lists that fit two blocks.  `processResponse`
accepts the response, and `toFullTipSets` gives the block the peer listed second the lists the
peer assigned to the first, and the other way round. -/
theorem toFullTipSets_swaps_unsorted {b₁ b₂ : BlockHeader} (hswap : sort [b₁, b₂] = [b₂, b₁])
    (hheight : b₁.height = b₂.height) (hparents : b₁.parents = b₂.parents)
    {m : CompactedMessages M S} (hm : IndicesOk 2 m) (tipsets : List TipSet) :
    ∃ v, processResponse cidOf sort ⟨[cidOf b₂, cidOf b₁], 1, 3⟩
        ⟨0, "", [some ⟨[some b₁, some b₂], some m⟩]⟩ tipsets = .ok v ∧
      toFullTipSets v = some [[⟨b₂, (assigned m 0).1, (assigned m 0).2⟩,
        ⟨b₁, (assigned m 1).1, (assigned m 1).2⟩]] := by
  refine ⟨_, processResponse_pair hswap hheight hparents hm.pass tipsets, ?_⟩
  rw [toFullTipSets_eq (by simp) rfl (by simpa using hm)]
  rfl

/-- Two BLS messages, `1` for the first block listed and `2` for the second. -/
def swapMessages : CompactedMessages ℕ ℕ := ⟨[1, 2], [[0], [1]], [], [[], []]⟩

theorem toFullTipSets_swaps_twoBlocks :
    let b₁ : BlockHeader := ⟨Address.undef, ⟨[2]⟩, [], 5⟩
    let b₂ : BlockHeader := ⟨Address.undef, ⟨[1]⟩, [], 5⟩
    TipSet.sortByVrfProof [b₁, b₂] = [b₂, b₁] ∧ assigned swapMessages 0 = ([1], []) ∧
      assigned swapMessages 1 = ([2], []) ∧
      ∃ v, processResponse TipSet.vrfCid TipSet.sortByVrfProof
          ⟨[TipSet.vrfCid b₂, TipSet.vrfCid b₁], 1, 3⟩
          ⟨0, "", [some ⟨[some b₁, some b₂], some swapMessages⟩]⟩ [] = .ok v ∧
        toFullTipSets v = some [[⟨b₂, (assigned swapMessages 0).1, (assigned swapMessages 0).2⟩,
          ⟨b₁, (assigned swapMessages 1).1, (assigned swapMessages 1).2⟩]] :=
  ⟨by decide, rfl, rfl, @toFullTipSets_swaps_unsorted ℕ ℕ TipSet.vrfCid TipSet.sortByVrfProof
    ⟨Address.undef, ⟨[2]⟩, [], 5⟩ ⟨Address.undef, ⟨[1]⟩, [], 5⟩ (by decide) rfl rfl swapMessages
    (by decide) []⟩

/-- The blocks of `toFullTipSets_swaps_twoBlocks` listed in `NewTipSet`'s order: each gets the
lists the peer assigned to it. -/
theorem toFullTipSets_canonical_twoBlocks :
    let b₁ : BlockHeader := ⟨Address.undef, ⟨[2]⟩, [], 5⟩
    let b₂ : BlockHeader := ⟨Address.undef, ⟨[1]⟩, [], 5⟩
    let res : Response ℕ ℕ := ⟨0, "", [some ⟨[some b₂, some b₁], some swapMessages⟩]⟩
    ∃ v, processResponse TipSet.vrfCid TipSet.sortByVrfProof
        ⟨[TipSet.vrfCid b₂, TipSet.vrfCid b₁], 1, 3⟩ res [] = .ok v ∧
      ∃ fts, toFullTipSets v = some fts ∧
        List.Forall₂ (fun bs ft => ∃ blks m, bs = some ⟨blks.map some, some m⟩ ∧
          ft = assignedBlocks m blks) res.chain fts := by
  intro b₁ b₂ res
  have hok : processResponse TipSet.vrfCid TipSet.sortByVrfProof
      ⟨[TipSet.vrfCid b₂, TipSet.vrfCid b₁], 1, 3⟩ res [] =
      .ok ⟨[⟨[TipSet.vrfCid b₂, TipSet.vrfCid b₁], [b₂, b₁], 5⟩], [swapMessages]⟩ := by
    simp only [b₁, b₂, res]
    rfl
  -- the one entry has small indices, and its blocks are listed sorted
  have hbelow : ∀ blocks m, some ⟨blocks, some m⟩ ∈ res.chain → IndicesBelow m := by
    intro blocks m hm
    obtain ⟨-, hm'⟩ := BSTipSet.mk.inj (Option.some.inj (List.mem_singleton.mp hm))
    rw [Option.some.inj hm']
    simp [IndicesBelow, swapMessages]
  have hcanon : ∀ blks msgs, some ⟨blks.map some, msgs⟩ ∈ res.chain →
      TipSet.sortByVrfProof blks = blks := by
    intro blks msgs hm
    obtain ⟨hblks, -⟩ := BSTipSet.mk.inj (Option.some.inj (List.mem_singleton.mp hm))
    obtain rfl : blks = [b₂, b₁] := List.map_injective_iff.mpr (Option.some_injective _) hblks
    decide
  exact ⟨_, hok, toFullTipSets_canonical (fun l => List.perm_insertionSort _ l)
    (show parseOptions 3 = ⟨true, true⟩ by decide) hok hbelow hcanon⟩

/-- **An accepted response can still make `toFullTipSets` panic.**  The check reads each include
index as Go's `int(mi)`, negative from `2^63` on, so an index of `2^63` or more passes it; when
such an index is past its messages, `toFullTipSets` reads out of range. -/
theorem toFullTipSets_none_of_processResponse (hperm : ∀ l, (sort l).Perm l) {req : Request}
    {res : Response M S} {tipsets : List TipSet} {v : ValidatedResponse M S}
    (hopt : parseOptions req.options = ⟨true, true⟩)
    (h : processResponse cidOf sort req res tipsets = .ok v) {blks : List BlockHeader}
    {m : CompactedMessages M S} (hmem : some ⟨blks.map some, some m⟩ ∈ res.chain)
    (hbig : (∃ l ∈ m.blsIncludes, ∃ i ∈ l, m.bls.length ≤ i) ∨
      (∃ l ∈ m.secpkIncludes, ∃ i ∈ l, m.secpk.length ≤ i)) :
    toFullTipSets v = none := by
  obtain ⟨-, hne, -, -, hh, hm⟩ := (processResponse_both_eq_ok_iff hopt).mp h
  have hheaders := headerTipSets_ok (validateHeaders_ok hh)
  obtain ⟨hm', hok⟩ := validateMessages_ok hm
  have hmsgs := responseMessages_ok hm'
  have hlen₁ := hheaders.length_eq
  have hlen₂ := hmsgs.length_eq
  have htss : v.tipsets ≠ [] := fun h0 => hne (List.length_eq_zero_iff.mp (by simp [hlen₁, h0]))
  -- the entry is accepted as a tipset of its blocks, sorted, and its messages
  obtain ⟨⟨ts, m'⟩, hp, blks', hbs, ht, hpass⟩ :=
    Run.exists_of_forall₂_mem (accepted_entries hheaders hmsgs hok) _ hmem
  obtain ⟨hblks, hmsg⟩ := BSTipSet.mk.inj (Option.some.inj hbs)
  obtain rfl : m' = m := (Option.some.inj hmsg).symm
  have hlen : ts.blks.length = blks'.length := by
    rw [TipSet.newTipSet_blks cidOf ht, (hperm _).length_eq]
  rcases hbig with ⟨l, hl, i, hi, hle⟩ | ⟨l, hl, i, hi, hle⟩
  · obtain ⟨k, hk, rfl⟩ := List.getElem_of_mem hl
    exact toFullTipSets_eq_none htss (by omega) hp (by rw [hlen, ← hpass.1]; exact hk)
      (.inl ⟨_, List.getElem?_eq_getElem hk, i, hi, hle⟩)
  · obtain ⟨k, hk, rfl⟩ := List.getElem_of_mem hl
    exact toFullTipSets_eq_none htss (by omega) hp (by rw [hlen, ← hpass.2.1]; exact hk)
      (.inr ⟨_, List.getElem?_eq_getElem hk, i, hi, hle⟩)

/-- Two BLS messages, and the include index `2^63` for the second block listed. -/
def largeIndexMessages : CompactedMessages ℕ ℕ := ⟨[1, 2], [[0], [2 ^ 63]], [], [[], []]⟩

/-- Go's `int(2^63)` is `-2^63`, below the two messages: `processResponse` accepts the response,
and `toFullTipSets` reads `Bls[2^63]`. -/
theorem toFullTipSets_panics_largeIndex :
    let b₁ : BlockHeader := ⟨Address.undef, ⟨[2]⟩, [], 5⟩
    let b₂ : BlockHeader := ⟨Address.undef, ⟨[1]⟩, [], 5⟩
    GoInt.int64 (2 ^ 63) = -2 ^ 63 ∧
      ∃ v, processResponse TipSet.vrfCid TipSet.sortByVrfProof
          ⟨[TipSet.vrfCid b₂, TipSet.vrfCid b₁], 1, 3⟩
          ⟨0, "", [some ⟨[some b₁, some b₂], some largeIndexMessages⟩]⟩ [] = .ok v ∧
        toFullTipSets v = none := by
  intro b₁ b₂
  -- the check reads the index `2^63` as `-2^63`, so the response is accepted
  have hok : processResponse TipSet.vrfCid TipSet.sortByVrfProof
      ⟨[TipSet.vrfCid b₂, TipSet.vrfCid b₁], 1, 3⟩
      ⟨0, "", [some ⟨[some b₁, some b₂], some largeIndexMessages⟩]⟩ [] =
      .ok ⟨[⟨[TipSet.vrfCid b₂, TipSet.vrfCid b₁], [b₂, b₁], b₂.height⟩], [largeIndexMessages]⟩ :=
    @processResponse_pair ℕ ℕ TipSet.vrfCid TipSet.sortByVrfProof b₁ b₂ (by decide) rfl rfl
      largeIndexMessages (by decide) []
  have hmem : (some ⟨[b₁, b₂].map some, some largeIndexMessages⟩ : Option (BSTipSet ℕ ℕ)) ∈
      [some ⟨[some b₁, some b₂], some largeIndexMessages⟩] := List.mem_cons_self
  refine ⟨by decide, _, hok, ?_⟩
  exact toFullTipSets_none_of_processResponse (fun l => List.perm_insertionSort _ l)
    (show parseOptions 3 = ⟨true, true⟩ by decide) hok hmem
    (.inl ⟨[2 ^ 63], by decide, 2 ^ 63, List.mem_cons_self, by decide⟩)

end Accepted

end Exchange

end Lotus
