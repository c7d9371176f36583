import Mathlib
import Lotus.Lib.Run

/-!
# Funding a payment channel (`paychmgr/simple.go`)

`getPaych(amt)` queues a funds request.  `processQueue` drops the cancelled requests and merges
the others into one request for the sum of their amounts; `processTask` then sends a create
message (no channel yet), waits (a create or add-funds message is still pending), or sends an
add-funds message, and the merged requests get its CID.  Each message has a goroutine that waits
for it and updates the stored `ChannelInfo`; `msgWaitComplete` then runs the queue again.

The accessor of one from/to pair is modelled by the events that change it: a request, a
cancellation, a run of `processQueue` under the accessor lock, and the end of a message's wait,
with its receipt or its error.  The lock does not hold off a context's cancellation, and
`filterQueue`, `mergedFundsReq.sum` and `onComplete` each read the contexts afresh: a run of the
queue carries the requests cancelled between the first two reads and those cancelled between the
last two.  Requests are numbered in the order they are made, and a request's result is what its
promise delivers.  `sent` keeps every message with the
requests it was built for and how its wait ended, which the store does not record.  CIDs and
channel IDs are fresh numbers; the store itself does not fail.

**What holds.**  Over every run at most one message is pending (`runAccessor_pending_le_one`);
no request gets two results, and a live request is queued or answered (`runAccessor_answered`);
each message carries the sum of the amounts of the requests it was built for, the queued ones
live when `sum` read them; every request that got its CID is one of them, and each of them got
it unless it was cancelled, so a request cancelled after `sum` is paid for and has no result
(`runAccessor_sent_sum`).  While no wait has ended in an error, the channel's `Amount` is the
sum of its confirmed messages and its `PendingAmount` that of its pending one; so once every wait
has ended, `PendingAmount` is zero (`runAccessor_settled`).

**What does not.**  A request for 0 is never answered: `processQueue` returns early on a zero
sum and keeps the request queued.  A wait that ends in an error leaves `AddFundsMsg` (or
`CreateMsg`) set and `PendingAmount` as it was, so the queue waits for good on a message that has
completed (`getPaych_never_answered`).
-/

namespace Lotus

namespace Paych

/-- `ChannelInfo`'s funding fields: its `ChannelID`, the channel's address once created,
`Amount`, `PendingAmount`, and the pending `CreateMsg` and `AddFundsMsg`. -/
structure FundingInfo where
  channelID : ℕ
  channel : Option ℕ
  amount : ℤ
  pendingAmount : ℤ
  createMsg : Option ℕ
  addFundsMsg : Option ℕ
  deriving DecidableEq, Repr

/-- A `fundsReq`: its amount, and whether its context is still live (`isActive`). -/
structure FundsReq where
  amt : ℤ
  active : Bool
  deriving DecidableEq, Repr

/-- `paychFundsRes`: the channel, the message CID, and the error. -/
structure FundsRes where
  channel : Option ℕ
  mcid : Option ℕ
  err : Option String
  deriving DecidableEq, Repr

/-- The two messages the queue sends. -/
inductive MsgKind
  | create
  | addFunds
  deriving DecidableEq, Repr

/-- How far a message's wait has got. -/
inductive MsgStatus
  | pending
  | confirmed
  | failed
  | errored
  deriving DecidableEq, Repr

/-- A message the queue sent: its CID, kind and channel, its amount, the requests it was built
for, and how its wait stands. -/
structure SentMsg where
  mcid : ℕ
  kind : MsgKind
  channelID : ℕ
  amount : ℤ
  reqs : List ℕ
  status : MsgStatus
  deriving DecidableEq, Repr

/-- How a message's wait ends: `StateWaitMsg` returns a receipt (its exit code, and the channel
address its return value decodes to, if it does), or fails. -/
inductive WaitOutcome
  | receipt (exitCode : ℕ) (robustAddress : Option ℕ)
  | waitError
  deriving DecidableEq, Repr

/-- The `channelAccessor` of one from/to pair: every request, `fundsReqQueue`, the pair's active
outbound channel in the store, the messages sent, and the results delivered. -/
structure Accessor where
  reqs : List FundsReq
  queue : List ℕ
  info : Option FundingInfo
  sent : List SentMsg
  results : List (ℕ × FundsRes)
  deriving DecidableEq, Repr

/-- What happens to the accessor. -/
inductive Event
  /-- `getPaych(amt)` queues a request; the `processQueue` it starts is an event of its own. -/
  | getPaych (amt : ℤ)
  /-- The request's context is cancelled. -/
  | cancel (req : ℕ)
  /-- A run of `processQueue`; `MpoolPushMessage` fails with `pushErr` if that is set.  The
  accessor lock does not stop a context from being cancelled: those of `early` are cancelled
  after `filterQueue` and before `mergedFundsReq.sum` reads them, those of `late` after `sum`
  and before `onComplete` reads them. -/
  | processQueue (pushErr : Option String) (early late : List ℕ)
  /-- The wait for the message `mcid` ends. -/
  | msgComplete (mcid : ℕ) (outcome : WaitOutcome)
  deriving DecidableEq, Repr

namespace Accessor

/-- `isActive`: the request's context is live. -/
def isActive (a : Accessor) (i : ℕ) : Bool :=
  (a.reqs[i]?.map (·.active)).getD false

/-- The amount of a request. -/
def amtOf (a : Accessor) (i : ℕ) : ℤ :=
  (a.reqs[i]?.map (·.amt)).getD 0

/-- `newFundsReq` and `enqueue`. -/
def enqueue (a : Accessor) (amt : ℤ) : Accessor :=
  { a with reqs := a.reqs ++ [⟨amt, true⟩], queue := a.queue ++ [a.reqs.length] }

/-- The request's context is cancelled. -/
def cancel (a : Accessor) (i : ℕ) : Accessor :=
  { a with reqs := a.reqs.modify i fun r => { r with active := false } }

/-- The contexts of `l` are cancelled, one after another. -/
def cancelAll (a : Accessor) (l : List ℕ) : Accessor :=
  Run.run cancel a l

/-- `filterQueue`: the cancelled requests leave the queue. -/
def filterQueue (a : Accessor) : Accessor :=
  { a with queue := a.queue.filter a.isActive }

/-- `mergedFundsReq.sum`: the amounts of the merged requests still active. -/
def mergedSum (a : Accessor) (merged : List ℕ) : ℤ :=
  ((merged.filter a.isActive).map a.amtOf).sum

/-- A message sent for the merged requests still active, with a fresh CID. -/
def send (a : Accessor) (kind : MsgKind) (channelID : ℕ) (amt : ℤ) (merged : List ℕ) :
    Accessor :=
  { a with sent := a.sent ++ [⟨a.sent.length, kind, channelID, amt, merged.filter a.isActive,
    .pending⟩] }

/-- `processTask`: the state after it, and its result (`none` while a message is pending). -/
def processTask (a : Accessor) (amt : ℤ) (pushErr : Option String) (merged : List ℕ) :
    Accessor × Option FundsRes :=
  match a.info with
  | none =>
    -- `createPaych`; `CreateChannel` stores the message and the amount under a fresh ID
    match pushErr with
    | some e => (a, some ⟨none, none, some ("initializing paych actor: " ++ e)⟩)
    | none =>
      ({ a.send .create a.sent.length amt merged with
          info := some ⟨a.sent.length, none, 0, amt, some a.sent.length, none⟩ },
        some ⟨none, some a.sent.length, none⟩)
  | some ci =>
    -- wait for the pending create or add-funds message
    if ci.createMsg.isSome then (a, none)
    else if ci.addFundsMsg.isSome then (a, none)
    else
      -- `addFunds`
      match pushErr with
      | some e => (a, some ⟨none, none, some e⟩)
      | none =>
        ({ a.send .addFunds ci.channelID amt merged with
            info := some { ci with pendingAmount := amt, addFundsMsg := some a.sent.length } },
          some ⟨ci.channel, some a.sent.length, none⟩)

/-- `mergedFundsReq.onComplete`: the result goes to every merged request still active. -/
def onComplete (a : Accessor) (merged : List ℕ) (res : FundsRes) : Accessor :=
  { a with results := a.results ++ (merged.filter a.isActive).map fun i => (i, res) }

/-- The part of `processQueue` from `mergedFundsReq.sum` on: merge the queued requests and,
unless nothing is queued or their sum is zero, run `processTask` for the sum; when it has a
result, the queue is cleared and the merged requests get the result.  The contexts of `late` are
cancelled after `sum` has read them, so `onComplete` reads them cancelled. -/
def processMerged (a : Accessor) (pushErr : Option String) (late : List ℕ) : Accessor :=
  if a.queue = [] then a.cancelAll late
  -- "The amount can be zero if requests are cancelled as we're building the mergedFundsReq"
  else if a.mergedSum a.queue = 0 then a.cancelAll late
  else
    match a.processTask (a.mergedSum a.queue) pushErr a.queue with
    | (a', none) => a'.cancelAll late
    | (a', some res) => { (a'.cancelAll late).onComplete a.queue res with queue := [] }

/-- `processQueue`, with the contexts of `early` cancelled between `filterQueue` and `sum`, and
those of `late` between `sum` and `onComplete`. -/
def processQueue (a : Accessor) (pushErr : Option String) (early late : List ℕ) : Accessor :=
  (a.filterQueue.cancelAll early).processMerged pushErr late

/-- `mutateChannelInfo`: the change applies if the channel is still stored. -/
def mutateChannelInfo (a : Accessor) (channelID : ℕ) (f : FundingInfo → FundingInfo) :
    Accessor :=
  match a.info with
  | some ci => if ci.channelID = channelID then { a with info := some (f ci) } else a
  | none => a

/-- `RemoveChannel`. -/
def removeChannel (a : Accessor) (channelID : ℕ) : Accessor :=
  match a.info with
  | some ci => if ci.channelID = channelID then { a with info := none } else a
  | none => a

/-- Records how the wait for `mcid` ended. -/
def setStatus (a : Accessor) (mcid : ℕ) (st : MsgStatus) : Accessor :=
  { a with sent := a.sent.map fun m => if m.mcid = mcid then { m with status := st } else m }

/-- `waitPaychCreateMsg`. -/
def waitPaychCreateMsg (a : Accessor) (channelID mcid : ℕ) : WaitOutcome → Accessor
  | .waitError => a.setStatus mcid .errored
  | .receipt code ret =>
    -- "Channel creation failed, so remove the channel from the datastore"
    if code ≠ 0 then (a.setStatus mcid .failed).removeChannel channelID
    else
      match ret with
      | none => a.setStatus mcid .errored
      | some addr => (a.setStatus mcid .confirmed).mutateChannelInfo channelID fun ci =>
          { ci with channel := some addr, amount := ci.pendingAmount, pendingAmount := 0,
                    createMsg := none }

/-- `waitAddFundsMsg`. -/
def waitAddFundsMsg (a : Accessor) (channelID mcid : ℕ) : WaitOutcome → Accessor
  | .waitError => a.setStatus mcid .errored
  | .receipt code _ =>
    if code ≠ 0 then (a.setStatus mcid .failed).mutateChannelInfo channelID fun ci =>
        { ci with pendingAmount := 0, addFundsMsg := none }
    else (a.setStatus mcid .confirmed).mutateChannelInfo channelID fun ci =>
        { ci with amount := ci.amount + ci.pendingAmount, pendingAmount := 0, addFundsMsg := none }

/-- The end of the wait for `mcid`, if it is pending.  The run of the queue `msgWaitComplete`
starts is an event of its own. -/
def msgComplete (a : Accessor) (mcid : ℕ) (outcome : WaitOutcome) : Accessor :=
  match a.sent.find? fun m => m.mcid = mcid ∧ m.status = .pending with
  | none => a
  | some m =>
    match m.kind with
    | .create => a.waitPaychCreateMsg m.channelID mcid outcome
    | .addFunds => a.waitAddFundsMsg m.channelID mcid outcome

/-- One event. -/
def step (a : Accessor) : Event → Accessor
  | .getPaych amt => a.enqueue amt
  | .cancel i => a.cancel i
  | .processQueue pushErr early late => a.processQueue pushErr early late
  | .msgComplete mcid outcome => a.msgComplete mcid outcome

/-- The accessor `newChannelAccessor` makes: nothing queued, no channel. -/
def init : Accessor :=
  ⟨[], [], none, [], []⟩

/-- The messages whose wait has not ended. -/
def pendingMsgs (a : Accessor) : List SentMsg :=
  a.sent.filter fun m => m.status = .pending

end Accessor

/-- The accessor after a run of events. -/
def runAccessor (events : List Event) : Accessor :=
  Run.run Accessor.step Accessor.init events

/-! ## What each event can do -/

namespace Accessor

variable {a : Accessor}

lemma isActive_congr {b : Accessor} (h : a.reqs = b.reqs) : a.isActive = b.isActive := by
  unfold isActive
  rw [h]

lemma amtOf_congr {b : Accessor} (h : a.reqs = b.reqs) : a.amtOf = b.amtOf := by
  unfold amtOf
  rw [h]

@[simp] lemma enqueue_reqs (amt : ℤ) : (a.enqueue amt).reqs = a.reqs ++ [⟨amt, true⟩] := rfl
@[simp] lemma enqueue_queue (amt : ℤ) : (a.enqueue amt).queue = a.queue ++ [a.reqs.length] := rfl
@[simp] lemma enqueue_info (amt : ℤ) : (a.enqueue amt).info = a.info := rfl
@[simp] lemma enqueue_sent (amt : ℤ) : (a.enqueue amt).sent = a.sent := rfl
@[simp] lemma enqueue_results (amt : ℤ) : (a.enqueue amt).results = a.results := rfl

@[simp] lemma cancel_reqs (i : ℕ) :
    (a.cancel i).reqs = a.reqs.modify i fun r => { r with active := false } := rfl
@[simp] lemma cancel_queue (i : ℕ) : (a.cancel i).queue = a.queue := rfl
@[simp] lemma cancel_info (i : ℕ) : (a.cancel i).info = a.info := rfl
@[simp] lemma cancel_sent (i : ℕ) : (a.cancel i).sent = a.sent := rfl
@[simp] lemma cancel_results (i : ℕ) : (a.cancel i).results = a.results := rfl

@[simp] lemma filterQueue_reqs : a.filterQueue.reqs = a.reqs := rfl
@[simp] lemma filterQueue_queue : a.filterQueue.queue = a.queue.filter a.isActive := rfl
@[simp] lemma filterQueue_info : a.filterQueue.info = a.info := rfl
@[simp] lemma filterQueue_sent : a.filterQueue.sent = a.sent := rfl
@[simp] lemma filterQueue_results : a.filterQueue.results = a.results := rfl

@[simp] lemma onComplete_reqs (merged : List ℕ) (res : FundsRes) :
    (a.onComplete merged res).reqs = a.reqs := rfl
@[simp] lemma onComplete_info (merged : List ℕ) (res : FundsRes) :
    (a.onComplete merged res).info = a.info := rfl
@[simp] lemma onComplete_sent (merged : List ℕ) (res : FundsRes) :
    (a.onComplete merged res).sent = a.sent := rfl

@[simp] lemma setStatus_reqs (c : ℕ) (st : MsgStatus) : (a.setStatus c st).reqs = a.reqs := rfl
@[simp] lemma setStatus_queue (c : ℕ) (st : MsgStatus) : (a.setStatus c st).queue = a.queue := rfl
@[simp] lemma setStatus_results (c : ℕ) (st : MsgStatus) :
    (a.setStatus c st).results = a.results := rfl
@[simp] lemma setStatus_info (c : ℕ) (st : MsgStatus) : (a.setStatus c st).info = a.info := rfl

lemma isActive_enqueue_of_lt {i : ℕ} (amt : ℤ) (hi : i < a.reqs.length) :
    (a.enqueue amt).isActive i = a.isActive i := by
  simp [isActive, List.getElem?_append_left hi]

lemma amtOf_enqueue_of_lt {i : ℕ} (amt : ℤ) (hi : i < a.reqs.length) :
    (a.enqueue amt).amtOf i = a.amtOf i := by
  simp [amtOf, List.getElem?_append_left hi]

/-- A cancelled request is no longer active; the others are as they were. -/
lemma isActive_cancel (i j : ℕ) : (a.cancel j).isActive i = (a.isActive i && decide (j ≠ i)) := by
  simp only [isActive, cancel_reqs, List.getElem?_modify]
  cases a.reqs[i]? with
  | none => simp
  | some r => by_cases h : j = i <;> simp [h]

/-- Cancelling keeps every amount. -/
lemma amtOf_cancel (j : ℕ) : (a.cancel j).amtOf = a.amtOf := by
  funext i
  simp only [amtOf, cancel_reqs, List.getElem?_modify]
  cases a.reqs[i]? with
  | none => rfl
  | some r => by_cases h : j = i <;> simp [h]

/-- Cancelling changes the requests only. -/
lemma cancelAll_eq (l : List ℕ) : a.cancelAll l = { a with reqs := (a.cancelAll l).reqs } := by
  induction l generalizing a with
  | nil => rfl
  | cons j l ih => exact ih

@[simp] lemma cancelAll_queue (l : List ℕ) : (a.cancelAll l).queue = a.queue := by
  rw [cancelAll_eq]
@[simp] lemma cancelAll_info (l : List ℕ) : (a.cancelAll l).info = a.info := by
  rw [cancelAll_eq]
@[simp] lemma cancelAll_sent (l : List ℕ) : (a.cancelAll l).sent = a.sent := by
  rw [cancelAll_eq]
@[simp] lemma cancelAll_results (l : List ℕ) : (a.cancelAll l).results = a.results := by
  rw [cancelAll_eq]

/-- The requests after the cancellations depend on the requests before them only. -/
lemma cancelAll_reqs_congr {b : Accessor} (h : b.reqs = a.reqs) (l : List ℕ) :
    (b.cancelAll l).reqs = (a.cancelAll l).reqs := by
  induction l generalizing a b with
  | nil => exact h
  | cons j l ih => exact ih (by simp [h])

/-- The requests cancelled are no longer active; the others are as they were. -/
lemma isActive_cancelAll (l : List ℕ) (i : ℕ) :
    (a.cancelAll l).isActive i = (a.isActive i && decide (i ∉ l)) := by
  induction l generalizing a with
  | nil => simp [cancelAll]
  | cons j l ih =>
    show ((a.cancel j).cancelAll l).isActive i = _
    rw [ih, isActive_cancel]
    by_cases hj : j = i
    · simp [hj]
    · simp [hj, Ne.symm hj]

lemma isActive_of_cancelAll {l : List ℕ} {i : ℕ} (h : (a.cancelAll l).isActive i = true) :
    a.isActive i = true := by
  rw [isActive_cancelAll, Bool.and_eq_true] at h
  exact h.1

lemma amtOf_cancelAll (l : List ℕ) : (a.cancelAll l).amtOf = a.amtOf := by
  induction l generalizing a with
  | nil => rfl
  | cons j l ih => exact (ih (a := a.cancel j)).trans (amtOf_cancel j)

/-- Changing the stored channel touches nothing else. -/
lemma mutateChannelInfo_eq (c : ℕ) (f : FundingInfo → FundingInfo) :
    ∃ info, a.mutateChannelInfo c f = { a with info := info } := by
  unfold mutateChannelInfo
  split
  · split
    · exact ⟨_, rfl⟩
    · exact ⟨a.info, rfl⟩
  · exact ⟨a.info, rfl⟩

lemma removeChannel_eq (c : ℕ) : ∃ info, a.removeChannel c = { a with info := info } := by
  unfold removeChannel
  split
  · split
    · exact ⟨_, rfl⟩
    · exact ⟨a.info, rfl⟩
  · exact ⟨a.info, rfl⟩

@[simp] lemma mutateChannelInfo_sent (c : ℕ) (f : FundingInfo → FundingInfo) :
    (a.mutateChannelInfo c f).sent = a.sent := by
  obtain ⟨_, h⟩ := mutateChannelInfo_eq (a := a) c f
  rw [h]

@[simp] lemma removeChannel_sent (c : ℕ) : (a.removeChannel c).sent = a.sent := by
  obtain ⟨_, h⟩ := removeChannel_eq (a := a) c
  rw [h]

lemma mutateChannelInfo_info {ci : FundingInfo} {c : ℕ} (f : FundingInfo → FundingInfo)
    (h : a.info = some ci) (hc : ci.channelID = c) : (a.mutateChannelInfo c f).info = some (f ci) := by
  simp [mutateChannelInfo, h, hc]

lemma removeChannel_info {ci : FundingInfo} {c : ℕ} (h : a.info = some ci)
    (hc : ci.channelID = c) : (a.removeChannel c).info = none := by
  simp [removeChannel, h, hc]

/-- How the wait for a create message ends: in an error, in a failure that removes the channel,
or confirmed, with the channel's address and its pending amount made its amount. -/
lemma waitPaychCreateMsg_cases (ch c : ℕ) (o : WaitOutcome) :
    a.waitPaychCreateMsg ch c o = a.setStatus c .errored ∨
    a.waitPaychCreateMsg ch c o = (a.setStatus c .failed).removeChannel ch ∨
    ∃ addr, a.waitPaychCreateMsg ch c o = (a.setStatus c .confirmed).mutateChannelInfo ch fun ci =>
      { ci with channel := some addr, amount := ci.pendingAmount, pendingAmount := 0,
                createMsg := none } := by
  cases o with
  | waitError => exact .inl rfl
  | receipt code ret =>
    simp only [waitPaychCreateMsg]
    split
    · exact .inr (.inl rfl)
    · cases ret with
      | none => exact .inl rfl
      | some addr => exact .inr (.inr ⟨addr, rfl⟩)

/-- How the wait for an add-funds message ends: in an error, in a failure that drops the pending
amount, or confirmed, with the pending amount added to the channel's amount. -/
lemma waitAddFundsMsg_cases (ch c : ℕ) (o : WaitOutcome) :
    a.waitAddFundsMsg ch c o = a.setStatus c .errored ∨
    a.waitAddFundsMsg ch c o = (a.setStatus c .failed).mutateChannelInfo ch
      (fun ci => { ci with pendingAmount := 0, addFundsMsg := none }) ∨
    a.waitAddFundsMsg ch c o = (a.setStatus c .confirmed).mutateChannelInfo ch fun ci =>
      { ci with amount := ci.amount + ci.pendingAmount, pendingAmount := 0, addFundsMsg := none } := by
  cases o with
  | waitError => exact .inl rfl
  | receipt code ret =>
    simp only [waitAddFundsMsg]
    split
    · exact .inr (.inl rfl)
    · exact .inr (.inr rfl)

/-- **What the end of a wait does**: nothing, when the message is not pending; otherwise the
wait of its kind runs on it. -/
lemma msgComplete_cases {c : ℕ} {o : WaitOutcome} {a' : Accessor} (h : a.msgComplete c o = a') :
    a' = a ∨ ∃ m ∈ a.pendingMsgs, m.mcid = c ∧
      (m.kind = .create ∧ a' = a.waitPaychCreateMsg m.channelID c o ∨
        m.kind = .addFunds ∧ a' = a.waitAddFundsMsg m.channelID c o) := by
  subst h
  unfold msgComplete
  split
  · exact .inl rfl
  · rename_i m hm
    obtain ⟨hp, -⟩ := List.find?_eq_some_iff_append.mp hm
    simp only [decide_eq_true_eq] at hp
    have hmem : m ∈ a.pendingMsgs := by
      simp only [pendingMsgs, List.mem_filter, decide_eq_true_eq]
      exact ⟨List.mem_of_find?_eq_some hm, hp.2⟩
    refine .inr ⟨m, hmem, hp.1, ?_⟩
    cases hk : m.kind with
    | create => exact .inl ⟨rfl, rfl⟩
    | addFunds => exact .inr ⟨rfl, rfl⟩

/-- So the end of a wait sets the message's status, to one that is not pending, and may change
the stored channel; nothing else. -/
lemma msgComplete_setStatus {c : ℕ} {o : WaitOutcome} {a' : Accessor}
    (h : a.msgComplete c o = a') :
    a' = a ∨ ∃ m ∈ a.pendingMsgs, m.mcid = c ∧ ∃ st info, st ≠ .pending ∧
      a' = { a.setStatus c st with info := info } := by
  rcases msgComplete_cases h with h | ⟨m, hm, hc, hk⟩
  · exact .inl h
  refine .inr ⟨m, hm, hc, ?_⟩
  -- a change of the stored channel keeps the status just set
  have hmut : ∀ st (f : FundingInfo → FundingInfo), st ≠ .pending →
      ∃ st' info, st' ≠ .pending ∧
        (a.setStatus c st).mutateChannelInfo m.channelID f = { a.setStatus c st' with info := info } :=
    fun st f hst => by
      obtain ⟨info, h⟩ := mutateChannelInfo_eq (a := a.setStatus c st) m.channelID f
      exact ⟨st, info, hst, h⟩
  rcases hk with ⟨-, rfl⟩ | ⟨-, rfl⟩
  · rcases waitPaychCreateMsg_cases (a := a) m.channelID c o with h | h | ⟨addr, h⟩ <;> rw [h]
    · exact ⟨.errored, a.info, by decide, rfl⟩
    · obtain ⟨info, h⟩ := removeChannel_eq (a := a.setStatus c .failed) m.channelID
      exact ⟨.failed, info, by decide, h⟩
    · exact hmut _ _ (by decide)
  · rcases waitAddFundsMsg_cases (a := a) m.channelID c o with h | h | h <;> rw [h]
    · exact ⟨.errored, a.info, by decide, rfl⟩
    · exact hmut _ _ (by decide)
    · exact hmut _ _ (by decide)

/-- The queue is cleared, and the queued requests still active get `res`. -/
structure Answered (a a' : Accessor) (res : FundsRes) : Prop where
  reqs : a'.reqs = a.reqs
  queue : a'.queue = []
  results : a'.results = a.results ++ (a.queue.filter a.isActive).map fun i => (i, res)

/-- Clearing the queue after `onComplete` ran on a state `c` with the requests and the results
of `b` answers `b`'s queue. -/
lemma answered_onComplete {b c : Accessor} {q : List ℕ} {res : FundsRes} (hr : c.reqs = b.reqs)
    (hres : c.results = b.results) (hq : q = b.queue) :
    Answered b { c.onComplete q res with queue := [] } res :=
  ⟨hr, rfl, by simp [onComplete, hres, hq, isActive_congr hr]⟩

/-- **What a run of the merged queue does**: nothing but the late cancellations (nothing queued,
a zero sum, or a message pending); or it answers the queued requests with an error; or it sends
one message for their sum, records it on the channel, and answers them with its CID.  The message
is for the requests `sum` read live; the answers go to those still live after the late
cancellations. -/
lemma processMerged_cases {e : Option String} {late : List ℕ} {a' : Accessor}
    (h : a.processMerged e late = a') :
    a' = a.cancelAll late ∨
    (∃ err, Answered (a.cancelAll late) a' ⟨none, none, some err⟩ ∧ a'.info = a.info ∧
      a'.sent = a.sent) ∨
    (∃ kind ci ch, a.mergedSum a.queue ≠ 0 ∧
      ((a.info = none ∧ kind = .create ∧
          ci = ⟨a.sent.length, none, 0, a.mergedSum a.queue, some a.sent.length, none⟩) ∨
        ∃ ci₀, a.info = some ci₀ ∧ ci₀.createMsg = none ∧ ci₀.addFundsMsg = none ∧
          kind = .addFunds ∧
          ci = { ci₀ with pendingAmount := a.mergedSum a.queue, addFundsMsg := some a.sent.length }) ∧
      Answered (a.cancelAll late) a' ⟨ch, some a.sent.length, none⟩ ∧ a'.info = some ci ∧
      a'.sent = a.sent ++ [⟨a.sent.length, kind, ci.channelID, a.mergedSum a.queue,
        a.queue.filter a.isActive, .pending⟩]) := by
  subst h
  unfold processMerged
  by_cases hq : a.queue = []
  · exact .inl (if_pos hq)
  rw [if_neg hq]
  by_cases hz : a.mergedSum a.queue = 0
  · exact .inl (if_pos hz)
  rw [if_neg hz]
  -- `processTask` changes neither the requests nor the results, so `onComplete` answers the
  -- queue of the state the late cancellations leave
  have hans : ∀ (c : Accessor) res, c.reqs = a.reqs → c.results = a.results →
      Answered (a.cancelAll late) { (c.cancelAll late).onComplete a.queue res with queue := [] }
        res :=
    fun c res hr hres => answered_onComplete (cancelAll_reqs_congr hr late) (by simp [hres])
      (by simp)
  unfold processTask
  rcases hinfo : a.info with _ | ci₀
  · -- no channel: `createPaych`
    cases e with
    | some err => exact .inr (.inl ⟨_, hans a _ rfl rfl, by simp [hinfo], by simp⟩)
    | none =>
      exact .inr (.inr ⟨.create, _, none, hz, .inl ⟨rfl, rfl, rfl⟩, hans _ _ rfl rfl,
        by simp, by simp [send]⟩)
  · by_cases hc : ci₀.createMsg.isSome
    · exact .inl (by simp [hc])
    by_cases ha : ci₀.addFundsMsg.isSome
    · exact .inl (by simp [hc, ha])
    simp only [hc, ha, Bool.false_eq_true, if_false]
    cases e with
    | some err => exact .inr (.inl ⟨_, hans a _ rfl rfl, by simp [hinfo], by simp⟩)
    | none =>
      rw [Option.not_isSome_iff_eq_none] at hc ha
      exact .inr (.inr ⟨.addFunds, _, ci₀.channel, hz, .inr ⟨ci₀, rfl, hc, ha, rfl, rfl⟩,
        hans _ _ rfl rfl, by simp, by simp [send]⟩)

end Accessor

/-! ## What holds over every run -/

/-- The message a stored channel waits for, by kind: its `CreateMsg` or its `AddFundsMsg`. -/
def FundingInfo.msgOf (ci : FundingInfo) : MsgKind → Option ℕ
  | .create => ci.createMsg
  | .addFunds => ci.addFundsMsg

/-- The sum of the amounts of the messages for channel `ch` whose wait stands at `s`. -/
def chanSum (sent : List SentMsg) (ch : ℕ) (s : MsgStatus) : ℤ :=
  ((sent.filter fun m => m.channelID = ch ∧ m.status = s).map (·.amount)).sum

@[simp] lemma chanSum_nil (ch : ℕ) (s : MsgStatus) : chanSum [] ch s = 0 := rfl

@[simp] lemma chanSum_cons (m : SentMsg) (l : List SentMsg) (ch : ℕ) (s : MsgStatus) :
    chanSum (m :: l) ch s =
      (if m.channelID = ch ∧ m.status = s then m.amount else 0) + chanSum l ch s := by
  by_cases h : m.channelID = ch ∧ m.status = s <;> simp [chanSum, h]

@[simp] lemma chanSum_append (l₁ l₂ : List SentMsg) (ch : ℕ) (s : MsgStatus) :
    chanSum (l₁ ++ l₂) ch s = chanSum l₁ ch s + chanSum l₂ ch s := by
  simp [chanSum, List.filter_append]

lemma chanSum_eq_zero {l : List SentMsg} {ch : ℕ} {s : MsgStatus}
    (h : ∀ m ∈ l, m.channelID = ch → m.status ≠ s) : chanSum l ch s = 0 := by
  induction l with
  | nil => rfl
  | cons m l ih =>
    have hm : ¬(m.channelID = ch ∧ m.status = s) := fun ⟨hc, hs⟩ => h m List.mem_cons_self hc hs
    rw [chanSum_cons, ih fun x hx => h x (List.mem_cons_of_mem _ hx), if_neg hm, add_zero]

/-- Only the messages at `s` count towards the sum at `s`. -/
lemma chanSum_filter_status (l : List SentMsg) (ch : ℕ) (s : MsgStatus) :
    chanSum (l.filter fun m => m.status = s) ch s = chanSum l ch s := by
  induction l with
  | nil => rfl
  | cons m l ih => by_cases h : m.status = s <;> simp [h, ih]

/-- No wait has ended in an error. -/
def NoErrored (sent : List SentMsg) : Prop :=
  ∀ m ∈ sent, m.status ≠ .errored

namespace Accessor

variable {a a' : Accessor}

/-- The requests answered, by id. -/
def answered (a : Accessor) : List ℕ :=
  a.results.map Prod.fst

@[simp] lemma answered_eq : a.answered = a.results.map Prod.fst := rfl

lemma Answered.answered_eq {res : FundsRes} (h : Answered a a' res) :
    a'.answered = a.answered ++ a.queue.filter a.isActive := by
  simp [h.results, Function.comp_def]

/-- **The requests.**  Every request is queued at most once and gets at most one result, an
answered request is not queued, and a live request is queued or answered. -/
structure ResultsInv (a : Accessor) : Prop where
  queue_lt : ∀ i ∈ a.queue, i < a.reqs.length
  queue_nodup : a.queue.Nodup
  answered_lt : ∀ i ∈ a.answered, i < a.reqs.length
  answered_nodup : a.answered.Nodup
  queue_fresh : ∀ i ∈ a.queue, i ∉ a.answered
  live : ∀ i < a.reqs.length, a.isActive i = true → i ∈ a.queue ∨ i ∈ a.answered

lemma resultsInv_init : ResultsInv init where
  queue_lt := by simp [init]
  queue_nodup := by simp [init]
  answered_lt := by simp [init]
  answered_nodup := by simp [init]
  queue_fresh := by simp [init]
  live := by simp [init]

/-- The invariant reads the requests, the queue and the results only. -/
lemma ResultsInv.congr (h : ResultsInv a) (hr : a'.reqs = a.reqs) (hq : a'.queue = a.queue)
    (hres : a'.results = a.results) : ResultsInv a' := by
  have hact := isActive_congr hr
  obtain ⟨h1, h2, h3, h4, h5, h6⟩ := h
  refine ⟨?_, ?_, ?_, ?_, ?_, ?_⟩ <;> simpa only [hr, hq, hres, answered_eq, hact] using ‹_›

lemma ResultsInv.enqueue (h : ResultsInv a) (amt : ℤ) : ResultsInv (a.enqueue amt) := by
  have hfresh : a.reqs.length ∉ a.queue := fun hn => Nat.lt_irrefl _ (h.queue_lt _ hn)
  refine ⟨?_, ?_, ?_, ?_, ?_, ?_⟩
  · intro i hi
    simp only [enqueue_queue, List.mem_append, List.mem_singleton] at hi
    rcases hi with hi | rfl
    · simpa using Nat.lt_succ_of_lt (h.queue_lt i hi)
    · simp
  · exact h.queue_nodup.append (List.nodup_singleton _) (List.disjoint_singleton.2 hfresh)
  · intro i hi
    simpa using Nat.lt_succ_of_lt (h.answered_lt i hi)
  · exact h.answered_nodup
  · intro i hi
    simp only [enqueue_queue, List.mem_append, List.mem_singleton] at hi
    rcases hi with hi | rfl
    · exact h.queue_fresh i hi
    · exact fun hn => Nat.lt_irrefl _ (h.answered_lt _ hn)
  · intro i hi hact
    simp only [enqueue_reqs, List.length_append, List.length_singleton] at hi
    rcases Nat.lt_succ_iff_lt_or_eq.1 hi with hi | rfl
    · rw [isActive_enqueue_of_lt amt hi] at hact
      rcases h.live i hi hact with hq | hr
      · exact .inl (List.mem_append_left _ hq)
      · exact .inr hr
    · simp

lemma ResultsInv.cancel (h : ResultsInv a) (j : ℕ) : ResultsInv (a.cancel j) := by
  refine ⟨?_, h.queue_nodup, ?_, h.answered_nodup, h.queue_fresh, ?_⟩
  · simpa using h.queue_lt
  · simpa using h.answered_lt
  · intro i hi hact
    rw [isActive_cancel, Bool.and_eq_true] at hact
    simpa using h.live i (by simpa using hi) hact.1

lemma ResultsInv.cancelAll (h : ResultsInv a) (l : List ℕ) : ResultsInv (a.cancelAll l) :=
  Run.run_invariant (P := ResultsInv) (fun _ j h => h.cancel j) l h

lemma ResultsInv.filterQueue (h : ResultsInv a) : ResultsInv a.filterQueue := by
  have hsub : ∀ i ∈ a.filterQueue.queue, i ∈ a.queue := fun i hi =>
    List.mem_of_mem_filter hi
  refine ⟨fun i hi => h.queue_lt i (hsub i hi), h.queue_nodup.filter _, h.answered_lt,
    h.answered_nodup, fun i hi => h.queue_fresh i (hsub i hi), ?_⟩
  intro i hi hact
  rcases h.live i hi hact with hq | hr
  · exact .inl (List.mem_filter.2 ⟨hq, hact⟩)
  · exact .inr hr

/-- Answering the queue keeps the invariant: the queued requests still active, which have no
result yet, each get one. -/
lemma ResultsInv.answered {res : FundsRes} (h : ResultsInv a) (ha : Answered a a' res) :
    ResultsInv a' := by
  have hact := isActive_congr ha.reqs
  have hans := ha.answered_eq
  refine ⟨by simp [ha.queue], by simp [ha.queue], ?_, ?_, by simp [ha.queue], ?_⟩
  · intro i hi
    rw [hans, List.mem_append] at hi
    rw [ha.reqs]
    rcases hi with hi | hi
    · exact h.answered_lt i hi
    · exact h.queue_lt i (List.mem_of_mem_filter hi)
  · rw [hans]
    exact List.nodup_append.2 ⟨h.answered_nodup, h.queue_nodup.filter _,
      fun i hi j hj => by rintro rfl; exact h.queue_fresh i (List.mem_of_mem_filter hj) hi⟩
  · intro i hi hactive
    rw [ha.reqs] at hi
    rw [hact] at hactive
    rw [hans, List.mem_append]
    rcases h.live i hi hactive with hq | hr
    · exact .inr (.inr (List.mem_filter.2 ⟨hq, hactive⟩))
    · exact .inr (.inl hr)

lemma ResultsInv.processMerged (h : ResultsInv a) (e : Option String) (late : List ℕ) :
    ResultsInv (a.processMerged e late) := by
  have hc := h.cancelAll late
  rcases processMerged_cases (rfl : a.processMerged e late = _) with
    h' | ⟨err, ha, -⟩ | ⟨kind, ci, ch, -, -, ha, -⟩
  · rw [h']
    exact hc
  · exact hc.answered ha
  · exact hc.answered ha

lemma ResultsInv.msgComplete (h : ResultsInv a) (c : ℕ) (o : WaitOutcome) :
    ResultsInv (a.msgComplete c o) := by
  rcases msgComplete_setStatus (rfl : a.msgComplete c o = _) with h' | ⟨m, -, -, st, info, -, h'⟩
  · rw [h']
    exact h
  · rw [h']
    exact h.congr rfl rfl rfl

/-- **No request is answered twice**, and none is lost: along every run. -/
lemma resultsInv_step (h : ResultsInv a) : ∀ e : Event, ResultsInv (a.step e)
  | .getPaych amt => h.enqueue amt
  | .cancel j => h.cancel j
  | .processQueue e early late => (h.filterQueue.cancelAll early).processMerged e late
  | .msgComplete c o => h.msgComplete c o

lemma Answered.mem_results {res : FundsRes} (h : Answered a a' res) {i : ℕ} {r : FundsRes} :
    (i, r) ∈ a'.results ↔ (i, r) ∈ a.results ∨ i ∈ a.queue.filter a.isActive ∧ r = res := by
  rw [h.results, List.mem_append, List.mem_map]
  simp only [Prod.mk.injEq]
  constructor
  · rintro (hr | ⟨j, hj, rfl, rfl⟩)
    · exact .inl hr
    · exact .inr ⟨hj, rfl⟩
  · rintro (hr | ⟨hi, rfl⟩)
    · exact .inl hr
    · exact .inr ⟨i, hi, rfl, rfl⟩

@[simp] lemma setStatus_sent_length (c : ℕ) (st : MsgStatus) :
    (a.setStatus c st).sent.length = a.sent.length := List.length_map _

lemma setStatus_sent_mcid (c : ℕ) (st : MsgStatus) :
    (a.setStatus c st).sent.map (·.mcid) = a.sent.map (·.mcid) := by
  simp only [setStatus, List.map_map]
  apply List.map_congr_left
  intro m _
  by_cases h : m.mcid = c <;> simp [h]

/-- Setting a status changes nothing else of a message. -/
lemma mem_setStatus_sent {c : ℕ} {st : MsgStatus} {m : SentMsg}
    (hm : m ∈ (a.setStatus c st).sent) : ∃ m₀ ∈ a.sent, ∃ s, m = { m₀ with status := s } := by
  obtain ⟨m₀, hm₀, rfl⟩ := List.mem_map.1 hm
  refine ⟨m₀, hm₀, ?_⟩
  by_cases h : m₀.mcid = c
  · exact ⟨st, by simp [h]⟩
  · exact ⟨m₀.status, by simp [h]⟩

/-- **The messages.**  Each has a CID of its own, below the number of messages sent; its requests
were made before it and its amount is the sum of theirs.  Every request answered with its CID is
one of them, and each of them is answered with its CID unless its context has been cancelled. -/
structure SentInv (a : Accessor) : Prop where
  mcid_lt : ∀ m ∈ a.sent, m.mcid < a.sent.length
  mcid_nodup : (a.sent.map (·.mcid)).Nodup
  reqs_lt : ∀ m ∈ a.sent, ∀ i ∈ m.reqs, i < a.reqs.length
  amount_eq : ∀ m ∈ a.sent, m.amount = (m.reqs.map a.amtOf).sum
  cid_mem : ∀ m ∈ a.sent, ∀ i r, (i, r) ∈ a.results → r.mcid = some m.mcid → i ∈ m.reqs
  got_cid : ∀ m ∈ a.sent, ∀ i ∈ m.reqs,
    (∃ r, (i, r) ∈ a.results ∧ r.mcid = some m.mcid) ∨ a.isActive i = false
  results_mcid_lt : ∀ i r, (i, r) ∈ a.results → ∀ c ∈ r.mcid, c < a.sent.length

lemma sentInv_init : SentInv init where
  mcid_lt := by simp [init]
  mcid_nodup := by simp [init]
  reqs_lt := by simp [init]
  amount_eq := by simp [init]
  cid_mem := by simp [init]
  got_cid := by simp [init]
  results_mcid_lt := by simp [init]

/-- The invariant reads the requests, the messages and the results. -/
lemma SentInv.congr (h : SentInv a) (hr : a'.reqs = a.reqs) (hs : a'.sent = a.sent)
    (hres : a'.results = a.results) : SentInv a' := by
  have hamt := amtOf_congr hr
  have hact := isActive_congr hr
  obtain ⟨h1, h2, h3, h4, h5, h6, h7⟩ := h
  refine ⟨?_, ?_, ?_, ?_, ?_, ?_, ?_⟩ <;> simpa only [hr, hamt, hact, hs, hres] using ‹_›

lemma SentInv.enqueue (h : SentInv a) (amt : ℤ) : SentInv (a.enqueue amt) := by
  refine ⟨h.mcid_lt, h.mcid_nodup, ?_, ?_, h.cid_mem, ?_, h.results_mcid_lt⟩
  · intro m hm i hi
    simpa using Nat.lt_succ_of_lt (h.reqs_lt m hm i hi)
  · -- the new request comes after every request a message was built for
    intro m hm
    rw [h.amount_eq m hm]
    congr 1
    exact List.map_congr_left fun i hi => (amtOf_enqueue_of_lt amt (h.reqs_lt m hm i hi)).symm
  · intro m hm i hi
    rw [isActive_enqueue_of_lt amt (h.reqs_lt m hm i hi)]
    exact h.got_cid m hm i hi

/-- A cancellation only makes a request inactive. -/
lemma SentInv.cancel (h : SentInv a) (j : ℕ) : SentInv (a.cancel j) := by
  refine ⟨h.mcid_lt, h.mcid_nodup, ?_, ?_, h.cid_mem, ?_, h.results_mcid_lt⟩
  · simpa using h.reqs_lt
  · rw [amtOf_cancel]
    exact h.amount_eq
  · intro m hm i hi
    rw [isActive_cancel]
    rcases h.got_cid m hm i hi with hr | hf
    · exact .inl hr
    · exact .inr (by simp [hf])

lemma SentInv.cancelAll (h : SentInv a) (l : List ℕ) : SentInv (a.cancelAll l) :=
  Run.run_invariant (P := SentInv) (fun _ j h => h.cancel j) l h

/-- An earlier message keeps its answers: the results only grow, and no request becomes active
again. -/
lemma SentInv.got_cid_of_answered {res : FundsRes} (h : SentInv a) (ha : Answered a a' res)
    {m : SentMsg} (hm : m ∈ a.sent) {i : ℕ} (hi : i ∈ m.reqs) :
    (∃ r, (i, r) ∈ a'.results ∧ r.mcid = some m.mcid) ∨ a'.isActive i = false := by
  rw [isActive_congr ha.reqs]
  rcases h.got_cid m hm i hi with ⟨r, hr, hc⟩ | hf
  · exact .inl ⟨r, ha.mem_results.2 (.inl hr), hc⟩
  · exact .inr hf

/-- Answering the queue with an error sends nothing and gives no CID. -/
lemma SentInv.answerError {err : String} (h : SentInv a) (ha : Answered a a' ⟨none, none, some err⟩)
    (hs : a'.sent = a.sent) : SentInv a' := by
  refine ⟨?_, ?_, ?_, ?_, ?_, ?_, ?_⟩
  · rw [hs]
    exact h.mcid_lt
  · rw [hs]
    exact h.mcid_nodup
  · rw [hs, ha.reqs]
    exact h.reqs_lt
  · rw [hs, amtOf_congr ha.reqs]
    exact h.amount_eq
  · intro m hm i r hr hc
    rw [hs] at hm
    rcases ha.mem_results.1 hr with hr | ⟨-, rfl⟩
    · exact h.cid_mem m hm i r hr hc
    · exact absurd hc (by simp)
  · intro m hm
    rw [hs] at hm
    exact fun i hi => h.got_cid_of_answered ha hm hi
  · intro i r hr c hc
    rw [hs]
    rcases ha.mem_results.1 hr with hr | ⟨-, rfl⟩
    · exact h.results_mcid_lt i r hr c hc
    · exact absurd hc (by simp)

/-- Sending a message `m` for the queue: it gets the next CID, and its amount is the sum of its
requests, which are queued and take in every queued request still active; those get its CID. -/
lemma SentInv.send {m : SentMsg} {ch : Option ℕ} (hr : ResultsInv a) (h : SentInv a)
    (hs : a'.sent = a.sent ++ [m]) (ha : Answered a a' ⟨ch, some m.mcid, none⟩)
    (hc : m.mcid = a.sent.length) (hamt : m.amount = (m.reqs.map a.amtOf).sum)
    (hrs : ∀ i ∈ m.reqs, i ∈ a.queue) (hlive : ∀ i ∈ a.queue, a.isActive i = true → i ∈ m.reqs) :
    SentInv a' := by
  have hlen : a'.sent.length = a.sent.length + 1 := by simp [hs]
  -- no earlier message, and no earlier result, has the new CID
  have hold : ∀ m' ∈ a.sent, m'.mcid ≠ m.mcid := fun m' hm' hm'c =>
    Nat.lt_irrefl _ (hc ▸ hm'c ▸ h.mcid_lt m' hm')
  have hnew : ∀ i r, (i, r) ∈ a.results → r.mcid ≠ some m.mcid := fun i r hr' hrc =>
    Nat.lt_irrefl _ (hc ▸ h.results_mcid_lt i r hr' _ hrc)
  refine ⟨?_, ?_, ?_, ?_, ?_, ?_, ?_⟩
  · intro m' hm'
    rw [hs, List.mem_append, List.mem_singleton] at hm'
    rw [hlen]
    rcases hm' with hm' | rfl
    · exact Nat.lt_succ_of_lt (h.mcid_lt m' hm')
    · exact hc ▸ Nat.lt_succ_self _
  · have hfresh : m.mcid ∉ a.sent.map (·.mcid) := by
      rintro hn
      obtain ⟨m', hm', hc'⟩ := List.mem_map.1 hn
      exact hold m' hm' hc'
    rw [hs, List.map_append]
    exact h.mcid_nodup.append (List.nodup_singleton _) (List.disjoint_singleton.2 hfresh)
  · intro m' hm' i hi
    rw [ha.reqs]
    rw [hs, List.mem_append, List.mem_singleton] at hm'
    rcases hm' with hm' | rfl
    · exact h.reqs_lt m' hm' i hi
    · exact hr.queue_lt i (hrs i hi)
  · intro m' hm'
    rw [amtOf_congr ha.reqs]
    rw [hs, List.mem_append, List.mem_singleton] at hm'
    rcases hm' with hm' | rfl
    · exact h.amount_eq m' hm'
    · exact hamt
  · intro m' hm' i r hir hrc
    rw [hs, List.mem_append, List.mem_singleton] at hm'
    rcases ha.mem_results.1 hir with hir | ⟨hi, rfl⟩
    · -- an earlier result: its CID is an earlier message's
      rcases hm' with hm' | rfl
      · exact h.cid_mem m' hm' i r hir hrc
      · exact absurd hrc (hnew i r hir)
    · -- a result given now carries the new CID
      rcases hm' with hm' | rfl
      · exact absurd (Option.some_inj.1 hrc).symm (hold m' hm')
      · exact hlive i (List.mem_of_mem_filter hi) (List.mem_filter.1 hi).2
  · intro m' hm' i hi
    rw [hs, List.mem_append, List.mem_singleton] at hm'
    rcases hm' with hm' | rfl
    · exact h.got_cid_of_answered ha hm' hi
    · -- the new message's requests are queued: the ones still active get its CID
      rw [isActive_congr ha.reqs]
      cases hact : a.isActive i
      · exact .inr rfl
      · exact .inl ⟨_, ha.mem_results.2 (.inr ⟨List.mem_filter.2 ⟨hrs i hi, hact⟩, rfl⟩), rfl⟩
  · intro i r hir c hcr
    rw [hlen]
    rcases ha.mem_results.1 hir with hir | ⟨-, rfl⟩
    · exact Nat.lt_succ_of_lt (h.results_mcid_lt i r hir c hcr)
    · rw [← Option.some_inj.1 hcr, hc]
      exact Nat.lt_succ_self _

lemma SentInv.processMerged (hr : ResultsInv a) (h : SentInv a) (e : Option String)
    (late : List ℕ) : SentInv (a.processMerged e late) := by
  have hc := h.cancelAll late
  rcases processMerged_cases (rfl : a.processMerged e late = _) with
    h' | ⟨err, ha, -, hs⟩ | ⟨kind, ci, ch, -, -, ha, -, hs⟩
  · rw [h']
    exact hc
  · exact hc.answerError ha (by rw [hs, cancelAll_sent])
  · -- the message is for the requests `sum` read live; the answers go to those still live
    refine hc.send (hr.cancelAll late) (by rw [hs, cancelAll_sent]) ha (by simp) ?_ ?_ ?_
    · rw [amtOf_cancelAll]
      rfl
    · intro i hi
      rw [cancelAll_queue]
      exact List.mem_of_mem_filter hi
    · intro i hi hact
      rw [cancelAll_queue] at hi
      exact List.mem_filter.2 ⟨hi, isActive_of_cancelAll hact⟩

/-- Setting a status keeps every CID, request list and amount. -/
lemma SentInv.setStatus {c : ℕ} {st : MsgStatus} (h : SentInv a)
    (hs : a'.sent = (a.setStatus c st).sent) (hreqs : a'.reqs = a.reqs)
    (hres : a'.results = a.results) : SentInv a' := by
  have hlen : a'.sent.length = a.sent.length := by simp [hs]
  refine ⟨?_, ?_, ?_, ?_, ?_, ?_, ?_⟩
  · intro m hm
    rw [hs] at hm
    obtain ⟨m₀, hm₀, s, rfl⟩ := mem_setStatus_sent hm
    exact hlen ▸ h.mcid_lt m₀ hm₀
  · rw [hs, setStatus_sent_mcid]
    exact h.mcid_nodup
  · intro m hm
    rw [hs] at hm
    obtain ⟨m₀, hm₀, s, rfl⟩ := mem_setStatus_sent hm
    exact hreqs ▸ h.reqs_lt m₀ hm₀
  · intro m hm
    rw [hs] at hm
    obtain ⟨m₀, hm₀, s, rfl⟩ := mem_setStatus_sent hm
    rw [amtOf_congr hreqs]
    exact h.amount_eq m₀ hm₀
  · intro m hm
    rw [hs] at hm
    obtain ⟨m₀, hm₀, s, rfl⟩ := mem_setStatus_sent hm
    rw [hres]
    exact h.cid_mem m₀ hm₀
  · intro m hm
    rw [hs] at hm
    obtain ⟨m₀, hm₀, s, rfl⟩ := mem_setStatus_sent hm
    rw [hres, isActive_congr hreqs]
    exact h.got_cid m₀ hm₀
  · intro i r hr c hc
    rw [hlen]
    exact h.results_mcid_lt i r (hres ▸ hr) c hc

lemma SentInv.msgComplete (h : SentInv a) (c : ℕ) (o : WaitOutcome) :
    SentInv (a.msgComplete c o) := by
  rcases msgComplete_setStatus (rfl : a.msgComplete c o = _) with h' | ⟨m, -, -, st, info, -, h'⟩
  · rw [h']
    exact h
  · rw [h']
    exact h.setStatus rfl rfl rfl

/-- **Each message carries the sum of its requests**, and its CID goes to them only: along every
run. -/
lemma sentInv_step (hr : ResultsInv a) (h : SentInv a) : ∀ e : Event, SentInv (a.step e)
  | .getPaych amt => h.enqueue amt
  | .cancel j => h.cancel j
  | .processQueue e early late =>
    ((show SentInv a.filterQueue from h.congr rfl rfl rfl).cancelAll early).processMerged
      (hr.filterQueue.cancelAll early) e late
  | .msgComplete c o => h.msgComplete c o

/-- A list of at most one element holds only that element. -/
lemma eq_singleton_of_length_le_one {α : Type*} {l : List α} {x : α} (hl : l.length ≤ 1)
    (hx : x ∈ l) : l = [x] := by
  rcases l with _ | ⟨y, _ | ⟨z, t⟩⟩
  · simp at hx
  · rw [List.mem_singleton.1 hx]
  · simp at hl

lemma pendingMsgs_send {a' : Accessor} {m : SentMsg} (hs : a'.sent = a.sent ++ [m])
    (hm : m.status = .pending) : a'.pendingMsgs = a.pendingMsgs ++ [m] := by
  simp [pendingMsgs, hs, hm]

lemma mem_pendingMsgs_setStatus {c : ℕ} {st : MsgStatus} {x : SentMsg} (hst : st ≠ .pending) :
    x ∈ (a.setStatus c st).pendingMsgs ↔ x ∈ a.pendingMsgs ∧ x.mcid ≠ c := by
  simp only [pendingMsgs, setStatus, List.mem_filter, List.mem_map, decide_eq_true_eq]
  constructor
  · rintro ⟨⟨m, hm, rfl⟩, hp⟩
    by_cases h : m.mcid = c
    · simp [h, hst] at hp
    · simp only [h, if_false] at hp ⊢
      exact ⟨⟨hm, hp⟩, h⟩
  · rintro ⟨⟨hx, hp⟩, hc⟩
    exact ⟨⟨x, hx, by simp [hc]⟩, hp⟩

/-- Once the only pending message has its status set, nothing is pending. -/
lemma pendingMsgs_setStatus_eq_nil {m : SentMsg} {st : MsgStatus}
    (hle : a.pendingMsgs.length ≤ 1) (hm : m ∈ a.pendingMsgs) (hst : st ≠ .pending) :
    (a.setStatus m.mcid st).pendingMsgs = [] := by
  rw [List.eq_nil_iff_forall_not_mem]
  intro x hx
  obtain ⟨hx, hc⟩ := (mem_pendingMsgs_setStatus hst).1 hx
  have hxm : x = m := List.mem_singleton.1 (eq_singleton_of_length_le_one hle hm ▸ hx)
  exact hc (congrArg SentMsg.mcid hxm)

/-- **The pending message.**  At most one message is pending, and the stored channel records it:
the message is for that channel, which holds its CID as its `CreateMsg` or its `AddFundsMsg`. -/
structure PendingInv (a : Accessor) : Prop where
  le_one : a.pendingMsgs.length ≤ 1
  recorded : ∀ m ∈ a.pendingMsgs, ∃ ci, a.info = some ci ∧ ci.channelID = m.channelID ∧
    ci.msgOf m.kind = some m.mcid

lemma pendingInv_init : PendingInv init where
  le_one := by simp [init, pendingMsgs]
  recorded := by simp [init, pendingMsgs]

lemma PendingInv.congr (h : PendingInv a) (hs : a'.sent = a.sent) (hi : a'.info = a.info) :
    PendingInv a' := by
  have hp : a'.pendingMsgs = a.pendingMsgs := by simp only [pendingMsgs, hs]
  exact ⟨hp ▸ h.le_one, by simpa only [hp, hi] using h.recorded⟩

/-- With no message recorded on the stored channel, nothing is pending. -/
lemma PendingInv.idle (h : PendingInv a)
    (hidle : ∀ ci, a.info = some ci → ci.createMsg = none ∧ ci.addFundsMsg = none) :
    a.pendingMsgs = [] := by
  rw [List.eq_nil_iff_forall_not_mem]
  intro m hm
  obtain ⟨ci, hci, -, hmsg⟩ := h.recorded m hm
  obtain ⟨hc, ha⟩ := hidle ci hci
  cases hk : m.kind with
  | create => simp [hk, FundingInfo.msgOf, hc] at hmsg
  | addFunds => simp [hk, FundingInfo.msgOf, ha] at hmsg

lemma PendingInv.processMerged (h : PendingInv a) (e : Option String) (late : List ℕ) :
    PendingInv (a.processMerged e late) := by
  rcases processMerged_cases (rfl : a.processMerged e late = _) with
    h' | ⟨err, -, hi, hs⟩ | ⟨kind, ci, ch, -, hk, -, hi, hs⟩
  · rw [h']
    exact h.congr (cancelAll_sent late) (cancelAll_info late)
  · exact h.congr hs hi
  -- a message is sent only when none is recorded, so it is the only one pending
  have hidle : a.pendingMsgs = [] := by
    refine h.idle fun ci₀ hci₀ => ?_
    rcases hk with ⟨hnone, -, -⟩ | ⟨ci₁, hci₁, hc, ha, -, -⟩
    · simp [hnone] at hci₀
    · rw [hci₁, Option.some_inj] at hci₀
      exact hci₀ ▸ ⟨hc, ha⟩
  have hp := pendingMsgs_send hs rfl
  rw [hidle, List.nil_append] at hp
  refine ⟨by simp [hp], ?_⟩
  intro m hm
  rw [hp, List.mem_singleton] at hm
  subst hm
  refine ⟨ci, hi, rfl, ?_⟩
  rcases hk with ⟨-, rfl, rfl⟩ | ⟨ci₁, -, -, -, rfl, rfl⟩ <;> rfl

lemma PendingInv.msgComplete (h : PendingInv a) (c : ℕ) (o : WaitOutcome) :
    PendingInv (a.msgComplete c o) := by
  rcases msgComplete_setStatus (rfl : a.msgComplete c o = _) with
    h' | ⟨m, hm, rfl, st, info, hst, h'⟩
  · rw [h']
    exact h
  · -- the message completed was the only one pending
    have hp : (a.msgComplete m.mcid o).pendingMsgs = [] := by
      rw [h']
      exact pendingMsgs_setStatus_eq_nil h.le_one hm hst
    exact ⟨by simp [hp], by simp [hp]⟩

/-- **At most one message is pending**, and the stored channel records it: along every run. -/
lemma pendingInv_step (h : PendingInv a) : ∀ e : Event, PendingInv (a.step e)
  | .getPaych amt => show PendingInv (a.enqueue amt) from h.congr rfl rfl
  | .cancel j => show PendingInv (a.cancel j) from h.congr rfl rfl
  | .processQueue e early late =>
    (show PendingInv (a.filterQueue.cancelAll early) from h.congr (by simp) (by simp)).processMerged
      e late
  | .msgComplete c o => h.msgComplete c o

lemma mem_setStatus_self {m : SentMsg} (st : MsgStatus) (hm : m ∈ a.sent) :
    { m with status := st } ∈ (a.setStatus m.mcid st).sent :=
  List.mem_map.2 ⟨m, hm, by simp⟩

lemma mem_setStatus_of_ne {c : ℕ} {st : MsgStatus} {x : SentMsg} (hx : x ∈ a.sent)
    (hc : x.mcid ≠ c) : x ∈ (a.setStatus c st).sent :=
  List.mem_map.2 ⟨x, hx, by simp [hc]⟩

/-- Setting the status of a pending message: if no wait has ended in an error after it, none had
before, and the status set is not an error. -/
lemma noErrored_of_setStatus {m : SentMsg} {st : MsgStatus} (hnd : (a.sent.map (·.mcid)).Nodup)
    (hm : m ∈ a.sent) (hpm : m.status = .pending) (h : NoErrored (a.setStatus m.mcid st).sent) :
    NoErrored a.sent ∧ st ≠ .errored := by
  refine ⟨fun x hx herr => ?_, h _ (mem_setStatus_self st hm)⟩
  by_cases hc : x.mcid = m.mcid
  · -- the message of that CID is `m`, which is pending
    have hxm : x = m := List.inj_on_of_nodup_map hnd hx hm hc
    rw [hxm, hpm] at herr
    exact absurd herr (by decide)
  · exact h x (mem_setStatus_of_ne hx hc) herr

/-- Setting the status of one message moves its amount from the sum at its old status to the sum
at the new one. -/
lemma chanSum_setStatus {m : SentMsg} (hnd : (a.sent.map (·.mcid)).Nodup) (hm : m ∈ a.sent)
    (ch : ℕ) (s st : MsgStatus) :
    chanSum (a.setStatus m.mcid st).sent ch s + chanSum [m] ch s =
      chanSum a.sent ch s + chanSum [{ m with status := st }] ch s := by
  obtain ⟨pre, post, hsplit⟩ := List.append_of_mem hm
  -- every other message has another CID, so it keeps its status
  have hout : m ∉ pre ++ post :=
    (List.nodup_cons.1 (List.nodup_middle.1 (hsplit ▸ hnd.of_map _))).1
  have hkeep : ∀ x ∈ pre ++ post, x.mcid ≠ m.mcid := by
    intro x hx hc
    have hxs : x ∈ a.sent := by
      rw [hsplit]
      rcases List.mem_append.1 hx with h | h
      · exact List.mem_append_left _ h
      · exact List.mem_append_right _ (List.mem_cons_of_mem _ h)
    exact hout (List.inj_on_of_nodup_map hnd hxs hm hc ▸ hx)
  have hmap : ∀ l : List SentMsg, (∀ x ∈ l, x ∈ pre ++ post) →
      l.map (fun x => if x.mcid = m.mcid then { x with status := st } else x) = l := by
    intro l hl
    conv_rhs => rw [← List.map_id l]
    exact List.map_congr_left fun x hx => if_neg (hkeep x (hl x hx))
  have hsent : (a.setStatus m.mcid st).sent = pre ++ { m with status := st } :: post := by
    show a.sent.map _ = _
    rw [hsplit, List.map_append, List.map_cons, hmap pre fun x hx => List.mem_append_left _ hx,
      hmap post fun x hx => List.mem_append_right _ hx, if_pos rfl]
  rw [hsent, hsplit]
  simp only [chanSum_append, chanSum_cons, chanSum_nil]
  omega

/-- **The stored channel.**  Its `ChannelID`, like the channel of every message, is a CID already
given out; a channel waiting for an add-funds message has been created, and one being created
holds nothing yet. -/
structure ChannelInv (a : Accessor) : Prop where
  channel_lt : ∀ m ∈ a.sent, m.channelID < a.sent.length
  info_lt : ∀ ci, a.info = some ci → ci.channelID < a.sent.length
  add_created : ∀ ci, a.info = some ci → ci.addFundsMsg.isSome → ci.createMsg = none
  create_empty : ∀ ci, a.info = some ci → ci.createMsg.isSome → ci.amount = 0

lemma channelInv_init : ChannelInv init :=
  ⟨by simp [init], by simp [init], by simp [init], by simp [init]⟩

lemma ChannelInv.congr (h : ChannelInv a) (hs : a'.sent = a.sent) (hi : a'.info = a.info) :
    ChannelInv a' := by
  obtain ⟨h1, h2, h3, h4⟩ := h
  refine ⟨?_, ?_, ?_, ?_⟩ <;> simpa only [hs, hi] using ‹_›

lemma ChannelInv.processMerged (h : ChannelInv a) (e : Option String) (late : List ℕ) :
    ChannelInv (a.processMerged e late) := by
  rcases processMerged_cases (rfl : a.processMerged e late = _) with
    h' | ⟨err, -, hi, hs⟩ | ⟨kind, ci, ch, -, hk, -, hi, hs⟩
  · rw [h']
    exact h.congr (cancelAll_sent late) (cancelAll_info late)
  · exact h.congr hs hi
  have hlen : (a.processMerged e late).sent.length = a.sent.length + 1 := by simp [hs]
  -- a new channel takes the next CID and holds nothing; an existing one waits for nothing
  have hci : ci.channelID < a.sent.length + 1 ∧ (ci.addFundsMsg.isSome → ci.createMsg = none) ∧
      (ci.createMsg.isSome → ci.amount = 0) := by
    rcases hk with ⟨-, -, rfl⟩ | ⟨ci₀, hci₀, hc, -, -, rfl⟩
    · exact ⟨Nat.lt_succ_self _, by simp, fun _ => rfl⟩
    · exact ⟨Nat.lt_succ_of_lt (h.info_lt ci₀ hci₀), fun _ => hc, by simp [hc]⟩
  refine ⟨?_, ?_, ?_, ?_⟩
  · intro m hm
    rw [hs, List.mem_append, List.mem_singleton] at hm
    rw [hlen]
    rcases hm with hm | rfl
    · exact Nat.lt_succ_of_lt (h.channel_lt m hm)
    · exact hci.1
  · intro ci' hci'
    rw [hi, Option.some_inj] at hci'
    rw [hlen, ← hci']
    exact hci.1
  · intro ci' hci'
    rw [hi, Option.some_inj] at hci'
    exact hci' ▸ hci.2.1
  · intro ci' hci'
    rw [hi, Option.some_inj] at hci'
    exact hci' ▸ hci.2.2

/-- Setting a status, with the stored channel removed or changed into one that keeps the
invariant's conditions. -/
lemma ChannelInv.setStatus {c : ℕ} {st : MsgStatus} (h : ChannelInv a)
    (hs : a'.sent = (a.setStatus c st).sent)
    (hi : ∀ ci', a'.info = some ci' → ∃ ci, a.info = some ci ∧ ci'.channelID = ci.channelID ∧
      (ci'.addFundsMsg.isSome → ci'.createMsg = none) ∧ (ci'.createMsg.isSome → ci'.amount = 0)) :
    ChannelInv a' := by
  have hlen : a'.sent.length = a.sent.length := by simp [hs]
  refine ⟨?_, ?_, ?_, ?_⟩
  · intro m hm
    rw [hs] at hm
    obtain ⟨m₀, hm₀, s, rfl⟩ := mem_setStatus_sent hm
    exact hlen ▸ h.channel_lt m₀ hm₀
  · intro ci' hci'
    obtain ⟨ci, hci, hid, -⟩ := hi ci' hci'
    rw [hlen, hid]
    exact h.info_lt ci hci
  · intro ci' hci'
    obtain ⟨-, -, -, hadd, -⟩ := hi ci' hci'
    exact hadd
  · intro ci' hci'
    obtain ⟨-, -, -, -, hcreate⟩ := hi ci' hci'
    exact hcreate

lemma ChannelInv.msgComplete (hp : PendingInv a) (h : ChannelInv a) (c : ℕ) (o : WaitOutcome) :
    ChannelInv (a.msgComplete c o) := by
  rcases msgComplete_cases (rfl : a.msgComplete c o = _) with h' | ⟨m, hm, rfl, hk⟩
  · rw [h']
    exact h
  obtain ⟨ci, hci, hch, hmsg⟩ := hp.recorded m hm
  -- the stored channel, unchanged or changed by the wait's outcome
  have hkeep : ∀ st, ChannelInv (a.setStatus m.mcid st) := fun st =>
    h.setStatus rfl fun ci' hci' => ⟨ci', hci', rfl, h.add_created ci' hci', h.create_empty ci' hci'⟩
  have hmut : ∀ st (f : FundingInfo → FundingInfo), (f ci).channelID = ci.channelID →
      ((f ci).addFundsMsg.isSome → (f ci).createMsg = none) →
      ((f ci).createMsg.isSome → (f ci).amount = 0) →
      ChannelInv ((a.setStatus m.mcid st).mutateChannelInfo m.channelID f) := by
    intro st f hid hadd hcreate
    have hi := mutateChannelInfo_info (a := a.setStatus m.mcid st) f hci hch
    refine h.setStatus (mutateChannelInfo_sent _ _) fun ci' h' => ?_
    rw [hi, Option.some_inj] at h'
    exact ⟨ci, hci, h' ▸ hid, h' ▸ hadd, h' ▸ hcreate⟩
  rcases hk with ⟨hkind, hrun⟩ | ⟨hkind, hrun⟩ <;> rw [hrun]
  · rcases waitPaychCreateMsg_cases (a := a) m.channelID m.mcid o with h' | h' | ⟨addr, h'⟩ <;>
      rw [h']
    · exact hkeep .errored
    · -- a failed creation removes the channel
      have hi := removeChannel_info (a := a.setStatus m.mcid .failed) hci hch
      exact h.setStatus (removeChannel_sent _) fun ci' h' => by simp [hi] at h'
    · exact hmut _ _ rfl (by simp) (by simp)
  · -- the channel waits for this add-funds message, so it has been created
    have hcreated : ci.createMsg = none := by
      refine h.add_created ci hci ?_
      simp only [FundingInfo.msgOf, hkind] at hmsg
      simp [hmsg]
    rcases waitAddFundsMsg_cases (a := a) m.channelID m.mcid o with h' | h' | h' <;> rw [h']
    · exact hkeep .errored
    · exact hmut _ _ rfl (by simp) (h.create_empty ci hci)
    · exact hmut _ _ rfl (by simp) (by simp [hcreated])

/-- **The stored channel is well formed** along every run. -/
lemma channelInv_step (hp : PendingInv a) (h : ChannelInv a) : ∀ e : Event, ChannelInv (a.step e)
  | .getPaych amt => show ChannelInv (a.enqueue amt) from h.congr rfl rfl
  | .cancel j => show ChannelInv (a.cancel j) from h.congr rfl rfl
  | .processQueue e early late =>
    (show ChannelInv (a.filterQueue.cancelAll early) from h.congr (by simp) (by simp)).processMerged
      e late
  | .msgComplete c o => h.msgComplete hp c o

/-- **The channel's funds.**  While no wait has ended in an error, the stored channel's `Amount`
is the sum of its confirmed messages and its `PendingAmount` that of its pending ones. -/
def AmountInv (a : Accessor) : Prop :=
  NoErrored a.sent → ∀ ci, a.info = some ci →
    ci.amount = chanSum a.sent ci.channelID .confirmed ∧
      ci.pendingAmount = chanSum a.sent ci.channelID .pending

lemma amountInv_init : AmountInv init := by
  simp [AmountInv, init]

lemma AmountInv.congr (h : AmountInv a) (hs : a'.sent = a.sent) (hi : a'.info = a.info) :
    AmountInv a' := by
  unfold AmountInv
  rw [hs, hi]
  exact h

lemma AmountInv.processMerged (hp : PendingInv a) (hc : ChannelInv a) (h : AmountInv a)
    (e : Option String) (late : List ℕ) : AmountInv (a.processMerged e late) := by
  rcases processMerged_cases (rfl : a.processMerged e late = _) with
    h' | ⟨err, -, hi, hs⟩ | ⟨kind, ci, ch, -, hk, -, hi, hs⟩
  · rw [h']
    exact h.congr (cancelAll_sent late) (cancelAll_info late)
  · exact h.congr hs hi
  intro hne ci' hci'
  rw [hi, Option.some_inj] at hci'
  subst hci'
  have hne₀ : NoErrored a.sent := fun m hm => hne m (by rw [hs]; exact List.mem_append_left _ hm)
  -- the message sent is pending, for the stored channel
  rw [hs, chanSum_append, chanSum_append]
  simp only [chanSum_cons, chanSum_nil]
  rcases hk with ⟨-, -, rfl⟩ | ⟨ci₀, hci₀, hcreate, hadd, -, rfl⟩
  · -- a new channel: no earlier message is for it
    have hold : ∀ s, chanSum a.sent a.sent.length s = 0 := fun s =>
      chanSum_eq_zero fun m hm hch => absurd (hch ▸ hc.channel_lt m hm) (Nat.lt_irrefl _)
    simp [hold]
  · -- the stored channel waits for nothing, so nothing of it is pending
    have hidle : a.pendingMsgs = [] := hp.idle fun ci₁ hci₁ => by
      rw [hci₀, Option.some_inj] at hci₁
      exact hci₁ ▸ ⟨hcreate, hadd⟩
    have hzero : chanSum a.sent ci₀.channelID .pending = 0 := by
      rw [← chanSum_filter_status]
      show chanSum a.pendingMsgs _ _ = 0
      rw [hidle, chanSum_nil]
    obtain ⟨hamt, -⟩ := h hne₀ ci₀ hci₀
    simp [hamt, hzero]

lemma AmountInv.msgComplete (hsent : SentInv a) (hp : PendingInv a) (hc : ChannelInv a)
    (h : AmountInv a) (c : ℕ) (o : WaitOutcome) : AmountInv (a.msgComplete c o) := by
  rcases msgComplete_cases (rfl : a.msgComplete c o = _) with h' | ⟨m, hm, rfl, hk⟩
  · rw [h']
    exact h
  obtain ⟨ci, hci, hch, hmsg⟩ := hp.recorded m hm
  have hms : m ∈ a.sent := List.mem_of_mem_filter hm
  have hpm : m.status = .pending := by simpa [pendingMsgs] using (List.mem_filter.1 hm).2
  -- `m` is the only pending message, so the channel's pending sum is its amount
  have hpend : chanSum a.sent ci.channelID .pending = m.amount := by
    rw [← chanSum_filter_status]
    show chanSum a.pendingMsgs _ _ = _
    rw [eq_singleton_of_length_le_one hp.le_one hm]
    simp [hch, hpm]
  -- an error leaves nothing to prove
  have herr : AmountInv (a.setStatus m.mcid .errored) := fun hne =>
    absurd rfl (noErrored_of_setStatus hsent.mcid_nodup hms hpm hne).2
  -- a change `f` of the channel, with the status `st` set, that books `m`'s amount
  have hmut : ∀ st (f : FundingInfo → FundingInfo), st ≠ .pending →
      (f ci).channelID = ci.channelID →
      (ci.amount = chanSum a.sent ci.channelID .confirmed → ci.pendingAmount = m.amount →
        (f ci).amount = ci.amount + chanSum [{ m with status := st }] ci.channelID .confirmed ∧
          (f ci).pendingAmount = 0) →
      AmountInv ((a.setStatus m.mcid st).mutateChannelInfo m.channelID f) := by
    intro st f hst hid hf hne ci' hci'
    rw [mutateChannelInfo_info (a := a.setStatus m.mcid st) f hci hch, Option.some_inj] at hci'
    subst hci'
    rw [mutateChannelInfo_sent] at hne ⊢
    obtain ⟨hne₀, -⟩ := noErrored_of_setStatus hsent.mcid_nodup hms hpm hne
    obtain ⟨hamt, hpam⟩ := h hne₀ ci hci
    obtain ⟨h1, h2⟩ := hf hamt (hpam.trans hpend)
    have hconf := chanSum_setStatus hsent.mcid_nodup hms ci.channelID .confirmed st
    have hpen := chanSum_setStatus hsent.mcid_nodup hms ci.channelID .pending st
    have hm_conf : chanSum [m] ci.channelID .confirmed = 0 := by simp [hpm]
    have hm_pend : chanSum [m] ci.channelID .pending = m.amount := by simp [hch, hpm]
    have hst_pend : chanSum [{ m with status := st }] ci.channelID .pending = 0 := by simp [hst]
    rw [hid, h1, h2]
    constructor <;> omega
  rcases hk with ⟨hkind, hrun⟩ | ⟨hkind, hrun⟩ <;> rw [hrun]
  · -- a channel being created holds nothing yet
    have hempty : ci.amount = 0 := by
      refine hc.create_empty ci hci ?_
      simp only [FundingInfo.msgOf, hkind] at hmsg
      simp [hmsg]
    rcases waitPaychCreateMsg_cases (a := a) m.channelID m.mcid o with h' | h' | ⟨addr, h'⟩ <;>
      rw [h']
    · exact herr
    · -- a failed creation removes the channel
      intro _ ci' hci'
      rw [removeChannel_info (a := a.setStatus m.mcid .failed) hci hch] at hci'
      cases hci'
    · refine hmut .confirmed _ (by decide) rfl fun _ hpam => ⟨?_, rfl⟩
      simp [hch, hempty, hpam]
  · rcases waitAddFundsMsg_cases (a := a) m.channelID m.mcid o with h' | h' | h' <;> rw [h']
    · exact herr
    · exact hmut .failed _ (by decide) rfl fun _ _ => ⟨by simp, rfl⟩
    · refine hmut .confirmed _ (by decide) rfl fun _ hpam => ⟨?_, rfl⟩
      simp [hch, hpam]

/-- **The channel's funds are booked** along every run in which no wait ends in an error. -/
lemma amountInv_step (hsent : SentInv a) (hp : PendingInv a) (hc : ChannelInv a) (h : AmountInv a) :
    ∀ e : Event, AmountInv (a.step e)
  | .getPaych amt => show AmountInv (a.enqueue amt) from h.congr rfl rfl
  | .cancel j => show AmountInv (a.cancel j) from h.congr rfl rfl
  | .processQueue e early late =>
    (show AmountInv (a.filterQueue.cancelAll early) from h.congr (by simp) (by simp)).processMerged
      (show PendingInv (a.filterQueue.cancelAll early) from hp.congr (by simp) (by simp))
      (show ChannelInv (a.filterQueue.cancelAll early) from hc.congr (by simp) (by simp)) e late
  | .msgComplete c o => h.msgComplete hsent hp hc c o

/-- Everything that holds over every run. -/
structure Inv (a : Accessor) : Prop where
  results : ResultsInv a
  sent : SentInv a
  pending : PendingInv a
  channel : ChannelInv a
  amount : AmountInv a

lemma inv_init : Inv init :=
  ⟨resultsInv_init, sentInv_init, pendingInv_init, channelInv_init, amountInv_init⟩

lemma inv_step (h : Inv a) (e : Event) : Inv (a.step e) :=
  ⟨resultsInv_step h.results e, sentInv_step h.results h.sent e, pendingInv_step h.pending e,
    channelInv_step h.pending h.channel e, amountInv_step h.sent h.pending h.channel h.amount e⟩

end Accessor

/-- The invariant holds after every run. -/
theorem runAccessor_inv (events : List Event) : (runAccessor events).Inv :=
  Run.run_invariant (P := Accessor.Inv) (fun _ e h => Accessor.inv_step h e) events
    Accessor.inv_init

/-- **At most one message is pending**, after every run. -/
theorem runAccessor_pending_le_one (events : List Event) :
    (runAccessor events).pendingMsgs.length ≤ 1 :=
  (runAccessor_inv events).pending.le_one

/-- **No request gets two results, and no live request is lost**: after every run each request
has at most one result, and a request still active is queued or has its result. -/
theorem runAccessor_answered (events : List Event) :
    (runAccessor events).answered.Nodup ∧
      ∀ i < (runAccessor events).reqs.length, (runAccessor events).isActive i = true →
        i ∈ (runAccessor events).queue ∨ i ∈ (runAccessor events).answered :=
  ⟨(runAccessor_inv events).results.answered_nodup, (runAccessor_inv events).results.live⟩

/-- **Each message carries the sum of its requests**, the queued requests `sum` read live: after
every run.  Every request answered with the message's CID is one of them, and each of them is
answered with it unless its context has been cancelled. -/
theorem runAccessor_sent_sum (events : List Event) :
    ∀ m ∈ (runAccessor events).sent, m.amount = (m.reqs.map (runAccessor events).amtOf).sum ∧
      (∀ i r, (i, r) ∈ (runAccessor events).results → r.mcid = some m.mcid → i ∈ m.reqs) ∧
      ∀ i ∈ m.reqs, (∃ r, (i, r) ∈ (runAccessor events).results ∧ r.mcid = some m.mcid) ∨
        (runAccessor events).isActive i = false :=
  fun m hm => ⟨(runAccessor_inv events).sent.amount_eq m hm,
    (runAccessor_inv events).sent.cid_mem m hm, (runAccessor_inv events).sent.got_cid m hm⟩

/-- Requests for 5 and 3, and a run of the queue during which the context of the request for 3
is cancelled after `sum` has read it. -/
def lateCancelRun : List Event :=
  [.getPaych 5, .getPaych 3, .processQueue none [] [1]]

/-- The create message of that run carries 8, for both requests. -/
theorem runAccessor_sent_sum_lateCancelRun :
    (⟨0, .create, 0, 8, [0, 1], .pending⟩ : SentMsg) ∈ (runAccessor lateCancelRun).sent ∧
      (8 : ℤ) = ([0, 1].map (runAccessor lateCancelRun).amtOf).sum ∧
      (∀ i r, (i, r) ∈ (runAccessor lateCancelRun).results → r.mcid = some 0 → i ∈ [0, 1]) ∧
      ∀ i ∈ [0, 1], (∃ r, (i, r) ∈ (runAccessor lateCancelRun).results ∧ r.mcid = some 0) ∨
        (runAccessor lateCancelRun).isActive i = false :=
  have hm : (⟨0, .create, 0, 8, [0, 1], .pending⟩ : SentMsg) ∈ (runAccessor lateCancelRun).sent := by
    decide
  ⟨hm, runAccessor_sent_sum lateCancelRun _ hm⟩

/- The request for 3 is paid for and gets no result. -/
example : (runAccessor lateCancelRun).results = [(0, ⟨none, some 0, none⟩)] ∧
    (runAccessor lateCancelRun).isActive 1 = false := by
  decide

/-- **The channel's funds once every wait has ended**, when none ended in an error: its `Amount`
is the sum of its confirmed messages, and its `PendingAmount` is zero. -/
theorem runAccessor_settled (events : List Event) {ci : FundingInfo}
    (hne : NoErrored (runAccessor events).sent) (hidle : (runAccessor events).pendingMsgs = [])
    (hci : (runAccessor events).info = some ci) :
    ci.amount = chanSum (runAccessor events).sent ci.channelID .confirmed ∧ ci.pendingAmount = 0 := by
  obtain ⟨hamt, hpam⟩ := (runAccessor_inv events).amount hne ci hci
  refine ⟨hamt, ?_⟩
  -- nothing is pending, so the pending sum is empty
  rw [hpam, ← chanSum_filter_status]
  show chanSum (runAccessor events).pendingMsgs _ _ = 0
  rw [hidle, chanSum_nil]

/-- A request for 5 creates the channel, confirmed at address 100; a request for 3 sends an
add-funds message, confirmed too. -/
def confirmedRun : List Event :=
  [.getPaych 5, .processQueue none [] [], .msgComplete 0 (.receipt 0 (some 100)),
   .getPaych 3, .processQueue none [] [], .msgComplete 1 (.receipt 0 none)]

theorem runAccessor_settled_confirmedRun :
    (runAccessor confirmedRun).info = some ⟨0, some 100, 8, 0, none, none⟩ ∧
      (8 : ℤ) = chanSum (runAccessor confirmedRun).sent 0 .confirmed ∧ (0 : ℤ) = 0 :=
  ⟨by decide, @runAccessor_settled confirmedRun ⟨0, some 100, 8, 0, none, none⟩
    (by unfold NoErrored; decide) (by decide) (by decide)⟩

/-! ## Requests that are never answered -/

/-- A request for 0, and a run of the queue. -/
def zeroRun : List Event :=
  [.getPaych 0, .processQueue none [] []]

/-- A request for 5 creates the channel, which is confirmed; a request for 3 sends an add-funds
message, whose wait fails; a request for 2 is queued and the queue runs. -/
def waitErrorRun : List Event :=
  [.getPaych 5, .processQueue none [] [], .msgComplete 0 (.receipt 0 (some 100)),
   .getPaych 3, .processQueue none [] [], .msgComplete 1 .waitError,
   .getPaych 2, .processQueue none [] []]

/-- **Requests that are never answered.**  After `zeroRun` the request for 0 is live, has no
result and no message is pending, and no run of the queue changes anything.  After
`waitErrorRun` every message has completed, yet `PendingAmount` is still 3 and `AddFundsMsg` set;
the request for 2 is live without a result, and again no run of the queue changes anything. -/
theorem getPaych_never_answered :
    (runAccessor zeroRun).isActive 0 = true ∧ (runAccessor zeroRun).results = [] ∧
      (runAccessor zeroRun).pendingMsgs = [] ∧
      (∀ pushErr, (runAccessor zeroRun).processQueue pushErr [] [] = runAccessor zeroRun) ∧
    (runAccessor waitErrorRun).pendingMsgs = [] ∧
      ((runAccessor waitErrorRun).info.map fun ci => (ci.pendingAmount, ci.addFundsMsg)) =
        some (3, some 1) ∧
      (runAccessor waitErrorRun).isActive 2 = true ∧
      ((runAccessor waitErrorRun).results.map (·.1)).count 2 = 0 ∧
      (∀ pushErr, (runAccessor waitErrorRun).processQueue pushErr [] [] =
        runAccessor waitErrorRun) := by
  refine ⟨by decide, by decide, by decide, fun _ => rfl, by decide, by decide, by decide, by decide,
    fun _ => rfl⟩

end Paych

end Lotus
