import Mathlib
import Lotus.Lib.Run

/-!
# The deal publisher (`markets/storageadapter/dealpublisher.go`)

`DealPublisher` batches the deals of many `Publish` calls into one `PublishStorageDeals`
message.  `processNewDeal` queues a deal; the queue is handed to `publishReady` when it reaches
`maxDealsPerPublishMsg` deals, when `ForcePublishPendingDeals` is called, or when the wait timer
armed by `waitForMoreDeals` expires.  `publishReady` checks each deal against the chain head,
sends the others in one message and answers each deal on its `Result` channel.

The publisher is a state machine over timed events: a `Publish` call, the cancellation of a
caller's context, a forced publish, and the goroutine of a wait timer taking the lock.  A context
is a number, cancelled once it is in `cancelled`, before or after the call that uses it.  A wait
timer records when it was armed, when its context was cancelled and whether it has fired; its
goroutine takes `timer.C` only if the timer expired before its context was cancelled
(`Timer.live`), and it may take the lock at any time after that.  The goroutines that
`publishAllDeals` and `publishReady` start run at the time the queue is handed over, so the
results are the values offered on each deal's channel and the messages are those pushed.

**What holds.**  With `maxDealsPerPublishMsg ≥ 1`, every state a run reaches keeps `Inv`
(`inv_run`): the queue is below the limit, so every batch handed to `publishReady` and every
message has at most `maxDealsPerPublishMsg` deals; no deal is handed over twice; and the deals
handed over are exactly those answered, each once.

**What does not.**  The timer lives in two fields, `cancelWaitForMoreDeals` and
`publishPeriodStart`.  When every queued deal has been cancelled, `processNewDeal` cancels the
timer and clears the first field but not the second, and `waitForMoreDeals` arms a timer only
when the second is clear.  The next deal is queued with no timer, and it is never handed over
while the queue stays below the limit and nobody forces a publish
(`deal_stranded_without_timer`).
-/

namespace Lotus

namespace StorageAdapter

/-- `market2.ClientDealProposal`, with the fields the publisher reads. -/
structure DealProposal where
  pieceCID : String
  provider : String
  startEpoch : ℤ
  deriving DecidableEq

/-- `pendingDeal`: the deal of one `Publish` call.  `id` stands for the pointer, `ctx` for the
caller's context. -/
structure PendingDeal where
  id : ℕ
  ctx : ℕ
  deal : DealProposal
  deriving DecidableEq

/-- `publishResult`; `msgCid = none` is `cid.Undef`. -/
structure PublishResult where
  msgCid : Option ℕ
  err : Option String
  deriving DecidableEq

/-- A wait-for-more-deals timer: the time `waitForMoreDeals` armed it, the time its context was
cancelled, and whether its goroutine has taken `timer.C`. -/
structure Timer where
  start : ℕ
  cancelledAt : Option ℕ
  fired : Bool
  deriving DecidableEq

/-- `PublishMsgConfig`. -/
structure PublishMsgConfig where
  period : ℕ
  maxDealsPerMsg : ℕ

/-- The calls the publisher makes: the head's height at each time, the miner info of a
provider, the address `AddressFor` selects for it, and the CID of the message pushed at a time
from an address with some deals. -/
structure DealPublisherApi where
  chainHead : ℕ → Except String ℤ
  stateMinerInfo : String → Except String ℕ
  addressFor : ℕ → Except String String
  mpoolPushMessage : ℕ → String → List DealProposal → Except String ℕ

/-- The publisher's fields under its lock, with what it has done so far: the batches handed to
`publishReady`, the results offered to deals by id, and the messages pushed. -/
structure DealPublisher where
  pending : List PendingDeal
  cancelWaitForMoreDeals : Option ℕ
  publishPeriodStart : Option ℕ
  timers : List Timer
  cancelled : List ℕ
  nextId : ℕ
  handed : List (List PendingDeal)
  results : List (ℕ × PublishResult)
  messages : List (ℕ × List DealProposal)

/-- `api.PendingDealInfo`. -/
structure PendingDealInfo where
  deals : List DealProposal
  publishPeriodStart : Option ℕ
  publishPeriod : ℕ

/-- A timer's goroutine takes `timer.C`: it has not yet, and its context was not cancelled
before the timer expired. -/
def Timer.live (period : ℕ) (tm : Timer) : Bool :=
  !tm.fired && tm.cancelledAt.all (tm.start + period ≤ ·)

variable (cfg : PublishMsgConfig) (api : DealPublisherApi)

/-! ## Publishing a batch -/

/-- `validateDeal`: the deal's start epoch has not passed. -/
def validateDeal (t : ℕ) (deal : DealProposal) : Except String Unit := do
  let head ← api.chainHead t
  if deal.startEpoch < head then
    throw ("cannot publish deal with piece CID " ++ deal.pieceCID ++ ": current epoch " ++
      toString head ++ " has passed deal proposal start epoch " ++ toString deal.startEpoch)
  pure ()

/-- `publishDealProposals`: every deal must be for the provider of the first one. -/
def publishDealProposals (t : ℕ) (deals : List DealProposal) : Except String (Option ℕ) :=
  match deals with
  | [] => .ok none
  | d0 :: _ =>
    match deals.find? (·.provider != d0.provider) with
    | some dl =>
      .error ("publishing " ++ toString deals.length ++ " deals failed: " ++
        "not all deals are for same provider: " ++
        "deal with piece CID " ++ d0.pieceCID ++ " is for provider " ++ d0.provider ++ " " ++
        "but deal with piece CID " ++ dl.pieceCID ++ " is for provider " ++ dl.provider)
    | none => do
      let mi ← api.stateMinerInfo d0.provider
      let addr ← (api.addressFor mi).mapError ("selecting address for publishing deals: " ++ ·)
      let c ← api.mpoolPushMessage t addr deals
      pure (some c)

/-- The validation loop of `publishReady`: the error result of each deal that fails, and the
deals that pass, in order. -/
def validateEach (t : ℕ) : List PendingDeal → List (ℕ × PublishResult) × List PendingDeal
  | [] => ([], [])
  | pd :: rest =>
    match validateDeal api t pd.deal with
    | .error e => ((pd.id, ⟨none, some e⟩) :: (validateEach t rest).1, (validateEach t rest).2)
    | .ok () => ((validateEach t rest).1, pd :: (validateEach t rest).2)

/-- `publishReady`: the results it offers, by deal id, and the message it pushes, if any. -/
def publishReady (t : ℕ) (ready : List PendingDeal) :
    List (ℕ × PublishResult) × Option (ℕ × List DealProposal) :=
  if ready = [] then ([], none)
  else
    let deals := (validateEach api t ready).2.map (·.deal)
    match publishDealProposals api t deals with
    | .ok c =>
      ((validateEach api t ready).1 ++ (validateEach api t ready).2.map fun pd => (pd.id, ⟨c, none⟩),
        c.map fun c => (c, deals))
    | .error e =>
      ((validateEach api t ready).1 ++
        (validateEach api t ready).2.map fun pd => (pd.id, ⟨none, some e⟩), none)

namespace DealPublisher

/-- `newDealPublisher`. -/
def init : DealPublisher := ⟨[], none, none, [], [], 0, [], [], []⟩

/-- `filterCancelledDeals`. -/
def filterCancelledDeals (p : DealPublisher) : DealPublisher :=
  { p with pending := p.pending.filter fun pd => pd.ctx ∉ p.cancelled }

/-- Calling the `cancel` of timer `j` at time `t`; a context keeps its first cancellation. -/
def cancelTimer (t j : ℕ) (p : DealPublisher) : DealPublisher :=
  { p with timers := p.timers.modify j fun tm => { tm with cancelledAt := tm.cancelledAt.or (some t) } }

/-- `waitForMoreDeals`: arm a timer unless the publish period has started. -/
def waitForMoreDeals (t : ℕ) (p : DealPublisher) : DealPublisher :=
  match p.publishPeriodStart with
  | some _ => p
  | none =>
    { p with publishPeriodStart := some t, cancelWaitForMoreDeals := some p.timers.length,
             timers := p.timers ++ [⟨t, none, false⟩] }

/-- The first lines of `publishAllDeals`: cancel the timer if it is still armed. -/
def stopWaiting (t : ℕ) (p : DealPublisher) : DealPublisher :=
  match p.cancelWaitForMoreDeals with
  | some j => { p.cancelTimer t j with cancelWaitForMoreDeals := none, publishPeriodStart := none }
  | none => p

/-- `publishAllDeals`: hand the uncancelled queue to `publishReady` and empty it. -/
def publishAllDeals (t : ℕ) (p : DealPublisher) : DealPublisher :=
  let p := (p.stopWaiting t).filterCancelledDeals
  let out := publishReady api t p.pending
  { p with pending := [], handed := p.handed ++ [p.pending], results := p.results ++ out.1,
           messages := p.messages ++ out.2.toList }

/-- The lines of `processNewDeal` that cancel the timer when every queued deal was cancelled.
Unlike `stopWaiting`, they leave `publishPeriodStart` set. -/
def clearWaitIfEmpty (t : ℕ) (p : DealPublisher) : DealPublisher :=
  match p.pending, p.cancelWaitForMoreDeals with
  | [], some j => { p.cancelTimer t j with cancelWaitForMoreDeals := none }
  | _, _ => p

/-- `processNewDeal`. -/
def processNewDeal (t : ℕ) (pdeal : PendingDeal) (p : DealPublisher) : DealPublisher :=
  let p := p.filterCancelledDeals.clearWaitIfEmpty t
  if pdeal.ctx ∈ p.cancelled then p
  else
    let p := { p with pending := p.pending ++ [pdeal] }
    if cfg.maxDealsPerMsg ≤ p.pending.length then p.publishAllDeals api t
    else p.waitForMoreDeals t

/-- `PendingDeals`: the queued deals whose context is not cancelled. -/
def pendingDeals (p : DealPublisher) : PendingDealInfo :=
  ⟨(p.pending.filter fun pd => pd.ctx ∉ p.cancelled).map (·.deal), p.publishPeriodStart, cfg.period⟩

/-- What happens at a time: a `Publish` call with a context, a context's cancellation,
`ForcePublishPendingDeals`, or the goroutine of timer `j` taking the lock after `timer.C`. -/
inductive Event where
  | publish (ctx : ℕ) (deal : DealProposal)
  | cancel (ctx : ℕ)
  | forcePublishPendingDeals
  | timerExpired (j : ℕ)

/-- One timed event.  A timer's goroutine takes the lock only at or after its expiry and only
if it took `timer.C`; otherwise the event does nothing. -/
def step (p : DealPublisher) : ℕ × Event → DealPublisher
  | (t, .publish ctx deal) => { p with nextId := p.nextId + 1 }.processNewDeal cfg api t ⟨p.nextId, ctx, deal⟩
  | (_, .cancel ctx) => { p with cancelled := ctx :: p.cancelled }
  | (t, .forcePublishPendingDeals) => p.publishAllDeals api t
  | (t, .timerExpired j) =>
    match p.timers[j]? with
    | some tm =>
      if tm.live cfg.period ∧ tm.start + cfg.period ≤ t then
        { p with timers := p.timers.modify j fun tm => { tm with fired := true } }.publishAllDeals api t
      else p
    | none => p

/-! ## What a batch does -/

@[simp] lemma filterCancelledDeals_pending (p : DealPublisher) :
    p.filterCancelledDeals.pending = p.pending.filter fun pd => pd.ctx ∉ p.cancelled := rfl

@[simp] lemma filterCancelledDeals_cancelled (p : DealPublisher) :
    p.filterCancelledDeals.cancelled = p.cancelled := rfl

/-- `q` differs from `p` in its timer fields only. -/
def TimerOnly (p q : DealPublisher) : Prop :=
  ∃ tms cw ps, q = { p with timers := tms, cancelWaitForMoreDeals := cw, publishPeriodStart := ps }

lemma TimerOnly.trans {p q r : DealPublisher} (hpq : TimerOnly p q) (hqr : TimerOnly q r) :
    TimerOnly p r := by
  obtain ⟨tms, cw, ps, rfl⟩ := hpq
  obtain ⟨tms', cw', ps', rfl⟩ := hqr
  exact ⟨tms', cw', ps', rfl⟩

lemma stopWaiting_timerOnly (t : ℕ) (p : DealPublisher) : TimerOnly p (p.stopWaiting t) := by
  unfold stopWaiting
  split
  · exact ⟨_, none, none, rfl⟩
  · exact ⟨p.timers, p.cancelWaitForMoreDeals, p.publishPeriodStart, rfl⟩

lemma clearWaitIfEmpty_timerOnly (t : ℕ) (p : DealPublisher) :
    TimerOnly p (p.clearWaitIfEmpty t) := by
  unfold clearWaitIfEmpty
  split
  · exact ⟨_, none, p.publishPeriodStart, rfl⟩
  · exact ⟨p.timers, p.cancelWaitForMoreDeals, p.publishPeriodStart, rfl⟩

lemma waitForMoreDeals_timerOnly (t : ℕ) (p : DealPublisher) :
    TimerOnly p (p.waitForMoreDeals t) := by
  unfold waitForMoreDeals
  split
  · exact ⟨p.timers, p.cancelWaitForMoreDeals, p.publishPeriodStart, rfl⟩
  · exact ⟨_, _, _, rfl⟩

/-- `publishAllDeals` hands over the uncancelled part of the queue and touches only the timer
fields besides. -/
lemma publishAllDeals_eq (t : ℕ) (p : DealPublisher) : ∃ q, TimerOnly p q ∧
    p.publishAllDeals api t =
      { q with pending := [],
               handed := p.handed ++ [p.pending.filter fun pd => pd.ctx ∉ p.cancelled],
               results := p.results ++
                 (publishReady api t (p.pending.filter fun pd => pd.ctx ∉ p.cancelled)).1,
               messages := p.messages ++
                 (publishReady api t (p.pending.filter fun pd => pd.ctx ∉ p.cancelled)).2.toList } := by
  obtain ⟨tms, cw, ps, h⟩ := stopWaiting_timerOnly t p
  refine ⟨_, ⟨tms, cw, ps, rfl⟩, ?_⟩
  rw [publishAllDeals, h]
  rfl

/-- What `processNewDeal` can do.  After dropping the cancelled deals and perhaps cancelling the
timer, it drops a deal whose context is cancelled, hands over a queue that has reached the limit
with the deal, or queues the deal and perhaps arms a timer. -/
lemma processNewDeal_cases (t : ℕ) (pdeal : PendingDeal) (p : DealPublisher) :
    ∃ q, TimerOnly p.filterCancelledDeals q ∧
      (pdeal.ctx ∈ p.cancelled ∧ p.processNewDeal cfg api t pdeal = q ∨
       pdeal.ctx ∉ p.cancelled ∧
        (cfg.maxDealsPerMsg ≤ q.pending.length + 1 ∧
            p.processNewDeal cfg api t pdeal =
              { q with pending := q.pending ++ [pdeal] }.publishAllDeals api t ∨
          q.pending.length + 1 < cfg.maxDealsPerMsg ∧
            TimerOnly { q with pending := q.pending ++ [pdeal] } (p.processNewDeal cfg api t pdeal))) := by
  obtain ⟨tms, cw, ps, hq⟩ := clearWaitIfEmpty_timerOnly t p.filterCancelledDeals
  refine ⟨_, ⟨tms, cw, ps, rfl⟩, ?_⟩
  unfold processNewDeal
  simp only [hq, filterCancelledDeals_cancelled]
  by_cases hin : pdeal.ctx ∈ p.cancelled
  · exact .inl ⟨hin, if_pos hin⟩
  · refine .inr ⟨hin, ?_⟩
    rw [if_neg hin]
    by_cases hmax : cfg.maxDealsPerMsg ≤ p.filterCancelledDeals.pending.length + 1
    · exact .inl ⟨hmax, by simp only [List.length_append, List.length_singleton, if_pos hmax]⟩
    · refine .inr ⟨Nat.lt_of_not_le hmax, ?_⟩
      simp only [List.length_append, List.length_singleton, if_neg hmax]
      exact waitForMoreDeals_timerOnly t _

/-- While a publish period is running with no timer armed, `processNewDeal` below the limit
only drops the cancelled deals and queues the new one. -/
lemma processNewDeal_of_waiting (t : ℕ) (pdeal : PendingDeal) {p : DealPublisher}
    (hw : p.cancelWaitForMoreDeals = none) (hs : p.publishPeriodStart.isSome)
    (hlen : p.pending.length + 1 < cfg.maxDealsPerMsg) :
    p.processNewDeal cfg api t pdeal =
      { p.filterCancelledDeals with
        pending := p.filterCancelledDeals.pending ++
          if pdeal.ctx ∈ p.cancelled then [] else [pdeal] } := by
  have hclear : p.filterCancelledDeals.clearWaitIfEmpty t = p.filterCancelledDeals := by
    unfold clearWaitIfEmpty
    split
    · rename_i j _ hj
      simp [filterCancelledDeals, hw] at hj
    · rfl
  have hfilter : (p.filterCancelledDeals.pending ++ [pdeal]).length < cfg.maxDealsPerMsg := by
    rw [List.length_append, List.length_singleton, filterCancelledDeals_pending]
    exact Nat.lt_of_le_of_lt (Nat.add_le_add_right (List.length_filter_le _ _) 1) hlen
  obtain ⟨s, hs⟩ := Option.isSome_iff_exists.1 hs
  unfold processNewDeal
  simp only [hclear, filterCancelledDeals_cancelled]
  by_cases hin : pdeal.ctx ∈ p.cancelled
  · simp only [if_pos hin, List.append_nil]
    rfl
  · simp only [if_neg hin]
    rw [if_neg (Nat.not_le_of_lt hfilter)]
    simp [waitForMoreDeals, filterCancelledDeals, hs]

end DealPublisher

lemma validateEach_sublist (t : ℕ) : ∀ ready : List PendingDeal, List.Sublist (validateEach api t ready).2 ready
  | [] => List.Sublist.slnil
  | pd :: rest => by
    have ih := validateEach_sublist t rest
    cases h : validateDeal api t pd.deal with
    | error e =>
      simp only [validateEach, h]
      exact ih.cons pd
    | ok u =>
      simp only [validateEach, h]
      exact ih.cons_cons pd

/-- The validation loop answers every deal it rejects and keeps every other one. -/
lemma validateEach_ids (t : ℕ) : ∀ ready : List PendingDeal,
    List.Perm ((validateEach api t ready).1.map Prod.fst ++ (validateEach api t ready).2.map PendingDeal.id)
      (ready.map PendingDeal.id)
  | [] => by simp [validateEach]
  | pd :: rest => by
    have ih := validateEach_ids t rest
    cases h : validateDeal api t pd.deal with
    | error e =>
      simp only [validateEach, h, List.map_cons, List.cons_append]
      exact ih.cons pd.id
    | ok u =>
      simp only [validateEach, h, List.map_cons]
      exact List.perm_middle.trans (ih.cons pd.id)

/-- `publishReady` offers one result to every deal of its batch and to no other. -/
lemma publishReady_ids (t : ℕ) (ready : List PendingDeal) :
    List.Perm ((publishReady api t ready).1.map Prod.fst) (ready.map PendingDeal.id) := by
  unfold publishReady
  split
  · rename_i h
    simp [h]
  · dsimp only
    split <;>
    · simp only [List.map_append, List.map_map]
      exact validateEach_ids api t ready

/-- The message `publishReady` pushes holds deals of its batch only. -/
lemma publishReady_message_le (t : ℕ) (ready : List PendingDeal) :
    ∀ m ∈ (publishReady api t ready).2, m.2.length ≤ ready.length := by
  intro m hm
  unfold publishReady at hm
  split at hm
  · cases hm
  · dsimp only at hm
    split at hm
    · simp only [Option.mem_def, Option.map_eq_some_iff] at hm
      obtain ⟨c, -, rfl⟩ := hm
      simpa using (validateEach_sublist api t ready).length_le
    · cases hm

namespace DealPublisher

/-! ## What every run keeps -/

/-- The bookkeeping a run keeps: batches and messages within the limit, every deal handed over
or queued was queued once by its own call, and the deals answered are those handed over, each
once. -/
structure Accounts (p : DealPublisher) : Prop where
  handed_le : ∀ batch ∈ p.handed, batch.length ≤ cfg.maxDealsPerMsg
  messages_le : ∀ m ∈ p.messages, m.2.length ≤ cfg.maxDealsPerMsg
  ids_nodup : ((p.handed.flatten ++ p.pending).map PendingDeal.id).Nodup
  ids_lt : ∀ pd ∈ p.handed.flatten ++ p.pending, pd.id < p.nextId
  results_perm : List.Perm (p.results.map Prod.fst) (p.handed.flatten.map PendingDeal.id)

/-- `Accounts`, with a queue below the limit. -/
structure Inv (p : DealPublisher) : Prop extends Accounts cfg p where
  pending_lt : p.pending.length < cfg.maxDealsPerMsg

variable {cfg}

/-- Dropping queued deals and changing the timer keeps the bookkeeping. -/
lemma Accounts.of_sublist {p q : DealPublisher} (hp : Accounts cfg p)
    (hsub : List.Sublist q.pending p.pending) (hh : q.handed = p.handed)
    (hr : q.results = p.results) (hm : q.messages = p.messages) (hn : p.nextId ≤ q.nextId) :
    Accounts cfg q := by
  have hall : List.Sublist (q.handed.flatten ++ q.pending) (p.handed.flatten ++ p.pending) := by
    rw [hh]
    exact hsub.append_left _
  refine ⟨hh ▸ hp.handed_le, hm ▸ hp.messages_le, hp.ids_nodup.sublist (hall.map _), ?_, ?_⟩
  · intro pd hpd
    exact Nat.lt_of_lt_of_le (hp.ids_lt pd (hall.subset hpd)) hn
  · exact hr ▸ hh ▸ hp.results_perm

lemma Accounts.timerOnly {p q : DealPublisher} (hp : Accounts cfg p) (hq : TimerOnly p q) :
    Accounts cfg q := by
  obtain ⟨tms, cw, ps, rfl⟩ := hq
  exact hp.of_sublist (List.Sublist.refl _) rfl rfl rfl (Nat.le_refl _)

/-- Queuing a deal whose id is above every id handed over or queued keeps the bookkeeping. -/
lemma Accounts.enqueue {p : DealPublisher} (hp : Accounts cfg p) (pd : PendingDeal)
    (hfresh : ∀ x ∈ p.handed.flatten ++ p.pending, x.id < pd.id) (hlt : pd.id < p.nextId) :
    Accounts cfg { p with pending := p.pending ++ [pd] } := by
  have hnot : pd.id ∉ (p.handed.flatten ++ p.pending).map PendingDeal.id := by
    intro h
    obtain ⟨x, hx, hid⟩ := List.mem_map.1 h
    exact Nat.lt_irrefl _ (hid ▸ hfresh x hx)
  refine ⟨hp.handed_le, hp.messages_le, ?_, ?_, hp.results_perm⟩
  · rw [← List.append_assoc, List.map_append, List.map_singleton]
    exact List.nodup_append.2 ⟨hp.ids_nodup, by simp,
      fun a ha b hb => by rw [List.mem_singleton.1 hb]; exact fun h => hnot (h ▸ ha)⟩
  · intro x hx
    rw [← List.append_assoc, List.mem_append, List.mem_singleton] at hx
    rcases hx with hx | rfl
    · exact Nat.lt_trans (hfresh x hx) hlt
    · exact hlt

/-- A queue within the limit is handed over in one batch within the limit, which is then
answered, and the queue is left empty. -/
lemma Accounts.publishAllDeals {p : DealPublisher} (hp : Accounts cfg p)
    (hlen : p.pending.length ≤ cfg.maxDealsPerMsg) (t : ℕ) :
    Accounts cfg (p.publishAllDeals api t) ∧ (p.publishAllDeals api t).pending = [] := by
  obtain ⟨q, hq, heq⟩ := publishAllDeals_eq api t p
  obtain ⟨tms, cw, ps, rfl⟩ := hq
  rw [heq]
  set b := p.pending.filter fun pd => pd.ctx ∉ p.cancelled
  have hb : List.Sublist b p.pending := List.filter_sublist
  have hblen : b.length ≤ cfg.maxDealsPerMsg := Nat.le_trans hb.length_le hlen
  -- the batch moves from the queue to the handed batches: the deals of both stay the same
  have hall : List.Sublist ((p.handed ++ [b]).flatten ++ []) (p.handed.flatten ++ p.pending) := by
    simpa using hb.append_left p.handed.flatten
  refine ⟨⟨?_, ?_, hp.ids_nodup.sublist (hall.map _), ?_, ?_⟩, rfl⟩
  · intro batch hbatch
    rcases List.mem_append.1 hbatch with h | h
    · exact hp.handed_le batch h
    · rw [List.mem_singleton.1 h]
      exact hblen
  · intro m hm
    rcases List.mem_append.1 hm with h | h
    · exact hp.messages_le m h
    · exact Nat.le_trans (publishReady_message_le api t b m (Option.mem_toList.1 h)) hblen
  · intro pd hpd
    exact hp.ids_lt pd (hall.subset hpd)
  · simpa using hp.results_perm.append (publishReady_ids api t b)

lemma Inv.timerOnly {p q : DealPublisher} (hp : Inv cfg p) (hq : TimerOnly p q) : Inv cfg q := by
  refine ⟨hp.toAccounts.timerOnly hq, ?_⟩
  obtain ⟨tms, cw, ps, rfl⟩ := hq
  exact hp.pending_lt

/-- A full queue handed over leaves an empty one. -/
lemma Inv.publishAllDeals {p : DealPublisher} (hp : Accounts cfg p)
    (hlen : p.pending.length ≤ cfg.maxDealsPerMsg) (hmax : 0 < cfg.maxDealsPerMsg) (t : ℕ) :
    Inv cfg (p.publishAllDeals api t) := by
  obtain ⟨hacc, hnil⟩ := hp.publishAllDeals api hlen t
  exact ⟨hacc, by rw [hnil]; exact hmax⟩

/-- A `Publish` call keeps `Inv`: its deal is dropped, queued below the limit, or queued and
handed over with the rest. -/
lemma Inv.processNewDeal {p : DealPublisher} (hp : Inv cfg p) (hmax : 0 < cfg.maxDealsPerMsg)
    (t ctx : ℕ) (deal : DealProposal) :
    Inv cfg ({ p with nextId := p.nextId + 1 }.processNewDeal cfg api t ⟨p.nextId, ctx, deal⟩) := by
  have hfilter : List.Sublist (p.pending.filter fun pd => pd.ctx ∉ p.cancelled) p.pending :=
    List.filter_sublist
  obtain ⟨q, hq, hcases⟩ := processNewDeal_cases cfg api t ⟨p.nextId, ctx, deal⟩
    { p with nextId := p.nextId + 1 }
  have hacc : Accounts cfg q :=
    (hp.toAccounts.of_sublist (q := { p with nextId := p.nextId + 1 }.filterCancelledDeals)
      hfilter rfl rfl rfl (Nat.le_succ _)).timerOnly hq
  obtain ⟨tms, cw, ps, rfl⟩ := hq
  simp only [filterCancelledDeals] at hacc hcases
  -- the new deal's id is above every id handed over or queued, as in `p`
  have hfresh : ∀ x ∈ p.handed.flatten ++ p.pending.filter (fun pd => pd.ctx ∉ p.cancelled),
      x.id < p.nextId :=
    fun x hx => hp.ids_lt x ((hfilter.append_left _).subset hx)
  have hqueued := hacc.enqueue ⟨p.nextId, ctx, deal⟩ hfresh (Nat.lt_succ_self _)
  rcases hcases with ⟨-, heq⟩ | ⟨-, ⟨hfull, heq⟩ | ⟨hlt, hto⟩⟩
  · rw [heq]
    exact ⟨hacc, Nat.lt_of_le_of_lt hfilter.length_le hp.pending_lt⟩
  · rw [heq]
    refine Inv.publishAllDeals api hqueued ?_ hmax t
    have := hfilter.length_le
    have := hp.pending_lt
    simp only [List.length_append, List.length_singleton]
    omega
  · exact Inv.timerOnly ⟨hqueued, by simpa using hlt⟩ hto

/-- Every event keeps `Inv`. -/
theorem Inv.step {p : DealPublisher} (hp : Inv cfg p) (hmax : 0 < cfg.maxDealsPerMsg)
    (e : ℕ × Event) : Inv cfg (p.step cfg api e) := by
  obtain ⟨t, ev⟩ := e
  cases ev with
  | publish ctx deal => exact hp.processNewDeal api hmax t ctx deal
  | cancel ctx => exact ⟨hp.toAccounts.of_sublist (List.Sublist.refl _) rfl rfl rfl (Nat.le_refl _),
      hp.pending_lt⟩
  | forcePublishPendingDeals =>
    exact Inv.publishAllDeals api hp.toAccounts (Nat.le_of_lt hp.pending_lt) hmax t
  | timerExpired j =>
    dsimp only [DealPublisher.step]
    split
    · split
      · have hfired : TimerOnly p { p with timers := p.timers.modify j fun tm => { tm with fired := true } } :=
          ⟨_, p.cancelWaitForMoreDeals, p.publishPeriodStart, rfl⟩
        exact Inv.publishAllDeals api (hp.toAccounts.timerOnly hfired) (Nat.le_of_lt hp.pending_lt) hmax t
      · exact hp
    · exact hp

theorem inv_init (hmax : 0 < cfg.maxDealsPerMsg) : Inv cfg init :=
  ⟨⟨by simp [init], by simp [init], by simp [init], by simp [init], by simp [init]⟩, hmax⟩

/-- **The publisher's bookkeeping.**  With `maxDealsPerPublishMsg ≥ 1`, after any timed sequence
of events the queue is below the limit, every batch handed to `publishReady` and every message
pushed has at most `maxDealsPerPublishMsg` deals, no deal is handed over twice, and the deals
answered are exactly those handed over, each once. -/
theorem inv_run (hmax : 0 < cfg.maxDealsPerMsg) (evs : List (ℕ × Event)) :
    Inv cfg (Run.run (step cfg api) init evs) :=
  Run.run_invariant (fun _ e hp => hp.step api hmax e) evs (inv_init hmax)

/-- Three deals at two a message: the second fills a batch and is published at once, the third
waits for its timer, and a forced publish comes before the timer does. -/
theorem inv_run_threeDeals :
    let cfg : PublishMsgConfig := ⟨10, 2⟩
    let api : DealPublisherApi :=
      ⟨fun _ => .ok 0, fun _ => .ok 1000, fun _ => .ok "f0100", fun _ _ _ => .ok 1⟩
    Inv cfg (Run.run (step cfg api) init
      [(0, .publish 0 ⟨"baga1", "f01000", 100⟩), (1, .publish 1 ⟨"baga2", "f01000", 100⟩),
        (2, .publish 2 ⟨"baga3", "f01000", 100⟩), (3, .forcePublishPendingDeals),
        (12, .timerExpired 1)]) :=
  inv_run _ (by decide) _

/-! ## A deal left without a timer -/

variable (cfg)

/-- Deal `pd` is queued, its context is not cancelled, a publish period has started but no
timer is armed and none can still fire, and the deal has been neither handed over nor
answered. -/
structure Stranded (pd : PendingDeal) (p : DealPublisher) : Prop where
  mem_pending : pd ∈ p.pending
  not_cancelled : pd.ctx ∉ p.cancelled
  no_wait : p.cancelWaitForMoreDeals = none
  period_started : p.publishPeriodStart.isSome
  timers_dead : ∀ tm ∈ p.timers, tm.live cfg.period = false
  not_handed : ∀ batch ∈ p.handed, ∀ x ∈ batch, x.id ≠ pd.id
  not_answered : ∀ r ∈ p.results, r.1 ≠ pd.id

/-- The events after which nothing hands the queue over: a `Publish` that leaves the queue
below the limit, the cancellation of a context other than `ctx`, and a timer's goroutine. -/
def Quiet (ctx : ℕ) (p : DealPublisher) : ℕ × Event → Prop
  | (_, .publish _ _) => p.pending.length + 1 < cfg.maxDealsPerMsg
  | (_, .cancel c) => c ≠ ctx
  | (_, .forcePublishPendingDeals) => False
  | (_, .timerExpired _) => True

instance (ctx : ℕ) (p : DealPublisher) : ∀ e, Decidable (Quiet cfg ctx p e)
  | (_, .publish _ _) => inferInstanceAs (Decidable (_ < _))
  | (_, .cancel _) => inferInstanceAs (Decidable (¬_ = _))
  | (_, .forcePublishPendingDeals) => inferInstanceAs (Decidable False)
  | (_, .timerExpired _) => inferInstanceAs (Decidable True)

variable {cfg}

/-- A quiet event leaves a stranded deal stranded: a `Publish` below the limit finds the period
started and arms nothing, and no timer can fire. -/
theorem Stranded.step {pd : PendingDeal} {p : DealPublisher} (hp : Stranded cfg pd p)
    {e : ℕ × Event} (he : Quiet cfg pd.ctx p e) : Stranded cfg pd (p.step cfg api e) := by
  obtain ⟨t, ev⟩ := e
  cases ev with
  | publish ctx deal =>
    show Stranded cfg pd
      ({ p with nextId := p.nextId + 1 }.processNewDeal cfg api t ⟨p.nextId, ctx, deal⟩)
    rw [processNewDeal_of_waiting cfg api t _ (p := { p with nextId := p.nextId + 1 }) hp.no_wait
      hp.period_started he]
    have hkept : pd ∈ p.pending.filter fun x => x.ctx ∉ p.cancelled :=
      List.mem_filter.2 ⟨hp.mem_pending, by simpa using hp.not_cancelled⟩
    exact ⟨List.mem_append_left _ hkept, hp.not_cancelled, hp.no_wait, hp.period_started,
      hp.timers_dead, hp.not_handed, hp.not_answered⟩
  | cancel c =>
    have hne : pd.ctx ∉ c :: p.cancelled := by
      rw [List.mem_cons, not_or]
      exact ⟨fun h => he h.symm, hp.not_cancelled⟩
    exact ⟨hp.mem_pending, hne, hp.no_wait, hp.period_started, hp.timers_dead, hp.not_handed,
      hp.not_answered⟩
  | forcePublishPendingDeals => exact he.elim
  | timerExpired j =>
    dsimp only [DealPublisher.step]
    split
    · rename_i tm htm
      have hdead := hp.timers_dead tm (List.mem_of_getElem? htm)
      rw [if_neg (by simp [hdead])]
      exact hp
    · exact hp

/-- A deal published, its context cancelled, and a second deal published with another
context: the second deal is queued under the first one's publish period, and the first one's
timer is cancelled. -/
lemma run_publish_cancel_publish (hmax : 2 ≤ cfg.maxDealsPerMsg) (t0 t1 t2 : ℕ) {ca cb : ℕ}
    (hc : ca ≠ cb) (a b : DealProposal) :
    Run.run (step cfg api) init [(t0, .publish ca a), (t1, .cancel ca), (t2, .publish cb b)] =
      { pending := [⟨1, cb, b⟩], cancelWaitForMoreDeals := none, publishPeriodStart := some t0,
        timers := [⟨t0, some t2, false⟩], cancelled := [ca], nextId := 2, handed := [],
        results := [], messages := [] } := by
  have h1 : ¬cfg.maxDealsPerMsg ≤ 1 := by omega
  simp [Run.run, DealPublisher.step, processNewDeal, filterCancelledDeals, clearWaitIfEmpty,
    waitForMoreDeals, cancelTimer, init, Ne.symm hc, h1]

/-- **A deal left in the queue.**  A deal published at `t0` arms a timer for `t0 + period`; its
context is cancelled; a deal `b` published with another context at `t2`, before that timer
expires, finds the queue empty of live deals.  `processNewDeal` cancels the timer but leaves
`publishPeriodStart` set, so `b` is queued, `PendingDeals` lists it, and no timer is armed.
From then on, over every run in which each `Publish` leaves the queue below the limit, nobody
forces a publish and `b`'s context is not cancelled, `b` is never handed to `publishReady` and
never answered, though its context is live. -/
theorem deal_stranded_without_timer (hmax : 2 ≤ cfg.maxDealsPerMsg) {t0 t2 : ℕ} (t1 : ℕ)
    (ht : t2 < t0 + cfg.period) {ca cb : ℕ} (hc : ca ≠ cb) (a b : DealProposal)
    (evs : List (ℕ × Event))
    (hevs : Run.Guarded (step cfg api) (Quiet cfg cb)
      (Run.run (step cfg api) init [(t0, .publish ca a), (t1, .cancel ca), (t2, .publish cb b)])
      evs) :
    let p := Run.run (step cfg api) init
      [(t0, .publish ca a), (t1, .cancel ca), (t2, .publish cb b)]
    (p.pendingDeals cfg).deals = [b] ∧ p.cancelWaitForMoreDeals = none ∧
      Stranded cfg ⟨1, cb, b⟩ (Run.run (step cfg api) p evs) := by
  dsimp only
  rw [run_publish_cancel_publish api hmax t0 t1 t2 hc a b] at hevs ⊢
  refine ⟨by simp [pendingDeals, Ne.symm hc], rfl,
    Run.run_invariant_guarded (fun _ _ hq he => hq.step api he) evs ?_ hevs⟩
  refine ⟨List.mem_singleton_self _, by simpa using hc.symm, rfl, rfl, ?_, by simp, by simp⟩
  -- the first deal's timer was cancelled at `t2`, before it expired
  intro tm htm
  rw [List.mem_singleton.1 htm]
  simpa [Timer.live] using ht

theorem deal_stranded_without_timer_period10 :
    let cfg : PublishMsgConfig := ⟨10, 2⟩
    let api : DealPublisherApi :=
      ⟨fun _ => .ok 0, fun _ => .ok 1000, fun _ => .ok "f0100", fun _ _ _ => .ok 1⟩
    let a : DealProposal := ⟨"baga1", "f01000", 100⟩
    let b : DealProposal := ⟨"baga2", "f01000", 100⟩
    let p := Run.run (step cfg api) init [(0, .publish 0 a), (1, .cancel 0), (2, .publish 1 b)]
    (p.pendingDeals cfg).deals = [b] ∧ p.cancelWaitForMoreDeals = none ∧
      Stranded cfg ⟨1, 1, b⟩ (Run.run (step cfg api) p [(12, .timerExpired 0), (30, .timerExpired 0)]) :=
  deal_stranded_without_timer _ (by decide) 1 (by decide) (by decide) _ _ _ ⟨trivial, trivial, trivial⟩

end DealPublisher

end StorageAdapter

end Lotus
