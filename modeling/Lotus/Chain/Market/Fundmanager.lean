import Mathlib
import Lotus.Lib.Run

/-!
# Reserving and withdrawing market funds (`chain/market/fundmanager.go`)

A `fundedAddress` queues reservations, releases and withdrawals for one market address and
processes them in rounds (`process`).  A round does nothing while an on-chain message is in
flight (`MsgCid` set).  Otherwise it nets the reservations against the releases
(`splitReservations`), tops up the escrow with one add-funds message if the new reserved amount
exceeds what is available (`processReservations`), and if no message went out, withdraws what
fits in the unreserved balance with one withdraw message (`processWithdrawals`).  Requests that
are done are completed and taken off their queues.

A request is completed by `Complete`, which closes the request's `completed` channel.  The model
keeps the completions of all requests in a log (request, message CID, error), and a request is
`Completed` when it is in the log.  Completing a request twice closes a closed channel, which
panics in Go; the model's functions return `none` then.  Each request's context is either alive
or cancelled, and `Amount` is zero for a cancelled one.  The node's answers (available funds,
pushing the add-funds and withdraw messages) are parameters, addresses and CIDs are numbers, and
`address.Undef` as the batch wallet is `none`.

The deferred handler of `processWithdrawals` completes every withdrawal with the error when the
withdraw message fails, including those the loop already completed as cancelled or as exceeding
the available funds: the round then panics (`process_withdraw_failure_panics`).

Otherwise a round completes only queued requests, each once, and takes a request off its queue
exactly when it completes it (`process_fresh`).  So over whole runs of an address (`runFunds`:
requests queued by `requestAndWait`, contexts cancelled, rounds of `process` and the ends of the
waits for messages, in any order), as long as every withdraw message is pushed, no round panics
and each request made so far is either queued or completed, never both, and completed once
(`runFunds_accounted`).
-/

namespace Lotus

namespace Market

/-- A `fundRequest`: an identity (the request's pointer), its amount, its wallet, and whether its
context has been cancelled. -/
structure FundRequest where
  id : ℕ
  amt : ℤ
  wallet : ℕ
  cancelled : Bool
  deriving DecidableEq, Repr, Inhabited

/-- `Amount`: zero if the context has expired. -/
def FundRequest.amount (req : FundRequest) : ℤ :=
  if req.cancelled then 0 else req.amt

/-- The errors requests are completed with: an error of the node's API, or the withdrawal that
does not fit, with the amounts its message reports ("insufficient funds for withdrawal of %s:
net available (%s) = available (%s) - reserved (%s)", and " - queued withdrawals (%s)" when some
are queued). -/
inductive FundError where
  | api (err : String)
  | insufficientFunds (amt netAvail avail reserved queued : ℤ)
  deriving DecidableEq, Repr

/-- One `Complete` call: the request, and the message CID and error it is completed with. -/
structure Completion where
  id : ℕ
  msgCid : Option ℕ
  err : Option FundError
  deriving DecidableEq, Repr

/-- `Completed`: `Complete` has already been called. -/
def FundRequest.completed (log : List Completion) (req : FundRequest) : Bool :=
  log.any fun c => c.id == req.id

/-- `Complete`; `none` when the request was completed before (`close` of a closed channel). -/
def complete (log : List Completion) (req : FundRequest) (msgCid : Option ℕ)
    (err : Option FundError) : Option (List Completion) :=
  if req.completed log then none else some (log ++ [⟨req.id, msgCid, err⟩])

/-- `Complete` on each request in turn. -/
def completeAll (log : List Completion) (reqs : List FundRequest) (msgCid : Option ℕ)
    (err : Option FundError) : Option (List Completion) :=
  reqs.foldlM (fun log req => complete log req msgCid err) log

/-- The answers of the node that the fund manager reads. -/
structure FundManagerEnv where
  availableFunds : Except String ℤ
  addFunds : ℕ → ℤ → Except String ℕ
  withdrawFunds : ℕ → ℤ → Except String ℕ

/-! ## `splitReservations` -/

/-- The variables of `splitReservations`' loop. -/
structure SplitLoop where
  toCancel : List FundRequest
  toAdd : List FundRequest
  toAddAmt : ℤ
  releaseAmt : ℤ
  batchWallet : Option ℕ

/-- One iteration of `splitReservations`' loop. -/
def splitStep (acc : SplitLoop) (req : FundRequest) : SplitLoop :=
  let amt := req.amount
  -- the amount to add to the reserve is cancelled out by a release
  if amt ≤ acc.releaseAmt then
    { acc with releaseAmt := acc.releaseAmt - amt, toCancel := acc.toCancel ++ [req] }
  else
    let batchWallet := acc.batchWallet.getD req.wallet
    -- only requests from the batch wallet are combined
    if batchWallet = req.wallet then
      { acc with toAddAmt := acc.toAddAmt + (amt - acc.releaseAmt), releaseAmt := 0,
                 toAdd := acc.toAdd ++ [req], batchWallet := some batchWallet }
    else { acc with batchWallet := some batchWallet }

/-- `splitReservations`: the reservations covered by releases, those to add, and the change of
the reserved amount. -/
def splitReservations (reservations releases : List FundRequest) :
    List FundRequest × List FundRequest × ℤ :=
  let releaseAmt := (releases.map FundRequest.amount).sum
  let r := reservations.foldl splitStep ⟨[], [], 0, releaseAmt, none⟩
  (r.toCancel, r.toAdd, r.toAddAmt - r.releaseAmt)

/-! ## `processReservations` -/

/-- A `processResult`. -/
structure ProcessResult where
  covered : List FundRequest
  added : List FundRequest
  amtReserved : ℤ
  msgCid : Option ℕ

/-- `processReservations`, from the reserved amount `amtReserved`: the completions, and the result
or the error. -/
def processReservations (env : FundManagerEnv) (amtReserved : ℤ) (log : List Completion)
    (reservations releases : List FundRequest) :
    Option (List Completion × Except FundError ProcessResult) :=
  let (toCancel, toAdd, reservedDelta) := splitReservations reservations releases
  let reserved := max (amtReserved + reservedDelta) 0
  let res : ProcessResult := ⟨toCancel, [], reserved, none⟩
  let amtToAdd : Except FundError ℤ :=
    if toAdd ≠ [] ∧ reserved > 0 then
      match env.availableFunds with
      | .error err => .error (.api err)
      | .ok avail => .ok (reserved - avail)
    else .ok 0
  let body : Except FundError ProcessResult :=
    match amtToAdd with
    | .error err => .error err
    | .ok amtToAdd =>
      -- nothing to add to the balance: the requests to add are covered too
      if amtToAdd ≤ 0 then .ok { res with covered := toCancel ++ toAdd }
      else
        match env.addFunds toAdd.head!.wallet amtToAdd with
        | .error err => .error (.api err)
        | .ok addFundsCid => .ok { res with added := toAdd, msgCid := some addFundsCid }
  -- the deferred completions
  match body with
  | .error err =>
    (completeAll log (reservations ++ releases) none (some err)).map fun log => (log, .error err)
  | .ok pr => do
    let log ← completeAll log releases none none
    let log ← completeAll log pr.covered none none
    let log ← match pr.msgCid with
      | some c => completeAll log pr.added (some c) none
      | none => some log
    return (log, .ok pr)

/-! ## `processWithdrawals` -/

/-- The variables of `processWithdrawals`' loop, with the completions. -/
structure WithdrawLoop where
  log : List Completion
  withdrawalAmt : ℤ
  allowedAmt : ℤ
  allowed : List FundRequest
  batchWallet : Option ℕ

/-- One iteration of `processWithdrawals`' loop, with `avail` available and `reserved` reserved. -/
def withdrawStep (avail reserved : ℤ) (acc : WithdrawLoop) (req : FundRequest) :
    Option WithdrawLoop :=
  let netAvail := avail - reserved
  let amt := req.amount
  -- the context for the request was cancelled
  if amt = 0 then (complete acc.log req none none).map fun log => { acc with log := log }
  else
    let newWithdrawalAmt := acc.withdrawalAmt + amt
    if newWithdrawalAmt > netAvail then
      let err := FundError.insufficientFunds amt (netAvail - acc.withdrawalAmt) avail reserved
        acc.withdrawalAmt
      (complete acc.log req none (some err)).map fun log => { acc with log := log }
    else
      let batchWallet := acc.batchWallet.getD req.wallet
      -- another wallet: processed after the current batch has completed
      if req.wallet ≠ batchWallet then some { acc with batchWallet := some batchWallet }
      else some { acc with withdrawalAmt := newWithdrawalAmt, allowedAmt := acc.allowedAmt + amt,
                           allowed := acc.allowed ++ [req], batchWallet := some batchWallet }

/-- `processWithdrawals`: the completions, and the withdraw message's CID (`none` for
`cid.Undef`) or the error. -/
def processWithdrawals (env : FundManagerEnv) (amtReserved : ℤ) (log : List Completion)
    (withdrawals : List FundRequest) : Option (List Completion × Except FundError (Option ℕ)) :=
  match env.availableFunds with
  | .error err =>
    (completeAll log withdrawals none (some (.api err))).map fun log => (log, .error (.api err))
  | .ok avail => do
    let acc ← withdrawals.foldlM (withdrawStep avail amtReserved) ⟨log, 0, 0, [], none⟩
    if acc.allowedAmt = 0 then
      let log ← completeAll acc.log acc.allowed none none
      return (log, .ok none)
    else
      match env.withdrawFunds acc.allowed.head!.wallet acc.allowedAmt with
      -- the deferred handler: every withdrawal is completed with the error
      | .error err =>
        let log ← completeAll acc.log withdrawals none (some (.api err))
        return (log, .error (.api err))
      | .ok withdrawFundsCid =>
        let log ← completeAll acc.log acc.allowed (some withdrawFundsCid) none
        return (log, .ok (some withdrawFundsCid))

/-! ## `process` -/

/-- A `fundedAddress`: its `FundedAddressState` and its request queues. -/
structure FundedAddress where
  amtReserved : ℤ
  msgCid : Option ℕ
  reservations : List FundRequest
  releases : List FundRequest
  withdrawals : List FundRequest

/-- `filterOutProcessedReqs`. -/
def filterOutProcessedReqs (log : List Completion) (reqs : List FundRequest) :
    List FundRequest :=
  reqs.filter fun req => !req.completed log

/-- `process`: one round over the queues. -/
def process (env : FundManagerEnv) (log : List Completion) (fa : FundedAddress) :
    Option (List Completion × FundedAddress) :=
  -- still waiting for the response to a message
  if fa.msgCid.isSome then some (log, fa)
  else
    let haveReservations := !fa.reservations.isEmpty || !fa.releases.isEmpty
    let haveWithdrawals := !fa.withdrawals.isEmpty
    if !haveReservations && !haveWithdrawals then some (log, fa)
    else do
      let (log, fa) ← if haveReservations then do
          let (log, r) ← processReservations env fa.amtReserved log fa.reservations fa.releases
          let fa := match r with
            | .ok res => { fa with msgCid := res.msgCid, amtReserved := res.amtReserved }
            | .error _ => fa
          pure (log, { fa with reservations := filterOutProcessedReqs log fa.reservations,
                               releases := filterOutProcessedReqs log fa.releases })
        else pure (log, fa)
      -- withdrawals only when no message went out and every reservation is done
      if haveWithdrawals && fa.msgCid.isNone && fa.reservations.isEmpty then do
        let (log, r) ← processWithdrawals env fa.amtReserved log fa.withdrawals
        let fa := match r with
          | .ok (some c) => { fa with msgCid := some c }
          | _ => fa
        pure (log, { fa with withdrawals := filterOutProcessedReqs log fa.withdrawals })
      else pure (log, fa)

/-! ## Completions -/

theorem complete_of_completed {log : List Completion} {req : FundRequest} (msgCid : Option ℕ)
    (err : Option FundError) (h : req.completed log = true) : complete log req msgCid err = none :=
  if_pos h

theorem complete_of_not_completed {log : List Completion} {req : FundRequest}
    (msgCid : Option ℕ) (err : Option FundError) (h : req.completed log = false) :
    complete log req msgCid err = some (log ++ [⟨req.id, msgCid, err⟩]) := by
  simp only [complete, h, Bool.false_eq_true, if_false]

/-- A request is completed once `Complete` has logged it. -/
theorem completed_append_self (log : List Completion) (req : FundRequest) (msgCid : Option ℕ)
    (err : Option FundError) : req.completed (log ++ [⟨req.id, msgCid, err⟩]) = true := by
  simp [FundRequest.completed]

/-! ## The reserved amount -/

/-- The invariant of `splitReservations`' loop: what it adds net of what is left to release is
what it has covered or added, less all releases. -/
def SplitLoop.Inv (releases : ℤ) (acc : SplitLoop) : Prop :=
  acc.toAddAmt - acc.releaseAmt = ((acc.toCancel ++ acc.toAdd).map FundRequest.amount).sum - releases

theorem splitStep_inv {releases : ℤ} (acc : SplitLoop) (req : FundRequest)
    (h : acc.Inv releases) : (splitStep acc req).Inv releases := by
  unfold SplitLoop.Inv at h ⊢
  unfold splitStep
  by_cases hc : req.amount ≤ acc.releaseAmt
  · -- covered by the releases
    simp only [hc, if_true, List.map_append, List.sum_append, List.map_cons, List.map_nil,
      List.sum_cons, List.sum_nil] at h ⊢
    omega
  · by_cases hw : acc.batchWallet.getD req.wallet = req.wallet
    · simp only [hc, hw, if_false, if_true, List.map_append, List.sum_append, List.map_cons,
        List.map_nil, List.sum_cons, List.sum_nil] at h ⊢
      omega
    · simp only [hc, hw, if_false]
      exact h

/-- The change of the reserved amount is the sum of the reservations covered or added, less the
sum of the releases. -/
theorem splitReservations_delta (reservations releases : List FundRequest) :
    (splitReservations reservations releases).2.2 =
      (((splitReservations reservations releases).1 ++
        (splitReservations reservations releases).2.1).map FundRequest.amount).sum -
        (releases.map FundRequest.amount).sum := by
  set releaseAmt := (releases.map FundRequest.amount).sum
  have hinit : SplitLoop.Inv releaseAmt ⟨[], [], 0, releaseAmt, none⟩ := by simp [SplitLoop.Inv]
  have h : SplitLoop.Inv releaseAmt (Run.run splitStep ⟨[], [], 0, releaseAmt, none⟩ reservations) :=
    Run.run_invariant (fun acc req h => splitStep_inv acc req h) reservations hinit
  exact h

/-! ## A failed withdraw message -/

/-- A withdrawal that does not fit in the net available balance is completed with its error by
the loop. -/
theorem withdrawStep_insufficient (avail reserved : ℤ) (acc : WithdrawLoop) (req : FundRequest)
    (h0 : req.amount ≠ 0) (hgt : avail - reserved < acc.withdrawalAmt + req.amount)
    (hnew : req.completed acc.log = false) :
    withdrawStep avail reserved acc req = some { acc with log := acc.log ++
      [⟨req.id, none, some (.insufficientFunds req.amount (avail - reserved - acc.withdrawalAmt)
        avail reserved acc.withdrawalAmt)⟩] } := by
  simp only [withdrawStep, h0, if_false, gt_iff_lt, hgt, if_true,
    complete_of_not_completed _ _ hnew, Option.map_some]

/-- The first withdrawal that fits opens the batch with its wallet. -/
theorem withdrawStep_first_allowed (avail reserved : ℤ) (acc : WithdrawLoop) (req : FundRequest)
    (h0 : req.amount ≠ 0) (hle : acc.withdrawalAmt + req.amount ≤ avail - reserved)
    (hbatch : acc.batchWallet = none) :
    withdrawStep avail reserved acc req = some { acc with
      withdrawalAmt := acc.withdrawalAmt + req.amount, allowedAmt := acc.allowedAmt + req.amount,
      allowed := acc.allowed ++ [req], batchWallet := some req.wallet } := by
  have hle' : ¬(acc.withdrawalAmt + req.amount > avail - reserved) := not_lt.mpr hle
  simp only [withdrawStep, h0, if_false, hle', hbatch, Option.getD_none, ne_eq, not_true_eq_false]

/-- With two withdrawals, the first too large for the net available balance and the second
fitting, a withdraw message that fails makes the round complete the first request twice: it
panics. -/
theorem process_withdraw_failure_panics (env : FundManagerEnv) (log : List Completion)
    (fa : FundedAddress) (avail : ℤ) (e : String) (w1 w2 : FundRequest)
    (hmsg : fa.msgCid = none) (hres : fa.reservations = []) (hrel : fa.releases = [])
    (hw : fa.withdrawals = [w1, w2]) (havail : env.availableFunds = .ok avail)
    (hfail : ∀ wallet amt, env.withdrawFunds wallet amt = .error e)
    (hnew : w1.completed log = false)
    (h1 : avail - fa.amtReserved < w1.amount) (h2 : 0 < w2.amount)
    (h2' : w2.amount ≤ avail - fa.amtReserved) :
    process env log fa = none := by
  have hw1 : w1.amount ≠ 0 := by omega
  have hw2 : w2.amount ≠ 0 := by omega
  set c1 : Completion := ⟨w1.id, none, some (.insufficientFunds w1.amount
    (avail - fa.amtReserved - 0) avail fa.amtReserved 0)⟩
  -- the loop completes `w1` and puts `w2` alone in the batch
  have hloop : [w1, w2].foldlM (withdrawStep avail fa.amtReserved) ⟨log, 0, 0, [], none⟩ =
      some ⟨log ++ [c1], w2.amount, w2.amount, [w2], some w2.wallet⟩ := by
    simp only [List.foldlM_cons, List.foldlM_nil]
    rw [withdrawStep_insufficient avail fa.amtReserved _ w1 hw1 (by simpa using h1) hnew]
    simp only [Option.bind_eq_bind, Option.bind_some]
    rw [withdrawStep_first_allowed avail fa.amtReserved _ w2 hw2 (by simpa using h2') rfl]
    simp only [Option.pure_def, Option.bind_some, Int.zero_add, List.nil_append]
    rfl
  -- the deferred handler then completes `w1` a second time
  have hpanic : completeAll (log ++ [c1]) [w1, w2] none (some (.api e)) = none := by
    simp only [completeAll, List.foldlM_cons]
    rw [complete_of_completed _ _ (completed_append_self log w1 _ _)]
    rfl
  simp only [process, hmsg, hres, hrel, hw, Option.isSome_none, Bool.false_eq_true, if_false,
    List.isEmpty_nil, Bool.not_true, Bool.or_self, List.isEmpty_cons, Bool.not_false,
    Bool.and_self, Bool.and_false, Option.isNone_none, processWithdrawals, havail, Option.pure_def,
    Option.bind_eq_bind, Option.bind_some, hloop, hw2, hfail, hpanic, Option.bind_none, if_true]


/-- The witness scenario: 100 available, 20 reserved, a withdrawal of 150 and one of 50 from the
same wallet, and the withdraw message fails. -/
theorem process_withdraw_failure_panics_two :
    let env : FundManagerEnv := ⟨.ok 100, fun _ _ => .ok 1, fun _ _ => .error "mpool push failed"⟩
    let fa : FundedAddress := ⟨20, none, [], [], [⟨1, 150, 7, false⟩, ⟨2, 50, 7, false⟩]⟩
    process env [] fa = none := by
  intro env fa
  exact process_withdraw_failure_panics env [] fa 100 "mpool push failed" _ _ rfl rfl rfl rfl rfl
    (fun _ _ => rfl) rfl (by decide) (by decide) (by decide)

/-! ## The withdraw batch -/

/-- The invariant of `processWithdrawals`' loop: the batch's total is the sum of its requests,
fits in the net available balance once it has a request, and every request in it is from the
batch wallet. -/
def WithdrawLoop.Inv (netAvail : ℤ) (acc : WithdrawLoop) : Prop :=
  acc.allowedAmt = (acc.allowed.map FundRequest.amount).sum ∧
    acc.withdrawalAmt = acc.allowedAmt ∧ (acc.allowed = [] ∨ acc.withdrawalAmt ≤ netAvail) ∧
    ∀ req ∈ acc.allowed, acc.batchWallet = some req.wallet

theorem withdrawStep_inv {avail reserved : ℤ} (acc acc' : WithdrawLoop) (req : FundRequest)
    (h : acc.Inv (avail - reserved)) (hstep : withdrawStep avail reserved acc req = some acc') :
    acc'.Inv (avail - reserved) := by
  obtain ⟨hsum, hamt, hfit, hwallet⟩ := h
  unfold withdrawStep at hstep
  by_cases h0 : req.amount = 0
  · -- a cancelled request is only completed
    simp only [h0, if_true, Option.map_eq_some_iff] at hstep
    obtain ⟨log, -, rfl⟩ := hstep
    exact ⟨hsum, hamt, hfit, hwallet⟩
  by_cases hgt : acc.withdrawalAmt + req.amount > avail - reserved
  · -- so is one that does not fit
    simp only [h0, hgt, if_false, if_true, Option.map_eq_some_iff] at hstep
    obtain ⟨log, -, rfl⟩ := hstep
    exact ⟨hsum, hamt, hfit, hwallet⟩
  by_cases hw : acc.batchWallet.getD req.wallet = req.wallet
  · -- the request joins the batch
    simp only [h0, hgt, hw, if_false, ne_eq, not_true_eq_false, Option.some.injEq] at hstep
    subst hstep
    refine ⟨by simp [hsum], by simp [hamt],
      Or.inr (show acc.withdrawalAmt + req.amount ≤ avail - reserved by omega), ?_⟩
    intro r hr
    simp only [List.mem_append, List.mem_singleton] at hr
    rcases hr with hr | rfl
    · -- the batch wallet was set, and is the request's
      have hb := hwallet r hr
      rw [hb, Option.getD_some] at hw
      rw [hw]
    · rfl
  · -- a request of another wallet waits for the next batch
    have hw' : req.wallet ≠ acc.batchWallet.getD req.wallet := fun h => hw h.symm
    simp only [h0, hgt, hw', if_false, ne_eq, not_false_eq_true, if_true,
      Option.some.injEq] at hstep
    subst hstep
    refine ⟨hsum, hamt, hfit, fun r hr => ?_⟩
    rw [hwallet r hr, Option.getD_some]

/-- The withdraw message `processWithdrawals` sends is for the batch's total, which fits in the
available balance less the reserved amount, and every request of the batch is from the wallet
it is sent from. -/
theorem withdraw_batch_fits (avail reserved : ℤ) (log : List Completion)
    (withdrawals : List FundRequest) (acc : WithdrawLoop)
    (h : withdrawals.foldlM (withdrawStep avail reserved) ⟨log, 0, 0, [], none⟩ = some acc)
    (hne : acc.allowed ≠ []) :
    acc.allowedAmt ≤ avail - reserved ∧ ∀ req ∈ acc.allowed, req.wallet = acc.allowed.head!.wallet := by
  obtain ⟨-, hamt, hfit, hwallet⟩ := Run.foldlM_invariant
    (fun acc _ acc' h hs => withdrawStep_inv acc acc' _ h hs) withdrawals
    (⟨rfl, rfl, Or.inl rfl, fun _ h => absurd h List.not_mem_nil⟩ : WithdrawLoop.Inv _ _) h
  refine ⟨by rw [← hamt]; exact hfit.resolve_left hne, fun req hreq => ?_⟩
  obtain ⟨first, rest, hfr⟩ := List.exists_cons_of_ne_nil hne
  have h1 := hwallet req hreq
  have h2 := hwallet first (by rw [hfr]; exact List.mem_cons_self)
  rw [hfr, List.head!_cons]
  exact Option.some.inj (h1.symm.trans h2)

/-- Withdrawals of 3 from wallets 1 and 2, with 10 available and 2 reserved: the batch takes the
first, and the second waits for a batch of its own wallet. -/
theorem withdraw_batch_fits_twoWallets :
    ∃ acc, [(⟨0, 3, 1, false⟩ : FundRequest), ⟨1, 3, 2, false⟩].foldlM (withdrawStep 10 2)
        ⟨[], 0, 0, [], none⟩ = some acc ∧ acc.allowed.length = 1 ∧
      acc.allowedAmt ≤ 10 - 2 ∧ ∀ req ∈ acc.allowed, req.wallet = acc.allowed.head!.wallet :=
  ⟨_, rfl, rfl, withdraw_batch_fits 10 2 [] [⟨0, 3, 1, false⟩, ⟨1, 3, 2, false⟩] _ rfl (by decide)⟩

/-! ## Requests answered once

A request is answered when `Complete` closes its channel, and a second `Complete` panics.  So a
round must complete only requests that are queued, each once, and a request must leave its queue
exactly when it is completed.  `Fresh log reqs` is what makes a list of requests safe to complete:
they are distinct and none is completed yet.  Every completing loop of a round, given fresh
requests, completes a sub-permutation of them and nothing else. -/

/-- Requests that may be completed: distinct, and none completed in `log`. -/
def Fresh (log : List Completion) (reqs : List FundRequest) : Prop :=
  (reqs.map FundRequest.id).Nodup ∧ ∀ r ∈ reqs, r.completed log = false

lemma completed_eq_false_iff {log : List Completion} {r : FundRequest} :
    r.completed log = false ↔ r.id ∉ log.map Completion.id := by
  simp only [FundRequest.completed, List.any_eq_false, beq_iff_eq, List.mem_map, not_exists,
    not_and]

lemma Fresh.subperm {log : List Completion} {l l' : List FundRequest} (h : List.Subperm l' l)
    (hf : Fresh log l) : Fresh log l' := by
  obtain ⟨m, hp, hs⟩ := h
  refine ⟨(hp.map FundRequest.id).nodup_iff.mp (hf.1.sublist (hs.map _)), fun r hr => ?_⟩
  exact hf.2 r (hs.subset (hp.symm.subset hr))

/-- Once the requests `K`, taken from `l`, are completed, the requests queued beside `l` are
still fresh. -/
lemma Fresh.extend {log log' : List Completion} {l q K : List FundRequest}
    (hf : Fresh log (l ++ q)) (hlog : log'.map Completion.id = log.map Completion.id ++ K.map FundRequest.id)
    (hK : List.Subperm K l) : Fresh log' q := by
  obtain ⟨hnd, hnew⟩ := hf
  rw [List.map_append, List.nodup_append] at hnd
  refine ⟨hnd.2.1, fun r hr => ?_⟩
  rw [completed_eq_false_iff, hlog, List.mem_append, not_or]
  refine ⟨completed_eq_false_iff.mp (hnew r (List.mem_append_right _ hr)), fun hk => ?_⟩
  -- `r` was completed as a request of `l`, whose identities are not those of `q`
  obtain ⟨k, hk, hkr⟩ := List.mem_map.mp hk
  exact hnd.2.2 k.id (List.mem_map_of_mem (hK.subset hk)) r.id (List.mem_map_of_mem hr) hkr

/-- `completeAll` of fresh requests logs each of them once. -/
lemma completeAll_fresh (msgCid : Option ℕ) (err : Option FundError) :
    ∀ (reqs : List FundRequest) {log : List Completion}, Fresh log reqs →
      completeAll log reqs msgCid err = some (log ++ reqs.map fun r => ⟨r.id, msgCid, err⟩)
  | [], _, _ => by simp [completeAll]
  | r :: rs, log, hf => by
    have hr : r.completed log = false := hf.2 r List.mem_cons_self
    have hrs : Fresh (log ++ [⟨r.id, msgCid, err⟩]) rs :=
      Fresh.extend (l := [r]) hf (by simp) (List.Subperm.refl _)
    simp only [completeAll, List.foldlM_cons, complete_of_not_completed msgCid err hr,
      Option.bind_eq_bind, Option.bind_some]
    rw [← completeAll, completeAll_fresh msgCid err rs hrs]
    simp

/-- The covered and added requests of `splitReservations`' loop are among those it has seen. -/
lemma splitStep_subperm {pre : List FundRequest} {acc : SplitLoop} (req : FundRequest)
    (h : List.Subperm (acc.toCancel ++ acc.toAdd) pre) :
    List.Subperm ((splitStep acc req).toCancel ++ (splitStep acc req).toAdd) (pre ++ [req]) := by
  have hreq : List.Subperm (acc.toCancel ++ acc.toAdd ++ [req]) (pre ++ [req]) :=
    (List.subperm_append_right [req]).mpr h
  unfold splitStep
  by_cases hc : req.amount ≤ acc.releaseAmt
  · -- covered: `req` joins `toCancel`, before the requests to add
    simp only [hc, if_true]
    have hp : List.Perm (acc.toCancel ++ [req] ++ acc.toAdd) (acc.toCancel ++ acc.toAdd ++ [req]) := by
      simpa only [List.append_assoc] using (@List.perm_append_comm _ [req] acc.toAdd).append_left acc.toCancel
    exact hp.subperm.trans hreq
  · by_cases hw : acc.batchWallet.getD req.wallet = req.wallet
    · simp only [hc, hw, if_false, if_true, ← List.append_assoc]
      exact hreq
    · simp only [hc, hw, if_false]
      exact h.trans (List.sublist_append_left pre [req]).subperm

lemma splitReservations_subperm (reservations releases : List FundRequest) :
    List.Subperm ((splitReservations reservations releases).1 ++
      (splitReservations reservations releases).2.1) reservations :=
  Run.run_invariant_prefix (Q := fun _ => True)
    (I := fun pre (acc : SplitLoop) => List.Subperm (acc.toCancel ++ acc.toAdd) pre)
    (fun _ _ req _ h => splitStep_subperm req h) reservations (fun _ _ => trivial)
    (List.Subperm.refl [])

/-- **`processReservations` completes queued requests, each once**: from releases and
reservations fresh for the log, it returns, and what it logs is a sub-permutation of them. -/
theorem processReservations_fresh (env : FundManagerEnv) (amtReserved : ℤ)
    {log : List Completion} {reservations releases : List FundRequest}
    (hf : Fresh log (releases ++ reservations)) :
    ∃ log' r K, processReservations env amtReserved log reservations releases = some (log', r) ∧
      log'.map Completion.id = log.map Completion.id ++ K.map FundRequest.id ∧
      List.Subperm K (releases ++ reservations) := by
  rcases hs : splitReservations reservations releases with ⟨toCancel, toAdd, delta⟩
  have hsub : List.Subperm (toCancel ++ toAdd) reservations := by
    simpa only [hs] using splitReservations_subperm reservations releases
  -- on an error every reservation and release is completed with it
  have hall : List.Subperm (reservations ++ releases) (releases ++ reservations) :=
    List.perm_append_comm.subperm
  have herr : ∀ err, completeAll log (reservations ++ releases) none (some err) =
      some (log ++ (reservations ++ releases).map fun r => ⟨r.id, none, some err⟩) :=
    fun err => completeAll_fresh none (some err) _ (hf.subperm hall)
  -- otherwise the releases, then the covered requests, then the added ones
  have hdone : List.Subperm (releases ++ (toCancel ++ toAdd)) (releases ++ reservations) :=
    (List.subperm_append_left releases).mpr hsub
  have hrel := completeAll_fresh none none releases (hf.subperm (List.sublist_append_left _ _).subperm)
  have hlogRel : (log ++ releases.map fun r => (⟨r.id, none, none⟩ : Completion)).map
      Completion.id = log.map Completion.id ++ releases.map FundRequest.id := by
    simp [Function.comp_def]
  have hfDone : Fresh (log ++ releases.map fun r => ⟨r.id, none, none⟩) (toCancel ++ toAdd) :=
    Fresh.extend (hf.subperm hdone) hlogRel (List.Subperm.refl releases)
  simp only [processReservations, hs]
  split
  · -- an error: every request is completed with it
    rename_i err _
    rw [herr]
    exact ⟨_, _, reservations ++ releases, rfl, by simp [Function.comp_def], hall⟩
  · rename_i pr hpr
    -- the body either covers every request split off, or sends a message for those to add
    have hshape : (pr.covered = toCancel ++ toAdd ∧ pr.msgCid = none) ∨
        (pr.covered = toCancel ∧ pr.added = toAdd ∧ ∃ c, pr.msgCid = some c) := by
      split at hpr
      · cases hpr
      · split at hpr
        · cases hpr
          exact Or.inl ⟨rfl, rfl⟩
        · split at hpr
          · cases hpr
          · cases hpr
            exact Or.inr ⟨rfl, rfl, _, rfl⟩
    rcases hshape with ⟨hcov, hnone⟩ | ⟨hcov, hadd, c, hc⟩
    · simp only [hrel, hcov, completeAll_fresh none none _ hfDone, hnone, Option.bind_eq_bind,
        Option.bind_some]
      exact ⟨_, _, releases ++ (toCancel ++ toAdd), rfl, by simp [Function.comp_def], hdone⟩
    · have hfCancel := hfDone.subperm (List.sublist_append_left toCancel toAdd).subperm
      have hfAdd : Fresh ((log ++ releases.map fun r => ⟨r.id, none, none⟩) ++
          toCancel.map fun r => ⟨r.id, none, none⟩) toAdd :=
        Fresh.extend hfDone (by simp [Function.comp_def]) (List.Subperm.refl toCancel)
      simp only [hrel, hcov, completeAll_fresh none none _ hfCancel, hc, hadd,
        completeAll_fresh (some c) none _ hfAdd, Option.bind_eq_bind, Option.bind_some]
      exact ⟨_, _, releases ++ (toCancel ++ toAdd), rfl, by simp [Function.comp_def], hdone⟩

/-- One pass of `processWithdrawals`' loop over fresh requests: it completes the request at hand,
adds it to the batch, or leaves it for a later batch, and the batch and the rest stay fresh. -/
lemma withdrawStep_fresh (avail reserved : ℤ) {acc : WithdrawLoop} {w : FundRequest}
    {ws : List FundRequest} (hf : Fresh acc.log (acc.allowed ++ w :: ws)) :
    ∃ acc' K, withdrawStep avail reserved acc w = some acc' ∧
      acc'.log.map Completion.id = acc.log.map Completion.id ++ K.map FundRequest.id ∧
      List.Subperm (K ++ acc'.allowed) (acc.allowed ++ [w]) ∧ Fresh acc'.log (acc'.allowed ++ ws) := by
  have hw : w.completed acc.log = false := hf.2 w (by simp)
  -- completing `w` leaves the batch and the rest fresh
  have hfw : Fresh acc.log (w :: (acc.allowed ++ ws)) := hf.subperm List.perm_middle.symm.subperm
  have hdone : ∀ err, Fresh (acc.log ++ [⟨w.id, none, err⟩]) (acc.allowed ++ ws) := fun err =>
    Fresh.extend (l := [w]) (q := acc.allowed ++ ws) hfw (by simp) (List.Subperm.refl _)
  have hK : List.Subperm ([w] ++ acc.allowed) (acc.allowed ++ [w]) := List.perm_append_comm.subperm
  unfold withdrawStep
  by_cases h0 : w.amount = 0
  · -- a cancelled request is completed
    simp only [h0, if_true, complete_of_not_completed _ _ hw, Option.map_some]
    exact ⟨_, [w], rfl, by simp, hK, hdone none⟩
  by_cases hgt : acc.withdrawalAmt + w.amount > avail - reserved
  · -- so is one that does not fit
    simp only [h0, hgt, if_false, if_true, complete_of_not_completed _ _ hw, Option.map_some]
    exact ⟨_, [w], rfl, by simp, hK, hdone _⟩
  simp only [h0, hgt, if_false]
  by_cases hb : w.wallet ≠ acc.batchWallet.getD w.wallet
  · -- one of another wallet waits for a later batch
    rw [if_pos hb]
    refine ⟨_, [], rfl, by simp, (List.sublist_append_left _ _).subperm, ?_⟩
    exact hf.subperm (List.Sublist.append_left (List.sublist_cons_self w ws) _).subperm
  · -- one of the batch wallet joins the batch
    rw [if_neg hb]
    exact ⟨_, [], rfl, by simp, by simpa using List.Subperm.refl (acc.allowed ++ [w]),
      by simpa using hf⟩

/-- `processWithdrawals`' loop over fresh requests completes a sub-permutation of them, each once,
and leaves a fresh batch. -/
lemma withdrawLoop_fresh (avail reserved : ℤ) :
    ∀ (ws : List FundRequest) (acc : WithdrawLoop), Fresh acc.log (acc.allowed ++ ws) →
      ∃ acc' K, ws.foldlM (withdrawStep avail reserved) acc = some acc' ∧
        acc'.log.map Completion.id = acc.log.map Completion.id ++ K.map FundRequest.id ∧
        List.Subperm (K ++ acc'.allowed) (acc.allowed ++ ws) ∧ Fresh acc'.log acc'.allowed
  | [], acc, hf => ⟨acc, [], rfl, by simp, by simpa using List.Subperm.refl acc.allowed,
      by simpa using hf⟩
  | w :: ws, acc, hf => by
    obtain ⟨acc₁, K₁, hstep, hlog₁, hsub₁, hf₁⟩ := withdrawStep_fresh avail reserved hf
    obtain ⟨acc', K', hloop, hlog', hsub', hf'⟩ := withdrawLoop_fresh avail reserved ws acc₁ hf₁
    refine ⟨acc', K₁ ++ K', by simp [hstep, hloop], by simp [hlog', hlog₁], ?_, hf'⟩
    -- what the pass took, then what the rest of the loop took
    have h₁ : List.Subperm (K₁ ++ K' ++ acc'.allowed) (K₁ ++ (acc₁.allowed ++ ws)) := by
      simpa only [List.append_assoc] using (List.subperm_append_left K₁).mpr hsub'
    have h₂ : List.Subperm (K₁ ++ (acc₁.allowed ++ ws)) (acc.allowed ++ w :: ws) := by
      simpa only [List.append_assoc, List.singleton_append] using
        (List.subperm_append_right ws).mpr hsub₁
    exact h₁.trans h₂

/-- **`processWithdrawals` completes queued requests, each once**, as long as the withdraw
message does not fail: from fresh withdrawals it returns, and what it logs is a sub-permutation of
them. -/
theorem processWithdrawals_fresh (env : FundManagerEnv)
    (hpush : ∀ wallet amt, ∃ c, env.withdrawFunds wallet amt = .ok c) (amtReserved : ℤ)
    {log : List Completion} {withdrawals : List FundRequest} (hf : Fresh log withdrawals) :
    ∃ log' r K, processWithdrawals env amtReserved log withdrawals = some (log', r) ∧
      log'.map Completion.id = log.map Completion.id ++ K.map FundRequest.id ∧
      List.Subperm K withdrawals := by
  unfold processWithdrawals
  cases havail : env.availableFunds with
  | error e =>
    simp only [completeAll_fresh none _ _ hf, Option.map_some]
    exact ⟨_, _, withdrawals, rfl, by simp [Function.comp_def], List.Subperm.refl _⟩
  | ok avail =>
    obtain ⟨acc, K, hloop, hlog, hsub, hfa⟩ :=
      withdrawLoop_fresh avail amtReserved withdrawals ⟨log, 0, 0, [], none⟩ (by simpa using hf)
    -- the batch is completed after the loop, with the message's CID if one is sent
    have hids : ∀ c, (acc.log ++ acc.allowed.map fun r => (⟨r.id, c, none⟩ : Completion)).map
        Completion.id = log.map Completion.id ++ (K ++ acc.allowed).map FundRequest.id := by
      intro c
      simp only [List.map_append, List.map_map, hlog, List.append_assoc]
      rfl
    have hK : List.Subperm (K ++ acc.allowed) withdrawals := by simpa using hsub
    simp only [hloop, Option.bind_eq_bind, Option.bind_some]
    by_cases h0 : acc.allowedAmt = 0
    · simp only [h0, if_true, completeAll_fresh none none _ hfa, Option.pure_def, Option.bind_some]
      exact ⟨_, _, K ++ acc.allowed, rfl, hids none, hK⟩
    · obtain ⟨c, hc⟩ := hpush acc.allowed.head!.wallet acc.allowedAmt
      simp only [h0, if_false, hc, completeAll_fresh (some c) none _ hfa, Option.pure_def,
        Option.bind_some]
      exact ⟨_, _, K ++ acc.allowed, rfl, hids (some c), hK⟩

/-- The requests queued at a funded address: its reservations, releases and withdrawals. -/
def FundedAddress.queued (fa : FundedAddress) : List FundRequest :=
  fa.reservations ++ fa.releases ++ fa.withdrawals

/-- Requests none of which is completed are all kept by `filterOutProcessedReqs`. -/
lemma filterOutProcessedReqs_of_fresh {log : List Completion} {q : List FundRequest}
    (h : ∀ r ∈ q, r.completed log = false) : filterOutProcessedReqs log q = q :=
  List.filter_eq_self.mpr fun r hr => by simp [h r hr]

lemma filterOutProcessedReqs_queued (log : List Completion) (fa : FundedAddress) :
    filterOutProcessedReqs log fa.reservations ++ filterOutProcessedReqs log fa.releases ++
      filterOutProcessedReqs log fa.withdrawals = filterOutProcessedReqs log fa.queued := by
  simp [filterOutProcessedReqs, FundedAddress.queued, List.filter_append]

/-- The requests left after filtering out the completed ones are fresh. -/
lemma Fresh.filterOut {log log' : List Completion} {q : List FundRequest} (hf : Fresh log q) :
    Fresh log' (filterOutProcessedReqs log' q) :=
  ⟨hf.1.sublist ((List.filter_sublist).map _), fun r hr => by
    simpa [filterOutProcessedReqs] using (List.mem_filter.mp hr).2⟩

/-- What a round does to the log and the queues: it completes queued requests `K`, each once,
and drops from each queue exactly the requests completed. -/
def Settles (log : List Completion) (fa : FundedAddress) (log' : List Completion)
    (fa' : FundedAddress) : Prop :=
  (∃ K, log'.map Completion.id = log.map Completion.id ++ K.map FundRequest.id ∧
      List.Subperm K fa.queued) ∧
    fa'.reservations = filterOutProcessedReqs log' fa.reservations ∧
    fa'.releases = filterOutProcessedReqs log' fa.releases ∧
    fa'.withdrawals = filterOutProcessedReqs log' fa.withdrawals

lemma Settles.fresh {log log' : List Completion} {fa fa' : FundedAddress}
    (hf : Fresh log fa.queued) (h : Settles log fa log' fa') : Fresh log' fa'.queued := by
  obtain ⟨-, hres, hrel, hwd⟩ := h
  rw [FundedAddress.queued, hres, hrel, hwd, filterOutProcessedReqs_queued]
  exact hf.filterOut

lemma Settles.refl {log : List Completion} {fa : FundedAddress} (hf : Fresh log fa.queued) :
    Settles log fa log fa := by
  -- no queued request is completed, so filtering keeps every queue
  have hkeep : ∀ q, (∀ r ∈ q, r ∈ fa.queued) → q = filterOutProcessedReqs log q :=
    fun q hq => (filterOutProcessedReqs_of_fresh fun r hr => hf.2 r (hq r hr)).symm
  exact ⟨⟨[], by simp, List.nil_subperm⟩, hkeep _ fun r hr => by simp [FundedAddress.queued, hr],
    hkeep _ fun r hr => by simp [FundedAddress.queued, hr],
    hkeep _ fun r hr => by simp [FundedAddress.queued, hr]⟩

lemma completed_eq_true_iff {log : List Completion} {r : FundRequest} :
    r.completed log = true ↔ r.id ∈ log.map Completion.id := by
  rw [← Bool.not_eq_false, completed_eq_false_iff, not_not]

/-- Two rounds in a row settle as one. -/
lemma Settles.trans {log log₁ log₂ : List Completion} {fa fa₁ fa₂ : FundedAddress}
    (hf : Fresh log fa.queued) (h₁ : Settles log fa log₁ fa₁) (h₂ : Settles log₁ fa₁ log₂ fa₂) :
    Settles log fa log₂ fa₂ := by
  have hf₁ : Fresh log₁ fa₁.queued := h₁.fresh hf
  obtain ⟨⟨K₁, hlog₁, hK₁⟩, hres₁, hrel₁, hwd₁⟩ := h₁
  obtain ⟨⟨K₂, hlog₂, hK₂⟩, hres₂, hrel₂, hwd₂⟩ := h₂
  -- what the first round completed stays completed, so filtering twice is filtering once
  have hff : ∀ q, filterOutProcessedReqs log₂ (filterOutProcessedReqs log₁ q) =
      filterOutProcessedReqs log₂ q := by
    intro q
    simp only [filterOutProcessedReqs, List.filter_filter]
    refine List.filter_congr fun r _ => ?_
    cases h : r.completed log₁
    · simp
    · have h' : r.completed log₂ = true := by
        rw [completed_eq_true_iff] at h ⊢
        rw [hlog₂]
        exact List.mem_append_left _ h
      simp [h']
  -- the second round completes requests the first left queued
  have hnd : ((K₁ ++ K₂).map FundRequest.id).Nodup := by
    rw [List.map_append, List.nodup_append]
    refine ⟨(hf.subperm hK₁).1, (hf₁.subperm hK₂).1, fun a ha b hb hab => ?_⟩
    obtain ⟨k₂, hk₂, rfl⟩ := List.mem_map.mp hb
    have hnew := (hf₁.subperm hK₂).2 k₂ hk₂
    rw [completed_eq_false_iff, hlog₁] at hnew
    exact hnew (List.mem_append_right _ (hab ▸ ha))
  have hq₁ : fa₁.queued = filterOutProcessedReqs log₁ fa.queued := by
    rw [FundedAddress.queued, hres₁, hrel₁, hwd₁, filterOutProcessedReqs_queued]
  have hsub : K₁ ++ K₂ ⊆ fa.queued := by
    refine List.append_subset.mpr ⟨hK₁.subset, fun r hr => ?_⟩
    have := hK₂.subset hr
    rw [hq₁] at this
    exact List.mem_of_mem_filter this
  refine ⟨⟨K₁ ++ K₂, by simp [hlog₂, hlog₁], (List.Nodup.of_map _ hnd).subperm hsub⟩, ?_, ?_, ?_⟩
  · rw [hres₂, hres₁, hff]
  · rw [hrel₂, hrel₁, hff]
  · rw [hwd₂, hwd₁, hff]

/-- The reservations stage of a round settles. -/
lemma settles_reservations (env : FundManagerEnv) {log : List Completion} {fa : FundedAddress}
    (hf : Fresh log fa.queued) :
    ∃ log₁ r, processReservations env fa.amtReserved log fa.reservations fa.releases =
        some (log₁, r) ∧
      ∀ fa₁ : FundedAddress, fa₁.reservations = filterOutProcessedReqs log₁ fa.reservations →
        fa₁.releases = filterOutProcessedReqs log₁ fa.releases →
        fa₁.withdrawals = fa.withdrawals → Settles log fa log₁ fa₁ := by
  have hp : List.Perm (fa.releases ++ fa.reservations ++ fa.withdrawals) fa.queued :=
    List.perm_append_comm.append_right _
  have hsub : List.Subperm (fa.releases ++ fa.reservations) fa.queued :=
    (List.sublist_append_left _ _).subperm.trans hp.subperm
  obtain ⟨log₁, r, K, hpr, hlog, hK⟩ :=
    processReservations_fresh env fa.amtReserved (hf.subperm hsub)
  refine ⟨log₁, r, hpr, fun fa₁ hres hrel hwd => ⟨⟨K, hlog, hK.trans hsub⟩, hres, hrel, ?_⟩⟩
  -- the withdrawals are left queued, and none of them is completed
  have hfw : Fresh log₁ fa.withdrawals := Fresh.extend (hf.subperm hp.subperm) hlog hK
  rw [hwd, filterOutProcessedReqs_of_fresh hfw.2]

/-- The withdrawals stage of a round settles, as long as the withdraw message does not fail. -/
lemma settles_withdrawals (env : FundManagerEnv)
    (hpush : ∀ wallet amt, ∃ c, env.withdrawFunds wallet amt = .ok c) {log : List Completion}
    {fa : FundedAddress} (hf : Fresh log fa.queued) :
    ∃ log₂ r, processWithdrawals env fa.amtReserved log fa.withdrawals = some (log₂, r) ∧
      ∀ fa₂ : FundedAddress, fa₂.reservations = fa.reservations → fa₂.releases = fa.releases →
        fa₂.withdrawals = filterOutProcessedReqs log₂ fa.withdrawals → Settles log fa log₂ fa₂ := by
  have hp : List.Perm (fa.withdrawals ++ (fa.reservations ++ fa.releases)) fa.queued :=
    List.perm_append_comm
  have hsub : List.Subperm fa.withdrawals fa.queued :=
    (List.sublist_append_right _ _).subperm
  obtain ⟨log₂, r, K, hpw, hlog, hK⟩ :=
    processWithdrawals_fresh env hpush fa.amtReserved (hf.subperm hsub)
  refine ⟨log₂, r, hpw, fun fa₂ hres hrel hwd => ⟨⟨K, hlog, hK.trans hsub⟩, ?_, ?_, hwd⟩⟩
  -- the reservations and releases are left queued, and none of them is completed
  all_goals have hfr : Fresh log₂ (fa.reservations ++ fa.releases) :=
    Fresh.extend (hf.subperm hp.subperm) hlog hK
  · rw [hres, filterOutProcessedReqs_of_fresh fun r hr => hfr.2 r (List.mem_append_left _ hr)]
  · rw [hrel, filterOutProcessedReqs_of_fresh fun r hr => hfr.2 r (List.mem_append_right _ hr)]

/-- The withdrawals stage of `process`, as `process` runs it on what the reservations stage left:
from a log and an address that the round so far has settled, the whole round settles. -/
lemma withdrawStage_settles (env : FundManagerEnv)
    (hpush : ∀ wallet amt, ∃ c, env.withdrawFunds wallet amt = .ok c) {log log₁ : List Completion}
    {fa fa₁ : FundedAddress} (hf : Fresh log fa.queued) (h₁ : Settles log fa log₁ fa₁)
    (c : Bool) :
    ∃ log' fa', (if c = true then do
          let (log, r) ← processWithdrawals env fa₁.amtReserved log₁ fa₁.withdrawals
          let fa := match r with
            | .ok (some c) => { fa₁ with msgCid := some c }
            | _ => fa₁
          pure (log, { fa with withdrawals := filterOutProcessedReqs log fa.withdrawals })
        else pure (log₁, fa₁)) = some (log', fa') ∧ Settles log fa log' fa' := by
  cases c
  · exact ⟨log₁, fa₁, rfl, h₁⟩
  obtain ⟨log₂, r₂, hpw, hset₂⟩ := settles_withdrawals env hpush (h₁.fresh hf)
  simp only [if_true, hpw, Option.bind_eq_bind, Option.bind_some, Option.pure_def]
  -- whatever the withdrawal answered, the message CID is all that changes besides the queue
  refine ⟨_, _, rfl, h₁.trans hf (hset₂ _ ?_ ?_ ?_)⟩
  all_goals rcases r₂ with _ | _ | _ <;> rfl

theorem process_fresh (env : FundManagerEnv)
    (hpush : ∀ wallet amt, ∃ c, env.withdrawFunds wallet amt = .ok c) {log : List Completion}
    {fa : FundedAddress} (hf : Fresh log fa.queued) :
    ∃ log' fa', process env log fa = some (log', fa') ∧ Settles log fa log' fa' := by
  unfold process
  by_cases hm : fa.msgCid.isSome
  · -- still waiting for a message: nothing happens
    rw [if_pos hm]
    exact ⟨log, fa, rfl, Settles.refl hf⟩
  rw [if_neg hm]
  dsimp only
  split
  · exact ⟨log, fa, rfl, Settles.refl hf⟩
  by_cases hres : (!fa.reservations.isEmpty || !fa.releases.isEmpty) = true
  · obtain ⟨log₁, r₁, hpr, hset₁⟩ := settles_reservations env hf
    simp only [hres, if_true, hpr, Option.bind_eq_bind, Option.bind_some, Option.pure_def]
    rcases r₁ with err | res
    all_goals
      refine withdrawStage_settles env hpush hf (hset₁ _ ?_ ?_ ?_) _
      all_goals rfl
  · simp only [hres, Bool.false_eq_true, if_false, Option.bind_eq_bind, Option.pure_def,
      Option.bind_some]
    exact withdrawStage_settles env hpush hf (Settles.refl hf) _


/-! ## Runs of a funded address

A funded address is driven by its callers' requests (`reserve`, `release` and `withdraw` each
append one request to a queue in `requestAndWait`), by callers giving up (the request's context is
cancelled, and `Amount` is zero from then on), by rounds of `process`, and by the end of the wait
for an on-chain message (`startWaitForResults` clears `MsgCid` with `clearWaitState`).  Each of
these holds the address's lock, so a run is a sequence of them in any order.  A release is made
with `context.Background()`, which is never cancelled, and with `address.Undef` as its wallet,
which nothing reads (`0` here). -/

/-- The queue `requestAndWait` is given. -/
inductive FundQueue
  | reservations
  | releases
  | withdrawals
  deriving DecidableEq, Repr

/-- `*reqs = append(*reqs, req)`. -/
def FundedAddress.enqueue (fa : FundedAddress) : FundQueue → FundRequest → FundedAddress
  | .reservations, req => { fa with reservations := fa.reservations ++ [req] }
  | .releases, req => { fa with releases := fa.releases ++ [req] }
  | .withdrawals, req => { fa with withdrawals := fa.withdrawals ++ [req] }

/-- What can happen at a funded address. -/
inductive FundOp
  | reserve (wallet : ℕ) (amt : ℤ)
  | release (amt : ℤ)
  | withdraw (wallet : ℕ) (amt : ℤ)
  | cancel (id : ℕ)
  | process (env : FundManagerEnv)
  | waitDone

/-- A funded address, the completions so far, and the identity of the next request. -/
structure FundRun where
  fa : FundedAddress
  log : List Completion
  next : ℕ

/-- `requestAndWait`: a new request, with the next identity, at the end of the queue `q`. -/
def FundRun.requestAndWait (s : FundRun) (wallet : ℕ) (amt : ℤ) (q : FundQueue) : FundRun :=
  { s with fa := s.fa.enqueue q ⟨s.next, amt, wallet, false⟩, next := s.next + 1 }

/-- The request `id`, once its caller's context is cancelled. -/
def FundRequest.cancelIf (id : ℕ) (req : FundRequest) : FundRequest :=
  if req.id = id then { req with cancelled := true } else req

/-- One operation at a funded address; `none` once a round has panicked. -/
def fundStep : Option FundRun → FundOp → Option FundRun
  | none, _ => none
  | some s, .reserve wallet amt => some (s.requestAndWait wallet amt .reservations)
  | some s, .release amt => some (s.requestAndWait 0 amt .releases)
  | some s, .withdraw wallet amt => some (s.requestAndWait wallet amt .withdrawals)
  | some s, .cancel id =>
    some { s with fa := { s.fa with
      reservations := s.fa.reservations.map (FundRequest.cancelIf id),
      withdrawals := s.fa.withdrawals.map (FundRequest.cancelIf id) } }
  | some s, .process env => (process env s.log s.fa).map fun (log, fa) => { s with fa, log }
  | some s, .waitDone => some { s with fa := { s.fa with msgCid := none } }

/-- A new funded address (`newFundedAddress`), with nothing completed and no request made. -/
def FundRun.init : FundRun :=
  ⟨⟨0, none, [], [], []⟩, [], 0⟩

/-- The operations `ops`, one after another, from a new funded address. -/
def runFunds (ops : List FundOp) : Option FundRun :=
  Run.run fundStep (some FundRun.init) ops

/-- A round's withdraw message, if it sends one, is pushed: `WithdrawFunds` answers with a CID
whatever the wallet and the amount. -/
def FundOp.PushOk : FundOp → Prop
  | .process env => ∀ wallet amt, ∃ c, env.withdrawFunds wallet amt = .ok c
  | _ => True

/-- Every request made so far is queued or completed, not both, and completed at most once: the
identities of the queued requests and of the log are those issued, each once. -/
def FundRun.Accounted (s : FundRun) : Prop :=
  List.Perm (s.fa.queued.map FundRequest.id ++ s.log.map Completion.id) (List.range s.next)

lemma FundRun.Accounted.fresh {s : FundRun} (h : s.Accounted) : Fresh s.log s.fa.queued := by
  have hnd := h.nodup_iff.mpr List.nodup_range
  rw [List.nodup_append] at hnd
  exact ⟨hnd.1, fun r hr => completed_eq_false_iff.mpr fun hl =>
    hnd.2.2 r.id (List.mem_map_of_mem hr) r.id hl rfl⟩

lemma enqueue_queued (fa : FundedAddress) (q : FundQueue) (req : FundRequest) :
    List.Perm (fa.enqueue q req).queued (fa.queued ++ [req]) := by
  cases q <;>
    simp only [FundedAddress.enqueue, FundedAddress.queued, List.append_assoc,
      List.perm_append_left_iff]
  case reservations =>
    simpa only [← List.append_assoc] using @List.perm_append_comm _ [req] (fa.releases ++ fa.withdrawals)
  case releases => exact List.perm_append_comm
  case withdrawals => exact List.Perm.refl _

lemma accounted_requestAndWait {s : FundRun} (h : s.Accounted) (wallet : ℕ) (amt : ℤ)
    (q : FundQueue) : (s.requestAndWait wallet amt q).Accounted := by
  have hq := (enqueue_queued s.fa q ⟨s.next, amt, wallet, false⟩).map FundRequest.id
  rw [List.map_append] at hq
  -- the new identity goes after those of the queues and the log, as `s.next` after the range
  have hmid : List.Perm (s.fa.queued.map FundRequest.id ++ [s.next] ++ s.log.map Completion.id)
      (s.fa.queued.map FundRequest.id ++ s.log.map Completion.id ++ [s.next]) := by
    simpa only [List.append_assoc] using (@List.perm_append_comm _ [s.next] _).append_left _
  simp only [FundRun.Accounted, FundRun.requestAndWait, List.range_succ]
  exact ((hq.append_right _).trans hmid).trans (h.append_right _)

/-- The requests a round completed, `K`, and those `filterOutProcessedReqs` keeps are together
the requests the round started with. -/
lemma filterOutProcessedReqs_append_perm {log log' : List Completion} {q K : List FundRequest}
    (hf : Fresh log q)
    (hlog : log'.map Completion.id = log.map Completion.id ++ K.map FundRequest.id)
    (hK : List.Subperm K q) :
    List.Perm ((filterOutProcessedReqs log' q).map FundRequest.id ++ K.map FundRequest.id)
      (q.map FundRequest.id) := by
  have hnd : ((filterOutProcessedReqs log' q).map FundRequest.id ++ K.map FundRequest.id).Nodup := by
    rw [List.nodup_append]
    have hfq : Fresh log' (filterOutProcessedReqs log' q) := hf.filterOut
    refine ⟨hfq.1, (hf.subperm hK).1, fun a ha b hb hab => ?_⟩
    -- a request kept is not completed, and those of `K` are
    obtain ⟨r, hr, rfl⟩ := List.mem_map.mp ha
    have hnew := hfq.2 r hr
    rw [completed_eq_false_iff, hlog] at hnew
    exact hnew (List.mem_append_right _ (hab ▸ hb))
  refine (List.perm_ext_iff_of_nodup hnd hf.1).mpr fun x => ⟨fun hx => ?_, fun hx => ?_⟩
  · rcases List.mem_append.mp hx with hx | hx
    · exact (List.filter_sublist.map _).subset hx
    · exact List.map_subset _ hK.subset hx
  · obtain ⟨r, hr, rfl⟩ := List.mem_map.mp hx
    cases hc : r.completed log'
    · exact List.mem_append_left _ (List.mem_map_of_mem (List.mem_filter.mpr ⟨hr, by simp [hc]⟩))
    · -- completed in this round: not before it, so by `K`
      rw [completed_eq_true_iff, hlog] at hc
      rcases List.mem_append.mp hc with hc | hc
      · exact absurd hc (completed_eq_false_iff.mp (hf.2 r hr))
      · exact List.mem_append_right _ hc

/-- A round that settles keeps every request accounted for. -/
lemma Settles.perm {log log' : List Completion} {fa fa' : FundedAddress}
    (hf : Fresh log fa.queued) (h : Settles log fa log' fa') :
    List.Perm (fa'.queued.map FundRequest.id ++ log'.map Completion.id)
      (fa.queued.map FundRequest.id ++ log.map Completion.id) := by
  obtain ⟨⟨K, hlog, hK⟩, hres, hrel, hwd⟩ := h
  have hq : fa'.queued = filterOutProcessedReqs log' fa.queued := by
    rw [FundedAddress.queued, hres, hrel, hwd, filterOutProcessedReqs_queued]
  have hkeep := filterOutProcessedReqs_append_perm hf hlog hK
  rw [hq, hlog]
  -- the log's new identities are those of `K`, which the filter dropped
  refine (List.perm_append_comm.append_left _).trans ?_
  simpa only [List.append_assoc] using hkeep.append_right (log.map Completion.id)


@[simp] lemma FundRequest.id_cancelIf (id : ℕ) (req : FundRequest) : (req.cancelIf id).id = req.id := by
  unfold FundRequest.cancelIf
  split <;> rfl

/-- Each operation keeps every request accounted for, and a round whose withdraw message is
pushed does not panic. -/
lemma fundStep_accounted {s : FundRun} (h : s.Accounted) (op : FundOp) (hop : op.PushOk) :
    ∃ s', fundStep (some s) op = some s' ∧ s'.Accounted := by
  cases op with
  | reserve wallet amt => exact ⟨_, rfl, accounted_requestAndWait h wallet amt _⟩
  | release amt => exact ⟨_, rfl, accounted_requestAndWait h 0 amt _⟩
  | withdraw wallet amt => exact ⟨_, rfl, accounted_requestAndWait h wallet amt _⟩
  | cancel id =>
    -- cancelling a context changes no request's identity
    refine ⟨_, rfl, ?_⟩
    simpa only [FundRun.Accounted, FundedAddress.queued, List.map_append, List.map_map,
      Function.comp_def, FundRequest.id_cancelIf] using h
  | process env =>
    obtain ⟨log', fa', hp, hset⟩ := process_fresh env hop h.fresh
    refine ⟨⟨fa', log', s.next⟩, by simp only [fundStep, hp, Option.map_some], ?_⟩
    exact (hset.perm h.fresh).trans h
  | waitDone => exact ⟨_, rfl, h⟩

/-- **No request is lost, and none is answered twice**: as long as the withdraw messages are
pushed, no run of a funded address panics, and after any run each request made so far is either
still queued or completed, not both, and completed once. -/
theorem runFunds_accounted (ops : List FundOp) (hpush : ∀ op ∈ ops, op.PushOk) :
    ∃ s, runFunds ops = some s ∧
      List.Perm (s.fa.queued.map FundRequest.id ++ s.log.map Completion.id) (List.range s.next) := by
  -- the invariant of the run: no round has panicked, and every request is accounted for
  have hrun : ∃ s, Run.run fundStep (some FundRun.init) ops = some s ∧ s.Accounted :=
    Run.run_invariant_mem (P := fun o => ∃ s, o = some s ∧ s.Accounted)
      (fun _ op ho hop => by
        obtain ⟨s, rfl, hs⟩ := ho
        exact fundStep_accounted hs op hop)
      ops ⟨FundRun.init, rfl, List.Perm.refl _⟩ hpush
  exact hrun

/-- A reservation and a withdrawal, with two rounds and the end of a wait between them. -/
theorem runFunds_accounted_reserveWithdraw :
    let env : FundManagerEnv := ⟨.ok 100, fun _ _ => .ok 1, fun _ _ => .ok 2⟩
    let ops : List FundOp := [.reserve 7 30, .withdraw 7 50, .process env, .waitDone, .process env]
    (∀ op ∈ ops, op.PushOk) ∧ ∃ s, runFunds ops = some s ∧
      List.Perm (s.fa.queued.map FundRequest.id ++ s.log.map Completion.id) (List.range s.next) := by
  intro env ops
  have hpush : ∀ op ∈ ops, op.PushOk := by
    intro op hop
    simp only [ops, List.mem_cons, List.not_mem_nil, or_false] at hop
    rcases hop with rfl | rfl | rfl | rfl | rfl
    all_goals first | trivial | exact fun _ _ => ⟨2, rfl⟩
  exact ⟨hpush, runFunds_accounted ops hpush⟩

example : (runFunds [.reserve 7 30, .withdraw 7 50, .process ⟨.ok 100, fun _ _ => .ok 1, fun _ _ => .ok 2⟩,
    .waitDone, .process ⟨.ok 100, fun _ _ => .ok 1, fun _ _ => .ok 2⟩]).map
    (fun s => (s.log.map fun c => (c.id, c.msgCid), s.fa.msgCid, s.fa.amtReserved)) =
    some ([(0, none), (1, some 2)], none, 30) := by decide

end Market

end Lotus
