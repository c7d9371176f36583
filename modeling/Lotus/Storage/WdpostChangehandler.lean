import Lotus.Storage.WdpostRun
import Lotus.Lib.Run

/-!
# The window PoSt change handler (`storage/wdpost_changehandler.go`)

The submit handler keeps a `postWindow` for each deadline.  On a head change it aborts a submit
the chain has reverted past or that has expired (replacing the window with a fresh one), resets a
completed window that the chain reverted past, and then starts a submit if the window is ready
(`submitIfReady`): not expired, in `SubmitStateStart`, at least `SubmitConfidence` epochs past the
deadline's opening, and with its proofs generated.  The submit's callback error decides the
window's next state (`processSubmitResult`): back to `SubmitStateStart` on an error, so that a
later head change submits again, and `SubmitStateComplete` otherwise.

Tipsets are their heights, the proofs cache's answer for the window is a parameter, and an
`abort` function is whether one is set.  Since `runSubmitPoST` drops the errors of its pushes, a
window whose every push failed is marked complete and never submitted again
(`submit_failures_complete_window`).

The prove handler generates the proofs the submitter reads from the shared cache.  It keeps one
generation at a time as long as every successful callback is the current generation's
(`oneInFlight_run`), and it starts one only past the deadline's challenge and for a deadline not
cached (`processHeadChange_starts`).  A success of an aborted generation clears the current one
anyway, and the next head change starts a second generation for the same deadline
(`stale_success_second_generation`).
-/

namespace Lotus

namespace Storage

/-! ## Deadlines

`nextDeadline` and `NewDeadlineInfo` sit at the end of the source file.  A deadline as the chain
reports it is one `NewDeadlineInfo` builds (`IsDeadline`). -/

/-- `miner.WPoStPeriodDeadlines`. -/
def wPoStPeriodDeadlines : ℕ := 48

/-- `miner.WPoStChallengeWindow`: half an hour of 30-second epochs. -/
def wPoStChallengeWindow : ℤ := 60

/-- `miner.WPoStProvingPeriod`: a day of epochs, the period's deadlines end to end. -/
def wPoStProvingPeriod : ℤ := 2880

/-- `miner.WPoStChallengeLookback`. -/
def wPoStChallengeLookback : ℤ := 20

/-- `dline.NewInfo`, which `NewDeadlineInfo` calls and go-state-types holds: deadline
`deadlineIdx` of the period opens that many challenge windows after its start, and an index past
the period's last gives the no-duty deadline just after the period. -/
def newInfo (periodStart : ℤ) (deadlineIdx : ℕ) (currEpoch : ℤ) (wPoStPeriodDeadlines : ℕ)
    (wPoStProvingPeriod wPoStChallengeWindow wPoStChallengeLookback : ℤ) : DeadlineInfo :=
  if deadlineIdx < wPoStPeriodDeadlines then
    let deadlineOpen := periodStart + deadlineIdx * wPoStChallengeWindow
    ⟨currEpoch, periodStart, deadlineIdx, deadlineOpen, deadlineOpen + wPoStChallengeWindow,
      deadlineOpen - wPoStChallengeLookback⟩
  else
    let afterLastDeadline := periodStart + wPoStProvingPeriod
    ⟨currEpoch, periodStart, deadlineIdx, afterLastDeadline, afterLastDeadline,
      afterLastDeadline⟩

/-- `NewDeadlineInfo`: `dline.NewInfo` with the miner actor's constants. -/
def newDeadlineInfo (periodStart : ℤ) (deadlineIdx : ℕ) (currEpoch : ℤ) : DeadlineInfo :=
  newInfo periodStart deadlineIdx currEpoch wPoStPeriodDeadlines wPoStProvingPeriod
    wPoStChallengeWindow wPoStChallengeLookback

/-- `nextDeadline`. -/
def nextDeadline (currentDeadline : DeadlineInfo) : DeadlineInfo :=
  let periodStart := currentDeadline.periodStart
  let newDeadline := currentDeadline.index + 1
  if newDeadline = wPoStPeriodDeadlines then
    newDeadlineInfo (periodStart + wPoStProvingPeriod) 0 currentDeadline.currentEpoch
  else newDeadlineInfo periodStart newDeadline currentDeadline.currentEpoch

/-- A deadline of the proving period as `NewDeadlineInfo` builds it, as the chain reports it. -/
def IsDeadline (d : DeadlineInfo) : Prop :=
  d.index < wPoStPeriodDeadlines ∧ newDeadlineInfo d.periodStart d.index d.currentEpoch = d

instance (d : DeadlineInfo) : Decidable (IsDeadline d) :=
  inferInstanceAs (Decidable (_ ∧ _))

theorem newDeadlineInfo_of_lt {i : ℕ} (h : i < wPoStPeriodDeadlines) (ps e : ℤ) :
    newDeadlineInfo ps i e =
      ⟨e, ps, i, ps + i * wPoStChallengeWindow,
        ps + i * wPoStChallengeWindow + wPoStChallengeWindow,
        ps + i * wPoStChallengeWindow - wPoStChallengeLookback⟩ := by
  simp only [newDeadlineInfo, newInfo, if_pos h]

theorem isDeadline_newDeadlineInfo {i : ℕ} (h : i < wPoStPeriodDeadlines) (ps e : ℤ) :
    IsDeadline (newDeadlineInfo ps i e) := by
  rw [newDeadlineInfo_of_lt h]
  exact ⟨h, newDeadlineInfo_of_lt h ps e⟩

/-- The deadline after one of the period is one too, and opens one challenge window later: the
period's last deadline is followed by the next period's first. -/
theorem nextDeadline_open {d : DeadlineInfo} (hd : IsDeadline d) :
    IsDeadline (nextDeadline d) ∧ (nextDeadline d).open' = d.open' + wPoStChallengeWindow := by
  obtain ⟨hlt, hd⟩ := hd
  -- a deadline opens `index` challenge windows after the period's start
  have hopen : d.periodStart + d.index * wPoStChallengeWindow = d.open' := by
    have := congrArg DeadlineInfo.open' hd
    rwa [newDeadlineInfo_of_lt hlt] at this
  unfold nextDeadline
  dsimp only
  split_ifs with hlast
  · have h0 : 0 < wPoStPeriodDeadlines := by decide
    refine ⟨isDeadline_newDeadlineInfo h0 _ _, ?_⟩
    rw [newDeadlineInfo_of_lt h0, ← hopen]
    simp only [wPoStPeriodDeadlines, wPoStProvingPeriod, wPoStChallengeWindow] at hlast ⊢
    omega
  · have hnext : d.index + 1 < wPoStPeriodDeadlines := by omega
    refine ⟨isDeadline_newDeadlineInfo hnext _ _, ?_⟩
    rw [newDeadlineInfo_of_lt hnext, ← hopen]
    push_cast
    ring

/-! ## The submit handler -/

/-- `SubmitConfidence`. -/
def submitConfidence : ℤ := 4

/-- `SubmitState`. -/
inductive SubmitState where
  | submitStateStart
  | submitStateSubmitting
  | submitStateComplete
  deriving DecidableEq, Repr

/-- A `postWindow`. -/
structure PostWindow where
  ts : ℤ
  di : DeadlineInfo
  submitState : SubmitState
  abort : Bool
  deriving DecidableEq, Repr

/-- `submitIfReady` at height `advance`, given the proofs generated for the window: the window,
and the proofs handed to `startSubmitPoST` if a submit starts. -/
def submitIfReady (advance : ℤ) (posts : Option (List SubmitWindowedPoStParams))
    (pw : PostWindow) : PostWindow × Option (List SubmitWindowedPoStParams) :=
  -- the window has expired, there's nothing more to do
  if advance ≥ pw.di.close then (pw, none)
  -- already submitting, or already completed submit
  else if pw.submitState ≠ .submitStateStart then (pw, none)
  else if advance < pw.di.open' + submitConfidence then (pw, none)
  else
    match posts with
    | none => (pw, none)
    -- nothing to prove: straight to the complete state
    | some [] => ({ pw with submitState := .submitStateComplete }, none)
    | some posts => ({ pw with submitState := .submitStateSubmitting, abort := true }, some posts)

/-- `processHeadChangeForPW`: the window after the head change (a fresh one if a submit was
aborted), whether a submit was aborted, and the proofs of a submit it starts. -/
def processHeadChangeForPW (revert : Option ℤ) (advance : ℤ)
    (posts : Option (List SubmitWindowedPoStParams)) (pw : PostWindow) :
    PostWindow × Bool × Option (List SubmitWindowedPoStParams) :=
  let revertedToPrevDL := match revert with
    | some r => decide (r < pw.di.open')
    | none => false
  let expired := decide (advance ≥ pw.di.close)
  let (pw, aborted) :=
    if pw.submitState == .submitStateSubmitting && (revertedToPrevDL || expired) then
      if pw.abort then (⟨advance, pw.di, .submitStateStart, false⟩, true) else (pw, false)
    else if pw.submitState == .submitStateComplete && revertedToPrevDL then
      ({ pw with submitState := .submitStateStart }, false)
    else (pw, false)
  let r := submitIfReady advance posts pw
  (r.1, aborted, r.2)

/-- `processSubmitResult`. -/
def processSubmitResult (err : Option String) (pw : PostWindow) : PostWindow :=
  match err with
  -- submit failed: go back to the start state
  | some _ => { pw with submitState := .submitStateStart }
  | none => { pw with submitState := .submitStateComplete }

/-- A submit starts exactly when the window is in the start state, the height is at least
`SubmitConfidence` past its opening and before its close, and there are proofs to send. -/
theorem submitIfReady_starts_iff (advance : ℤ) (posts : Option (List SubmitWindowedPoStParams))
    (pw : PostWindow) (ps : List SubmitWindowedPoStParams) :
    (submitIfReady advance posts pw).2 = some ps ↔
      pw.submitState = .submitStateStart ∧ pw.di.open' + submitConfidence ≤ advance ∧
        advance < pw.di.close ∧ posts = some ps ∧ ps ≠ [] := by
  unfold submitIfReady
  by_cases hc : advance ≥ pw.di.close
  · simp only [hc, if_true, reduceCtorEq, false_iff]
    omega
  by_cases hs : pw.submitState = .submitStateStart
  swap
  · simp only [hc, hs, if_false, ne_eq, not_false_eq_true, if_true, reduceCtorEq, false_and]
  by_cases ho : advance < pw.di.open' + submitConfidence
  · simp only [hc, hs, ho, if_false, ne_eq, not_true_eq_false, if_true, reduceCtorEq, true_and,
      false_iff]
    omega
  simp only [hc, hs, ho, if_false, ne_eq, not_true_eq_false, true_and]
  rcases posts with _ | _ | ⟨p, ps'⟩
  · simp
  · simp only [reduceCtorEq, false_iff, not_and, Option.some.injEq]
    rintro - - rfl
    exact absurd rfl
  · simp only [Option.some.injEq]
    constructor
    · rintro rfl
      exact ⟨by omega, by omega, rfl, List.cons_ne_nil p ps'⟩
    · rintro ⟨-, -, h, -⟩
      exact h

/-- A window that is not in the start state starts no submit. -/
theorem submitIfReady_of_not_start (advance : ℤ) (posts : Option (List SubmitWindowedPoStParams))
    (pw : PostWindow) (h : pw.submitState ≠ .submitStateStart) :
    (submitIfReady advance posts pw).2 = none := by
  cases hs : (submitIfReady advance posts pw).2 with
  | none => rfl
  | some ps => exact absurd ((submitIfReady_starts_iff advance posts pw ps).mp hs).1 h

/-- Without a revert, a head change leaves a completed window as it is before `submitIfReady`. -/
theorem processHeadChangeForPW_of_complete (advance : ℤ)
    (posts : Option (List SubmitWindowedPoStParams)) (pw : PostWindow)
    (h : pw.submitState = .submitStateComplete) :
    processHeadChangeForPW none advance posts pw =
      ((submitIfReady advance posts pw).1, false, (submitIfReady advance posts pw).2) := by
  simp only [processHeadChangeForPW, h, Bool.and_false, Bool.false_eq_true,
    if_false]
  rfl

/-- A push refused by the mpool fails `submitPoStMessage`. -/
theorem submitPoStMessage_error_of_push (api : WdPoStApi)
    (hpush : ∀ enc, ∃ e, api.mpoolPushMessage enc = .error e) (post : SubmitWindowedPoStParams) :
    (submitPoStMessage api post).toOption = none := by
  unfold submitPoStMessage
  rcases hs : api.serializeParams post with e | enc
  · rfl
  obtain ⟨e, he⟩ := hpush enc
  simp only
  rcases hp : api.prepareMessage enc with e' | u
  · rfl
  simp only [he]
  rfl

/-- Every push of a submit refused by the mpool: nothing is recorded, the callback gets no
error, the window is marked complete, and no later head change that does not revert past the
deadline starts another submit. -/
theorem submit_failures_complete_window (api : WdPoStApi) (height : ℤ) (pw : PostWindow)
    (posts : List SubmitWindowedPoStParams) (hne : posts ≠ []) (rand : List UInt8)
    (hrand : api.chainGetRandomnessFromTickets (commEpoch api pw.di) = .ok rand)
    (hpush : ∀ enc, ∃ e, api.mpoolPushMessage enc = .error e) :
    let err := startSubmitPoST api height pw.di posts
    (runSubmitPoST api height pw.di posts).1 = [] ∧ err = none ∧
      (processSubmitResult err pw).submitState = .submitStateComplete ∧
      ∀ advance posts', (processHeadChangeForPW none advance posts'
        (processSubmitResult err pw)).2.2 = none := by
  intro err
  have hrun := runSubmitPoST_err_of_rand api height pw.di posts hne rand hrand
  have hnone : posts.filterMap (pushedEvent api (commEpoch api pw.di) rand) = [] := by
    rw [List.filterMap_eq_nil_iff]
    intro post _
    simp only [pushedEvent, submitPoStMessage_error_of_push api hpush, Option.map_none]
  have herr : err = none := by
    simp only [err, startSubmitPoST, hrun]
  refine ⟨by rw [hrun, hnone], herr, by rw [herr]; rfl, fun advance posts' => ?_⟩
  -- a completed window is left alone without a revert, and is not in the start state
  rw [herr, processHeadChangeForPW_of_complete advance posts' _ rfl]
  exact submitIfReady_of_not_start advance posts' _ (by simp [processSubmitResult])

/-- A deadline opening at 100 with one proof, which the mpool refuses. -/
theorem submit_failures_complete_window_refused :
    let api : WdPoStApi :=
      ⟨.ok 10, fun _ => .ok [], fun _ => .ok [], fun _ => .ok (), fun _ => .error "mpool refused"⟩
    let pw : PostWindow := ⟨104, newDeadlineInfo 40 1 104, .submitStateSubmitting, true⟩
    let posts : List SubmitWindowedPoStParams := [⟨0, [⟨0, ∅⟩], [], 0, []⟩]
    (runSubmitPoST api 104 pw.di posts).1 = [] ∧ startSubmitPoST api 104 pw.di posts = none ∧
      (processSubmitResult (startSubmitPoST api 104 pw.di posts) pw).submitState =
        .submitStateComplete := by
  intro api pw posts
  obtain ⟨h1, h2, h3, -⟩ := submit_failures_complete_window api 104 pw posts
    (List.cons_ne_nil _ _) [] rfl fun _ => ⟨_, rfl⟩
  exact ⟨h1, h2, h3⟩

/-! ## The prove handler

`proveHandler` starts one proof generation at a time, for the first deadline from the current
one whose proofs are not cached, once the head is `ChallengeConfidence` past its challenge; it
aborts the generation when the head reaches the deadline's close.  A generation's callback
arrives later, with the generation's own `currentPost`: a failure clears `current` only if it is
still that generation, a success clears it whatever it is and caches the proofs.

Each generation has an id, its place among the generations started, which stands for its
`currentPost` pointer and its cancel function.  `nextDeadline` goes to the next deadline of the
proving period, or to the first of the next period, through `NewDeadlineInfo`: from a deadline as
the chain reports it, one challenge window later (`nextDeadline_open`).  The loop past the cached
deadlines is bounded by the size of the cache, which it cannot exceed from such a deadline
(`skipCompleted_not_cached`).  A head change reaches the handler only once the proving period
has started, as `update` filters it. -/

/-- `ChallengeConfidence`. -/
def challengeConfidence : ℤ := 10

/-- A `currentPost`: generation `id`, for deadline `di`. -/
structure CurrentPost where
  id : ℕ
  di : DeadlineInfo
  deriving DecidableEq, Repr

/-- `postsCache.get`: the proofs cached under the deadline's opening epoch. -/
def cacheGet (cache : List (ℤ × List SubmitWindowedPoStParams)) (di : DeadlineInfo) :
    Option (List SubmitWindowedPoStParams) :=
  cache.lookup di.open'

/-- `postsCache.add`: `c.cache[di.Open] = posts`. -/
def cacheAdd (cache : List (ℤ × List SubmitWindowedPoStParams)) (di : DeadlineInfo)
    (posts : List SubmitWindowedPoStParams) : List (ℤ × List SubmitWindowedPoStParams) :=
  (di.open', posts) :: cache.filter (·.1 ≠ di.open')

/-- A `proveHandler`: the current generation, the generations started (the id of each is its
place), those aborted and those whose callback has run, and the shared `postsCache`. -/
structure ProveHandler where
  current : Option CurrentPost
  started : List CurrentPost
  aborted : List ℕ
  finished : List ℕ
  posts : List (ℤ × List SubmitWindowedPoStParams)

/-- What reaches the prove handler's loop. -/
inductive ProveOp
  /-- A head change at `height`, in the deadline `di`. -/
  | headChange (height : ℤ) (di : DeadlineInfo)
  /-- The callback of generation `id`. -/
  | postResult (id : ℕ) (posts : List SubmitWindowedPoStParams) (err : Option String)

namespace ProveHandler

/-- `newProver`. -/
def init : ProveHandler :=
  ⟨none, [], [], [], []⟩

/-- The loop `for complete { di = nextDeadline(di) }` of `processHeadChange`. -/
def skipCompleted (cache : List (ℤ × List SubmitWindowedPoStParams)) :
    ℕ → DeadlineInfo → DeadlineInfo
  | 0, di => di
  | fuel + 1, di =>
    match cacheGet cache di with
    | some _ => skipCompleted cache fuel (nextDeadline di)
    | none => di

/-- The start of `processHeadChange`: a generation whose window has expired is aborted. -/
def abortExpired (height : ℤ) (p : ProveHandler) : ProveHandler :=
  match p.current with
  | some cur =>
    if height ≥ cur.di.close then { p with current := none, aborted := p.aborted ++ [cur.id] }
    else p
  | none => p

/-- The rest of `processHeadChange`: one proof at a time, for the first deadline not cached,
once the chain is past its challenge. -/
def startGeneration (height : ℤ) (di : DeadlineInfo) (p : ProveHandler) : ProveHandler :=
  if p.current.isSome then p
  else
    let di := skipCompleted p.posts (p.posts.length + 1) di
    if height < di.challenge + challengeConfidence then p
    else
      let cur : CurrentPost := ⟨p.started.length, di⟩
      { p with current := some cur, started := p.started ++ [cur] }

/-- `processHeadChange`. -/
def processHeadChange (height : ℤ) (di : DeadlineInfo) (p : ProveHandler) : ProveHandler :=
  startGeneration height di (abortExpired height p)

/-- `processPostResult` for the callback of generation `cur`. -/
def processPostResult (cur : CurrentPost) (posts : List SubmitWindowedPoStParams)
    (err : Option String) (p : ProveHandler) : ProveHandler :=
  match err with
  -- proving failed: only a generation still current is cleared
  | some _ => if p.current = some cur then { p with current := none } else p
  | none => { p with current := none, posts := cacheAdd p.posts cur.di posts }

/-- One step of the prove handler's loop; a generation's callback runs once. -/
def step (p : ProveHandler) : ProveOp → ProveHandler
  | .headChange height di => processHeadChange height di p
  | .postResult id posts err =>
    match p.started[id]? with
    | some cur =>
      if id ∈ p.finished then p
      else { processPostResult cur posts err p with finished := p.finished ++ [id] }
    | none => p

/-- Generation `id` has been started, and neither aborted nor finished. -/
def Live (p : ProveHandler) (id : ℕ) : Prop :=
  id < p.started.length ∧ id ∉ p.finished ∧ id ∉ p.aborted

/-! ### When a generation starts -/

@[simp] theorem abortExpired_started (height : ℤ) (p : ProveHandler) :
    (abortExpired height p).started = p.started := by
  unfold abortExpired
  split
  · split_ifs <;> rfl
  · rfl

@[simp] theorem abortExpired_posts (height : ℤ) (p : ProveHandler) :
    (abortExpired height p).posts = p.posts := by
  unfold abortExpired
  split
  · split_ifs <;> rfl
  · rfl

/-- What `startGeneration` can do: nothing, or, with no generation current and the chain past
the challenge of the first deadline not cached, start the next generation for that deadline. -/
theorem startGeneration_cases (height : ℤ) (di : DeadlineInfo) (p : ProveHandler) :
    startGeneration height di p = p ∨
      ∃ d, d = skipCompleted p.posts (p.posts.length + 1) di ∧ p.current = none ∧
        d.challenge + challengeConfidence ≤ height ∧
        startGeneration height di p =
          { p with
            current := some ⟨p.started.length, d⟩
            started := p.started ++ [⟨p.started.length, d⟩] } := by
  unfold startGeneration
  cases hc : p.current.isSome
  · have hnone : p.current = none := by simpa using hc
    simp only [Bool.false_eq_true, if_false]
    split_ifs with hlow
    · exact .inl rfl
    · exact .inr ⟨_, rfl, hnone, by omega, rfl⟩
  · exact .inl (by simp)

theorem mem_of_cacheGet {cache : List (ℤ × List SubmitWindowedPoStParams)} {di : DeadlineInfo}
    {ps : List SubmitWindowedPoStParams} (h : cacheGet cache di = some ps) :
    (di.open', ps) ∈ cache := by
  unfold cacheGet at h
  induction cache with
  | nil => cases h
  | cons e rest ih =>
    obtain ⟨k, v⟩ := e
    by_cases hk : di.open' = k
    · subst hk
      simp only [List.lookup, beq_self_eq_true, Option.some.injEq] at h
      simp [h]
    · simp only [List.lookup, beq_false_of_ne hk] at h
      exact List.mem_cons_of_mem _ (ih h)

/-- From a deadline of the period, the loop past the cached deadlines ends at one that is not
cached, given one more step than there are cached entries from the first deadline on: every next
deadline opens later. -/
theorem skipCompleted_not_cached (cache : List (ℤ × List SubmitWindowedPoStParams)) :
    ∀ (fuel : ℕ) (di : DeadlineInfo), IsDeadline di →
      (cache.filter fun e => di.open' ≤ e.1).length < fuel →
      cacheGet cache (skipCompleted cache fuel di) = none
  | 0, _, _, h => absurd h (Nat.not_lt_zero _)
  | fuel + 1, di, hdi, h => by
    rw [skipCompleted]
    rcases hc : cacheGet cache di with _ | ps
    · exact hc
    dsimp only
    obtain ⟨hdi', hopen⟩ := nextDeadline_open hdi
    have hnext : di.open' < (nextDeadline di).open' := by
      rw [hopen, wPoStChallengeWindow]
      omega
    apply skipCompleted_not_cached cache fuel (nextDeadline di) hdi'
    -- the entry cached for `di` counts from `di` on, and not from the next deadline on
    have hsub : (cache.filter fun e => (nextDeadline di).open' ≤ e.1).Sublist
        (cache.filter fun e => di.open' ≤ e.1) :=
      List.monotone_filter_right cache fun e he => by
        simp only [decide_eq_true_eq] at he ⊢
        exact Int.le_trans (Int.le_of_lt hnext) he
    have hin : (di.open', ps) ∈ cache.filter fun e => di.open' ≤ e.1 :=
      List.mem_filter.mpr ⟨mem_of_cacheGet hc, by simp⟩
    have hout : (di.open', ps) ∉ cache.filter fun e => (nextDeadline di).open' ≤ e.1 := by
      simp only [List.mem_filter, decide_eq_true_eq, not_and]
      exact fun _ => Int.not_le.mpr hnext
    have hlt : (cache.filter fun e => (nextDeadline di).open' ≤ e.1).length <
        (cache.filter fun e => di.open' ≤ e.1).length := by
      rcases Nat.lt_or_eq_of_le hsub.length_le with hlt | heq
      · exact hlt
      · exact absurd (hsub.eq_of_length heq ▸ hin) hout
    omega

/-- A head change starts a generation only for a deadline whose proofs are not cached, and only
once the head is `ChallengeConfidence` past the deadline's challenge. -/
theorem processHeadChange_starts (height : ℤ) {di : DeadlineInfo} (hdi : IsDeadline di)
    (p : ProveHandler) {cur : CurrentPost}
    (hcur : cur ∈ (processHeadChange height di p).started) (hnew : cur ∉ p.started) :
    cur.di.challenge + challengeConfidence ≤ height ∧ cacheGet p.posts cur.di = none := by
  unfold processHeadChange at hcur
  rcases startGeneration_cases height di (abortExpired height p) with h | ⟨d, rfl, -, hlow, h⟩
  · rw [h, abortExpired_started] at hcur
    exact absurd hcur hnew
  -- aborting changes neither the generations started nor the cache
  simp only [h, List.mem_append, abortExpired_started, List.mem_singleton] at hcur
  rcases hcur with hcur | rfl
  · exact absurd hcur hnew
  simp only [abortExpired_posts] at hlow ⊢
  exact ⟨hlow, skipCompleted_not_cached _ _ _ hdi (Nat.lt_succ_of_le (List.length_filter_le _ _))⟩

/-- The first head change, at `110` in deadline 1 of the period from epoch `40`, starts a
generation for that deadline, `20` epochs past its challenge. -/
theorem processHeadChange_starts_first :
    (⟨0, newDeadlineInfo 40 1 110⟩ : CurrentPost) ∈
        (processHeadChange 110 (newDeadlineInfo 40 1 110) init).started ∧
      (newDeadlineInfo 40 1 110).challenge + challengeConfidence ≤ 110 ∧
      cacheGet init.posts (newDeadlineInfo 40 1 110) = none := by
  have hcur : (⟨0, newDeadlineInfo 40 1 110⟩ : CurrentPost) ∈
      (processHeadChange 110 (newDeadlineInfo 40 1 110) init).started := by
    decide
  exact ⟨hcur, processHeadChange_starts 110 (isDeadline_newDeadlineInfo (by decide) 40 110) init
    hcur (by simp [init])⟩

/-! ### One generation at a time

The handler keeps one live generation, the current one, as long as every successful callback
is the current generation's: `OneInFlight` holds along every such run (`oneInFlight_run`).  A
success of a generation already aborted clears `current` while its replacement runs, and the
next head change starts another (`stale_success_second_generation`). -/

/-- Every live generation is the current one, the current one is live, and only started
generations are aborted or finished. -/
structure OneInFlight (p : ProveHandler) : Prop where
  live_current : ∀ id, p.Live id → ∃ cur, p.current = some cur ∧ cur.id = id
  current_live : ∀ cur, p.current = some cur → p.started[cur.id]? = some cur ∧ p.Live cur.id
  ids : ∀ (i : ℕ) (cur : CurrentPost), p.started[i]? = some cur → cur.id = i
  aborted_lt : ∀ id ∈ p.aborted, id < p.started.length
  finished_lt : ∀ id ∈ p.finished, id < p.started.length

theorem oneInFlight_init : OneInFlight init :=
  ⟨fun _ h => absurd h.1 (Nat.not_lt_zero _), fun _ h => (by cases h), fun _ _ h => (by cases h),
    fun _ h => (by cases h), fun _ h => (by cases h)⟩

/-- With no current generation, no generation is live. -/
theorem OneInFlight.not_live_of_none {p : ProveHandler} (hp : OneInFlight p)
    (h : p.current = none) (id : ℕ) : ¬ p.Live id := by
  intro hl
  obtain ⟨cur, hcur, -⟩ := hp.live_current id hl
  rw [h] at hcur
  cases hcur

theorem oneInFlight_abortExpired {p : ProveHandler} (hp : OneInFlight p) (height : ℤ) :
    OneInFlight (abortExpired height p) := by
  unfold abortExpired
  rcases hc : p.current with _ | cur
  · exact hp
  dsimp only
  split_ifs with hexp
  swap
  · exact hp
  -- the current generation is aborted, and no other was live
  have hcur := hp.current_live cur hc
  refine ⟨fun id hl => ?_, fun _ h => (by cases h), hp.ids, fun id hid => ?_, hp.finished_lt⟩
  · obtain ⟨hlt, hfin, hab⟩ := hl
    obtain ⟨c, hc', rfl⟩ := hp.live_current id ⟨hlt, hfin, fun h => hab (List.mem_append_left _ h)⟩
    rw [hc, Option.some.injEq] at hc'
    exact absurd
      (List.mem_append_right _ (List.mem_singleton.mpr (congrArg CurrentPost.id hc').symm)) hab
  · rcases List.mem_append.mp hid with hid | hid
    · exact hp.aborted_lt id hid
    · rw [List.mem_singleton.mp hid]
      exact hcur.2.1

theorem oneInFlight_startGeneration {p : ProveHandler} (hp : OneInFlight p) (height : ℤ)
    (di : DeadlineInfo) : OneInFlight (startGeneration height di p) := by
  rcases startGeneration_cases height di p with h | ⟨d, -, hc, -, h⟩
  · rw [h]
    exact hp
  rw [h]
  -- the new generation takes the next id; nothing else is live
  set cur : CurrentPost := ⟨p.started.length, d⟩
  have hnew : ∀ id, Live { p with current := some cur, started := p.started ++ [cur] } id →
      id = p.started.length := by
    rintro id ⟨hlt, hfin, hab⟩
    rw [List.length_append, List.length_singleton] at hlt
    by_contra hne
    exact hp.not_live_of_none hc id ⟨by omega, hfin, hab⟩
  refine ⟨fun id hl => ⟨cur, rfl, (hnew id hl).symm⟩, fun c hc' => ?_, fun i c hi => ?_,
    fun id hid => ?_, fun id hid => ?_⟩
  · rw [Option.some.injEq] at hc'
    subst hc'
    refine ⟨by simp [cur], by simp [cur], fun h => ?_, fun h => ?_⟩
    · exact absurd (hp.finished_lt _ h) (Nat.lt_irrefl _)
    · exact absurd (hp.aborted_lt _ h) (Nat.lt_irrefl _)
  · rw [List.getElem?_append] at hi
    split_ifs at hi with hlt
    · exact hp.ids i c hi
    · simp only [List.getElem?_singleton] at hi
      split_ifs at hi with h0
      · rw [Option.some.injEq] at hi
        rw [← hi]
        simp only [cur]
        omega
  · simpa using Nat.lt_succ_of_lt (hp.aborted_lt id hid)
  · simpa using Nat.lt_succ_of_lt (hp.finished_lt id hid)

theorem oneInFlight_processHeadChange {p : ProveHandler} (hp : OneInFlight p) (height : ℤ)
    (di : DeadlineInfo) : OneInFlight (processHeadChange height di p) :=
  oneInFlight_startGeneration (oneInFlight_abortExpired hp height) height di

/-- A successful callback belongs to the current generation, or comes when none is current. -/
def SuccessOfCurrent (p : ProveHandler) : ProveOp → Prop
  | .postResult id _ none =>
    ∀ cur, p.started[id]? = some cur → p.current = none ∨ p.current = some cur
  | _ => True

/-- Generation `id`'s callback, which finishes it, keeps the discipline when it is a failure or
the current generation's success. -/
theorem oneInFlight_postResult {p : ProveHandler} (hp : OneInFlight p) {id : ℕ} {cur : CurrentPost}
    (hs : p.started[id]? = some cur) (posts : List SubmitWindowedPoStParams)
    (err : Option String) (hg : err = none → p.current = none ∨ p.current = some cur) :
    OneInFlight { processPostResult cur posts err p with finished := p.finished ++ [id] } := by
  have hid : cur.id = id := hp.ids id cur hs
  have hlt : id < p.started.length := (List.getElem?_eq_some_iff.mp hs).1
  -- the generations live after the callback were live before it, and are not `id`
  have hlive : ∀ q : ProveHandler, q.started = p.started → q.aborted = p.aborted →
      ∀ i, Live { q with finished := p.finished ++ [id] } i → p.Live i ∧ i ≠ id := by
    rintro q hst hab i ⟨hi, hf, ha⟩
    rw [List.mem_append, not_or, List.mem_singleton] at hf
    exact ⟨⟨hst ▸ hi, hf.1, hab ▸ ha⟩, hf.2⟩
  have hfinished : ∀ i ∈ p.finished ++ [id], i < p.started.length := by
    intro i hi
    rcases List.mem_append.mp hi with hi | hi
    · exact hp.finished_lt i hi
    · rw [List.mem_singleton.mp hi]
      exact hlt
  -- the current generation, if it is `id`'s, is cleared
  have hcleared : ∀ i, p.Live i → i ≠ id → p.current ≠ some cur := by
    intro i hi hne hc
    obtain ⟨c, hc', rfl⟩ := hp.live_current i hi
    rw [hc, Option.some.injEq] at hc'
    exact hne (hc' ▸ hid)
  cases err with
  | some e =>
    unfold processPostResult
    split_ifs with hc
    · refine ⟨fun i hi => ?_, fun _ h => (by cases h), hp.ids, hp.aborted_lt, hfinished⟩
      obtain ⟨hi, hne⟩ := hlive _ rfl rfl i hi
      exact absurd hc (hcleared i hi hne)
    · refine ⟨fun i hi => hp.live_current i (hlive _ rfl rfl i hi).1, fun c hc' => ?_, hp.ids,
        hp.aborted_lt, hfinished⟩
      obtain ⟨hsc, hl, hf, ha⟩ := hp.current_live c hc'
      refine ⟨hsc, hl, ?_, ha⟩
      rw [List.mem_append, not_or, List.mem_singleton]
      refine ⟨hf, fun h => hc ?_⟩
      rw [hc', ← hs, ← h, hsc]
  | none =>
    refine ⟨fun i hi => ?_, fun _ h => (by cases h), hp.ids, hp.aborted_lt, hfinished⟩
    obtain ⟨hi, hne⟩ := hlive _ rfl rfl i hi
    rcases hg rfl with hc | hc
    · exact absurd hi (hp.not_live_of_none hc i)
    · exact absurd hc (hcleared i hi hne)

theorem oneInFlight_step {p : ProveHandler} (hp : OneInFlight p) (op : ProveOp)
    (hg : SuccessOfCurrent p op) : OneInFlight (step p op) := by
  cases op with
  | headChange height di => exact oneInFlight_processHeadChange hp height di
  | postResult id posts err =>
    simp only [step]
    split
    · rename_i cur hs
      split_ifs
      · exact hp
      refine oneInFlight_postResult hp hs posts err fun he => ?_
      subst he
      exact hg cur hs
    · exact hp

/-- Along every run in which each successful callback is the current generation's, at most one
generation is live at a time, and it is the current one. -/
theorem oneInFlight_run (ops : List ProveOp)
    (hg : Run.Guarded step SuccessOfCurrent init ops) :
    OneInFlight (Run.run step init ops) :=
  Run.run_invariant_guarded (P := OneInFlight) (G := SuccessOfCurrent)
    (fun _ op hp hg => oneInFlight_step hp op hg) ops oneInFlight_init hg

/-- A generation for the first deadline succeeds while current; the one for the next deadline
fails. -/
theorem oneInFlight_run_twoDeadlines :
    OneInFlight (Run.run step init
      [.headChange 110 (newDeadlineInfo 40 1 110), .postResult 0 [] none,
        .headChange 170 (newDeadlineInfo 40 2 170), .postResult 1 [] (some "failed")]) :=
  oneInFlight_run _ ⟨trivial, fun _ h => Or.inr (congrArg some (Option.some.inj h)), trivial,
    trivial, trivial⟩

end ProveHandler

open ProveHandler in
/-- A generation started for `di₁` is aborted when the head reaches the deadline's close, and one
for the current deadline `di₂` replaces it; the aborted generation then succeeds.  Its callback
clears `current`, and the next head change starts another generation for `di₂` while the first
one for `di₂` still runs: two generations are live. -/
theorem stale_success_second_generation {di₁ di₂ : DeadlineInfo} {h₁ h₂ : ℤ} (hc₁ : di₁.challenge + challengeConfidence ≤ h₁)
    (hclose : di₁.close ≤ h₂) (hc₂ : di₂.challenge + challengeConfidence ≤ h₂)
    (hopen : di₂.open' ≠ di₁.open') (posts : List SubmitWindowedPoStParams) :
    let p := Run.run step init
      [.headChange h₁ di₁, .headChange h₂ di₂, .postResult 0 posts none, .headChange h₂ di₂]
    p.started = [⟨0, di₁⟩, ⟨1, di₂⟩, ⟨2, di₂⟩] ∧ p.Live 1 ∧ p.Live 2 := by
  have h₁' : ¬ h₁ < di₁.challenge + challengeConfidence := by omega
  have h₂' : ¬ h₂ < di₂.challenge + challengeConfidence := by omega
  -- the proofs cached for `di₁` are not those of `di₂`
  have hl : List.lookup di₂.open' [(di₁.open', posts)] = none := by
    simp [List.lookup, beq_false_of_ne hopen]
  simp [Run.run, step, hl, processHeadChange, startGeneration, abortExpired, init, skipCompleted,
    cacheGet, cacheAdd, processPostResult, Live, h₁', h₂', hclose]

/-- Deadlines 1 and 2 of the proving period that starts at epoch 40: open at 100 and 160, close
at 160 and 220, challenged at 80 and 140; no proof to cache. -/
theorem stale_success_second_generation_deadlines :
    let p := Run.run ProveHandler.step ProveHandler.init
      [.headChange 110 (newDeadlineInfo 40 1 110), .headChange 160 (newDeadlineInfo 40 2 160),
        .postResult 0 [] none, .headChange 160 (newDeadlineInfo 40 2 160)]
    p.started = [⟨0, newDeadlineInfo 40 1 110⟩, ⟨1, newDeadlineInfo 40 2 160⟩,
      ⟨2, newDeadlineInfo 40 2 160⟩] ∧ p.Live 1 ∧ p.Live 2 :=
  stale_success_second_generation (by decide) (by decide) (by decide) (by decide) []

end Storage

end Lotus
