import Mathlib
import Lotus.Paychmgr.Paych
import Lotus.Lib.Run

/-!
# The voucher calls on one channel, over whole runs

The channel accessor takes its calls one at a time under the channel lock, so a run of calls on
one channel is a run of `exec` on the stored `ChannelInfo`.  The chain stays at one head: the
channel actor's balance and lane states do not change during the run.  `Trace` adds to the
stored info the lanes `AllocateLane` has returned, which the store does not keep.

What the calls are for is stated over the history of each lane (`laneHistory`): its state on
chain, then its stored vouchers in the order stored.  Every voucher should supersede the state
before it (`LanesOrdered`), and the latest state of every lane is what `laneState` computes
(`lookup_foldl_applyVoucher`).  `StepSpec` is what one call should do.

`addVoucher`, `createVoucher` and `AllocateLane` keep `TraceInv` and meet `StepSpec` at every
step, as long as neither `sv.Lane + 1` nor `NextLane++` wraps (`Covered`)
(`voucher_calls_meet_spec`).  `submitVoucher` does not: it stores the voucher it pushes without
checking it against the lane and without moving `NextLane`, as `addVoucherUnlocked` does, so
`AllocateLane` later hands out the lane of that stored voucher; and a voucher on the last
`uint64` lane wraps `NextLane` to `0`, which is handed out again (`allocateLane_reissues_lane`).
-/

namespace Lotus

namespace Paych

/-- A call of the channel accessor on the channel. -/
inductive Op where
  | addVoucher (sv : SignedVoucher) (minDelta : ℤ)
  | createVoucher (voucher : SignedVoucher)
  | submitVoucher (sv : SignedVoucher) (secret : List UInt8)
  | allocateLane
  deriving DecidableEq, Repr

/-- What a call returns. -/
inductive Output where
  | added (delta : ℤ) (err : Option PaychError)
  | created (res : Except PaychError VoucherCreateResult)
  | submitted (res : Except PaychError ℕ)
  | allocated (lane : ℕ)

/-- One call on the channel `ch`: what it returns and the info stored afterwards. -/
def exec (env : PaychEnv) (ch : ℕ) (ci : ChannelInfo) : Op → Output × ChannelInfo
  | .addVoucher sv minDelta =>
    let r := addVoucherUnlocked env ch ci sv minDelta
    (.added r.1.1 r.1.2, r.2)
  | .createVoucher voucher =>
    let r := createVoucher env ch ci voucher
    (.created r.1, r.2)
  | .submitVoucher sv secret =>
    let r := submitVoucher env ch ci sv secret
    (.submitted r.1, r.2)
  | .allocateLane =>
    let r := allocateLane ci
    (.allocated r.1, r.2)

/-- The call turned its voucher down: an error, or the shortfall without a voucher that
`createVoucher` returns. -/
def Output.refused : Output → Bool
  | .added _ err => err.isSome
  | .created (.error _) => true
  | .created (.ok r) => r.voucher.isNone
  | .submitted (.error _) => true
  | .submitted (.ok _) => false
  | .allocated _ => false

/-- The lane an `AllocateLane` call returned. -/
def Output.allocatedLane : Output → List ℕ
  | .allocated lane => [lane]
  | _ => []

/-- The stored info, and the lanes `AllocateLane` has returned so far. -/
structure Trace where
  ci : ChannelInfo
  allocated : List ℕ

/-- One call, recorded in the trace. -/
def traceStep (env : PaychEnv) (ch : ℕ) (t : Trace) (op : Op) : Trace :=
  let r := exec env ch t.ci op
  ⟨r.2, t.allocated ++ r.1.allocatedLane⟩

/-! ## Lane histories -/

/-- The states lane `l` has been in: its state on chain, then the stored vouchers of the lane in
the order stored. -/
def laneHistory (lanes : Lanes) (vouchers : List VoucherInfo) (l : ℕ) : List LaneState :=
  (lanes.lookup l).toList ++
    (vouchers.filter fun v => v.voucher.lane = l).map fun v => LaneState.ofVoucher v.voucher

/-- The latest state of lane `l`: its last stored voucher, or its state on chain. -/
def latest (lanes : Lanes) (vouchers : List VoucherInfo) (l : ℕ) : Option LaneState :=
  (laneHistory lanes vouchers l).getLast?

/-- `b` supersedes `a`: a higher nonce and a higher amount. -/
def LaneState.Supersedes (a b : LaneState) : Prop :=
  a.nonce < b.nonce ∧ a.redeemed < b.redeemed

/-- On every lane, each stored voucher supersedes the state before it. -/
def LanesOrdered (lanes : Lanes) (vouchers : List VoucherInfo) : Prop :=
  ∀ l, (laneHistory lanes vouchers l).IsChain LaneState.Supersedes

/-- The total redeemed over all lanes, by `laneState`'s lanes. -/
def redeemedTotal (lanes : Lanes) (vouchers : List VoucherInfo) : ℤ :=
  (vouchers.foldl applyVoucher lanes).sumValues LaneState.redeemed

theorem laneHistory_append_singleton (lanes : Lanes) (vouchers : List VoucherInfo)
    (v : VoucherInfo) (l : ℕ) :
    laneHistory lanes (vouchers ++ [v]) l =
      laneHistory lanes vouchers l ++
        if v.voucher.lane = l then [LaneState.ofVoucher v.voucher] else [] := by
  by_cases hl : v.voucher.lane = l <;> simp [laneHistory, List.filter_append, hl]

@[simp]
theorem laneHistory_append_self (lanes : Lanes) (vouchers : List VoucherInfo) (v : VoucherInfo) :
    laneHistory lanes (vouchers ++ [v]) v.voucher.lane =
      laneHistory lanes vouchers v.voucher.lane ++ [LaneState.ofVoucher v.voucher] := by
  simp [laneHistory_append_singleton]

theorem laneHistory_append_of_ne {lanes : Lanes} {vouchers : List VoucherInfo} {v : VoucherInfo}
    {l : ℕ} (hl : v.voucher.lane ≠ l) :
    laneHistory lanes (vouchers ++ [v]) l = laneHistory lanes vouchers l := by
  simp [laneHistory_append_singleton, hl]

theorem LanesOrdered.of_append {lanes : Lanes} {vouchers : List VoucherInfo} {v : VoucherInfo}
    (h : LanesOrdered lanes (vouchers ++ [v])) : LanesOrdered lanes vouchers := by
  intro l
  have hl := h l
  rw [laneHistory_append_singleton] at hl
  exact hl.left_of_append

/-- A voucher that supersedes its lane's latest state keeps the lanes ordered. -/
theorem LanesOrdered.append {lanes : Lanes} {vouchers : List VoucherInfo} {v : VoucherInfo}
    (h : LanesOrdered lanes vouchers)
    (hv : ∀ ls ∈ latest lanes vouchers v.voucher.lane,
      LaneState.Supersedes ls (LaneState.ofVoucher v.voucher)) :
    LanesOrdered lanes (vouchers ++ [v]) := by
  intro l
  by_cases hl : v.voucher.lane = l
  · subst hl
    rw [laneHistory_append_self]
    exact (h _).append (.singleton _) fun a ha b hb => by
      cases hb
      exact hv a ha
  · rw [laneHistory_append_of_ne hl]
    exact h l

/-- `laneState` computes each lane's latest state, when the lanes are ordered. -/
theorem lookup_foldl_applyVoucher {lanes : Lanes} {vouchers : List VoucherInfo}
    (h : LanesOrdered lanes vouchers) (l : ℕ) :
    (vouchers.foldl applyVoucher lanes).lookup l = latest lanes vouchers l := by
  induction vouchers using List.reverseRecOn generalizing l with
  | nil =>
    simp only [List.foldl_nil, latest, laneHistory, List.filter_nil, List.map_nil, List.append_nil]
    cases lanes.lookup l <;> rfl
  | append_singleton vouchers v ih =>
    have ih' := ih h.of_append
    rw [List.foldl_append, List.foldl_cons, List.foldl_nil]
    by_cases hl : v.voucher.lane = l
    · subst hl
      -- `v` supersedes the lane's latest state, so `applyVoucher` puts it in place
      have hsup : ∀ x ∈ latest lanes vouchers v.voucher.lane,
          LaneState.Supersedes x (LaneState.ofVoucher v.voucher) := by
        have hchain := h v.voucher.lane
        rw [laneHistory_append_self] at hchain
        exact fun x hx => List.isChain_append.mp hchain |>.2.2 x hx _ rfl
      rw [applyVoucher_of_le fun ls hls => Nat.le_of_lt (hsup ls (by rw [← ih', hls]; rfl)).1]
      simp [latest]
    · rw [lookup_applyVoucher_of_ne (Ne.symm hl), ih', latest, latest,
        laneHistory_append_of_ne hl]

/-! ## What a call should do, and the invariant that makes it so -/

/-- What the voucher calls keep, over a channel actor on chain. -/
structure TraceInv (act : PaychActor) (t : Trace) : Prop where
  ordered : LanesOrdered act.state.laneStates t.ci.vouchers
  noMerges : ∀ v ∈ t.ci.vouchers, v.voucher.merges = []
  lanesBelow : ∀ v ∈ t.ci.vouchers, v.voucher.lane < t.ci.nextLane
  allocatedBelow : ∀ lane ∈ t.allocated, lane < t.ci.nextLane

/-- The calls the invariant covers: no `submitVoucher`, and no lane number at which `+ 1` wraps. -/
def Covered (t : Trace) : Op → Prop
  | .addVoucher sv _ => sv.lane + 1 < 2 ^ 64
  | .createVoucher voucher => voucher.lane + 1 < 2 ^ 64
  | .submitVoucher _ _ => False
  | .allocateLane => t.ci.nextLane + 1 < 2 ^ 64

instance (t : Trace) : ∀ op, Decidable (Covered t op)
  | .addVoucher sv _ => inferInstanceAs (Decidable (sv.lane + 1 < 2 ^ 64))
  | .createVoucher voucher => inferInstanceAs (Decidable (voucher.lane + 1 < 2 ^ 64))
  | .submitVoucher _ _ => inferInstanceAs (Decidable False)
  | .allocateLane => inferInstanceAs (Decidable (t.ci.nextLane + 1 < 2 ^ 64))

/-- What one call from `t` should do.  A call that stores a voucher appends it, superseding its
lane's latest state, with the balance covering the lanes afterwards, and `addVoucher` returns
what the voucher adds to the total.  A call that turns its voucher down stores nothing.  A lane
`AllocateLane` returns was neither returned before nor used by a stored voucher. -/
structure StepSpec (env : PaychEnv) (ch : ℕ) (act : PaychActor) (t : Trace) (op : Op) : Prop where
  stores : (exec env ch t.ci op).2.vouchers ≠ t.ci.vouchers →
    ∃ sv, (exec env ch t.ci op).2.vouchers = t.ci.vouchers ++ [⟨sv, false⟩] ∧
      (∀ ls ∈ latest act.state.laneStates t.ci.vouchers sv.lane,
        LaneState.Supersedes ls (LaneState.ofVoucher sv)) ∧
      redeemedTotal act.state.laneStates (exec env ch t.ci op).2.vouchers ≤ act.balance ∧
      ∀ delta err, (exec env ch t.ci op).1 = .added delta err →
        delta = redeemedTotal act.state.laneStates (exec env ch t.ci op).2.vouchers -
          redeemedTotal act.state.laneStates t.ci.vouchers
  refuses : (exec env ch t.ci op).1.refused = true → (exec env ch t.ci op).2 = t.ci
  allocates : ∀ lane, (exec env ch t.ci op).1 = .allocated lane →
    lane ∉ t.allocated ∧ lane ∉ t.ci.lanes

/-- What a covered call can do: leave the info as it was, store a voucher by the accepted path
of `addVoucherUnlocked`, or hand out `NextLane`. -/
theorem exec_cases (env : PaychEnv) (ch : ℕ) {t : Trace} {op : Op} (hop : Covered t op) :
    (exec env ch t.ci op).2 = t.ci ∧ (exec env ch t.ci op).1.allocatedLane = [] ∨
    (∃ sv delta, sv.lane + 1 < 2 ^ 64 ∧ Accepted env t.ci sv delta (exec env ch t.ci op).2 ∧
      (exec env ch t.ci op).1.refused = false ∧ (exec env ch t.ci op).1.allocatedLane = [] ∧
      ∀ d err, (exec env ch t.ci op).1 = .added d err → d = delta) ∨
    (exec env ch t.ci op).1 = .allocated t.ci.nextLane ∧
      (exec env ch t.ci op).2 = { t.ci with nextLane := t.ci.nextLane + 1 } := by
  cases op with
  | addVoucher sv minDelta =>
    rcases addVoucherUnlocked_cases env ch t.ci sv minDelta with hsame | ⟨hnone, hacc⟩
    · exact .inl ⟨hsame, rfl⟩
    · refine .inr (.inl ⟨sv, _, hop, hacc, ?_, rfl, fun d err hd => ?_⟩)
      · simp [exec, Output.refused, hnone]
      · cases hd
        rfl
  | createVoucher voucher =>
    rcases createVoucher_cases env ch t.ci voucher with hsame | ⟨sv, delta, hlane, hres, hacc⟩
    · exact .inl ⟨hsame, rfl⟩
    · refine .inr (.inl ⟨sv, delta, hlane ▸ hop, hacc, ?_, rfl, fun d err hd => ?_⟩)
      · simp [exec, Output.refused, hres]
      · cases hd
  | submitVoucher sv secret => exact hop.elim
  | allocateLane =>
    exact .inr (.inr ⟨rfl, by simp only [exec, allocateLane_of_lt hop]⟩)

variable {env : PaychEnv} {act : PaychActor}

/-- What an accepted voucher does to ordered lanes without merges: it is appended, supersedes
its lane's latest state, and moves the total by the delta, within the balance. -/
theorem Accepted.spec (hload : env.loadPaychActorState = .ok act) {ci ci' : ChannelInfo}
    {sv : SignedVoucher} {delta : ℤ} (hordered : LanesOrdered act.state.laneStates ci.vouchers)
    (hmerges : ∀ v ∈ ci.vouchers, v.voucher.merges = []) (hacc : Accepted env ci sv delta ci') :
    ci'.vouchers = ci.vouchers ++ [⟨sv, false⟩] ∧
      (∀ ls ∈ latest act.state.laneStates ci.vouchers sv.lane,
        LaneState.Supersedes ls (LaneState.ofVoucher sv)) ∧
      sv.merges = [] ∧
      redeemedTotal act.state.laneStates ci'.vouchers ≤ act.balance ∧
      delta = redeemedTotal act.state.laneStates ci'.vouchers -
        redeemedTotal act.state.laneStates ci.vouchers ∧
      ci'.nextLane = if ci.nextLane ≤ sv.lane then GoInt.uint64 (sv.lane + 1 : ℕ) else ci.nextLane := by
  obtain ⟨act', laneStates, hload', hls, hm, habove, hbal, hdelta, rfl⟩ := hacc
  rw [hload, Except.ok.injEq] at hload'
  subst hload'
  -- the check compared the voucher with the lanes `laneState` laid out, the latest states
  rw [laneState_of_noMerges _ hmerges, Except.ok.injEq] at hls
  subst hls
  have hlatest : ∀ ls ∈ latest act.state.laneStates ci.vouchers sv.lane,
      LaneState.Supersedes ls (LaneState.ofVoucher sv) := fun ls hls =>
    habove ls (by rw [lookup_foldl_applyVoucher hordered]; exact hls)
  have hfold : (ci.vouchers ++ [(⟨sv, false⟩ : VoucherInfo)]).foldl applyVoucher
      act.state.laneStates =
      (ci.vouchers.foldl applyVoucher act.state.laneStates).insert sv.lane
        (LaneState.ofVoucher sv) := by
    rw [List.foldl_append, List.foldl_cons, List.foldl_nil]
    exact applyVoucher_of_le (v := ⟨sv, false⟩) fun ls hls => Nat.le_of_lt (habove ls hls).1
  exact ⟨rfl, hlatest, hm, by rw [redeemedTotal, hfold]; exact hbal,
    by rw [redeemedTotal, redeemedTotal, hfold]; exact hdelta, rfl⟩

/-- One covered call keeps the invariant. -/
theorem traceInv_step (hload : env.loadPaychActorState = .ok act) (ch : ℕ) {t : Trace} {op : Op}
    (hinv : TraceInv act t) (hop : Covered t op) : TraceInv act (traceStep env ch t op) := by
  rcases exec_cases env ch hop with ⟨hsame, hlane⟩ | ⟨sv, delta, hlt, hacc, -, hlane, -⟩ |
    ⟨hout, hci⟩
  · simp only [traceStep, hsame, hlane, List.append_nil]
    exact hinv
  · obtain ⟨hvs, habove, hm, -, -, hnext⟩ := hacc.spec hload hinv.ordered hinv.noMerges
    -- `NextLane` only moves up, past the new voucher's lane
    have hle : t.ci.nextLane ≤ (exec env ch t.ci op).2.nextLane := by
      rw [hnext, GoInt.uint64_of_lt hlt]
      split <;> omega
    have hsv : sv.lane < (exec env ch t.ci op).2.nextLane := by
      rw [hnext, GoInt.uint64_of_lt hlt]
      split <;> omega
    simp only [traceStep, hlane, List.append_nil]
    refine ⟨?_, ?_, ?_, ?_⟩
    · rw [hvs]
      exact hinv.ordered.append habove
    · intro v hv
      rw [hvs, List.mem_append, List.mem_singleton] at hv
      rcases hv with hv | rfl
      · exact hinv.noMerges v hv
      · exact hm
    · intro v hv
      rw [hvs, List.mem_append, List.mem_singleton] at hv
      rcases hv with hv | rfl
      · exact Nat.lt_of_lt_of_le (hinv.lanesBelow v hv) hle
      · exact hsv
    · exact fun lane hl => Nat.lt_of_lt_of_le (hinv.allocatedBelow lane hl) hle
  · simp only [traceStep, hout, hci, Output.allocatedLane]
    refine ⟨hinv.ordered, hinv.noMerges, fun v hv => ?_, fun lane hl => ?_⟩
    · exact Nat.lt_succ_of_lt (hinv.lanesBelow v hv)
    · rw [List.mem_append, List.mem_singleton] at hl
      rcases hl with hl | rfl
      · exact Nat.lt_succ_of_lt (hinv.allocatedBelow lane hl)
      · exact Nat.lt_succ_self _

/-- A covered call from a state of the invariant does what it should. -/
theorem stepSpec_of_inv (hload : env.loadPaychActorState = .ok act) (ch : ℕ) {t : Trace}
    {op : Op} (hinv : TraceInv act t) (hop : Covered t op) : StepSpec env ch act t op := by
  rcases exec_cases env ch hop with ⟨hsame, hlane⟩ | ⟨sv, delta, -, hacc, hrefused, hlane, hdelta⟩ |
    ⟨hout, hci⟩
  · refine ⟨fun hne => absurd (by rw [hsame]) hne, fun _ => hsame, fun lane hl => ?_⟩
    rw [hl] at hlane
    cases hlane
  · obtain ⟨hvs, habove, -, hbal, hd, -⟩ := hacc.spec hload hinv.ordered hinv.noMerges
    refine ⟨fun _ => ⟨sv, hvs, habove, hbal, fun d err hout => ?_⟩, fun h => ?_, fun lane hl => ?_⟩
    · rw [hdelta d err hout]
      exact hd
    · rw [hrefused] at h
      cases h
    · rw [hl] at hlane
      cases hlane
  · refine ⟨fun hne => absurd (by rw [hci]) hne, fun h => ?_, fun lane hl => ?_⟩
    · rw [hout] at h
      cases h
    · rw [hout, Output.allocated.injEq] at hl
      subst hl
      refine ⟨fun hmem => Nat.lt_irrefl _ (hinv.allocatedBelow _ hmem), fun hmem => ?_⟩
      obtain ⟨v, hv, hlane⟩ := List.mem_map.mp hmem
      exact Nat.lt_irrefl _ (hlane ▸ hinv.lanesBelow v hv)

/-! ## Runs of calls -/

/-- Along every run of covered calls from a state of the invariant, on a channel whose actor
stays `act`, the invariant holds and every call does what `StepSpec` says. -/
theorem voucher_calls_meet_spec (env : PaychEnv) (ch : ℕ) (act : PaychActor)
    (hload : env.loadPaychActorState = .ok act) (t : Trace) (hinv : TraceInv act t)
    (ops : List Op) (hops : Run.Guarded (traceStep env ch) Covered t ops) :
    TraceInv act (Run.run (traceStep env ch) t ops) ∧
      ∀ pre op post, ops = pre ++ op :: post →
        StepSpec env ch act (Run.run (traceStep env ch) t pre) op := by
  have hstep : ∀ s op, TraceInv act s → Covered s op → TraceInv act (traceStep env ch s op) :=
    fun _ _ hs hop => traceInv_step hload ch hs hop
  refine ⟨Run.run_invariant_guarded hstep ops hinv hops, ?_⟩
  rintro pre op post rfl
  exact Run.guarded_every_step hstep (fun _ _ hs hop => stepSpec_of_inv hload ch hs hop)
    pre op post hinv hops

theorem voucher_calls_meet_spec_new_channel :
    let act : PaychActor := ⟨100, ⟨0, ∅⟩⟩
    let env : PaychEnv := ⟨.ok act, fun a => .ok a, fun _ _ _ => .ok (), fun _ _ => .ok ⟨1, []⟩,
      fun _ _ _ _ => .ok 0⟩
    let voucher : ℕ → ℕ → ℤ → SignedVoucher := fun lane nonce amount =>
      ⟨1, 0, 0, [], none, lane, nonce, amount, 0, [], some ⟨1, []⟩⟩
    let t : Trace := ⟨⟨0, [], 0⟩, []⟩
    let ops : List Op := [.allocateLane, .createVoucher (voucher 0 0 10),
      .addVoucher (voucher 0 5 30) 5, .addVoucher (voucher 0 3 40) 0, .allocateLane]
    env.loadPaychActorState = .ok act ∧ TraceInv act t ∧ Run.Guarded (traceStep env 1) Covered t ops ∧
      TraceInv act (Run.run (traceStep env 1) t ops) ∧
        ∀ pre op post, ops = pre ++ op :: post →
          StepSpec env 1 act (Run.run (traceStep env 1) t pre) op := by
  intro act env voucher t ops
  have hinv : TraceInv act t :=
    ⟨fun l => by simp [laneHistory, act, t], by simp [t], by simp [t], by simp [t]⟩
  have hops : Run.Guarded (traceStep env 1) Covered t ops := by decide
  exact ⟨rfl, hinv, hops, voucher_calls_meet_spec env 1 act rfl t hinv ops hops⟩

/-! ## Lanes handed out twice -/

/-- `markVoucherSubmitted` finds a stored voucher equal to `sv` and changes no voucher's lane. -/
lemma markVoucherSubmitted_of_mem {ci : ChannelInfo} {sv : SignedVoucher}
    (h : ∃ v ∈ ci.vouchers, v.voucher = sv) :
    ∃ ci', ci.markVoucherSubmitted sv = .ok ci' ∧ ci'.lanes = ci.lanes ∧
      ci'.nextLane = ci.nextLane := by
  obtain ⟨i, hi⟩ : ∃ i, ci.vouchers.findIdx? (fun v => v.voucher == sv) = some i := by
    refine Option.isSome_iff_exists.mp ?_
    rw [List.findIdx?_isSome, List.any_eq_true]
    obtain ⟨v, hv, rfl⟩ := h
    exact ⟨v, hv, beq_self_eq_true _⟩
  simp only [ChannelInfo.markVoucherSubmitted, hi]
  refine ⟨_, rfl, ?_, rfl⟩
  -- only the `submitted` flags change
  have hmod : ∀ (l : List VoucherInfo) (i : ℕ),
      (l.modify i fun vi => { vi with submitted := true }).map (fun v => v.voucher.lane) =
        l.map fun v => v.voucher.lane := by
    intro l
    induction l with
    | nil => simp
    | cons v l ih => intro i; cases i <;> simp [ih]
  simp only [ChannelInfo.lanes, List.map_map]
  rw [← hmod ci.vouchers i]
  congr 1
  funext vi
  simp only [Function.comp_apply]
  split <;> rfl

/-- `submitVoucher` of a voucher the channel has not stored, whose `Update` message is pushed:
the voucher is stored on its lane, and `NextLane` stays where it was. -/
lemma submitVoucher_of_new {env : PaychEnv} {ch : ℕ} {ci : ChannelInfo} {sv : SignedVoucher}
    {secret : List UInt8} {cid : ℕ} (hnew : ci.hasVoucher sv = false)
    (hpush : env.pushUpdate ci.control ch sv secret = .ok cid) :
    (submitVoucher env ch ci sv secret).1 = .ok cid ∧
      (submitVoucher env ch ci sv secret).2.lanes = ci.lanes ++ [sv.lane] ∧
      (submitVoucher env ch ci sv secret).2.nextLane = ci.nextLane := by
  have hmem : ∃ v ∈ ({ ci with vouchers := ci.vouchers ++ [⟨sv, false⟩] } : ChannelInfo).vouchers,
      v.voucher = sv := ⟨⟨sv, false⟩, by simp, rfl⟩
  obtain ⟨ci', hmark, hlanes, hnext⟩ := markVoucherSubmitted_of_mem hmem
  simp only [submitVoucher, hnew, Bool.false_eq_true, if_false, hpush, hmark]
  exact ⟨trivial, by simpa [ChannelInfo.lanes] using hlanes, hnext⟩

/-- Below the last `uint64`, `n` calls of `AllocateLane` hand out the `n` lanes from `NextLane` on. -/
lemma run_allocateLane (env : PaychEnv) (ch : ℕ) :
    ∀ (n : ℕ) (t : Trace), t.ci.nextLane + n < 2 ^ 64 →
      Run.run (traceStep env ch) t (List.replicate n .allocateLane) =
        ⟨{ t.ci with nextLane := t.ci.nextLane + n }, t.allocated ++ List.range' t.ci.nextLane n⟩
  | 0, t, _ => by simp
  | n + 1, t, h => by
    have h1 : t.ci.nextLane + 1 < 2 ^ 64 := by omega
    rw [List.replicate_succ, Run.run_cons, run_allocateLane env ch n _ (by
      simp only [traceStep, exec, allocateLane_of_lt h1]; omega)]
    simp only [traceStep, exec, allocateLane_of_lt h1, Output.allocatedLane, List.range'_succ,
      List.append_assoc, List.singleton_append, Nat.add_right_comm _ 1 n, Nat.add_assoc]

/-- `AllocateLane` hands out lanes in use.  `submitVoucher` stores a voucher it had not seen
without moving `NextLane`: from `NextLane` up to that voucher's lane, the last lane
`AllocateLane` hands out is the voucher's.  And `addVoucher` of a voucher on the last `uint64`
lane wraps `NextLane` to `0`, which `AllocateLane` hands out next. -/
theorem allocateLane_reissues_lane (env : PaychEnv) (ch : ℕ) (t : Trace) :
    (∀ sv secret cid, t.ci.hasVoucher sv = false →
      env.pushUpdate t.ci.control ch sv secret = .ok cid →
      t.ci.nextLane ≤ sv.lane → sv.lane + 1 < 2 ^ 64 →
      (Run.run (traceStep env ch) t (.submitVoucher sv secret ::
          List.replicate (sv.lane + 1 - t.ci.nextLane) .allocateLane)).allocated =
        t.allocated ++ List.range' t.ci.nextLane (sv.lane + 1 - t.ci.nextLane) ∧
      sv.lane ∈ (Run.run (traceStep env ch) t (.submitVoucher sv secret ::
          List.replicate (sv.lane + 1 - t.ci.nextLane) .allocateLane)).ci.lanes) ∧
    (∀ sv minDelta, t.ci.nextLane < 2 ^ 64 → sv.lane = 2 ^ 64 - 1 →
      (addVoucherUnlocked env ch t.ci sv minDelta).2 ≠ t.ci →
      (Run.run (traceStep env ch) t [.addVoucher sv minDelta, .allocateLane]).allocated =
        t.allocated ++ [0]) := by
  constructor
  · intro sv secret cid hnew hpush hle hlt
    obtain ⟨hout, hlanes, hnext⟩ := submitVoucher_of_new hnew hpush
    -- after the submit the trace has the voucher stored and the same `NextLane`
    have hsub : traceStep env ch t (.submitVoucher sv secret) =
        ⟨(submitVoucher env ch t.ci sv secret).2, t.allocated⟩ := by
      simp only [traceStep, exec, hout, Output.allocatedLane, List.append_nil]
    rw [Run.run_cons, hsub, run_allocateLane env ch _ _ (by simp only [hnext]; omega)]
    refine ⟨by simp only [hnext], ?_⟩
    simp only [ChannelInfo.lanes] at hlanes ⊢
    simp [hlanes]
  · intro sv minDelta hlt hlane hstored
    rcases addVoucherUnlocked_cases env ch t.ci sv minDelta with hsame | ⟨-, hacc⟩
    · exact absurd hsame hstored
    obtain ⟨-, -, -, -, -, -, -, -, hci⟩ := hacc
    -- `sv.Lane + 1` is `2 ^ 64`, which wraps to `0`
    have hwrap : (addVoucherUnlocked env ch t.ci sv minDelta).2.nextLane = 0 := by
      rw [hci, if_pos (by omega), hlane]
      rfl
    simp only [Run.run_cons, Run.run_nil, traceStep, exec, Output.allocatedLane, allocateLane,
      hwrap, List.append_nil]

/-- A new channel: a voucher on lane 0 moves `NextLane` to 1, a voucher submitted on lane 1 is
stored, and `AllocateLane` hands out lane 1; on another run, lane 0 is handed out, a voucher on
lane `2 ^ 64 - 1` is added, and lane 0 is handed out again. -/
theorem allocateLane_reissues_lane_newChannel :
    let env : PaychEnv := ⟨.ok ⟨100, ⟨0, ∅⟩⟩, fun a => .ok a, fun _ _ _ => .ok (),
      fun _ _ => .ok ⟨1, []⟩, fun _ _ _ _ => .ok 0⟩
    let voucher : ℕ → ℕ → ℤ → SignedVoucher := fun lane nonce amount =>
      ⟨1, 0, 0, [], none, lane, nonce, amount, 0, [], some ⟨1, []⟩⟩
    let t₀ : Trace := ⟨⟨0, [], 0⟩, []⟩
    let t₁ := Run.run (traceStep env 1) t₀ [.addVoucher (voucher 0 2 10) 0]
    let t₂ := Run.run (traceStep env 1) t₀ [.allocateLane]
    (Run.run (traceStep env 1) t₁ (.submitVoucher (voucher 1 1 5) [] ::
        List.replicate ((voucher 1 1 5).lane + 1 - t₁.ci.nextLane) .allocateLane)).allocated =
      t₁.allocated ++ List.range' t₁.ci.nextLane ((voucher 1 1 5).lane + 1 - t₁.ci.nextLane) ∧
    (voucher 1 1 5).lane ∈ (Run.run (traceStep env 1) t₁ (.submitVoucher (voucher 1 1 5) [] ::
        List.replicate ((voucher 1 1 5).lane + 1 - t₁.ci.nextLane) .allocateLane)).ci.lanes ∧
    t₂.allocated = [0] ∧
    (Run.run (traceStep env 1) t₂ [.addVoucher (voucher (2 ^ 64 - 1) 1 10) 0, .allocateLane]).allocated =
      t₂.allocated ++ [0] := by
  intro env voucher t₀ t₁ t₂
  have hsub := (allocateLane_reissues_lane env 1 t₁).1 (voucher 1 1 5) [] 0 (by decide) rfl
    (by decide) (by decide)
  have hwrap := (allocateLane_reissues_lane env 1 t₂).2 (voucher (2 ^ 64 - 1) 1 10) 0 (by decide)
    rfl (by decide)
  exact ⟨hsub.1, hsub.2, rfl, hwrap⟩

end Paych

end Lotus
