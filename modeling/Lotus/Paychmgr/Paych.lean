import Mathlib
import Lotus.Paychmgr.Store
import Lotus.Lib.MapSum

/-!
# Adding, creating and submitting vouchers (`paychmgr/paych.go`)

The channel accessor's voucher calls, each made under the channel lock and so one atomic step
on the stored `ChannelInfo`.  Each returns what the Go function returns and the `ChannelInfo`
the store holds afterwards: the info written by `putChannelInfo` or `MarkVoucherSubmitted`, and
the info read at the start on every path that writes nothing.

The chain and the node are the parameters in `PaychEnv`, for one chain head: the channel
actor's balance and state (`loadPaychActorState`), address resolution, signature checking and
signing, and the push of an `Update` message.  A lane state on chain is its redeemed amount and
nonce, and the lane states are a map from lane to state.

`laneState` lays the stored vouchers over the lane states on chain, in the order stored, and
`checkVoucherValidUnlocked` compares a new voucher with the result.  The accepted path of
`addVoucherUnlocked` is described once, by `Accepted`, and `addVoucherUnlocked_cases` and
`createVoucher_cases` say that a call either leaves the info as it was or is that path.
-/

namespace Lotus

namespace Paych

/-- A lane's state: `paych.LaneState`, and the `laneState` a stored voucher makes. -/
structure LaneState where
  redeemed : ℤ
  nonce : ℕ
  deriving DecidableEq, Repr

/-- The lane states by lane. -/
abbrev Lanes := AList fun _ : ℕ => LaneState

/-- `laneState{v.Voucher.Amount, v.Voucher.Nonce}`. -/
def LaneState.ofVoucher (sv : SignedVoucher) : LaneState :=
  ⟨sv.amount, sv.nonce⟩

/-- `paych.State`: the channel's `From` address and its lane states. -/
structure PaychState where
  from' : ℕ
  laneStates : Lanes

/-- The channel actor: its balance and its state. -/
structure PaychActor where
  balance : ℤ
  state : PaychState

/-- The chain and node calls the voucher code makes. -/
structure PaychEnv where
  loadPaychActorState : Except String PaychActor
  resolveToKeyAddress : ℕ → Except String ℕ
  /-- `sigs.Verify(sv.Signature, from, vb)`. -/
  verify : Option Signature → ℕ → SignedVoucher → Except String Unit
  walletSign : ℕ → SignedVoucher → Except String Signature
  /-- `messageBuilder(ctx, ci.Control)`, `mb.Update(ch, sv, secret)` and `MpoolPushMessage`: the
  CID of the pushed message. -/
  pushUpdate : ℕ → ℕ → SignedVoucher → List UInt8 → Except String ℕ

/-- The errors of the voucher calls: `ErrInsufficientFunds`, which `createVoucher` looks for,
and any other error with its text. -/
inductive PaychError where
  | insufficientFunds (shortfall : ℤ)
  | other (err : String)
  deriving DecidableEq, Repr

/-- `Error()`. -/
def PaychError.text : PaychError → String
  | .insufficientFunds shortfall =>
    "not enough funds in channel to cover voucher - shortfall: " ++ toString shortfall
  | .other err => err

/-- `api.VoucherCreateResult`. -/
structure VoucherCreateResult where
  voucher : Option SignedVoucher
  shortfall : ℤ
  deriving DecidableEq, Repr

/-- `nextNonceForLane`: one more than the highest nonce stored on the lane. -/
def nextNonceForLane (ci : ChannelInfo) (lane : ℕ) : ℕ :=
  let maxnonce := ci.vouchers.foldl (fun maxnonce v =>
    if v.voucher.lane = lane ∧ v.voucher.nonce > maxnonce then v.voucher.nonce else maxnonce) 0
  GoInt.uint64 (maxnonce + 1 : ℕ)

/-- The body of `laneState`'s loop over the stored vouchers: a voucher replaces its lane's state
unless that state has a higher nonce. -/
def applyVoucher (laneStates : Lanes) (v : VoucherInfo) : Lanes :=
  match laneStates.lookup v.voucher.lane with
  | some ls =>
    if v.voucher.nonce < ls.nonce then laneStates
    else laneStates.insert v.voucher.lane (LaneState.ofVoucher v.voucher)
  | none => laneStates.insert v.voucher.lane (LaneState.ofVoucher v.voucher)

/-- `laneState`: the lane states on chain with the stored vouchers applied over them. -/
def laneState (state : PaychState) (vouchers : List VoucherInfo) : Except PaychError Lanes :=
  vouchers.foldlM (fun laneStates v =>
    if v.voucher.merges ≠ [] then .error (.other "paych merges not handled yet")
    else .ok (applyVoucher laneStates v)) state.laneStates

/-- `totalRedeemedWithVoucher`: the redeemed amounts of all lanes, with `sv` in its lane. -/
def totalRedeemedWithVoucher (laneStates : Lanes) (sv : SignedVoucher) : Except PaychError ℤ :=
  if sv.merges ≠ [] then .error (.other "dont currently support paych lane merges")
  else
    let total := laneStates.sumValues LaneState.redeemed
    match laneStates.lookup sv.lane with
    | some lane =>
      if sv.nonce > lane.nonce then .ok (total + (sv.amount - lane.redeemed)) else .ok total
    | none => .ok (total + sv.amount)

/-- `checkVoucherValidUnlocked`, against the vouchers stored for the channel. -/
def checkVoucherValidUnlocked (env : PaychEnv) (ch : ℕ) (vouchers : List VoucherInfo)
    (sv : SignedVoucher) : Except PaychError Lanes := do
  if sv.channelAddr ≠ ch then
    throw (.other ("voucher ChannelAddr doesn't match channel address, got " ++
      toString sv.channelAddr ++ ", expected " ++ toString ch))
  let act ← env.loadPaychActorState.mapError .other
  let from' ← (env.resolveToKeyAddress act.state.from').mapError .other
  (env.verify sv.signature from' sv.signingBytes).mapError .other
  let laneStates ← laneState act.state vouchers
  match laneStates.lookup sv.lane with
  | some ls =>
    if sv.nonce ≤ ls.nonce then throw (.other "nonce too low")
    if sv.amount ≤ ls.redeemed then
      throw (.other "voucher amount is lower than amount for voucher with lower nonce")
  | none => pure ()
  let totalRedeemed ← totalRedeemedWithVoucher laneStates sv
  if act.balance < totalRedeemed then
    throw (.insufficientFunds (totalRedeemed - act.balance))
  if sv.merges ≠ [] then throw (.other "dont currently support paych lane merges")
  return laneStates

/-- `addVoucherUnlocked`: the delta and error it returns, and the stored info. -/
def addVoucherUnlocked (env : PaychEnv) (ch : ℕ) (ci : ChannelInfo) (sv : SignedVoucher)
    (minDelta : ℤ) : (ℤ × Option PaychError) × ChannelInfo :=
  -- a voucher equal to a stored one is ignored: "AddVoucher: voucher re-added"
  if ci.vouchers.any (fun v => v.voucher == sv) then ((0, none), ci)
  else
    match checkVoucherValidUnlocked env ch ci.vouchers sv with
    | .error err => ((0, some err), ci)
    | .ok laneStates =>
      let redeemed := match laneStates.lookup sv.lane with
        | some laneState => laneState.redeemed
        | none => 0
      let delta := sv.amount - redeemed
      if minDelta > delta then
        ((delta, some (.other ("addVoucher: supplied token amount too low; minD=" ++
          toString minDelta ++ ", D=" ++ toString delta ++ "; laneAmt=" ++ toString redeemed ++
          "; v.Amt=" ++ toString sv.amount))), ci)
      else
        let ci := { ci with vouchers := ci.vouchers ++ [⟨sv, false⟩] }
        let ci := if ci.nextLane ≤ sv.lane
          then { ci with nextLane := GoInt.uint64 (sv.lane + 1 : ℕ) } else ci
        ((delta, none), ci)

/-- `createVoucher`: the voucher gets the channel address and the next nonce of its lane, is
signed by `Control`, and is added with no minimum delta. -/
def createVoucher (env : PaychEnv) (ch : ℕ) (ci : ChannelInfo) (voucher : SignedVoucher) :
    Except PaychError VoucherCreateResult × ChannelInfo :=
  let sv := { voucher with channelAddr := ch, nonce := nextNonceForLane ci voucher.lane }
  match env.walletSign ci.control sv.signingBytes with
  | .error err => (.error (.other ("failed to sign voucher: " ++ err)), ci)
  | .ok sig =>
    let sv := { sv with signature := some sig }
    match addVoucherUnlocked env ch ci sv 0 with
    | ((_, some (.insufficientFunds shortfall)), ci') => (.ok ⟨none, shortfall⟩, ci')
    | ((_, some err), ci') => (.error (.other ("failed to persist voucher: " ++ err.text)), ci')
    | ((_, none), ci') => (.ok ⟨some sv, 0⟩, ci')

/-- `submitVoucher`: the voucher is pushed in an `Update` message, then stored if it was not,
and marked submitted with the lower nonces of its lane. -/
def submitVoucher (env : PaychEnv) (ch : ℕ) (ci : ChannelInfo) (sv : SignedVoucher)
    (secret : List UInt8) : Except PaychError ℕ × ChannelInfo :=
  let has := ci.hasVoucher sv
  let submitted := if has then ci.wasVoucherSubmitted sv else .ok false
  match submitted with
  | .error err => (.error (.other err), ci)
  | .ok true => (.error (.other "cannot submit voucher that has already been submitted"), ci)
  | .ok false =>
    match env.pushUpdate ci.control ch sv secret with
    | .error err => (.error (.other err), ci)
    | .ok cid =>
      let ci' := if has then ci else { ci with vouchers := ci.vouchers ++ [⟨sv, false⟩] }
      match ci'.markVoucherSubmitted sv with
      | .error err => (.error (.other err), ci)
      | .ok ci'' => (.ok cid, ci'')

/-! ## Laying vouchers over the lane states -/

theorem applyVoucher_of_le {laneStates : Lanes} {v : VoucherInfo}
    (h : ∀ ls, laneStates.lookup v.voucher.lane = some ls → ls.nonce ≤ v.voucher.nonce) :
    applyVoucher laneStates v = laneStates.insert v.voucher.lane (LaneState.ofVoucher v.voucher) := by
  unfold applyVoucher
  cases hl : laneStates.lookup v.voucher.lane with
  | none => rfl
  | some ls => simp only [if_neg (Nat.not_lt.mpr (h ls hl))]

theorem lookup_applyVoucher_of_ne {laneStates : Lanes} {v : VoucherInfo} {l : ℕ}
    (hl : l ≠ v.voucher.lane) : (applyVoucher laneStates v).lookup l = laneStates.lookup l := by
  unfold applyVoucher
  split
  · split
    · rfl
    · exact AList.lookup_insert_ne hl
  · exact AList.lookup_insert_ne hl

/-- Stored vouchers without merges are laid over the lane states one after another. -/
theorem foldlM_laneState_of_noMerges :
    ∀ (vouchers : List VoucherInfo) (laneStates : Lanes), (∀ v ∈ vouchers, v.voucher.merges = []) →
      vouchers.foldlM (fun laneStates v =>
        if v.voucher.merges ≠ [] then .error (.other "paych merges not handled yet")
        else .ok (applyVoucher laneStates v)) laneStates =
        (.ok (vouchers.foldl applyVoucher laneStates) : Except PaychError Lanes)
  | [], _, _ => rfl
  | v :: vouchers, laneStates, h => by
    have hv : v.voucher.merges = [] := h v List.mem_cons_self
    rw [List.foldlM_cons, List.foldl_cons, if_neg (not_not.mpr hv)]
    exact foldlM_laneState_of_noMerges vouchers _ fun w hw => h w (List.mem_cons_of_mem _ hw)

theorem laneState_of_noMerges (state : PaychState) {vouchers : List VoucherInfo}
    (h : ∀ v ∈ vouchers, v.voucher.merges = []) :
    laneState state vouchers = .ok (vouchers.foldl applyVoucher state.laneStates) :=
  foldlM_laneState_of_noMerges vouchers _ h

/-- Putting a lane state in place of the old one changes the total by the difference. -/
theorem sumValues_insert_sub (laneStates : Lanes) (lane : ℕ) (new : LaneState) :
    (laneStates.insert lane new).sumValues LaneState.redeemed - laneStates.sumValues LaneState.redeemed =
      new.redeemed - ((laneStates.lookup lane).map LaneState.redeemed).getD 0 := by
  rw [AList.sumValues_insert]
  cases hl : laneStates.lookup lane with
  | none =>
    have hnot : lane ∉ laneStates := by simp [← AList.lookup_eq_none, hl]
    rw [AList.erase_of_notMem hnot]
    simp
  | some old =>
    rw [AList.sumValues_eq_add_erase LaneState.redeemed hl]
    simp only [Option.map_some, Option.getD_some]
    omega

/-- The total `totalRedeemedWithVoucher` computes for a voucher above its lane's state is the
total of the lane states with the voucher in its lane. -/
theorem totalRedeemedWithVoucher_eq {laneStates : Lanes} {sv : SignedVoucher}
    (hmerges : sv.merges = [])
    (habove : ∀ ls, laneStates.lookup sv.lane = some ls → ls.nonce < sv.nonce) :
    totalRedeemedWithVoucher laneStates sv =
      .ok ((laneStates.insert sv.lane (LaneState.ofVoucher sv)).sumValues LaneState.redeemed) := by
  have hsum := sumValues_insert_sub laneStates sv.lane (LaneState.ofVoucher sv)
  unfold totalRedeemedWithVoucher
  rw [if_neg (not_not.mpr hmerges)]
  cases hl : laneStates.lookup sv.lane with
  | none =>
    simp only [hl, Option.map_none, Option.getD_none, LaneState.ofVoucher] at hsum ⊢
    congr 1
    omega
  | some ls =>
    simp only [hl, Option.map_some, Option.getD_some, LaneState.ofVoucher] at hsum ⊢
    rw [if_pos (habove ls hl)]
    congr 1
    omega

/-! ## What a valid voucher is -/

/-- Everything `checkVoucherValidUnlocked` checks of a voucher it accepts. -/
theorem checkVoucherValidUnlocked_ok {env : PaychEnv} {ch : ℕ} {vouchers : List VoucherInfo}
    {sv : SignedVoucher} {laneStates : Lanes}
    (h : checkVoucherValidUnlocked env ch vouchers sv = .ok laneStates) :
    ∃ act, env.loadPaychActorState = .ok act ∧ laneState act.state vouchers = .ok laneStates ∧
      sv.merges = [] ∧
      (∀ ls, laneStates.lookup sv.lane = some ls → ls.nonce < sv.nonce ∧ ls.redeemed < sv.amount) ∧
      (laneStates.insert sv.lane (LaneState.ofVoucher sv)).sumValues LaneState.redeemed ≤
        act.balance := by
  unfold checkVoucherValidUnlocked at h
  simp only [bind, Except.bind, pure, Except.pure, throw, throwThe, MonadExceptOf.throw,
    Except.mapError] at h
  -- every call the check makes either fails, and then so does the check, or hands on its value
  by_cases hch : sv.channelAddr ≠ ch
  · rw [if_pos hch] at h
    cases h
  rw [if_neg hch] at h
  cases hload : env.loadPaychActorState with
  | error e => simp only [hload] at h; cases h
  | ok act =>
  cases hres : env.resolveToKeyAddress act.state.from' with
  | error e => simp only [hload, hres] at h; cases h
  | ok from' =>
  cases hver : env.verify sv.signature from' sv.signingBytes with
  | error e => simp only [hload, hres, hver] at h; cases h
  | ok u =>
  cases hls : laneState act.state vouchers with
  | error e => simp only [hload, hres, hver, hls] at h; cases h
  | ok ls =>
  cases ht : totalRedeemedWithVoucher ls sv with
  | error e =>
    simp only [hload, hres, hver, hls, ht] at h
    cases hl : ls.lookup sv.lane with
    | none => simp only [hl] at h; cases h
    | some s => simp only [hl] at h; split_ifs at h
  | ok total =>
  simp only [hload, hres, hver, hls, ht] at h
  -- what is left: the lane's nonce and amount, the balance and the merges
  have htail : (∀ s, ls.lookup sv.lane = some s → s.nonce < sv.nonce ∧ s.redeemed < sv.amount) ∧
      ¬act.balance < total ∧ sv.merges = [] ∧ ls = laneStates := by
    cases hl : ls.lookup sv.lane with
    | none =>
      simp only [hl] at h
      split_ifs at h with hb hm
      cases h
      refine ⟨fun s hs => ?_, hb, not_not.mp hm, rfl⟩
      cases hs
    | some s =>
      simp only [hl] at h
      split_ifs at h with hn ha hb hm
      cases h
      refine ⟨fun s' hs' => ?_, hb, not_not.mp hm, rfl⟩
      cases hs'
      exact ⟨Nat.lt_of_not_le hn, lt_of_not_ge ha⟩
  obtain ⟨habove, hb, hm, rfl⟩ := htail
  refine ⟨act, rfl, hls, hm, habove, ?_⟩
  rw [totalRedeemedWithVoucher_eq hm fun s hs => (habove s hs).1, Except.ok.injEq] at ht
  omega

/-! ## What a call can do -/

/-- `addVoucherUnlocked` stores `sv`: the voucher passed every check against `laneStates`, the
stored vouchers laid over the chain's lanes; it is above its lane's state and the channel's
balance covers the lanes with it in place; the returned delta is what it adds to the total; and
the info gets the voucher appended and, past `NextLane`, the lane after it. -/
def Accepted (env : PaychEnv) (ci : ChannelInfo) (sv : SignedVoucher) (delta : ℤ)
    (ci' : ChannelInfo) : Prop :=
  ∃ act laneStates, env.loadPaychActorState = .ok act ∧
    laneState act.state ci.vouchers = .ok laneStates ∧ sv.merges = [] ∧
    (∀ ls, laneStates.lookup sv.lane = some ls → ls.nonce < sv.nonce ∧ ls.redeemed < sv.amount) ∧
    (laneStates.insert sv.lane (LaneState.ofVoucher sv)).sumValues LaneState.redeemed ≤
      act.balance ∧
    delta = (laneStates.insert sv.lane (LaneState.ofVoucher sv)).sumValues LaneState.redeemed -
      laneStates.sumValues LaneState.redeemed ∧
    ci' = { ci with vouchers := ci.vouchers ++ [⟨sv, false⟩],
                    nextLane := if ci.nextLane ≤ sv.lane then GoInt.uint64 (sv.lane + 1 : ℕ)
                      else ci.nextLane }

/-- `addVoucherUnlocked` leaves the info as it was (a stored voucher again, a failed check, a
delta below `minDelta`) or accepts the voucher, without error. -/
theorem addVoucherUnlocked_cases (env : PaychEnv) (ch : ℕ) (ci : ChannelInfo) (sv : SignedVoucher)
    (minDelta : ℤ) :
    (addVoucherUnlocked env ch ci sv minDelta).2 = ci ∨
      (addVoucherUnlocked env ch ci sv minDelta).1.2 = none ∧
        Accepted env ci sv (addVoucherUnlocked env ch ci sv minDelta).1.1
          (addVoucherUnlocked env ch ci sv minDelta).2 := by
  unfold addVoucherUnlocked
  split
  · exact .inl rfl
  cases hc : checkVoucherValidUnlocked env ch ci.vouchers sv with
  | error err => exact .inl rfl
  | ok laneStates =>
    obtain ⟨act, hload, hls, hm, habove, hbal⟩ := checkVoucherValidUnlocked_ok hc
    simp only
    split_ifs with hd hlane
    · exact .inl rfl
    all_goals
      refine .inr ⟨rfl, act, laneStates, hload, hls, hm, habove, hbal, ?_, by simp [hlane]⟩
      -- the delta is the voucher's amount less its lane's redeemed amount
      rw [sumValues_insert_sub]
      cases laneStates.lookup sv.lane <;> rfl

/-- `createVoucher` leaves the info as it was or stores, and returns, the voucher it made on the
lane asked for, by the accepted path of `addVoucherUnlocked`. -/
theorem createVoucher_cases (env : PaychEnv) (ch : ℕ) (ci : ChannelInfo) (voucher : SignedVoucher) :
    (createVoucher env ch ci voucher).2 = ci ∨
      ∃ sv delta, sv.lane = voucher.lane ∧ (createVoucher env ch ci voucher).1 = .ok ⟨some sv, 0⟩ ∧
        Accepted env ci sv delta (createVoucher env ch ci voucher).2 := by
  unfold createVoucher
  simp only
  split
  · exact .inl rfl
  rename_i sig _
  rcases addVoucherUnlocked_cases env ch ci
      { voucher with
        channelAddr := ch, nonce := nextNonceForLane ci voucher.lane, signature := some sig }
      0 with hsame | ⟨hnone, hacc⟩
  · left
    split <;> rename_i heq <;> rw [heq] at hsame <;> exact hsame
  · split <;> rename_i heq <;> rw [heq] at hnone hacc
    · cases hnone
    · cases hnone
    · refine .inr ⟨_, _, ?_, rfl, hacc⟩
      rfl

end Paych

end Lotus
