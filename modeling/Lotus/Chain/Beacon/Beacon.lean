import Mathlib
import Lotus.Lib.Cbor
import Lotus.Lib.GoInt

/-!
# Beacon entries in blocks (`chain/beacon/beacon.go`)

A block carries the randomness-beacon entries drawn since its parent.  A miner makes the list
with `BeaconEntriesForBlock` and every node checks it with `ValidateBlockValues`.  Both first
ask the `Schedule` which beacon serves the parent's epoch and which serves the block's.  When
they differ the block is at a fork of the schedule: the miner takes the entries of rounds
`M - 1` and `M`, `M` being the new beacon's `MaxBeaconRoundForEpoch` at the block's epoch, and
the validator checks only that there are two and that the second follows the first.  Otherwise
the miner walks down from `M` to the round after the parent's last entry, and reverses what it
fetched; the validator checks that the list ends at `M` and that each entry follows the one
before it, starting from the parent's entry.

The beacons are numbered, so that a schedule compares them as Go compares interface values, by
identity.  `Honest genuine b` is a beacon as the specification describes it: `Entry` returns the
genuine entry of the round asked for, and `VerifyEntry curr prev` accepts exactly when `prev`
is round 0 or `curr` is the genuine entry of the round after `prev`.  The miner's walk has a
bound on its iterations (`fuel`): nothing in the code bounds it when a beacon misbehaves.

**What holds.**  Away from a fork, the validator accepts a list exactly when it is the genuine
entries of the rounds after the parent's, up to `M` (`validateBlockValues_eq_ok_iff`), and the
miner makes that list (`beaconEntriesForBlock_eq`), so what one side makes the other accepts.
`reverse`, the swap loop, is `List.reverse`.

**What does not.**  At a fork the validator does not compare the rounds with `M`, and when the
first entry is round 0 it accepts any second entry (`validateBlockValues_fork_unanchored`).
-/

namespace Lotus

namespace Beacon

/-! ## Reversing in place -/

section Reverse

variable {α : Type*}

/-- `arr[i], arr[j] = arr[j], arr[i]`; out of range Go panics, and the list is left alone. -/
def swapAt (arr : List α) (i j : ℕ) : List α :=
  match arr[i]?, arr[j]? with
  | some a, some b => (arr.set i b).set j a
  | _, _ => arr

/-- `reverse`: for `i < len(arr)/2`, swap `arr[i]` and `arr[len(arr)-(1+i)]`. -/
def reverse (arr : List α) : List α :=
  (List.range (arr.length / 2)).foldl (fun acc i => swapAt acc i (arr.length - (1 + i))) arr

/-- After the first `k` swaps, the first `k` and the last `k` places hold the reversed list and
the middle is untouched. -/
lemma getElem?_swaps (arr : List α) {k : ℕ} (hk : k ≤ arr.length / 2) :
    let acc := (List.range k).foldl (fun acc i => swapAt acc i (arr.length - (1 + i))) arr
    acc.length = arr.length ∧ ∀ j < arr.length,
      acc[j]? = if j < k ∨ arr.length - k ≤ j then arr[arr.length - 1 - j]? else arr[j]? := by
  induction k with
  | zero =>
    refine ⟨rfl, fun j hj => ?_⟩
    rw [if_neg (by omega)]
    rfl
  | succ k ih =>
    obtain ⟨hlen, hget⟩ := ih (by omega)
    simp only [List.range_succ, List.foldl_append, List.foldl_cons, List.foldl_nil]
    set acc := (List.range k).foldl (fun acc i => swapAt acc i (arr.length - (1 + i))) arr
    set n := arr.length
    -- the two places of the `k`-th swap are still untouched
    have hkn : k < n - (1 + k) := by omega
    obtain ⟨a, ha⟩ : ∃ a, acc[k]? = some a := by
      rw [hget k (by omega), if_neg (by omega)]
      exact ⟨_, List.getElem?_eq_getElem (by omega)⟩
    obtain ⟨b, hb⟩ : ∃ b, acc[n - (1 + k)]? = some b := by
      rw [hget _ (by omega), if_neg (by omega)]
      exact ⟨_, List.getElem?_eq_getElem (by omega)⟩
    have hswap : swapAt acc k (n - (1 + k)) = (acc.set k b).set (n - (1 + k)) a := by
      simp [swapAt, ha, hb]
    rw [hswap]
    refine ⟨by simp [hlen], fun j hj => ?_⟩
    rw [List.getElem?_set, List.getElem?_set]
    by_cases hj1 : n - (1 + k) = j
    · subst hj1
      rw [if_pos rfl, if_pos (by simp [hlen]; omega), if_pos (by omega), ← ha,
        hget k (by omega), if_neg (by omega)]
      congr 1
      omega
    · rw [if_neg hj1]
      by_cases hj2 : k = j
      · subst hj2
        rw [if_pos rfl, if_pos (by simp [hlen]; omega), if_pos (by omega), ← hb,
          hget _ (by omega), if_neg (by omega)]
        congr 1
        omega
      · rw [if_neg hj2, hget j hj]
        by_cases hin : j < k ∨ n - k ≤ j
        · rw [if_pos hin, if_pos (by omega)]
        · rw [if_neg hin, if_neg (by omega)]

/-- **The swap loop reverses.** -/
theorem reverse_eq (arr : List α) : reverse arr = arr.reverse := by
  obtain ⟨hlen, hget⟩ := getElem?_swaps arr (le_refl (arr.length / 2))
  apply List.ext_getElem?
  intro j
  by_cases hj : j < arr.length
  · rw [reverse, hget j hj, List.getElem?_reverse hj]
    split_ifs with h
    · rfl
    · congr 1
      omega
  · rw [List.getElem?_eq_none (by simp [reverse, hlen]; omega),
      List.getElem?_eq_none (by simp; omega)]

end Reverse

/-! ## The model -/

/-- `types.BeaconEntry`. -/
structure BeaconEntry where
  round : ℕ
  data : List UInt8
  deriving DecidableEq

/-- A `RandomBeacon`: what `Entry` returns for a round, `VerifyEntry curr prev`, and
`MaxBeaconRoundForEpoch`, a `uint64`. -/
structure RandomBeacon where
  entry : ℕ → Except String BeaconEntry
  verifyEntry : BeaconEntry → BeaconEntry → Except String Unit
  maxBeaconRoundForEpoch : ℤ → ℕ
  maxBeaconRoundForEpoch_lt : ∀ e, maxBeaconRoundForEpoch e < 2 ^ 64

/-- `BeaconPoint`, with its beacon by number. -/
structure BeaconPoint where
  start : ℤ
  beacon : ℕ
  deriving DecidableEq

/-- `Schedule`; `BeaconForEpoch` reads its first point, so it is never empty. -/
structure Schedule where
  points : List BeaconPoint
  ne_nil : points ≠ []

/-- `types.BlockHeader`, the fields the checks read. -/
structure BlockHeader where
  height : ℤ
  beaconEntries : List BeaconEntry

/-- `Schedule.BeaconForEpoch`: the last point starting at or before `e`, or else the first. -/
def Schedule.beaconForEpoch (bs : Schedule) (e : ℤ) : ℕ :=
  match bs.points.reverse.find? (fun bp => decide (bp.start ≤ e)) with
  | some bp => bp.beacon
  | none => (bs.points.head bs.ne_nil).beacon

/-- A `BeaconEntry` in `%v`: `{round [data bytes]}`. -/
def formatEntry (e : BeaconEntry) : String :=
  "\x7b" ++ toString e.round ++ " [" ++ " ".intercalate (e.data.map fun b => toString b.toNat) ++
    "]\x7d"

/-- The loop of `ValidateBlockValues` over the entries: each must follow the one before it,
the first following the parent's entry. -/
def verifyEntries (b : RandomBeacon) : ℕ → BeaconEntry → List BeaconEntry → Except String Unit
  | _, _, [] => .ok ()
  | i, prevEntry, e :: es =>
    match b.verifyEntry e prevEntry with
    | .error err =>
      .error ("beacon entry " ++ toString i ++ " (" ++ toString e.round ++ " - " ++
        Cbor.hexBytes e.data ++ " (" ++ toString e.data.length ++ ")) was invalid: " ++ err)
    | .ok () => verifyEntries b (i + 1) e es

/-- `ValidateBlockValues`. -/
def validateBlockValues (beacons : ℕ → RandomBeacon) (bs : Schedule) (h : BlockHeader)
    (parentEpoch : ℤ) (prevEntry : BeaconEntry) : Except String Unit :=
  let parentBeacon := bs.beaconForEpoch parentEpoch
  let currBeacon := bs.beaconForEpoch h.height
  if parentBeacon ≠ currBeacon then
    match h.beaconEntries with
    | [e0, e1] =>
      ((beacons currBeacon).verifyEntry e1 e0).mapError fun err =>
        "beacon at fork point invalid: (" ++ formatEntry e1 ++ ", " ++ formatEntry e0 ++ "): " ++ err
    | es => .error ("expected two beacon entries at beacon fork, got " ++ toString es.length)
  else
    let b := beacons currBeacon
    let maxRound := b.maxBeaconRoundForEpoch h.height
    if maxRound = prevEntry.round then
      if h.beaconEntries.length ≠ 0 then
        .error ("expected not to have any beacon entries in this block, got " ++
          toString h.beaconEntries.length)
      else .ok ()
    else
      match h.beaconEntries.getLast? with
      | none => .error "expected to have beacon entries in this block, but didn\x27t find any"
      | some last =>
        if last.round ≠ maxRound then
          .error ("expected final beacon entry in block to be at round " ++ toString maxRound ++
            ", got " ++ toString last.round)
        else verifyEntries b 0 prevEntry h.beaconEntries

/-- The loop of `BeaconEntriesForBlock`: while `cur` is above `prevRound`, fetch round `cur`,
append it, and go on from the round before the one returned; at most `fuel` fetches. -/
def fetchEntries (b : RandomBeacon) (prevRound : ℕ) :
    ℕ → ℕ → List BeaconEntry → Option (Except String (List BeaconEntry))
  | 0, cur, out => if cur ≤ prevRound then some (.ok out) else none
  | fuel + 1, cur, out =>
    if cur ≤ prevRound then some (.ok out)
    else
      match b.entry cur with
      | .error e => some (.error ("beacon entry request returned error: " ++ e))
      | .ok entry => fetchEntries b prevRound fuel (GoInt.uint64 (entry.round - 1)) (out ++ [entry])

/-- `BeaconEntriesForBlock`, with a bound on the fetches of its loop (`none` past it). -/
def beaconEntriesForBlock (beacons : ℕ → RandomBeacon) (bs : Schedule) (fuel : ℕ)
    (epoch parentEpoch : ℤ) (prev : BeaconEntry) : Option (Except String (List BeaconEntry)) :=
  let parentBeacon := bs.beaconForEpoch parentEpoch
  let currBeacon := bs.beaconForEpoch epoch
  if parentBeacon ≠ currBeacon then
    -- fork logic: the entries of rounds `round - 1` and `round` of the new beacon
    let b := beacons currBeacon
    let round := b.maxBeaconRoundForEpoch epoch
    some (match b.entry (GoInt.uint64 (round - 1)) with
      | .error e =>
        .error ("getting entry " ++ toString (GoInt.uint64 (round - 1)) ++ " returned error: " ++ e)
      | .ok e0 =>
        match b.entry round with
        | .error e => .error ("getting entry " ++ toString round ++ " returned error: " ++ e)
        | .ok e1 => .ok [e0, e1])
  else
    let b := beacons currBeacon
    let maxRound := b.maxBeaconRoundForEpoch epoch
    if maxRound = prev.round then some (.ok [])
    else
      -- the genesis block has no beacon entry: start from the round before `maxRound`
      let prevRound := if prev.round = 0 then maxRound - 1 else prev.round
      (fetchEntries b prevRound fuel maxRound []).map fun r => r.map reverse

/-! ## An honest beacon -/

/-- The beacon of the specification: `Entry` returns round `r`'s genuine entry, and
`VerifyEntry curr prev` accepts exactly when `prev` is round 0 or `curr` is the genuine entry
of the round after `prev`. -/
structure Honest (genuine : ℕ → List UInt8) (b : RandomBeacon) : Prop where
  entry_eq : ∀ r, b.entry r = .ok ⟨r, genuine r⟩
  verifyEntry_eq_ok : ∀ curr prev, b.verifyEntry curr prev = .ok () ↔
    prev.round = 0 ∨ (curr.data = genuine curr.round ∧ curr.round = prev.round + 1)

/-- The genuine entries of the `n` rounds from `lo`. -/
def genuineRun (genuine : ℕ → List UInt8) (lo n : ℕ) : List BeaconEntry :=
  (List.range n).map fun i => ⟨lo + i, genuine (lo + i)⟩

@[simp] lemma genuineRun_zero (genuine : ℕ → List UInt8) (lo : ℕ) : genuineRun genuine lo 0 = [] :=
  rfl

@[simp] lemma length_genuineRun (genuine : ℕ → List UInt8) (lo n : ℕ) :
    (genuineRun genuine lo n).length = n := by
  simp [genuineRun]

lemma genuineRun_succ (genuine : ℕ → List UInt8) (lo n : ℕ) :
    genuineRun genuine lo (n + 1) = ⟨lo, genuine lo⟩ :: genuineRun genuine (lo + 1) n := by
  simp only [genuineRun, List.range_succ_eq_map, List.map_cons, List.map_map, Nat.add_zero]
  congr 2
  funext i
  rw [Function.comp_apply, Nat.succ_eq_add_one, Nat.add_comm i 1, Nat.add_assoc]

lemma genuineRun_succ_right (genuine : ℕ → List UInt8) (lo n : ℕ) :
    genuineRun genuine lo (n + 1) = genuineRun genuine lo n ++ [⟨lo + n, genuine (lo + n)⟩] := by
  simp [genuineRun, List.range_succ]

variable {genuine : ℕ → List UInt8} {b : RandomBeacon}

/-- After an entry of a round other than 0, the entries `VerifyEntry` accepts one after the other
are the genuine entries of the rounds that follow. -/
lemma verifyEntries_eq_ok_iff (hb : Honest genuine b) :
    ∀ (es : List BeaconEntry) (i : ℕ) (prev : BeaconEntry), 0 < prev.round →
      (verifyEntries b i prev es = .ok () ↔ es = genuineRun genuine (prev.round + 1) es.length)
  | [], _, _, _ => by simp [verifyEntries]
  | e :: es, i, prev, hprev => by
    have hfollow : b.verifyEntry e prev = .ok () ↔
        e.data = genuine e.round ∧ e.round = prev.round + 1 := by
      rw [hb.verifyEntry_eq_ok]
      exact or_iff_right (Nat.pos_iff_ne_zero.1 hprev)
    rw [List.length_cons, genuineRun_succ, List.cons.injEq]
    by_cases he : e.data = genuine e.round ∧ e.round = prev.round + 1
    · obtain ⟨hdata, hround⟩ := he
      have hok : b.verifyEntry e prev = .ok () := hfollow.2 ⟨hdata, hround⟩
      have hrest := verifyEntries_eq_ok_iff hb es (i + 1) e (by omega)
      have he : e = ⟨prev.round + 1, genuine (prev.round + 1)⟩ := by
        cases e
        simp only at hdata hround
        subst hround
        rw [hdata]
      simp only [verifyEntries, hok]
      rw [hrest, hround]
      exact ⟨fun h => ⟨he, h⟩, fun h => h.2⟩
    · have hne : ¬e = ⟨prev.round + 1, genuine (prev.round + 1)⟩ := by
        rintro rfl
        exact he ⟨rfl, rfl⟩
      simp only [hne, false_and, iff_false]
      cases hv : b.verifyEntry e prev with
      | error err => simp [verifyEntries, hv]
      | ok u => exact absurd (hfollow.1 hv) he

lemma getLast?_genuineRun (genuine : ℕ → List UInt8) (lo n : ℕ) :
    (genuineRun genuine lo (n + 1)).getLast? = some ⟨lo + n, genuine (lo + n)⟩ := by
  rw [genuineRun_succ_right, List.getLast?_concat]

/-! ## The validator away from a fork -/

/-- **What the validator accepts away from a fork.**  When the parent's epoch and the block's are
served by the same honest beacon and the parent's entry is of a round other than 0, the
validator accepts exactly the genuine entries of the rounds after the parent's, up to the
beacon's `MaxBeaconRoundForEpoch` at the block's height: none when the parent's entry is already
of that round. -/
theorem validateBlockValues_eq_ok_iff {beacons : ℕ → RandomBeacon} {bs : Schedule}
    {h : BlockHeader} {parentEpoch : ℤ}
    (hsame : bs.beaconForEpoch parentEpoch = bs.beaconForEpoch h.height)
    (hb : Honest genuine (beacons (bs.beaconForEpoch h.height))) {prevEntry : BeaconEntry}
    (hprev : 0 < prevEntry.round) :
    validateBlockValues beacons bs h parentEpoch prevEntry = .ok () ↔
      prevEntry.round ≤ (beacons (bs.beaconForEpoch h.height)).maxBeaconRoundForEpoch h.height ∧
      h.beaconEntries = genuineRun genuine (prevEntry.round + 1)
        ((beacons (bs.beaconForEpoch h.height)).maxBeaconRoundForEpoch h.height - prevEntry.round) := by
  set M := (beacons (bs.beaconForEpoch h.height)).maxBeaconRoundForEpoch h.height with hMdef
  set p := prevEntry.round
  unfold validateBlockValues
  simp only [hsame, ne_eq, not_true_eq_false, if_false, ← hMdef]
  by_cases hM : M = p
  · -- the parent's entry is already of round `M`: the block must carry none
    rw [if_pos hM, hM, Nat.sub_self, genuineRun_zero]
    by_cases hlen : h.beaconEntries.length = 0
    · simp [List.length_eq_zero_iff.1 hlen]
    · simp only [hlen, not_false_eq_true, if_true, reduceCtorEq, false_iff, not_and]
      intro _ hnil
      exact hlen (by rw [hnil]; rfl)
  · rw [if_neg hM]
    -- a run of the rounds after `p` ends at `p` plus its length
    have hend : ∀ n last, (genuineRun genuine (p + 1) n).getLast? = some last →
        last.round = p + n ∧ 0 < n := by
      intro n last hl
      cases n with
      | zero => cases hl
      | succ k =>
        rw [getLast?_genuineRun, Option.some.injEq] at hl
        subst hl
        exact ⟨by dsimp only; omega, Nat.succ_pos k⟩
    cases hlast : h.beaconEntries.getLast? with
    | none =>
      have hnil : h.beaconEntries = [] := List.getLast?_eq_none_iff.1 hlast
      simp only [reduceCtorEq, false_iff, not_and, hnil]
      intro hle hrun
      have hlen := congrArg List.length hrun
      simp only [List.length_nil, length_genuineRun] at hlen
      omega
    | some last =>
      dsimp only
      by_cases hround : last.round = M
      · rw [if_neg (not_not.2 hround), verifyEntries_eq_ok_iff hb h.beaconEntries 0 prevEntry hprev]
        constructor
        · intro hrun
          rw [hrun] at hlast
          obtain ⟨hlr, -⟩ := hend _ last hlast
          rw [← hrun] at hlast
          refine ⟨by omega, ?_⟩
          rw [hrun, show h.beaconEntries.length = M - p by omega]
        · rintro ⟨-, hrun⟩
          rw [hrun, length_genuineRun]
      · rw [if_pos hround]
        simp only [reduceCtorEq, false_iff, not_and]
        intro _ hrun
        rw [hrun] at hlast
        exact hround ((hend _ last hlast).1.trans (by omega))

/-! ## The validator at a fork -/

/-- At a fork the validator accepts two entries exactly when the new beacon's `VerifyEntry`
accepts the second after the first: neither round is compared with `MaxBeaconRoundForEpoch`. -/
lemma validateBlockValues_fork_eq_ok_iff {beacons : ℕ → RandomBeacon} {bs : Schedule}
    {epoch parentEpoch : ℤ} (hfork : bs.beaconForEpoch parentEpoch ≠ bs.beaconForEpoch epoch)
    (hb : Honest genuine (beacons (bs.beaconForEpoch epoch))) (prevEntry e0 e1 : BeaconEntry) :
    validateBlockValues beacons bs ⟨epoch, [e0, e1]⟩ parentEpoch prevEntry = .ok () ↔
      e0.round = 0 ∨ (e1.data = genuine e1.round ∧ e1.round = e0.round + 1) := by
  unfold validateBlockValues
  simp only [ne_eq, hfork, not_false_eq_true, if_true]
  rw [← hb.verifyEntry_eq_ok]
  cases (beacons (bs.beaconForEpoch epoch)).verifyEntry e1 e0 <;> simp [Except.mapError]

/-- **A fork block's entries are not tied to the beacon's rounds.**  At an epoch where the
schedule moves to another beacon, however honest that beacon, the validator accepts two entries
of which the first is of round 0 and the second anything at all, and it accepts any first entry
followed by the genuine entry of the next round, whatever round that is and whatever the
parent's entry. -/
theorem validateBlockValues_fork_unanchored {beacons : ℕ → RandomBeacon} {bs : Schedule}
    {epoch parentEpoch : ℤ} (hfork : bs.beaconForEpoch parentEpoch ≠ bs.beaconForEpoch epoch)
    (hb : Honest genuine (beacons (bs.beaconForEpoch epoch))) (prevEntry : BeaconEntry) :
    (∀ d e1, validateBlockValues beacons bs ⟨epoch, [⟨0, d⟩, e1]⟩ parentEpoch prevEntry = .ok ()) ∧
      ∀ e0, validateBlockValues beacons bs
        ⟨epoch, [e0, ⟨e0.round + 1, genuine (e0.round + 1)⟩]⟩ parentEpoch prevEntry = .ok () := by
  refine ⟨fun d e1 => ?_, fun e0 => ?_⟩
  · exact (validateBlockValues_fork_eq_ok_iff hfork hb prevEntry _ e1).2 (.inl rfl)
  · exact (validateBlockValues_fork_eq_ok_iff hfork hb prevEntry e0 _).2 (.inr ⟨rfl, rfl⟩)

/-- A beacon that behaves as `Honest` says, with a given `MaxBeaconRoundForEpoch`. -/
def honestBeacon (genuine : ℕ → List UInt8) (maxRound : ℤ → ℕ) (hmax : ∀ e, maxRound e < 2 ^ 64) :
    RandomBeacon where
  entry r := .ok ⟨r, genuine r⟩
  verifyEntry curr prev :=
    if prev.round = 0 ∨ (curr.data = genuine curr.round ∧ curr.round = prev.round + 1) then .ok ()
    else .error "invalid beacon value"
  maxBeaconRoundForEpoch := maxRound
  maxBeaconRoundForEpoch_lt := hmax

lemma honest_honestBeacon (maxRound : ℤ → ℕ) (hmax : ∀ e, maxRound e < 2 ^ 64) :
    Honest genuine (honestBeacon genuine maxRound hmax) := by
  refine ⟨fun r => rfl, fun curr prev => ?_⟩
  simp only [honestBeacon]
  split_ifs with h <;> simp [h]

theorem validateBlockValues_fork_unanchored_drandSwitch :
    let bs : Schedule := ⟨[⟨0, 0⟩, ⟨100, 1⟩], by simp⟩
    let beacons : ℕ → RandomBeacon :=
      fun _ => honestBeacon (fun r => [UInt8.ofNat r]) (fun _ => 50) fun _ => by decide
    bs.beaconForEpoch 99 ≠ bs.beaconForEpoch 100 ∧
      validateBlockValues beacons bs ⟨100, [⟨0, []⟩, ⟨7, [9]⟩]⟩ 99 ⟨5, [5]⟩ = .ok () ∧
      validateBlockValues beacons bs ⟨100, [⟨3, []⟩, ⟨4, [4]⟩]⟩ 99 ⟨5, [5]⟩ = .ok () := by
  intro bs beacons
  have hfork : bs.beaconForEpoch 99 ≠ bs.beaconForEpoch 100 := by decide
  have hb : Honest (fun r => [UInt8.ofNat r]) (beacons (bs.beaconForEpoch 100)) :=
    honest_honestBeacon _ _
  have h := validateBlockValues_fork_unanchored hfork hb ⟨5, [5]⟩
  exact ⟨hfork, h.1 [] ⟨7, [9]⟩, h.2 ⟨3, []⟩⟩

/-! ## The miner -/

/-- With an honest beacon the walk down from `cur` fetches the genuine entries of the rounds down
to the one after `p`, given enough iterations. -/
lemma fetchEntries_honest (hb : Honest genuine b) (p : ℕ) :
    ∀ fuel cur out, p ≤ cur → cur - p ≤ fuel → cur ≤ 2 ^ 64 →
      fetchEntries b p fuel cur out =
        some (.ok (out ++ (genuineRun genuine (p + 1) (cur - p)).reverse))
  | 0, cur, out, hp, hfuel, _ => by
    have hcur : cur = p := by omega
    subst hcur
    simp [fetchEntries]
  | fuel + 1, cur, out, hp, hfuel, hcur => by
    by_cases hc : cur ≤ p
    · have hcp : cur = p := by omega
      subst hcp
      simp [fetchEntries]
    · -- the next round asked for is `cur - 1`: no `uint64` wrap above round 0
      have hnext : GoInt.uint64 ((cur : ℤ) - 1) = cur - 1 := by
        rw [show ((cur : ℤ) - 1) = ((cur - 1 : ℕ) : ℤ) by omega]
        exact GoInt.uint64_of_lt (by omega)
      have hrest := fetchEntries_honest hb p fuel (cur - 1) (out ++ [⟨cur, genuine cur⟩])
        (by omega) (by omega) (by omega)
      have hrun : genuineRun genuine (p + 1) (cur - p) =
          genuineRun genuine (p + 1) (cur - 1 - p) ++ [⟨cur, genuine cur⟩] := by
        rw [show cur - p = cur - 1 - p + 1 by omega, genuineRun_succ_right,
          show p + 1 + (cur - 1 - p) = cur by omega]
      rw [fetchEntries, if_neg hc, hb.entry_eq]
      dsimp only
      rw [hnext, hrest, hrun, List.reverse_append, List.reverse_singleton, List.append_assoc,
        List.singleton_append]

/-- **What the miner puts in a block away from a fork.**  With an honest beacon, a parent's entry
no later than `MaxBeaconRoundForEpoch` and enough iterations, the entries are the genuine ones of
the rounds after the parent's, up to `MaxBeaconRoundForEpoch`; after a genesis parent (round 0),
only the entry of that round. -/
theorem beaconEntriesForBlock_same {beacons : ℕ → RandomBeacon} {bs : Schedule}
    {epoch parentEpoch : ℤ} (hsame : bs.beaconForEpoch parentEpoch = bs.beaconForEpoch epoch)
    (hb : Honest genuine (beacons (bs.beaconForEpoch epoch))) {prev : BeaconEntry}
    (hprev : prev.round ≤ (beacons (bs.beaconForEpoch epoch)).maxBeaconRoundForEpoch epoch)
    {fuel : ℕ} (hfuel : (beacons (bs.beaconForEpoch epoch)).maxBeaconRoundForEpoch epoch ≤ fuel) :
    let M := (beacons (bs.beaconForEpoch epoch)).maxBeaconRoundForEpoch epoch
    let q := if prev.round = 0 then M - 1 else prev.round
    beaconEntriesForBlock beacons bs fuel epoch parentEpoch prev =
      some (.ok (genuineRun genuine (q + 1) (M - q))) := by
  intro M q
  have hM : M < 2 ^ 64 := (beacons _).maxBeaconRoundForEpoch_lt epoch
  unfold beaconEntriesForBlock
  simp only [hsame, ne_eq, not_true_eq_false, if_false]
  by_cases hMp : M = prev.round
  · rw [if_pos hMp]
    have hq : M - q = 0 := by
      simp only [q]
      split_ifs <;> omega
    rw [hq, genuineRun_zero]
  · rw [if_neg hMp]
    rw [fetchEntries_honest hb q fuel M [] (by simp only [q]; split_ifs <;> omega)
      (by omega) (by omega)]
    show some (Except.ok (reverse _)) = _
    rw [List.nil_append, reverse_eq, List.reverse_reverse]

/-- At a fork the miner puts in the entries of rounds `round - 1` and `round`, the first asked
for as a `uint64`. -/
lemma beaconEntriesForBlock_fork {beacons : ℕ → RandomBeacon} {bs : Schedule}
    {epoch parentEpoch : ℤ} (hfork : bs.beaconForEpoch parentEpoch ≠ bs.beaconForEpoch epoch)
    (hb : Honest genuine (beacons (bs.beaconForEpoch epoch))) (fuel : ℕ) (prev : BeaconEntry) :
    let M := (beacons (bs.beaconForEpoch epoch)).maxBeaconRoundForEpoch epoch
    beaconEntriesForBlock beacons bs fuel epoch parentEpoch prev =
      some (.ok [⟨GoInt.uint64 ((M : ℤ) - 1), genuine (GoInt.uint64 ((M : ℤ) - 1))⟩,
        ⟨M, genuine M⟩]) := by
  intro M
  unfold beaconEntriesForBlock
  simp only [ne_eq, hfork, not_false_eq_true, if_true, hb.entry_eq]
  rfl

/-- **What the miner makes, the validator accepts.**  With an honest beacon for the block's
epoch and enough iterations, the miner's entries pass the validator: away from a fork when the
parent's entry is no later than `MaxBeaconRoundForEpoch`, and at a fork when that round is not
0. -/
theorem beaconEntriesForBlock_accepted {beacons : ℕ → RandomBeacon} {bs : Schedule}
    {epoch parentEpoch : ℤ} (hb : Honest genuine (beacons (bs.beaconForEpoch epoch)))
    {prev : BeaconEntry}
    (hprev : bs.beaconForEpoch parentEpoch = bs.beaconForEpoch epoch →
      prev.round ≤ (beacons (bs.beaconForEpoch epoch)).maxBeaconRoundForEpoch epoch)
    (hfork : bs.beaconForEpoch parentEpoch ≠ bs.beaconForEpoch epoch →
      0 < (beacons (bs.beaconForEpoch epoch)).maxBeaconRoundForEpoch epoch)
    {fuel : ℕ} (hfuel : (beacons (bs.beaconForEpoch epoch)).maxBeaconRoundForEpoch epoch ≤ fuel) :
    ∃ L, beaconEntriesForBlock beacons bs fuel epoch parentEpoch prev = some (.ok L) ∧
      validateBlockValues beacons bs ⟨epoch, L⟩ parentEpoch prev = .ok () := by
  set M := (beacons (bs.beaconForEpoch epoch)).maxBeaconRoundForEpoch epoch with hMdef
  have hM : M < 2 ^ 64 := (beacons _).maxBeaconRoundForEpoch_lt epoch
  by_cases hs : bs.beaconForEpoch parentEpoch = bs.beaconForEpoch epoch
  · refine ⟨_, beaconEntriesForBlock_same hs hb (hprev hs) hfuel, ?_⟩
    by_cases h0 : prev.round = 0
    · -- after a genesis parent the block carries the entry of round `M` alone, or none
      simp only [h0, if_true, ← hMdef]
      unfold validateBlockValues
      simp only [hs, ne_eq, not_true_eq_false, if_false, ← hMdef, h0]
      by_cases hM0 : M = 0
      · simp [hM0]
      · rw [if_neg hM0, show M - (M - 1) = 0 + 1 by omega, genuineRun_succ, genuineRun_zero]
        simp only [List.getLast?_singleton, show M - 1 + 1 = M by omega, not_true_eq_false,
          if_false, verifyEntries]
        rw [(hb.verifyEntry_eq_ok _ _).2 (.inl h0)]
    · simp only [h0, if_false]
      exact (validateBlockValues_eq_ok_iff hs hb (Nat.pos_of_ne_zero h0)).2 ⟨hprev hs, rfl⟩
  · refine ⟨_, beaconEntriesForBlock_fork hs hb fuel prev, ?_⟩
    -- the first round asked for is `M - 1`: no wrap above round 0
    have hwrap : GoInt.uint64 ((M : ℤ) - 1) = M - 1 := by
      rw [show ((M : ℤ) - 1) = ((M - 1 : ℕ) : ℤ) by have := hfork hs; omega]
      exact GoInt.uint64_of_lt (by omega)
    rw [validateBlockValues_fork_eq_ok_iff hs hb, hwrap]
    exact .inr ⟨rfl, show M = M - 1 + 1 by have := hfork hs; omega⟩

/-- The block at the epoch the schedule moves to a second beacon, whose latest round is 50. -/
theorem beaconEntriesForBlock_accepted_drandSwitch :
    let bs : Schedule := ⟨[⟨0, 0⟩, ⟨100, 1⟩], by simp⟩
    let beacons : ℕ → RandomBeacon :=
      fun _ => honestBeacon (fun r => [UInt8.ofNat r]) (fun _ => 50) fun _ => by decide
    ∃ L, beaconEntriesForBlock beacons bs 50 100 99 ⟨5, [5]⟩ = some (.ok L) ∧
      validateBlockValues beacons bs ⟨100, L⟩ 99 ⟨5, [5]⟩ = .ok () := by
  intro bs beacons
  exact beaconEntriesForBlock_accepted (honest_honestBeacon _ _) (fun h => absurd h (by decide))
    (fun _ => by decide) le_rfl

/-- **A fork at round 0.**  When the new beacon's `MaxBeaconRoundForEpoch` is 0 at the fork, the
miner asks for round `0 - 1`, which as a `uint64` is `2^64 - 1`, and the validator refuses the two
entries it gets, however honest the beacon. -/
theorem beaconEntriesForBlock_fork_zero {beacons : ℕ → RandomBeacon} {bs : Schedule}
    {epoch parentEpoch : ℤ} (hfork : bs.beaconForEpoch parentEpoch ≠ bs.beaconForEpoch epoch)
    (hb : Honest genuine (beacons (bs.beaconForEpoch epoch)))
    (hM0 : (beacons (bs.beaconForEpoch epoch)).maxBeaconRoundForEpoch epoch = 0)
    (fuel : ℕ) (prev : BeaconEntry) :
    beaconEntriesForBlock beacons bs fuel epoch parentEpoch prev =
      some (.ok [⟨2 ^ 64 - 1, genuine (2 ^ 64 - 1)⟩, ⟨0, genuine 0⟩]) ∧
      validateBlockValues beacons bs ⟨epoch, [⟨2 ^ 64 - 1, genuine (2 ^ 64 - 1)⟩, ⟨0, genuine 0⟩]⟩
        parentEpoch prev ≠ .ok () := by
  have hwrap : GoInt.uint64 ((0 : ℕ) - 1 : ℤ) = 2 ^ 64 - 1 := by decide
  refine ⟨?_, ?_⟩
  · rw [beaconEntriesForBlock_fork hfork hb fuel prev]
    simp only [hM0, hwrap]
  · rw [Ne, validateBlockValues_fork_eq_ok_iff hfork hb]
    simp

/-- The epoch the schedule moves to a second beacon, which has no round yet. -/
theorem beaconEntriesForBlock_fork_zero_drandSwitch :
    let bs : Schedule := ⟨[⟨0, 0⟩, ⟨100, 1⟩], by simp⟩
    let beacons : ℕ → RandomBeacon :=
      fun _ => honestBeacon (fun r => [UInt8.ofNat r]) (fun _ => 0) fun _ => by decide
    beaconEntriesForBlock beacons bs 10 100 99 ⟨5, [5]⟩ =
        some (.ok [⟨2 ^ 64 - 1, [UInt8.ofNat (2 ^ 64 - 1)]⟩, ⟨0, [UInt8.ofNat 0]⟩]) ∧
      validateBlockValues beacons bs
        ⟨100, [⟨2 ^ 64 - 1, [UInt8.ofNat (2 ^ 64 - 1)]⟩, ⟨0, [UInt8.ofNat 0]⟩]⟩ 99 ⟨5, [5]⟩ ≠ .ok () := by
  intro bs beacons
  have hfork : bs.beaconForEpoch 99 ≠ bs.beaconForEpoch 100 := by decide
  have hb : Honest (fun r => [UInt8.ofNat r]) (beacons (bs.beaconForEpoch 100)) :=
    honest_honestBeacon _ _
  exact beaconEntriesForBlock_fork_zero hfork hb rfl 10 ⟨5, [5]⟩

end Beacon

end Lotus
