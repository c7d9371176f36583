import Lotus.Chain.Events.Tscache
import Lotus.Lib.RingBuffer
import Lotus.Lib.Simulation

/-!
# The ring of the tipset cache (`chain/events/tscache.go`)

`tipSetCache` itself: the slice `cache`, whose length is the capacity, the index `start` of the
head and the count `len`, indices reduced by `normalModulo`.  `add` advances one slot for each
null round and one for the tipset; `revertUnlocked` clears the head, moves back and calls itself
on `nil` to take the null rounds under it; `get` scans from the oldest slot of the window for the
tail, then reads the slot `headH - height` behind `start`.  Reading the height of a nil head or
tail is a panic, `none`.

**The ring refines the window.**  A `Valid` ring (`0 ≤ start < cap`, `len ≤ cap`, a tipset at
`start` when `len > 0`, nil behind the window) `Refines` the `TipSetCache` that holds its window,
and each call on the ring does what the call does on that cache: `add_sim` and `revert_sim`
(the same errors, or related results), `get_sim`, `getNonNull_sim` and `best_sim` (the same
answers, given the heights of the window are consecutive).  So along every run of calls from
`newTSCache cap` the ring never panics and holds the window the abstract calls build
(`run_refines`), and every answer it gives is the abstract one (`tipSetRing_run`); in particular,
for every height the window covers, `getNonNull` returns the tipset of least height at or above
it (`tipSetRing_run_getNonNull`).
-/

namespace Lotus

namespace Events

/-- Go's `normalModulo(n, m)`: `%` truncates, and adding `m` brings a negative remainder up. -/
def normalModulo (n m : ℤ) : ℤ :=
  ((n.tmod m) + m).tmod m

lemma normalModulo_eq {n m : ℤ} (hm : 0 < m) : normalModulo n m = n % m := by
  have hlo := Int.lt_tmod_of_pos n hm
  rw [normalModulo, Int.tmod_eq_emod_of_nonneg (by omega), ← Int.emod_eq_add_self_emod,
    Int.tmod_def, Int.sub_mul_emod_self_left]

/-- The fields of `tipSetCache` that its calls use: `cache`, `start` and `len`. -/
structure TipSetRing (α : Type*) where
  cache : List (Option α)
  start : ℤ
  len : ℕ

namespace TipSetRing

variable {α : Type*} [DecidableEq α] (api : ChainAPI α)

omit [DecidableEq α] in
/-- `cache[i]`, for an index the code keeps in range. -/
def slot (r : TipSetRing α) (i : ℤ) : Option α :=
  r.cache.getD i.toNat none

omit [DecidableEq α] in
/-- `newTSCache(cap, storage)`. -/
def newTSCache (cap : ℕ) : TipSetRing α :=
  ⟨List.replicate cap none, 0, 0⟩

omit [DecidableEq α] in
/-- A turn of the loop of `add`, and its last step: `start` moves to the next slot, which gets
`x`, and `len` grows up to the capacity. -/
def advance (r : TipSetRing α) (x : Option α) : TipSetRing α :=
  let start := normalModulo (r.start + 1) r.cache.length
  { cache := r.cache.set start.toNat x
    start := start
    len := if r.len < r.cache.length then r.len + 1 else r.len }

omit [DecidableEq α] in
/-- The loop of `add` that fills `n` null rounds. -/
def fillNulls (r : TipSetRing α) : ℕ → TipSetRing α
  | 0 => r
  | n + 1 => (r.advance none).fillNulls n

omit [DecidableEq α] in
/-- `add(ts)`. -/
def add (r : TipSetRing α) (ts : α) : Option (Except String (TipSetRing α)) :=
  if r.len > 0 then
    match r.slot r.start with
    | none => none
    | some hd =>
      if api.height hd ≥ api.height ts then
        some (.error ("tipSetCache.add: expected new tipset height to be at least " ++
          toString (api.height hd + 1) ++ ", was " ++ toString (api.height ts)))
      else
        -- the loop runs from `nextH = head + 1` up to the new height
        let nextH := api.height hd + 1
        some (.ok ((r.fillNulls (api.height ts - nextH).toNat).advance (some ts)))
  -- an empty cache starts at the new height: the loop does not run
  else some (.ok ((r.fillNulls 0).advance (some ts)))

omit [DecidableEq α] in
/-- The body of `revertUnlocked` after its check: the head slot is cleared, `start` moves back
and `len` shrinks. -/
def retreat (r : TipSetRing α) : TipSetRing α :=
  { cache := r.cache.set r.start.toNat none
    start := normalModulo (r.start - 1) r.cache.length
    len := r.len - 1 }

/-- `revertUnlocked(ts)`, `nil` being `none`, on the fuel `len`: a call that recurses leaves one
slot fewer.  `Equals` is equality, two nil tipsets being equal. -/
def revertUnlockedLoop : ℕ → TipSetRing α → Option α → Except String (TipSetRing α)
  | 0, r, _ => .ok r
  | fuel + 1, r, ts =>
    if r.len = 0 then .ok r
    else if r.slot r.start ≠ ts then
      .error "tipSetCache.revert: revert tipset didn't match cache head"
    else
      -- `revertUnlocked(nil)` takes the null rounds under the head; its error, at the first
      -- tipset below them, is dropped and changes nothing
      .ok ((revertUnlockedLoop fuel r.retreat none).toOption.getD r.retreat)

/-- `revertUnlocked(ts)`. -/
def revertUnlocked (r : TipSetRing α) (ts : Option α) : Except String (TipSetRing α) :=
  revertUnlockedLoop r.len r ts

/-- `revert(ts)`. -/
def revert (r : TipSetRing α) (ts : α) : Except String (TipSetRing α) :=
  r.revertUnlocked (some ts)

omit [DecidableEq α] in
/-- The loop of `get` that finds `tail`: the slots `start - len + i` for `i` from `1` to `len`,
up to the first tipset. -/
def findTail (r : TipSetRing α) : Option α :=
  ((List.range r.len).map fun i : ℕ =>
    r.slot (normalModulo (r.start - r.len + (i + 1)) r.cache.length)).findSome? id

omit [DecidableEq α] in
/-- `get(height)`. -/
def get (r : TipSetRing α) (h : ℤ) : Option (Except String (Option α)) :=
  if r.len = 0 then some ((api.getTipSetByHeight h none).map some)
  else
    match r.slot r.start with
    | none => none
    | some hd =>
      if h > api.height hd then
        some (.error ("tipSetCache.get: requested tipset not in cache (req: " ++ toString h ++
          ", cache head: " ++ toString (api.height hd) ++ ")"))
      else
        match r.findTail with
        | none => none
        | some tail =>
          if h < api.height tail then some ((api.getTipSetByHeight h (some tail)).map some)
          else some (.ok (r.slot (normalModulo (r.start - (api.height hd - h)) r.cache.length)))

omit [DecidableEq α] in
/-- The loop of `getNonNull`, on the fuel of the window's. -/
def getNonNullLoop (r : TipSetRing α) : ℕ → ℤ → Option (Except String α)
  | 0, _ => some (.error "getNonNull: out of fuel")
  | fuel + 1, h =>
    match r.get api h with
    | none => none
    | some (.error e) => some (.error e)
    | some (.ok (some ts)) => some (.ok ts)
    | some (.ok none) => r.getNonNullLoop fuel (h + 1)

omit [DecidableEq α] in
/-- `getNonNull(height)`. -/
def getNonNull (r : TipSetRing α) (h : ℤ) : Option (Except String α) :=
  r.getNonNullLoop api (r.len + 1) h

omit [DecidableEq α] in
/-- `best()`: the head slot, or the chain's head when it is nil. -/
def best (r : TipSetRing α) : Except String α :=
  match r.slot r.start with
  | some ts => .ok ts
  | none => api.chainHead

/-- One call on the ring; a call that fails leaves it as it was, and `none` is a panic. -/
def step (r : TipSetRing α) : CacheOp α → Option (TipSetRing α)
  | .add ts => (r.add api ts).map fun res => res.toOption.getD r
  | .revert ts => some ((r.revert ts).toOption.getD r)

/-- The calls `ops` one after another, up to a panic. -/
def run (r : TipSetRing α) (ops : List (CacheOp α)) : Option (TipSetRing α) :=
  ops.foldlM (step api) r

/-! ## The window and the invariant -/

/-- `revertUnlocked` as the code writes it, calling itself. -/
lemma revertUnlocked_eq (r : TipSetRing α) (ts : Option α) :
    r.revertUnlocked ts =
      if r.len = 0 then .ok r
      else if r.slot r.start ≠ ts then
        .error "tipSetCache.revert: revert tipset didn't match cache head"
      else .ok ((r.retreat.revertUnlocked none).toOption.getD r.retreat) := by
  cases hn : r.len with
  | zero => rw [revertUnlocked, hn, revertUnlockedLoop, if_pos rfl]
  | succ n =>
    have hret : r.retreat.len = n := by simp [retreat, hn]
    rw [revertUnlocked, hn, revertUnlockedLoop, revertUnlocked, hret, hn]

omit [DecidableEq α] in
/-- The window of the ring: the `len` slots from `start` backwards. -/
def window (r : TipSetRing α) : List (Option α) :=
  RingBuffer.window none r.cache r.start r.len

omit [DecidableEq α] in
/-- The ring's shape: a capacity of at least one, `start` an index of it, `len` at most it, and
nil behind the window. -/
structure Shape (r : TipSetRing α) : Prop where
  cap_pos : 0 < r.cache.length
  start_nonneg : 0 ≤ r.start
  start_lt : r.start < r.cache.length
  len_le : r.len ≤ r.cache.length
  outside : RingBuffer.OutsideEq none r.cache r.start r.len

omit [DecidableEq α] in
/-- A ring between calls: its head slot is a tipset. -/
structure Valid (r : TipSetRing α) : Prop extends r.Shape where
  head_ne_none : 0 < r.len → r.slot r.start ≠ none

omit [DecidableEq α] in
/-- The ring, on a ring of `cap` slots, holds the window of `c`. -/
def Refines (cap : ℕ) (r : TipSetRing α) (c : TipSetCache α) : Prop :=
  r.cache.length = cap ∧ r.Valid ∧ r.window = c.slots

section Window

omit [DecidableEq α]

variable {r : TipSetRing α}

lemma slot_normalModulo (hL : 0 < r.cache.length) (i : ℤ) :
    r.slot (normalModulo i r.cache.length) = RingBuffer.slot none r.cache i := by
  rw [slot, normalModulo_eq (by omega), RingBuffer.slot]

lemma Shape.slot_start (hs : r.Shape) : r.slot r.start = RingBuffer.slot none r.cache r.start := by
  rw [slot, RingBuffer.slot, Int.emod_eq_of_lt hs.start_nonneg hs.start_lt]

@[simp]
lemma length_window : r.window.length = r.len :=
  RingBuffer.length_window

lemma window_of_zero (h : r.len = 0) : r.window = [] := by
  rw [window, h]
  rfl

lemma Shape.window_of_pos (hs : r.Shape) (hpos : 0 < r.len) :
    r.window = r.slot r.start :: RingBuffer.window none r.cache (r.start - 1) (r.len - 1) := by
  obtain ⟨n, hn⟩ : ∃ n, r.len = n + 1 := ⟨r.len - 1, by omega⟩
  rw [window, hn, RingBuffer.window_succ, hs.slot_start, Nat.add_sub_cancel]

/-- A ring of that shape is valid when the front of its window is a tipset. -/
lemma Shape.valid (hs : r.Shape) (h : r.window.head? ≠ some none) : r.Valid where
  toShape := hs
  head_ne_none hpos := by
    rw [hs.window_of_pos hpos] at h
    simpa using h

lemma Refines.head {cap : ℕ} {c : TipSetCache α} (h : Refines cap r c) :
    c.head = if r.len = 0 then none else r.slot r.start := by
  rw [TipSetCache.head, ← h.2.2]
  split_ifs with hlen
  · rw [window_of_zero hlen]
    rfl
  · rw [h.2.1.window_of_pos (by omega)]
    rfl

/-! ## The loops of `add` and `revertUnlocked` -/

lemma Shape.advance (hs : r.Shape) (x : Option α) :
    (r.advance x).Shape ∧ (r.advance x).window = (x :: r.window).take r.cache.length ∧
      (r.advance x).cache.length = r.cache.length := by
  have hL := hs.cap_pos
  have hcache : (r.advance x).cache = RingBuffer.write r.cache (r.start + 1) x := by
    simp only [TipSetRing.advance, RingBuffer.write,
      normalModulo_eq (show (0 : ℤ) < r.cache.length by omega)]
  have hstart : (r.advance x).start = (r.start + 1) % r.cache.length :=
    normalModulo_eq (by omega)
  have hlen : (r.advance x).len = min (r.len + 1) r.cache.length := by
    have := hs.len_le
    simp only [TipSetRing.advance]
    split_ifs <;> omega
  have hL' : (r.advance x).cache.length = r.cache.length := by
    rw [hcache, RingBuffer.length_write]
  have hLz : ((RingBuffer.write r.cache (r.start + 1) x).length : ℤ) = r.cache.length := by
    rw [RingBuffer.length_write]
  refine ⟨⟨by omega, ?_, ?_, by omega, ?_⟩, ?_, hL'⟩
  · rw [hstart]
    exact Int.emod_nonneg _ (by omega)
  · rw [hstart, hL']
    exact Int.emod_lt_of_pos _ (by omega)
  · rw [hcache, hstart, hlen, RingBuffer.outsideEq_emod hLz]
    exact hs.outside.advance hL x
  · rw [window, hcache, hstart, hlen, RingBuffer.window_emod hLz,
      RingBuffer.window_advance hL hs.len_le, window]

lemma Shape.fillNulls (hs : r.Shape) (n : ℕ) :
    (r.fillNulls n).Shape ∧
      (r.fillNulls n).window = (List.replicate n none ++ r.window).take r.cache.length ∧
      (r.fillNulls n).cache.length = r.cache.length := by
  induction n generalizing r with
  | zero =>
    refine ⟨hs, ?_, rfl⟩
    rw [fillNulls, List.replicate_zero, List.nil_append,
      List.take_of_length_le (by simpa using hs.len_le)]
  | succ n ih =>
    -- one null round, then the `n` others from there
    obtain ⟨hs', hw', hl'⟩ := hs.advance none
    obtain ⟨hs'', hw'', hl''⟩ := ih hs'
    refine ⟨hs'', ?_, hl''.trans hl'⟩
    rw [fillNulls, hw'', hw', hl', RingBuffer.take_append_take, List.replicate_succ',
      List.append_assoc, List.singleton_append]

/-- What `add` leaves after `n` null rounds: `ts` in front of them and of the old window, cut to
the capacity. -/
lemma Shape.push (hs : r.Shape) (ts : α) (n : ℕ) :
    ((r.fillNulls n).advance (some ts)).Valid ∧
      ((r.fillNulls n).advance (some ts)).window =
        (some ts :: (List.replicate n none ++ r.window)).take r.cache.length ∧
      ((r.fillNulls n).advance (some ts)).cache.length = r.cache.length := by
  obtain ⟨hs', hw', hl'⟩ := hs.fillNulls n
  obtain ⟨hs'', hw'', hl''⟩ := hs'.advance (some ts)
  have hw : ((r.fillNulls n).advance (some ts)).window =
      (some ts :: (List.replicate n none ++ r.window)).take r.cache.length := by
    rw [hw'', hw', hl', ← List.singleton_append, RingBuffer.take_append_take, List.singleton_append]
  refine ⟨hs''.valid ?_, hw, hl''.trans hl'⟩
  -- the front is `ts`, the capacity being at least one
  obtain ⟨L, hL⟩ : ∃ L, r.cache.length = L + 1 := ⟨r.cache.length - 1, by have := hs.cap_pos; omega⟩
  rw [hw, hL]
  simp

lemma Shape.retreat (hs : r.Shape) (hpos : 0 < r.len) :
    r.retreat.Shape ∧ r.retreat.window = r.window.tail ∧
      r.retreat.cache.length = r.cache.length := by
  have hL := hs.cap_pos
  have hcache : r.retreat.cache = RingBuffer.write r.cache r.start none := by
    simp only [TipSetRing.retreat, RingBuffer.write, Int.emod_eq_of_lt hs.start_nonneg hs.start_lt]
  have hstart : r.retreat.start = (r.start - 1) % r.cache.length := normalModulo_eq (by omega)
  have hlen : r.retreat.len = r.len - 1 := rfl
  have hL' : r.retreat.cache.length = r.cache.length := by
    rw [hcache, RingBuffer.length_write]
  have hLz : ((RingBuffer.write r.cache r.start none).length : ℤ) = r.cache.length := by
    rw [RingBuffer.length_write]
  obtain ⟨n, hn⟩ : ∃ n, r.len = n + 1 := ⟨r.len - 1, by omega⟩
  refine ⟨⟨by omega, ?_, ?_, by have := hs.len_le; omega, ?_⟩, ?_, hL'⟩
  · rw [hstart]
    exact Int.emod_nonneg _ (by omega)
  · rw [hstart, hL']
    exact Int.emod_lt_of_pos _ (by omega)
  · have hout := hs.outside
    rw [hn] at hout
    rw [hcache, hstart, hlen, hn, Nat.add_sub_cancel, RingBuffer.outsideEq_emod hLz]
    exact hout.retreat
  · have hlt : n < r.cache.length := by have := hs.len_le; omega
    rw [window, hcache, hstart, hlen, hn, Nat.add_sub_cancel, RingBuffer.window_emod hLz,
      RingBuffer.window_retreat none hlt, window, hn]

end Window

/-- What `_ = tsc.revertUnlocked(nil)` leaves: the null rounds at the front of the window are
gone, and the ring is valid. -/
lemma Shape.revertNil {r : TipSetRing α} (hs : r.Shape) :
    ((r.revertUnlocked none).toOption.getD r).Valid ∧
      ((r.revertUnlocked none).toOption.getD r).window = r.window.dropWhile Option.isNone ∧
      ((r.revertUnlocked none).toOption.getD r).cache.length = r.cache.length := by
  -- on the count: each null round cleared leaves one slot fewer
  induction hn : r.len generalizing r with
  | zero =>
    rw [revertUnlocked_eq, if_pos hn, Except.toOption, Option.getD_some]
    refine ⟨⟨hs, fun h => absurd h (by omega)⟩, ?_, rfl⟩
    rw [window_of_zero hn]
    rfl
  | succ n ih =>
    rw [revertUnlocked_eq, if_neg (by omega)]
    by_cases hhd : r.slot r.start = none
    · -- a null round: cleared, and the rest from the slot below
      rw [if_neg (by simpa using hhd)]
      obtain ⟨hs', hw', hl'⟩ := hs.retreat (by omega)
      obtain ⟨hv'', hw'', hl''⟩ := ih hs' (by simp [TipSetRing.retreat, hn])
      refine ⟨hv'', ?_, hl''.trans hl'⟩
      rw [Except.toOption, Option.getD_some, hw'', hw', hs.window_of_pos (by omega), hhd,
        List.tail_cons, List.dropWhile_cons_of_pos rfl]
    · -- a tipset: the check fails and nothing changes
      rw [if_pos (Ne.symm (Ne.symm hhd))]
      refine ⟨hs.valid ?_, ?_, rfl⟩
      · rw [hs.window_of_pos (by omega)]
        simpa using hhd
      · obtain ⟨t, ht⟩ := Option.ne_none_iff_exists'.mp hhd
        rw [Except.toOption, Option.getD_none, hs.window_of_pos (by omega), ht,
          List.dropWhile_cons_of_neg (by simp)]

omit [DecidableEq α] in
/-- The tail `get` finds is the oldest tipset of the window. -/
lemma Shape.findTail {r : TipSetRing α} (hs : r.Shape) :
    r.findTail = (r.window.reverse.find? Option.isSome).join := by
  rw [RingBuffer.join_find?_isSome, window, RingBuffer.reverse_window, TipSetRing.findTail]
  congr 1
  exact List.map_congr_left fun i _ => slot_normalModulo hs.cap_pos _

/-! ## Each call refines the abstract call -/

section Simulation

variable {api} {cap : ℕ} {r : TipSetRing α} {c : TipSetCache α}

omit [DecidableEq α] in
/-- `add` on the ring fails as `add` on the window does, or leaves the window `add` builds. -/
theorem add_sim (h : Refines cap r c) (ts : α) :
    ∃ res, r.add api ts = some res ∧ Simulation.ExceptRel (Refines cap) res (c.add api cap ts) := by
  obtain ⟨hcap, hv, hw⟩ := h
  have hhead := Refines.head ⟨hcap, hv, hw⟩
  by_cases hpos : 0 < r.len
  · -- a head: the same check, then `ts` after the same null rounds
    obtain ⟨hd, hhd⟩ := Option.ne_none_iff_exists'.mp (hv.head_ne_none hpos)
    rw [if_neg (by omega), hhd] at hhead
    simp only [add, TipSetCache.add, gt_iff_lt, if_pos hpos, hhd, hhead]
    split_ifs with hle
    · exact ⟨_, rfl, rfl⟩
    · obtain ⟨hv', hw', hl'⟩ := hv.push ts (api.height ts - (api.height hd + 1)).toNat
      refine ⟨_, rfl, hl'.trans hcap, hv', ?_⟩
      rw [hw', hcap, hw, TipSetCache.push, sub_add_eq_sub_sub]
  · -- an empty cache: `ts` alone
    rw [if_pos (by omega)] at hhead
    obtain ⟨hv', hw', hl'⟩ := hv.push ts 0
    simp only [add, TipSetCache.add, gt_iff_lt, if_neg hpos, hhead]
    refine ⟨_, rfl, hl'.trans hcap, hv', ?_⟩
    rw [hw', hcap, hw, TipSetCache.push]

/-- `revert` on the ring fails as `revert` on the window does, or leaves the window `revert`
builds. -/
theorem revert_sim (h : Refines cap r c) (ts : α) :
    Simulation.ExceptRel (Refines cap) (r.revert ts) (c.revert ts) := by
  obtain ⟨hcap, hv, hw⟩ := h
  obtain ⟨slots, hne⟩ := c
  change r.window = slots at hw
  cases slots with
  | nil =>
    -- an empty cache: nothing to revert
    have hlen : r.len = 0 := by simpa using congrArg List.length hw
    rw [revert, revertUnlocked_eq, if_pos hlen]
    exact ⟨hcap, hv, hw⟩
  | cons x rest =>
    have hpos : 0 < r.len := by
      have := congrArg List.length hw
      simp only [length_window, List.length_cons] at this
      omega
    rw [hv.window_of_pos hpos, List.cons.injEq] at hw
    obtain ⟨rfl, hrest⟩ := hw
    rw [revert, revertUnlocked_eq, if_neg (by omega)]
    simp only [TipSetCache.revert]
    by_cases hts : r.slot r.start = some ts
    · -- the head goes, and with it the null rounds under it
      rw [if_neg (by simpa using hts), if_pos hts]
      obtain ⟨hs', hw', hl'⟩ := hv.retreat hpos
      obtain ⟨hv'', hw'', hl''⟩ := hs'.revertNil
      refine ⟨hl''.trans (hl'.trans hcap), hv'', ?_⟩
      rw [hw'', hw', hv.window_of_pos hpos, List.tail_cons, hrest]
    · rw [if_pos hts, if_neg hts]
      rfl

omit [DecidableEq α] in
/-- `get` on the ring answers as `get` on the window, when the window's heights are
consecutive. -/
theorem get_sim (h : Refines cap r c) (hc : c.Consistent api) (height : ℤ) :
    r.get api height = some (c.get api height) := by
  obtain ⟨hcap, hv, hw⟩ := h
  have hhead := Refines.head ⟨hcap, hv, hw⟩
  by_cases hpos : 0 < r.len
  · obtain ⟨hd, hhd⟩ := Option.ne_none_iff_exists'.mp (hv.head_ne_none hpos)
    rw [if_neg (by omega), hhd] at hhead
    have htail : c.tail = r.findTail := by
      rw [TipSetCache.tail, ← hw, hv.findTail]
    obtain ⟨t, ht⟩ := TipSetCache.exists_tail_of_head hhead
    simp only [get, TipSetCache.get, if_neg (show ¬r.len = 0 by omega), hhd, hhead, ← htail, ht,
      Option.getD_some]
    split_ifs with hgt hlt
    · rfl
    · rfl
    · -- the slot `head - height` behind `start`, within the window by the heights
      have hk := TipSetCache.get_index_lt hc hhead (h := height) (by rw [ht, Option.getD_some]; omega) (by omega)
      rw [← hw, length_window] at hk
      rw [slot_normalModulo hv.cap_pos, ← hw, window, RingBuffer.getD_window hk,
        Int.toNat_of_nonneg (by omega)]
  · rw [if_pos (by omega)] at hhead
    simp only [get, TipSetCache.get, if_pos (show r.len = 0 by omega), hhead]

omit [DecidableEq α] in
/-- `getNonNull` on the ring answers as `getNonNull` on the window. -/
theorem getNonNull_sim (h : Refines cap r c) (hc : c.Consistent api) (height : ℤ) :
    r.getNonNull api height = some (c.getNonNull api height) := by
  have hfuel : r.len + 1 = c.slots.length + 1 := by rw [← h.2.2, length_window]
  rw [getNonNull, TipSetCache.getNonNull, hfuel]
  generalize c.slots.length + 1 = fuel
  induction fuel generalizing height with
  | zero => rfl
  | succ fuel ih =>
    rw [getNonNullLoop, TipSetCache.getNonNullLoop, get_sim h hc]
    cases c.get api height with
    | error e => rfl
    | ok x =>
      cases x with
      | none => exact ih (height + 1)
      | some ts => rfl

omit [DecidableEq α] in
/-- `best` on the ring answers as `best` on the window: an empty ring has nil at `start`. -/
theorem best_sim (h : Refines cap r c) : r.best api = c.best api := by
  have hhead := h.head
  by_cases hpos : 0 < r.len
  · rw [if_neg (by omega)] at hhead
    cases hs : r.slot r.start <;> simp only [best, TipSetCache.best, hhead, hs]
  · have hout := h.2.1.outside
    rw [show r.len = 0 by omega] at hout
    have hnil : r.slot r.start = none := by
      rw [h.2.1.slot_start]
      exact hout.slot_eq h.2.1.cap_pos
    rw [if_pos (by omega)] at hhead
    simp only [best, TipSetCache.best, hnil, hhead]

theorem step_sim (h : Refines cap r c) (op : CacheOp α) :
    ∃ r', r.step api op = some r' ∧ Refines cap r' (c.step api cap op) := by
  cases op with
  | add ts =>
    obtain ⟨res, hres, hrel⟩ : ∃ res, r.add api ts = some res ∧
        Simulation.ExceptRel (Refines cap) res (c.add api cap ts) := add_sim h ts
    exact ⟨_, by rw [step, hres]; rfl, hrel.toOption_getD h⟩
  | revert ts => exact ⟨_, rfl, (revert_sim h ts).toOption_getD h⟩

end Simulation

omit [DecidableEq α] in
lemma refines_newTSCache {cap : ℕ} (hcap : 0 < cap) :
    Refines cap (newTSCache cap : TipSetRing α) TipSetCache.empty := by
  refine ⟨List.length_replicate, ⟨⟨by simpa [newTSCache] using hcap, le_rfl,
    by simpa [newTSCache] using hcap, by simp [newTSCache], ?_⟩, fun h => absurd h (lt_irrefl 0)⟩,
    rfl⟩
  -- nil in every slot
  intro k _ _
  simp [newTSCache, RingBuffer.slot, List.getD_eq_getElem?_getD]

/-- **Along every run of calls from `newTSCache cap` the ring never panics and holds the window
that the abstract calls build.** -/
theorem run_refines {cap : ℕ} (hcap : 0 < cap) (ops : List (CacheOp α)) :
    ∃ r, (newTSCache cap : TipSetRing α).run api ops = some r ∧
      Refines cap r (Run.run (TipSetCache.step api cap) TipSetCache.empty ops) :=
  Simulation.run_simulation (R := Refines cap) (fun _ _ op h => step_sim h op) ops
    (refines_newTSCache hcap)

/-- **The ring is a faithful cache of the recent chain.**  For every capacity `cap ≥ 1` and
every run of calls from `newTSCache cap`, the ring never panics; `len ≤ cap`; it holds the window
that the abstract calls build, whose tipsets sit at consecutive heights; `cache[start]` is the
head, a tipset, whenever `len > 0`; reverting the head takes it and the null rounds under it; and
`get` and `best` answer as on the window: `get` rejects the heights above the head and returns,
for each height from the oldest tipset to the head, the window's slot at that height. -/
theorem tipSetRing_run {cap : ℕ} (hcap : 1 ≤ cap) (ops : List (CacheOp α)) :
    ∃ r, (newTSCache cap : TipSetRing α).run api ops = some r ∧
      let c := Run.run (TipSetCache.step api cap) TipSetCache.empty ops
      r.len ≤ cap ∧ r.window = c.slots ∧ c.Consistent api ∧
      (0 < r.len → ∃ hd, r.slot r.start = some hd ∧ c.head = some hd) ∧
      (∀ ts, c.head = some ts →
        ∃ r', r.revert ts = .ok r' ∧ r'.window = c.slots.tail.dropWhile Option.isNone) ∧
      (∀ height, r.get api height = some (c.get api height)) ∧ r.best api = c.best api ∧
      ∀ hd, c.head = some hd → ∀ height,
        (api.height hd < height → ∃ e, r.get api height = some (.error e)) ∧
        (api.height (c.tail.getD hd) ≤ height → height ≤ api.height hd →
          r.get api height = some (.ok (c.slots.getD (api.height hd - height).toNat none))) := by
  obtain ⟨r, hrun, href⟩ := run_refines api (show 0 < cap by omega) ops
  have hc : (Run.run (TipSetCache.step api cap) TipSetCache.empty ops).Consistent api :=
    TipSetCache.consistent_run cap ops
  refine ⟨r, hrun, ?_⟩
  dsimp only
  generalize Run.run (TipSetCache.step api cap) TipSetCache.empty ops = c at href hc ⊢
  obtain ⟨hcap', hv, hw⟩ := id href
  refine ⟨hcap' ▸ hv.len_le, hw, hc, ?_, ?_, get_sim href hc, best_sim href, ?_⟩
  · -- the head slot
    intro hpos
    obtain ⟨hd, hhd⟩ := Option.ne_none_iff_exists'.mp (hv.head_ne_none hpos)
    refine ⟨hd, hhd, ?_⟩
    rw [href.head, if_neg (by omega), hhd]
  · -- reverting the head, as the window's revert of its head
    intro ts hts
    obtain ⟨c', hc', hslots⟩ := TipSetCache.revert_head hts
    have hrel := revert_sim href ts
    rw [hc'] at hrel
    cases hr : r.revert ts with
    | error e => simp [hr] at hrel
    | ok r' =>
      rw [hr, Simulation.exceptRel_ok] at hrel
      exact ⟨r', rfl, hrel.2.2.trans hslots⟩
  · -- the heights `get` answers for
    intro hd hhd height
    rw [get_sim href hc]
    refine ⟨fun hgt => ?_, fun hlo hhi => ?_⟩
    · simp only [TipSetCache.get, hhd, gt_iff_lt, if_pos hgt]
      exact ⟨_, rfl⟩
    · simp only [TipSetCache.get, hhd, gt_iff_lt, if_neg (not_lt.mpr hhi), if_neg (not_lt.mpr hlo)]

/-- Tipsets that are their own heights, over a chain that answers nothing. -/
def heightChain : ChainAPI ℕ where
  height n := n
  getTipSetByHeight _ _ := .error "no chain"
  chainHead := .error "no chain head"

/-- A ring of two slots, after adding the tipsets at heights `3` and `6` and reverting `6`. -/
theorem tipSetRing_run_two :
    1 ≤ 2 ∧ ∃ r, (newTSCache 2 : TipSetRing ℕ).run heightChain [.add 3, .add 6, .revert 6] = some r ∧
      let c := Run.run (TipSetCache.step heightChain 2) TipSetCache.empty [.add 3, .add 6, .revert 6]
      r.len ≤ 2 ∧ r.window = c.slots ∧ c.Consistent heightChain ∧
      (0 < r.len → ∃ hd, r.slot r.start = some hd ∧ c.head = some hd) ∧
      (∀ ts, c.head = some ts →
        ∃ r', r.revert ts = .ok r' ∧ r'.window = c.slots.tail.dropWhile Option.isNone) ∧
      (∀ height, r.get heightChain height = some (c.get heightChain height)) ∧
      r.best heightChain = c.best heightChain ∧
      ∀ hd, c.head = some hd → ∀ height,
        (heightChain.height hd < height → ∃ e, r.get heightChain height = some (.error e)) ∧
        (heightChain.height (c.tail.getD hd) ≤ height → height ≤ heightChain.height hd →
          r.get heightChain height =
            some (.ok (c.slots.getD (heightChain.height hd - height).toNat none))) :=
  ⟨by decide, tipSetRing_run heightChain (by decide) [.add 3, .add 6, .revert 6]⟩

/-- **`getNonNull` on the ring finds the lowest tipset at or above a height.**  Along every run of
calls from `newTSCache cap`, for every height from the oldest tipset of the window to its head,
the ring's `getNonNull` returns the tipset of the window at the least height at or above it. -/
theorem tipSetRing_run_getNonNull {cap : ℕ} (hcap : 1 ≤ cap) (ops : List (CacheOp α)) :
    ∃ r, (newTSCache cap : TipSetRing α).run api ops = some r ∧
      let c := Run.run (TipSetCache.step api cap) TipSetCache.empty ops
      ∀ hd, c.head = some hd → ∀ height, api.height (c.tail.getD hd) ≤ height →
        height ≤ api.height hd →
        ∃ ts, r.getNonNull api height = some (.ok ts) ∧ some ts ∈ r.window ∧
          height ≤ api.height ts ∧
          ∀ t, some t ∈ r.window → height ≤ api.height t → api.height ts ≤ api.height t := by
  obtain ⟨r, hrun, href⟩ := run_refines api (show 0 < cap by omega) ops
  have hc : (Run.run (TipSetCache.step api cap) TipSetCache.empty ops).Consistent api :=
    TipSetCache.consistent_run cap ops
  refine ⟨r, hrun, ?_⟩
  dsimp only
  intro hd hhd height hlo hhi
  -- the ring answers as the window, whose slots it holds
  obtain ⟨ts, hts, hmem, hle, hlow⟩ := TipSetCache.getNonNull_lowest hc hhd hlo hhi
  rw [href.2.2]
  exact ⟨ts, by rw [getNonNull_sim href hc, hts], hmem, hle, hlow⟩

/-- Four slots after the tipsets at heights `3` and `6`, from `4` and `5` up past the null
rounds. -/
theorem tipSetRing_run_getNonNull_four :
    ∃ r, (newTSCache 4 : TipSetRing ℕ).run heightChain [.add 3, .add 6] = some r ∧
      let c := Run.run (TipSetCache.step heightChain 4) TipSetCache.empty [.add 3, .add 6]
      ∀ hd, c.head = some hd → ∀ height, heightChain.height (c.tail.getD hd) ≤ height →
        height ≤ heightChain.height hd →
        ∃ ts, r.getNonNull heightChain height = some (.ok ts) ∧ some ts ∈ r.window ∧
          height ≤ heightChain.height ts ∧
          ∀ t, some t ∈ r.window → height ≤ heightChain.height t →
            heightChain.height ts ≤ heightChain.height t :=
  tipSetRing_run_getNonNull heightChain (by decide) [.add 3, .add 6]

example : ((newTSCache 4 : TipSetRing ℕ).run heightChain [.add 3, .add 6]).map
    (fun r => (r.window, r.getNonNull heightChain 4)) = some ([some 6, none, none, some 3], some (.ok 6)) := by
  decide

/-- Two slots keep the head at `6` and the null round at `5`; reverting `6` takes `5` with it. -/
example : ((newTSCache 2 : TipSetRing ℕ).run heightChain [.add 3, .add 6]).map window =
    some [some 6, none] := by
  decide

example : ((newTSCache 2 : TipSetRing ℕ).run heightChain [.add 3, .add 6, .revert 6]).map window =
    some [] := by
  decide

end TipSetRing

end Events

end Lotus
