import Mathlib
import Lotus.Lib.Run

/-!
# The tipset cache of chain events (`chain/events/tscache.go`)

`tipSetCache` keeps the most recent tipsets in a ring of `cap` slots, one slot per height, a
null round being an empty slot.  This module is the cache's abstract model, the ring's window:
the `len` slots from `start` backwards, newest first, so that the slot `i` places from the front
is `i` heights below the head.  Overwriting the oldest slot of a full ring drops the last slot of
the window, and the slots outside the window are empty, as `revert` leaves them.  The ring itself,
with `start`, `len` and `normalModulo`, is `TipSetRing`, which refines this model.

Tipsets have heights (`abi.ChainEpoch`, an integer), and the chain behind the cache answers
`ChainGetTipSetByHeight` (from the head when the key is empty) and `ChainHead`; all three are a
`ChainAPI`.

**The head is a tipset.**  `add` puts the new tipset in front of a null slot for each height
skipped, and `revert` takes the head off with the null rounds under it (`revertUnlocked(nil)`),
so the front slot of the window is never a null round: a `TipSetCache` carries that as a field.
Adding a tipset and reverting it gives back the window, as long as the ring had room for the
tipset and its null rounds (`revert_push`).

**Heights.**  Along every run of calls, the tipsets of the window sit at consecutive heights, the
one `i` slots behind the front `i` heights below the head (`consistent_run`); so the slots from
the head down to the oldest tipset are the heights `get` answers for (`get_index_lt`), and from
each of those heights `getNonNull` climbs the null rounds to the tipset of least height at or
above it, within its fuel (`getNonNull_lowest`).
-/

namespace Lotus

namespace Events

/-- The chain as the events code reads it: each tipset's height, `ChainGetTipSetByHeight` with
the key to look from (`none` for the empty key, the head), and `ChainHead`. -/
structure ChainAPI (α : Type*) where
  height : α → ℤ
  getTipSetByHeight : ℤ → Option α → Except String α
  chainHead : Except String α

/-- The window of a `tipSetCache`, newest slot first; its front slot is never a null round. -/
structure TipSetCache (α : Type*) where
  slots : List (Option α)
  head_ne_none : slots.head? ≠ some none

/-- A call of the events code on the cache. -/
inductive CacheOp (α : Type*)
  | add (ts : α)
  | revert (ts : α)

namespace TipSetCache

variable {α : Type*} [DecidableEq α] (api : ChainAPI α)

omit [DecidableEq α] in
theorem head?_dropWhile_isNone_ne (l : List (Option α)) :
    (l.dropWhile Option.isNone).head? ≠ some none := by
  intro h
  have hnot := List.head?_dropWhile_not Option.isNone l
  rw [h] at hnot
  exact absurd hnot (by simp)

/-- `newTSCache`. -/
def empty : TipSetCache α :=
  ⟨[], by simp⟩

/-- `cache[start]` of a non-empty window: the head tipset. -/
def head (c : TipSetCache α) : Option α :=
  c.slots.head?.join

/-- The first tipset from the oldest end of the window: the `tail` of `get`. -/
def tail (c : TipSetCache α) : Option α :=
  (c.slots.reverse.find? Option.isSome).join

/-- `ts` in front of `nulls` null rounds, on a ring of `cap` slots. -/
def push (cap : ℕ) (c : TipSetCache α) (ts : α) (nulls : ℕ) : TipSetCache α :=
  ⟨(some ts :: (List.replicate nulls none ++ c.slots)).take cap, by cases cap <;> simp⟩

/-- `add`: a tipset above the head, after a null slot for each height in between. -/
def add (cap : ℕ) (c : TipSetCache α) (ts : α) : Except String (TipSetCache α) :=
  match c.head with
  | some hd =>
    if api.height hd ≥ api.height ts then
      .error ("tipSetCache.add: expected new tipset height to be at least " ++
        toString (api.height hd + 1) ++ ", was " ++ toString (api.height ts))
    else .ok (c.push cap ts (api.height ts - api.height hd - 1).toNat)
  | none => .ok (c.push cap ts 0)

/-- `revert`: the head must be `ts`; it goes, and the null rounds under it with it. -/
def revert (c : TipSetCache α) (ts : α) : Except String (TipSetCache α) :=
  match c with
  | ⟨[], _⟩ => .ok c
  | ⟨hd :: rest, _⟩ =>
    if hd = some ts then .ok ⟨rest.dropWhile Option.isNone, head?_dropWhile_isNone_ne rest⟩
    else .error "tipSetCache.revert: revert tipset didn't match cache head"

/-- `get`: the slot at height `h`; from the chain when the window is empty or `h` lies below
it. -/
def get (c : TipSetCache α) (h : ℤ) : Except String (Option α) :=
  match c.head with
  | none => (api.getTipSetByHeight h none).map some
  | some hd =>
    if h > api.height hd then
      .error ("tipSetCache.get: requested tipset not in cache (req: " ++ toString h ++
        ", cache head: " ++ toString (api.height hd) ++ ")")
    -- the tail exists, the head being one of the tipsets of the window
    else if h < api.height (c.tail.getD hd) then
      (api.getTipSetByHeight h (some (c.tail.getD hd))).map some
    else .ok (c.slots.getD (api.height hd - h).toNat none)

/-- The loop of `getNonNull`: up from `h` to the first height that is not a null round. -/
def getNonNullLoop (c : TipSetCache α) : ℕ → ℤ → Except String α
  | 0, _ => .error "getNonNull: out of fuel"
  | fuel + 1, h =>
    match c.get api h with
    | .error e => .error e
    | .ok (some ts) => .ok ts
    | .ok none => getNonNullLoop c fuel (h + 1)

/-- `getNonNull`; each null round it passes is a slot of the window. -/
def getNonNull (c : TipSetCache α) (h : ℤ) : Except String α :=
  c.getNonNullLoop api (c.slots.length + 1) h

/-- `best`: the head, or the chain's head when the window is empty. -/
def best (c : TipSetCache α) : Except String α :=
  match c.head with
  | some ts => .ok ts
  | none => api.chainHead

/-! ## Adding and reverting -/

omit [DecidableEq α] in
theorem slots_dropWhile_isNone (c : TipSetCache α) : c.slots.dropWhile Option.isNone = c.slots := by
  obtain ⟨slots, hne⟩ := c
  cases slots with
  | nil => rfl
  | cons x rest =>
    cases x with
    | none => exact absurd rfl hne
    | some ts => rfl

/-- Reverting the tipset just pushed gives back the window, when the ring had room for it and
its null rounds. -/
theorem revert_push {cap nulls : ℕ} (c : TipSetCache α) (ts : α)
    (hroom : c.slots.length + nulls < cap) : (c.push cap ts nulls).revert ts = .ok c := by
  have hlen : (some ts :: (List.replicate nulls none ++ c.slots)).length ≤ cap := by
    simp only [List.length_cons, List.length_append, List.length_replicate]
    omega
  have hdrop : (List.replicate nulls none ++ c.slots).dropWhile Option.isNone = c.slots := by
    rw [List.dropWhile_append_of_pos (by simp), slots_dropWhile_isNone]
  simp only [push, List.take_of_length_le hlen, revert, if_pos, hdrop]

/-- A tipset at `7` pushed with two null rounds onto an empty ring of five slots, then reverted. -/
theorem revert_push_empty :
    ((empty : TipSetCache ℤ).push 5 7 2).revert 7 = .ok empty :=
  revert_push empty 7 (by decide)

/-! ## Runs of calls -/

/-- One call on a ring of `cap` slots; a call that fails leaves the cache as it was. -/
def step (cap : ℕ) (c : TipSetCache α) : CacheOp α → TipSetCache α
  | .add ts => (c.add api cap ts).toOption.getD c
  | .revert ts => (c.revert ts).toOption.getD c

/-! ## Heights -/

omit [DecidableEq α] in
/-- The slots hold the heights `H, H - 1, …` from the front: each tipset at its own height. -/
def HeightsFrom (H : ℤ) : List (Option α) → Prop
  | [] => True
  | none :: l => HeightsFrom (H - 1) l
  | some t :: l => api.height t = H ∧ HeightsFrom (H - 1) l

omit [DecidableEq α] in
/-- The window's tipsets sit at consecutive heights. -/
def Consistent (c : TipSetCache α) : Prop :=
  ∃ H, HeightsFrom api H c.slots

section Heights

omit [DecidableEq α]

variable {api}

lemma heightsFrom_replicate_append (H : ℤ) (n : ℕ) (l : List (Option α)) :
    HeightsFrom api H (List.replicate n none ++ l) ↔ HeightsFrom api (H - n) l := by
  induction n generalizing H with
  | zero => simp
  | succ n ih =>
    rw [List.replicate_succ, List.cons_append, HeightsFrom, ih,
      show H - 1 - n = H - (n + 1 : ℕ) by push_cast; ring]

lemma HeightsFrom.take {H : ℤ} {l : List (Option α)} (h : HeightsFrom api H l) (m : ℕ) :
    HeightsFrom api H (l.take m) := by
  induction l generalizing H m with
  | nil => simp [HeightsFrom]
  | cons x l ih =>
    cases m with
    | zero => simp [HeightsFrom]
    | succ m =>
      cases x with
      | none => exact ih h m
      | some t => exact ⟨h.1, ih h.2 m⟩

lemma HeightsFrom.tail {H : ℤ} {l : List (Option α)} (h : HeightsFrom api H l) :
    HeightsFrom api (H - 1) l.tail :=
  match l, h with
  | [], _ => trivial
  | none :: _, h => h
  | some _ :: _, h => h.2

lemma HeightsFrom.dropWhile {H : ℤ} {l : List (Option α)} (h : HeightsFrom api H l)
    (p : Option α → Bool) : ∃ H', HeightsFrom api H' (l.dropWhile p) := by
  induction l generalizing H with
  | nil => exact ⟨H, trivial⟩
  | cons x l ih =>
    rw [List.dropWhile_cons]
    split
    · exact ih h.tail
    · exact ⟨H, h⟩

/-- The tipset `i` slots from the front is `i` heights below the front. -/
lemma HeightsFrom.height_add {H : ℤ} {l : List (Option α)} (h : HeightsFrom api H l) {i : ℕ}
    {t : α} (hi : l[i]? = some (some t)) : api.height t + i = H := by
  induction l generalizing H i with
  | nil => simp at hi
  | cons x l ih =>
    cases i with
    | zero =>
      cases x with
      | none => simp at hi
      | some t' =>
        obtain rfl : t' = t := by simpa using hi
        simpa using h.1
    | succ i =>
      have := ih h.tail (by simpa using hi)
      push_cast
      omega

end Heights

section Consistent

variable {api}

omit [DecidableEq α] in
lemma consistent_empty : (empty : TipSetCache α).Consistent api :=
  ⟨0, trivial⟩

omit [DecidableEq α] in
/-- Pushing a tipset keeps the heights consecutive when it stands `nulls + 1` above the head. -/
lemma Consistent.push {c : TipSetCache α} (hc : c.Consistent api) (cap : ℕ) (ts : α) (nulls : ℕ)
    (hh : ∀ hd, c.head = some hd → api.height hd + nulls + 1 = api.height ts) :
    (c.push cap ts nulls).Consistent api := by
  obtain ⟨H, hH⟩ := hc
  -- below the nulls the old window starts at the old head's height, if it has a head
  have hrest : HeightsFrom api (api.height ts - 1 - nulls) c.slots := by
    obtain ⟨slots, hne⟩ := c
    cases slots with
    | nil => trivial
    | cons x rest =>
      cases x with
      | none => exact absurd rfl hne
      | some hd =>
        have hH' : api.height hd = H := hH.1
        have := hh hd rfl
        rw [show api.height ts - 1 - nulls = H by omega]
        exact hH
  have hfront : HeightsFrom api (api.height ts) (some ts :: (List.replicate nulls none ++ c.slots)) :=
    And.intro rfl ((heightsFrom_replicate_append _ _ _).mpr hrest)
  exact ⟨_, hfront.take cap⟩

omit [DecidableEq α] in
lemma Consistent.add {c : TipSetCache α} (hc : c.Consistent api) (cap : ℕ) (ts : α)
    {c' : TipSetCache α} (h : c.add api cap ts = .ok c') : c'.Consistent api := by
  unfold TipSetCache.add at h
  split at h
  · rename_i hd hhd
    split at h
    · cases h
    · rename_i hlt
      cases h
      refine hc.push cap ts _ fun hd' hhd' => ?_
      obtain rfl : hd' = hd := Option.some.inj (hhd'.symm.trans hhd)
      omega
  · rename_i hhd
    cases h
    exact hc.push cap ts 0 fun hd' hhd' => absurd (hhd'.symm.trans hhd) (by simp)

lemma Consistent.revert {c : TipSetCache α} (hc : c.Consistent api) (ts : α)
    {c' : TipSetCache α} (h : c.revert ts = .ok c') : c'.Consistent api := by
  obtain ⟨H, hH⟩ := hc
  unfold TipSetCache.revert at h
  split at h
  · cases h
    exact ⟨H, hH⟩
  · split at h
    · cases h
      exact hH.tail.dropWhile _
    · cases h

lemma Consistent.step {c : TipSetCache α} (hc : c.Consistent api) (cap : ℕ) (op : CacheOp α) :
    (c.step api cap op).Consistent api := by
  cases op with
  | add ts =>
    cases h : c.add api cap ts with
    | error => simpa [TipSetCache.step, h, Except.toOption] using hc
    | ok c' => simpa [TipSetCache.step, h, Except.toOption] using hc.add cap ts h
  | revert ts =>
    cases h : c.revert ts with
    | error => simpa [TipSetCache.step, h, Except.toOption] using hc
    | ok c' => simpa [TipSetCache.step, h, Except.toOption] using hc.revert ts h

/-- **Along every run of calls, the window's tipsets sit at consecutive heights.** -/
theorem consistent_run (cap : ℕ) (ops : List (CacheOp α)) :
    (Run.run (step api cap) empty ops).Consistent api :=
  Run.run_invariant (fun _ op hc => hc.step cap op) ops consistent_empty

omit [DecidableEq α] in
/-- The tail is a tipset of the window. -/
lemma exists_getElem?_of_tail {c : TipSetCache α} {t : α} (h : c.tail = some t) :
    ∃ j < c.slots.length, c.slots[j]? = some (some t) := by
  have hfind : c.slots.reverse.find? Option.isSome = some (some t) := Option.join_eq_some_iff.mp h
  have hmem : some t ∈ c.slots := List.mem_reverse.mp (List.mem_of_find?_eq_some hfind)
  obtain ⟨j, hj, hjt⟩ := List.mem_iff_getElem.mp hmem
  exact ⟨j, hj, by rw [List.getElem?_eq_getElem hj, hjt]⟩

omit [DecidableEq α] in
lemma head_eq_some_iff {c : TipSetCache α} {hd : α} :
    c.head = some hd ↔ c.slots[0]? = some (some hd) := by
  rw [head, List.head?_eq_getElem?, Option.join_eq_some_iff]

/-- Reverting the head takes it and the null rounds under it. -/
lemma revert_head {c : TipSetCache α} {ts : α} (h : c.head = some ts) :
    ∃ c', c.revert ts = .ok c' ∧ c'.slots = c.slots.tail.dropWhile Option.isNone := by
  obtain ⟨slots, hne⟩ := c
  cases slots with
  | nil => exact absurd h (by simp [head])
  | cons x rest =>
    obtain rfl : x = some ts := by simpa [head] using h
    exact ⟨_, if_pos rfl, rfl⟩

omit [DecidableEq α] in
/-- A window with a head has a tail. -/
lemma exists_tail_of_head {c : TipSetCache α} {hd : α} (h : c.head = some hd) :
    ∃ t, c.tail = some t := by
  have hmem : some hd ∈ c.slots.reverse :=
    List.mem_reverse.mpr (List.mem_of_getElem? (head_eq_some_iff.mp h))
  cases hf : c.slots.reverse.find? Option.isSome with
  | none => exact absurd (List.find?_eq_none.mp hf _ hmem) (by simp)
  | some x =>
    obtain ⟨t, rfl⟩ := Option.isSome_iff_exists.mp (List.find?_some hf)
    exact ⟨t, by rw [tail, hf]; rfl⟩

omit [DecidableEq α] in
/-- **The heights `get` reads from the window lie in it**: from the head down to the oldest
tipset, the offset `head - h` is a slot of the window. -/
theorem get_index_lt {c : TipSetCache α} (hc : c.Consistent api) {hd : α} (hhd : c.head = some hd)
    {h : ℤ} (hlo : api.height (c.tail.getD hd) ≤ h) (hhi : h ≤ api.height hd) :
    (api.height hd - h).toNat < c.slots.length := by
  obtain ⟨H, hH⟩ := hc
  have h0 := head_eq_some_iff.mp hhd
  have hhdH : api.height hd + (0 : ℕ) = H := hH.height_add h0
  have hlen : 0 < c.slots.length := (List.getElem?_eq_some_iff.mp h0).1
  cases htail : c.tail with
  | none =>
    rw [htail, Option.getD_none] at hlo
    omega
  | some t =>
    -- the oldest tipset sits `j` slots behind the head, `j` heights below it
    rw [htail, Option.getD_some] at hlo
    obtain ⟨j, hj, hjt⟩ := exists_getElem?_of_tail htail
    have := hH.height_add hjt
    omega

omit [DecidableEq α] in
/-- Between the oldest tipset and the head, `get` reads the window's slot. -/
lemma get_of_le {c : TipSetCache α} {hd : α} (hhd : c.head = some hd) {h : ℤ}
    (hlo : api.height (c.tail.getD hd) ≤ h) (hhi : h ≤ api.height hd) :
    c.get api h = .ok (c.slots.getD (api.height hd - h).toNat none) := by
  rw [get, hhd]
  simp only [gt_iff_lt, if_neg (not_lt.mpr hhi), if_neg (not_lt.mpr hlo)]

omit [DecidableEq α] in
/-- The loop of `getNonNull` from the slot `k` of the window: it stops at the first tipset at or
in front of `k`, past null rounds only, when it has fuel for the `k + 1` slots. -/
lemma getNonNullLoop_eq {c : TipSetCache α} {hd : α} (hhd : c.head = some hd) :
    ∀ (k fuel : ℕ) (h : ℤ), (api.height hd - h).toNat = k → api.height (c.tail.getD hd) ≤ h →
      h ≤ api.height hd → k < c.slots.length → k < fuel →
      ∃ ts i, c.getNonNullLoop api fuel h = .ok ts ∧ i ≤ k ∧ c.slots[i]? = some (some ts) ∧
        ∀ j, i < j → j ≤ k → c.slots[j]? = some none := by
  intro k
  induction k with
  | zero =>
    intro fuel h hk hlo hhi _ hfuel
    obtain ⟨fuel, rfl⟩ := Nat.exists_eq_add_of_lt hfuel
    -- slot 0 is the head
    refine ⟨hd, 0, ?_, le_rfl, head_eq_some_iff.mp hhd, fun j hj hj' => absurd hj' (by omega)⟩
    rw [Nat.zero_add, getNonNullLoop, get_of_le hhd hlo hhi, hk,
      List.getD_eq_getElem?_getD, head_eq_some_iff.mp hhd]
    rfl
  | succ k ih =>
    intro fuel h hk hlo hhi hlen hfuel
    obtain ⟨fuel, rfl⟩ := Nat.exists_eq_add_of_lt hfuel
    have hslot : c.slots.getD (k + 1) none = c.slots[k + 1]?.getD none :=
      List.getD_eq_getElem?_getD
    have hk1 : c.slots[k + 1]? = some (c.slots.getD (k + 1) none) := by
      rw [hslot, List.getElem?_eq_getElem hlen, Option.getD_some]
    rw [getNonNullLoop, get_of_le hhd hlo hhi, hk]
    cases hs : c.slots.getD (k + 1) none with
    | some ts =>
      -- a tipset at `h`: the loop stops here
      exact ⟨ts, k + 1, rfl, le_rfl, by rw [hk1, hs], fun j hj hj' => absurd hj' (by omega)⟩
    | none =>
      -- a null round: the loop goes on one height up, one slot forward
      obtain ⟨ts, i, hloop, hi, hts, hnull⟩ :=
        ih (k + 1 + fuel) (h + 1) (by omega) (by omega) (by omega) (by omega) (by omega)
      refine ⟨ts, i, hloop, by omega, hts, fun j hj hj' => ?_⟩
      rcases Nat.lt_or_ge j (k + 1) with hjk | hjk
      · exact hnull j hj (by omega)
      · rw [show j = k + 1 by omega, hk1, hs]

omit [DecidableEq α] in
/-- **`getNonNull` finds the lowest tipset at or above a height**: for every height from the
window's oldest tipset to its head, it returns the tipset of the window at the least height at
or above it. -/
theorem getNonNull_lowest {c : TipSetCache α} (hc : c.Consistent api) {hd : α}
    (hhd : c.head = some hd) {h : ℤ} (hlo : api.height (c.tail.getD hd) ≤ h)
    (hhi : h ≤ api.height hd) :
    ∃ ts, c.getNonNull api h = .ok ts ∧ some ts ∈ c.slots ∧ h ≤ api.height ts ∧
      ∀ t, some t ∈ c.slots → h ≤ api.height t → api.height ts ≤ api.height t := by
  have hk := get_index_lt hc hhd hlo hhi
  obtain ⟨ts, i, hloop, hi, hts, hnull⟩ := getNonNullLoop_eq hhd _ (c.slots.length + 1) h rfl
    hlo hhi hk (by omega)
  obtain ⟨H, hH⟩ := hc
  -- slot `j` of the window holds height `H - j`, and the head is at `H`
  have hhdH : api.height hd + (0 : ℕ) = H := hH.height_add (head_eq_some_iff.mp hhd)
  have htsH := hH.height_add hts
  refine ⟨ts, hloop, List.mem_of_getElem? hts, by omega, fun t ht hth => ?_⟩
  obtain ⟨j, hj, hjt⟩ := List.mem_iff_getElem.mp ht
  have hjt' : c.slots[j]? = some (some t) := by rw [List.getElem?_eq_getElem hj, hjt]
  have htH := hH.height_add hjt'
  -- a tipset in front of `i` is higher; behind it, up to `h`, there are only null rounds
  rcases Nat.lt_or_ge i j with hij | hij
  · have := hnull j hij (by omega)
    rw [hjt'] at this
    cases this
  · omega

end Consistent

end TipSetCache

end Events

end Lotus
