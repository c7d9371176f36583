import Lotus.Lib.Tree

/-!
# The skip-list chain index (`chain/store/index.go`)

`ChainIndex.GetTipsetByHeight` finds the tipset at a height behind a given tipset.  Close to the
start it walks parent links (`walkBack`); further away it rounds the start down to a multiple of
`skipLength` and hops through cached `lbEntry`s, each pointing `skipLength` rounded heights
further down, before walking the rest.

Tipsets are the nodes of a `HeightTree`: their keys, with `loadTipSet` the identity and the
parents of a genesis tipset (height zero) failing to load.  Heights are natural numbers, so
`rheight -= skipLength; if rheight < 0 { rheight = 0 }` is truncated subtraction.  The ARC cache
is a partial map from keys to entries, read by `Get` and written by `Add`; an entry whose target
is the empty key (a genesis entry) has `target = none`.  Each loop is given one unit of fuel per
height it can descend, and running out is an error.

**Walking back.**  `walkBack from toEpoch` returns the lowest ancestor-or-self of `from` at or above
`toEpoch` (`walkBack_eq`).  Every entry `fillCache` computes points at an ancestor below its tipset
(`fillCacheEntry_spec`).

**The skip list agrees with the walk.**  For every cache whose entries are what `fillCache`
computes for their keys, `GetTipsetByHeight from toEpoch` returns what `walkBack from toEpoch` returns and
leaves such a cache (`getTipsetByHeight_agrees_with_walkBack`); so `ChainStore.GetTipsetByHeight`
never finds the index below the height it asked for.
-/

namespace Lotus

namespace Store

variable {α : Type*} [DecidableEq α] (T : HeightTree α) (skipLength : ℕ)

/-- `loadTipSet(ts.Parents())`: the parents of a genesis tipset do not load. -/
def loadParent (ts : α) : Except String α :=
  if T.height ts = 0 then .error "loading the parents of a genesis tipset" else .ok (T.parent ts)

/-- The loop of `walkBack`, from `ts` above `toEpoch`. -/
def walkLoop : ℕ → α → ℕ → Except String α
  | 0, _, _ => .error "walkBack: out of fuel"
  | fuel + 1, ts, toEpoch =>
    match loadParent T ts with
    | .error e => .error e
    | .ok pts =>
      -- in case `pts` is lower than the epoch looked for (null blocks), return the tipset above
      if toEpoch > T.height pts then .ok ts
      else if toEpoch = T.height pts then .ok pts
      else walkLoop fuel pts toEpoch

/-- `walkBack`. -/
def walkBack (fromTs : α) (toEpoch : ℕ) : Except String α :=
  if toEpoch > T.height fromTs then .error "looking for tipset with height greater than start point"
  else if toEpoch = T.height fromTs then .ok fromTs
  else walkLoop T (T.height fromTs) fromTs toEpoch

/-- `lbEntry`. -/
structure LbEntry (α : Type*) where
  ts : α
  parentHeight : ℕ
  targetHeight : ℕ
  target : Option α
  deriving DecidableEq

/-- `skipCache`: the entries by tipset key. -/
abbrev SkipCache (α : Type*) := α → Option (LbEntry α)

/-- `roundHeight`: floors to the nearest multiple of `skipLength`. -/
def roundHeight (h : ℕ) : ℕ :=
  h / skipLength * skipLength

/-- `roundDown`. -/
def roundDown (ts : α) : Except String α :=
  walkBack T ts (roundHeight skipLength (T.height ts))

/-- The entry `fillCache` computes for a key, before it adds it to the cache. -/
def fillCacheEntry (tsk : Option α) : Except String (LbEntry α) :=
  match tsk with
  | none => .error "loading the tipset of an empty key"
  | some ts =>
    if T.height ts = 0 then .ok ⟨ts, 0, 0, none⟩
    else
      -- will either be equal to ts.Height, or at least > ts.Parent.Height()
      let rheight := roundHeight skipLength (T.height ts)
      match loadParent T ts with
      | .error e => .error e
      | .ok parent =>
        let rheight := rheight - skipLength
        let skipTarget :=
          if T.height parent < rheight then .ok parent
          else (walkBack T parent rheight).mapError fun e => s!"fillCache walkback: {e}"
        match skipTarget with
        | .error e => .error e
        | .ok st => .ok ⟨ts, T.height parent, T.height st, some st⟩

/-- `fillCache`: the entry, added to the cache unless the tipset is a genesis. -/
def fillCache (cache : SkipCache α) (tsk : Option α) : Except String (LbEntry α × SkipCache α) :=
  match fillCacheEntry T skipLength tsk with
  | .error e => .error e
  | .ok lbe =>
    match tsk with
    | some ts => if T.height ts = 0 then .ok (lbe, cache) else .ok (lbe, Function.update cache ts lbe)
    | none => .ok (lbe, cache)

/-- `skipCache.Get(cur)`, and `fillCache(cur)` on a miss. -/
def getOrFill (cache : SkipCache α) (cur : Option α) : Except String (LbEntry α × SkipCache α) :=
  match cur.bind cache with
  | some lbe => .ok (lbe, cache)
  | none => fillCache T skipLength cache cur

/-- The loop of `GetTipsetByHeight`, from the key `cur`. -/
def getLoop : ℕ → SkipCache α → Option α → ℕ → Except String α × SkipCache α
  | 0, cache, _, _ => (.error "GetTipsetByHeight: out of fuel", cache)
  | fuel + 1, cache, cur, toEpoch =>
    match getOrFill T skipLength cache cur with
    | .error e => (.error e, cache)
    | .ok (lbe, cache) =>
      if T.height lbe.ts = toEpoch ∨ lbe.parentHeight < toEpoch then (.ok lbe.ts, cache)
      else if toEpoch > lbe.targetHeight then (walkBack T lbe.ts toEpoch, cache)
      else getLoop fuel cache lbe.target toEpoch

/-- `ChainIndex.GetTipsetByHeight`, with the cache it leaves. -/
def getTipsetByHeight (cache : SkipCache α) (fromTs : α) (toEpoch : ℕ) : Except String α × SkipCache α :=
  if T.height fromTs - toEpoch ≤ skipLength then (walkBack T fromTs toEpoch, cache)
  else
    match roundDown T skipLength fromTs with
    | .error e => (.error e, cache)
    | .ok rounded => getLoop T skipLength (T.height fromTs + 1) cache (some rounded) toEpoch

/-- `ChainStore.GetTipsetByHeight` from the tipset `ts`: the index's answer, walked again without
the cache if it is below `h`, and its parent when `prev` asks for the tipset before a null
round. -/
def chainStoreGetTipsetByHeight (cache : SkipCache α) (h : ℕ) (ts : α) (prev : Bool) :
    Except String α × SkipCache α :=
  if h > T.height ts then (.error "looking for tipset with height greater than start point", cache)
  else if h = T.height ts then (.ok ts, cache)
  else
    match getTipsetByHeight T skipLength cache ts h with
    | (.error e, cache) => (.error e, cache)
    | (.ok lbts, cache) =>
      -- "chain index returned the wrong tipset at height %d, using slow retrieval"
      let lbts := if T.height lbts < h then walkBack T ts h else .ok lbts
      match lbts with
      | .error e => (.error e, cache)
      | .ok lbts =>
        if T.height lbts = h ∨ !prev then (.ok lbts, cache) else (loadParent T lbts, cache)

/-- Every entry of the cache is the one `fillCache` computes for its key. -/
def CacheValid (cache : SkipCache α) : Prop :=
  ∀ k lbe, cache k = some lbe → fillCacheEntry T skipLength (some k) = .ok lbe

/-- What an entry says of its tipset: it is the entry's tipset; a genesis entry has parent
height zero and no target, and any other entry holds its parent's height and targets an ancestor
of its parent, strictly below the tipset. -/
structure EntryOk (ts : α) (lbe : LbEntry α) : Prop where
  ts_eq : lbe.ts = ts
  genesis : T.height ts = 0 → lbe.parentHeight = 0 ∧ lbe.target = none
  parent : 0 < T.height ts → lbe.parentHeight = T.height (T.parent ts) ∧
    ∃ t, lbe.target = some t ∧ t ∈ T.ancestors (T.parent ts) ∧ lbe.targetHeight = T.height t

/-! ## Walking back -/

variable {T}

omit [DecidableEq α] in
theorem cacheValid_empty : CacheValid T skipLength fun _ => none := by
  intro k lbe h
  cases h

omit [DecidableEq α] in
theorem loadParent_of_pos {ts : α} (h : 0 < T.height ts) : loadParent T ts = .ok (T.parent ts) := by
  simp [loadParent, Nat.pos_iff_ne_zero.mp h]

/-- From a tipset above `toEpoch`, with fuel for its height, the loop finds the lowest ancestor at or
above `toEpoch`. -/
theorem walkLoop_eq : ∀ (fuel : ℕ) (ts : α) (toEpoch : ℕ), toEpoch < T.height ts → T.height ts ≤ fuel →
    walkLoop T fuel ts toEpoch = .ok (T.lowestAbove ts toEpoch)
  | 0, ts, toEpoch, hlt, hfuel => by omega
  | fuel + 1, ts, toEpoch, hlt, hfuel => by
    have hpos : 0 < T.height ts := by omega
    have hp := T.parent_lt ts hpos
    rw [walkLoop, loadParent_of_pos hpos]
    simp only
    split_ifs with hbelow heq
    · -- the parent is below `toEpoch`: `ts` is the lowest one at or above it
      rw [HeightTree.lowestAbove_eq_self hlt.le (.inr hbelow)]
    · rw [HeightTree.lowestAbove_parent hpos heq.le, HeightTree.lowestAbove_eq_self heq.le]
      rcases Nat.eq_zero_or_pos (T.height (T.parent ts)) with h0 | hpp
      · exact .inl h0
      · exact .inr (heq ▸ T.parent_lt _ hpp)
    · rw [HeightTree.lowestAbove_parent hpos (by omega)]
      exact walkLoop_eq fuel _ toEpoch (by omega) (by omega)

/-- `walkBack` finds the lowest ancestor-or-self at or above `toEpoch`. -/
theorem walkBack_eq {fromTs : α} {toEpoch : ℕ} (hto : toEpoch ≤ T.height fromTs) :
    walkBack T fromTs toEpoch = .ok (T.lowestAbove fromTs toEpoch) := by
  unfold walkBack
  rw [if_neg (by omega)]
  split_ifs with heq
  · rw [HeightTree.lowestAbove_eq_self hto]
    rcases Nat.eq_zero_or_pos (T.height fromTs) with h0 | hpos
    · exact .inl h0
    · exact .inr (heq ▸ T.parent_lt _ hpos)
  · exact walkLoop_eq _ fromTs toEpoch (by omega) le_rfl

/-- The entry `fillCache` computes for a tipset. -/
theorem fillCacheEntry_spec (ts : α) :
    ∃ lbe, fillCacheEntry T skipLength (some ts) = .ok lbe ∧ EntryOk T ts lbe := by
  rcases Nat.eq_zero_or_pos (T.height ts) with h0 | hpos
  · refine ⟨⟨ts, 0, 0, none⟩, by simp [fillCacheEntry, h0], rfl, fun _ => ⟨rfl, rfl⟩,
      fun h => absurd h (by omega)⟩
  · have hpar : T.parent ts ∈ T.ancestors (T.parent ts) := HeightTree.mem_ancestors_self _
    simp only [fillCacheEntry, if_neg (Nat.pos_iff_ne_zero.mp hpos), loadParent_of_pos hpos]
    split_ifs with hlow
    · -- the parent is already below the rounded height: it is the target
      exact ⟨_, rfl, rfl, fun h => absurd h (by omega), fun _ => ⟨rfl, _, rfl, hpar, rfl⟩⟩
    · have hto : roundHeight skipLength (T.height ts) - skipLength ≤ T.height (T.parent ts) := by
        omega
      rw [walkBack_eq hto]
      exact ⟨_, rfl, rfl, fun h => absurd h (by omega),
        fun _ => ⟨rfl, _, rfl, HeightTree.lowestAbove_mem _ _, rfl⟩⟩

/-! ## The skip list agrees with the walk -/

/-- A lookup in a valid cache, or a `fillCache` on a miss, gives the entry `fillCache` computes
and leaves a valid cache. -/
theorem getOrFill_spec {cache : SkipCache α} (hc : CacheValid T skipLength cache) (cur : α) :
    ∃ lbe cache', getOrFill T skipLength cache (some cur) = .ok (lbe, cache') ∧
      EntryOk T cur lbe ∧ CacheValid T skipLength cache' := by
  obtain ⟨lbe, hfill, hok⟩ := fillCacheEntry_spec skipLength (T := T) cur
  cases hget : cache cur with
  | some e =>
    have he : e = lbe := by
      have := hc cur e hget
      rw [hfill] at this
      exact (Except.ok.inj this).symm
    subst he
    exact ⟨e, cache, by simp [getOrFill, hget], hok, hc⟩
  | none =>
    -- a miss: the computed entry is added, except for a genesis tipset
    have hadd : CacheValid T skipLength (Function.update cache cur (some lbe)) := by
      intro k e hk
      by_cases hkc : k = cur
      · subst hkc
        rw [Function.update_self] at hk
        cases hk
        exact hfill
      · rw [Function.update_of_ne hkc] at hk
        exact hc k e hk
    by_cases h0 : T.height cur = 0
    · exact ⟨lbe, cache, by simp [getOrFill, hget, fillCache, hfill, h0], hok, hc⟩
    · exact ⟨lbe, _, by simp [getOrFill, hget, fillCache, hfill, h0], hok, hadd⟩

/-- From an ancestor-or-self `cur` at or above `toEpoch`, with fuel above its height, the loop finds
the lowest ancestor of `cur` at or above `toEpoch`, and leaves a valid cache. -/
theorem getLoop_eq : ∀ (fuel : ℕ) (cache : SkipCache α) (cur : α) (toEpoch : ℕ),
    CacheValid T skipLength cache → toEpoch ≤ T.height cur → T.height cur < fuel →
    (getLoop T skipLength fuel cache (some cur) toEpoch).1 = .ok (T.lowestAbove cur toEpoch) ∧
      CacheValid T skipLength (getLoop T skipLength fuel cache (some cur) toEpoch).2
  | 0, _, _, _, _, _, hfuel => by omega
  | fuel + 1, cache, cur, toEpoch, hc, hto, hfuel => by
    obtain ⟨lbe, cache', hlook, hok, hc'⟩ := getOrFill_spec skipLength hc cur
    rw [getLoop, hlook]
    simp only [hok.ts_eq]
    split_ifs with hexit hwalk
    · -- the entry's tipset is at `toEpoch`, or its parent is below `toEpoch`
      refine ⟨?_, hc'⟩
      rw [HeightTree.lowestAbove_eq_self hto]
      rcases Nat.eq_zero_or_pos (T.height cur) with h0 | hpos
      · exact .inl h0
      · rcases hexit with heq | hpar
        · exact .inr (heq ▸ T.parent_lt _ hpos)
        · exact .inr ((hok.parent hpos).1 ▸ hpar)
    · exact ⟨walkBack_eq hto, hc'⟩
    · -- the target is an ancestor at or above `toEpoch`: hop to it
      have hpos : 0 < T.height cur := by
        by_contra h0
        have := (hok.genesis (by omega)).1
        omega
      obtain ⟨hph, t, ht, htmem, hth⟩ := hok.parent hpos
      have htcur : t ∈ T.ancestors cur :=
        HeightTree.mem_ancestors_trans (HeightTree.parent_mem_ancestors hpos) htmem
      have htle : toEpoch ≤ T.height t := by omega
      have htlt : T.height t < T.height cur :=
        lt_of_le_of_lt (HeightTree.height_le_of_mem_ancestors htmem) (T.parent_lt cur hpos)
      rw [ht, HeightTree.lowestAbove_of_mem htcur htle]
      exact getLoop_eq fuel cache' t toEpoch hc' htle (by omega)

/-- The rounded start is above any height the skip list is used for. -/
theorem lt_roundHeight {h toEpoch : ℕ} (hsk : 0 < skipLength) (hfar : ¬ h - toEpoch ≤ skipLength) :
    toEpoch < roundHeight skipLength h := by
  have hmod := Nat.mod_lt h hsk
  have hdiv := Nat.div_add_mod h skipLength
  simp only [roundHeight]
  rw [Nat.mul_comm] at hdiv
  omega

/-- `GetTipsetByHeight` from a cache of correct entries returns the lowest ancestor-or-self at or
above `toEpoch`, and leaves a cache of correct entries. -/
theorem getTipsetByHeight_eq_lowestAbove (hsk : 0 < skipLength) (cache : SkipCache α)
    (hc : CacheValid T skipLength cache) (fromTs : α) (toEpoch : ℕ) (hto : toEpoch ≤ T.height fromTs) :
    (getTipsetByHeight T skipLength cache fromTs toEpoch).1 = .ok (T.lowestAbove fromTs toEpoch) ∧
      CacheValid T skipLength (getTipsetByHeight T skipLength cache fromTs toEpoch).2 := by
  unfold getTipsetByHeight
  split_ifs with hnear
  · exact ⟨walkBack_eq hto, hc⟩
  · -- far from `toEpoch`: round down, then hop from the rounded tipset, an ancestor above it
    have hr : roundHeight skipLength (T.height fromTs) ≤ T.height fromTs :=
      Nat.div_mul_le_self _ _
    obtain ⟨hmem, hge, -⟩ := HeightTree.isLowestAbove_lowestAbove (T := T) hr
    have hround : roundDown T skipLength fromTs =
        .ok (T.lowestAbove fromTs (roundHeight skipLength (T.height fromTs))) :=
      walkBack_eq hr
    have hto' : toEpoch ≤ T.height (T.lowestAbove fromTs (roundHeight skipLength (T.height fromTs))) :=
      (lt_roundHeight skipLength hsk hnear).le.trans hge
    have hloop := getLoop_eq skipLength (T.height fromTs + 1) cache _ toEpoch hc hto'
      (Nat.lt_succ_of_le (HeightTree.height_le_of_mem_ancestors hmem))
    rw [← HeightTree.lowestAbove_of_mem hmem hto'] at hloop
    rw [hround]
    exact hloop

/-- The skip-list index agrees with the plain walk: for every tipset `from`, every height `toEpoch` up
to its own and every cache filled by `fillCache` on tipsets of the tree, `GetTipsetByHeight`
returns what `walkBack` returns, the lowest ancestor-or-self of `from` at or above `toEpoch`, and it
leaves a cache of the same kind.  So the tipset `ChainStore.GetTipsetByHeight` receives is never
below the height it asked for, and its slow-retrieval fallback is never taken. -/
theorem getTipsetByHeight_agrees_with_walkBack (hsk : 0 < skipLength) (cache : SkipCache α)
    (hc : CacheValid T skipLength cache) (fromTs : α) (toEpoch : ℕ) (hto : toEpoch ≤ T.height fromTs) :
    ∃ ts, (getTipsetByHeight T skipLength cache fromTs toEpoch).1 = .ok ts ∧
      walkBack T fromTs toEpoch = .ok ts ∧ T.IsLowestAbove ts fromTs toEpoch ∧ ¬ T.height ts < toEpoch ∧
      CacheValid T skipLength (getTipsetByHeight T skipLength cache fromTs toEpoch).2 := by
  have hlow := HeightTree.isLowestAbove_lowestAbove (T := T) hto
  have hres := getTipsetByHeight_eq_lowestAbove skipLength hsk cache hc fromTs toEpoch hto
  exact ⟨_, hres.1, walkBack_eq hto, hlow, by have := hlow.2.1; omega, hres.2⟩

/-- A chain with a null round before every tipset: tipset `n` is at height `3 * n`. -/
def nullRoundChain : HeightTree ℕ where
  height n := 3 * n
  parent n := n - 1
  parent_lt n h := by omega

theorem getTipsetByHeight_agrees_with_walkBack_nullRounds :
    0 < 20 ∧ CacheValid nullRoundChain 20 (fun _ => none) ∧ 50 ≤ nullRoundChain.height 30 ∧
      ∃ ts, (getTipsetByHeight nullRoundChain 20 (fun _ => none) 30 50).1 = .ok ts ∧
        walkBack nullRoundChain 30 50 = .ok ts ∧ nullRoundChain.IsLowestAbove ts 30 50 ∧
        ¬ nullRoundChain.height ts < 50 ∧
        CacheValid nullRoundChain 20 (getTipsetByHeight nullRoundChain 20 (fun _ => none) 30 50).2 :=
  ⟨by decide, cacheValid_empty 20, by decide,
    getTipsetByHeight_agrees_with_walkBack 20 (by decide) _ (cacheValid_empty 20) 30 50
      (by decide)⟩

/-- So `ChainStore.GetTipsetByHeight` returns the lowest ancestor-or-self at or above `h`, or
its parent when `prev` asks for the tipset before a null round at `h`. -/
theorem chainStoreGetTipsetByHeight_eq (hsk : 0 < skipLength) (cache : SkipCache α)
    (hc : CacheValid T skipLength cache) {h : ℕ} {ts : α} (hh : h ≤ T.height ts) (prev : Bool) :
    (chainStoreGetTipsetByHeight T skipLength cache h ts prev).1 =
      if T.height (T.lowestAbove ts h) = h ∨ !prev then .ok (T.lowestAbove ts h)
      else loadParent T (T.lowestAbove ts h) := by
  unfold chainStoreGetTipsetByHeight
  rw [if_neg (by omega)]
  by_cases heq : h = T.height ts
  · -- asked for the start's own height
    have hself : T.lowestAbove ts h = ts := by
      rw [HeightTree.lowestAbove_eq_self hh]
      rcases Nat.eq_zero_or_pos (T.height ts) with h0 | hpos
      · exact .inl h0
      · exact .inr (heq ▸ T.parent_lt _ hpos)
    rw [if_pos heq, hself, if_pos (Or.inl heq.symm)]
  · rw [if_neg heq]
    obtain ⟨hres, -⟩ := getTipsetByHeight_eq_lowestAbove skipLength hsk cache hc ts h hh
    have hnot : ¬ T.height (T.lowestAbove ts h) < h :=
      Nat.not_lt.mpr (HeightTree.isLowestAbove_lowestAbove (T := T) hh).2.1
    rcases hget : getTipsetByHeight T skipLength cache ts h with ⟨r, c⟩
    rw [hget] at hres
    simp only at hres
    subst hres
    simp only [if_neg hnot]
    split_ifs <;> rfl

/-- Epoch `50` of `nullRoundChain` is a null round: from tipset `30`, asking for the tipset before
it gives tipset `16`, at `48`, the parent of tipset `17` at `51`. -/
theorem chainStoreGetTipsetByHeight_eq_nullRound :
    nullRoundChain.lowestAbove 30 50 = 17 ∧
      (chainStoreGetTipsetByHeight nullRoundChain 20 (fun _ => none) 50 30 true).1 = .ok 16 := by
  have hlow : nullRoundChain.lowestAbove 30 50 = 17 := by decide
  refine ⟨hlow, ?_⟩
  rw [chainStoreGetTipsetByHeight_eq 20 (by decide) _ (cacheValid_empty 20) (by decide) true, hlow]
  rfl

end Store

end Lotus
