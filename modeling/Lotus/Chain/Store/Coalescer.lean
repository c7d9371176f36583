import Lotus.Chain.Store.Index
import Lotus.Lib.Run

/-!
# Coalescing head changes (`chain/store/coalescer.go`)

When the heaviest tipset moves from `a` to `b`, `reorgWorker` notifies the tipsets to revert,
from `a` down to the fork point, and the tipsets to apply, from the fork point up to `b`
(`ReorgOps`, with the apply list reversed).  A `HeadChangeCoalescer` sits between the chain store
and a subscriber: it accumulates such notifications and hands the subscriber one at a time,
cancelling a pending revert against an incoming apply of the same tipset and the other way round.

Tipsets are the nodes of a `HeightTree`, identified with their keys, and the key sets of
`coalesce` are lists.  The timers of `background` decide only when `dispatch` runs, so a run of
the loop is any sequence of head changes and dispatches; `notify` never fails the loop, and what
it has received is kept beside the pending changes.

**The head change from `a` to `b`.**  `headChange a b` is the path from `a` down to the lowest
common ancestor and the path from there up to `b`.  `ReorgOps` computes it whenever the two have
a common ancestor (`reorgNotification_eq`).  It is the only pair of a descending list of the
ancestors of `a` that are not ancestors of `b` and an ascending list of the ancestors of `b`
that are not ancestors of `a` (`ChangeSpec`, `headChange_of_changeSpec`).

**Coalescing is composition.**  Coalescing the change from `h` to `h'` into the change from `h₀`
to `h` gives the change from `h₀` to `h'` (`coalesce_headChange`): the members are set algebra
on the three ancestor sets, and the order holds because what `merge` keeps of the pending list
lies above what it keeps of the incoming one.  So after any run of the loop, the notifications
sent are valid head changes one after another, and the pending pair is the change from the last
head sent to the current one (`run_background_dispatched`).
-/

namespace Lotus

namespace Store

variable {α : Type*} [DecidableEq α] (T : HeightTree α)

/-! ## The head changes of the chain store -/

/-- The loop of `ReorgOps`: the higher of the two tipsets steps to its parent until they meet,
each side collecting the tipsets it leaves.  A walk takes at most `height a + height b` steps. -/
def reorgLoop : ℕ → α → α → List α → List α → Except String (List α × List α)
  | 0, _, _, _, _ => .error "ReorgOps: out of fuel"
  | fuel + 1, left, right, leftChain, rightChain =>
    if left = right then .ok (leftChain, rightChain)
    else if T.height left > T.height right then
      match loadParent T left with
      | .error e => .error e
      | .ok par => reorgLoop fuel par right (leftChain ++ [left]) rightChain
    else
      match loadParent T right with
      | .error e => .error e
      | .ok par => reorgLoop fuel left par leftChain (rightChain ++ [right])

/-- `ReorgOps`: the tipsets left on the way down from `a` and from `b` to where they meet. -/
def reorgOps (a b : α) : Except String (List α × List α) :=
  reorgLoop T (T.height a + T.height b + 1) a b [] []

/-- What `reorgWorker` notifies for a move of the head from `a` to `b`: `ReorgOps`, with the
apply list reversed into the order of application. -/
def reorgNotification (a b : α) : Except String (List α × List α) :=
  (reorgOps T a b).map fun (revert, apply) => (revert, apply.reverse)

/-- The head change from `a` to `b`: the path from `a` down to their lowest common ancestor, to
revert, and the path from there up to `b`, to apply. -/
def headChange (a b : α) : Option (List α × List α) :=
  (T.lca a b).map fun l => (T.pathDown a l, (T.pathDown b l).reverse)

/-- `changes` are head changes one after another, taking the head from `a` to `b`. -/
def IsHeadChanges : α → List (List α × List α) → α → Prop
  | a, [], b => a = b
  | a, c :: cs, b => ∃ m, headChange T a m = some c ∧ IsHeadChanges m cs b

/-- A pair of lists made like a head change from `a` to `b`: the ancestors of `a` that are not
ancestors of `b`, from the top down, and the ancestors of `b` that are not ancestors of `a`, from
the bottom up. -/
structure ChangeSpec (a b : α) (rev app : List α) : Prop where
  rev_sorted : rev.Pairwise fun x y => T.height y < T.height x
  app_sorted : app.Pairwise fun x y => T.height x < T.height y
  mem_rev : ∀ x, x ∈ rev ↔ x ∈ T.ancestors a ∧ x ∉ T.ancestors b
  mem_app : ∀ x, x ∈ app ↔ x ∈ T.ancestors b ∧ x ∉ T.ancestors a

/-! ## The coalescer -/

/-- The pending changes of a `HeadChangeCoalescer`. -/
structure HeadChangeCoalescer (α : Type*) where
  revert : List α
  apply : List α

namespace HeadChangeCoalescer

/-- `merge`: the pending tipsets, then the incoming ones, each kept unless it is in one of the
two cancelling sets. -/
def merge (pend incoming cancel1 cancel2 : List α) : List α :=
  pend.filter (fun ts => ts ∉ cancel1 ∧ ts ∉ cancel2) ++
    incoming.filter fun ts => ts ∉ cancel1 ∧ ts ∉ cancel2

/-- `coalesce`: pending reverts are cancelled by pending and incoming applies, and pending applies
by pending and incoming reverts. -/
def coalesce (c : HeadChangeCoalescer α) (revert apply : List α) : HeadChangeCoalescer α where
  revert := merge c.revert revert c.apply apply
  apply := merge c.apply apply c.revert revert

/-- `dispatch`: the pending pair is notified and the coalescer starts empty. -/
def dispatch (c : HeadChangeCoalescer α) : (List α × List α) × HeadChangeCoalescer α :=
  ((c.revert, c.apply), ⟨[], []⟩)

end HeadChangeCoalescer

/-- What the `background` loop acts on: a head change from the event queue, or a dispatch when
the timers (or a cancelled context) call for it. -/
inductive Event (α : Type*)
  | headChange (revert apply : List α)
  | dispatch

/-- One turn of `background`, on the coalescer and the notifications sent so far. -/
def background (s : HeadChangeCoalescer α × List (List α × List α)) :
    Event α → HeadChangeCoalescer α × List (List α × List α)
  | .headChange revert apply => (s.1.coalesce revert apply, s.2)
  | .dispatch => (s.1.dispatch.2, s.2 ++ [s.1.dispatch.1])

/-- A run of the loop from a new coalescer. -/
def runBackground (evs : List (Event α)) : HeadChangeCoalescer α × List (List α × List α) :=
  Run.run background (⟨[], []⟩, []) evs

/-- The head changes among the events, in order. -/
def changesOf (evs : List (Event α)) : List (List α × List α) :=
  evs.filterMap fun
    | .headChange revert apply => some (revert, apply)
    | .dispatch => none

/-- What the loop keeps: the notifications sent take the head from `h₀` to some `hd`, and the
pending pair is the head change from `hd` to the current head `h`. -/
def Dispatched (h₀ h : α) (s : HeadChangeCoalescer α × List (List α × List α)) : Prop :=
  ∃ hd, IsHeadChanges T h₀ s.2 hd ∧ headChange T hd h = some (s.1.revert, s.1.apply)

/-! ## `ReorgOps` finds the head change -/

variable {T}

/-- With fuel for both heights, the walk from `left` and `right` adds the paths down to their
lowest common ancestor. -/
theorem reorgLoop_eq {l : α} : ∀ (fuel : ℕ) (left right : α) (leftChain rightChain : List α),
    T.height left + T.height right < fuel → T.IsLca left right l →
      reorgLoop T fuel left right leftChain rightChain =
        .ok (leftChain ++ T.pathDown left l, rightChain ++ T.pathDown right l)
  | 0, _, _, _, _, hf, _ => absurd hf (Nat.not_lt_zero _)
  | fuel + 1, left, right, leftChain, rightChain, hf, h => by
    rw [reorgLoop]
    by_cases heq : left = right
    · subst heq
      rw [if_pos rfl, h.eq_of_self, HeightTree.pathDown_self]
      simp
    rw [if_neg heq]
    by_cases hgt : T.height left > T.height right
    · -- the higher side cannot be the meeting point, so it steps to its parent
      have hne : l ≠ left := fun hl => by
        have := HeightTree.height_le_of_mem_ancestors (hl ▸ h.2.1 : left ∈ T.ancestors right)
        omega
      obtain ⟨hpos, hpar⟩ := h.parent_left hne
      have hlt := T.parent_lt left hpos
      rw [if_pos hgt, loadParent_of_pos hpos]
      dsimp only
      rw [reorgLoop_eq fuel _ _ _ _ (by omega) hpar, HeightTree.pathDown_of_ne h.1 hne]
      simp
    · have hne : l ≠ right := fun hl =>
        heq (HeightTree.eq_of_mem_ancestors (hl ▸ h.1 : right ∈ T.ancestors left) (by omega)).symm
      obtain ⟨hpos, hpar⟩ := h.symm.parent_left hne
      have hlt := T.parent_lt right hpos
      rw [if_neg hgt, loadParent_of_pos hpos]
      dsimp only
      rw [reorgLoop_eq fuel _ _ _ _ (by omega) hpar.symm, HeightTree.pathDown_of_ne h.2.1 hne]
      simp

theorem headChange_eq_some_iff {a b : α} {rev app : List α} :
    headChange T a b = some (rev, app) ↔
      ∃ l, T.lca a b = some l ∧ T.pathDown a l = rev ∧ (T.pathDown b l).reverse = app := by
  simp [headChange]

/-- `reorgWorker` notifies the head change. -/
theorem reorgNotification_eq {a b : α} {n : List α × List α} (h : headChange T a b = some n) :
    reorgNotification T a b = .ok n := by
  obtain ⟨rev, app⟩ := n
  obtain ⟨l, hl, rfl, rfl⟩ := headChange_eq_some_iff.mp h
  rw [reorgNotification, reorgOps,
    reorgLoop_eq _ _ _ _ _ (by omega) (HeightTree.isLca_of_lca_eq_some hl)]
  rfl

/-! ## What a head change is made of -/

theorem changeSpec_of_headChange {a b : α} {rev app : List α}
    (h : headChange T a b = some (rev, app)) : ChangeSpec T a b rev app := by
  obtain ⟨l, hl, rfl, rfl⟩ := headChange_eq_some_iff.mp h
  have hlca := HeightTree.isLca_of_lca_eq_some hl
  refine ⟨HeightTree.pathDown_pairwise a l, ?_, fun x => hlca.mem_pathDown_iff, fun x => ?_⟩
  · exact List.pairwise_reverse.mpr (HeightTree.pathDown_pairwise b l)
  · rw [List.mem_reverse]
    exact hlca.symm.mem_pathDown_iff

/-- Two nodes with a common ancestor have one head change between them, and it is the pair
`ChangeSpec` describes. -/
theorem headChange_of_changeSpec {a b c : α} {rev app : List α} (hs : ChangeSpec T a b rev app)
    (hca : c ∈ T.ancestors a) (hcb : c ∈ T.ancestors b) : headChange T a b = some (rev, app) := by
  obtain ⟨l, hl⟩ := HeightTree.exists_lca hca hcb
  have hlca := HeightTree.isLca_of_lca_eq_some hl
  refine headChange_eq_some_iff.mpr ⟨l, hl, (hlca.eq_pathDown hs.rev_sorted hs.mem_rev).symm, ?_⟩
  have happ : app.reverse = T.pathDown b l :=
    hlca.symm.eq_pathDown (List.pairwise_reverse.mpr hs.app_sorted)
      fun x => (List.mem_reverse).trans (hs.mem_app x)
  rw [← happ, List.reverse_reverse]

omit [DecidableEq α] in
/-- No tipset of a head change is both reverted and applied, or listed twice. -/
theorem ChangeSpec.nodup {a b : α} {rev app : List α} (hs : ChangeSpec T a b rev app) :
    (rev ++ app).Nodup := by
  have hrev : rev.Nodup := hs.rev_sorted.imp fun h he => by rw [he] at h; exact lt_irrefl _ h
  have happ : app.Nodup := hs.app_sorted.imp fun h he => by rw [he] at h; exact lt_irrefl _ h
  refine List.nodup_append.mpr ⟨hrev, happ, fun x hx y hy hxy => ?_⟩
  subst hxy
  exact ((hs.mem_rev x).mp hx).2 ((hs.mem_app x).mp hy).1

theorem headChange_self (a : α) : headChange T a a = some ([], []) := by
  obtain ⟨rest, h⟩ := HeightTree.ancestors_eq_cons (T := T) a
  have hlca : T.lca a a = some a := by simp [HeightTree.lca, h]
  simp [headChange, hlca, HeightTree.pathDown_self]

/-! ## Coalescing composes head changes -/

namespace HeadChangeCoalescer

@[simp]
theorem mem_merge {pend incoming cancel1 cancel2 : List α} {x : α} :
    x ∈ merge pend incoming cancel1 cancel2 ↔
      (x ∈ pend ∨ x ∈ incoming) ∧ x ∉ cancel1 ∧ x ∉ cancel2 := by
  simp only [merge, List.mem_append, List.mem_filter, decide_eq_true_eq]
  tauto

/-- `merge` keeps an order when what it keeps of the pending list comes before what it keeps of
the incoming one. -/
theorem pairwise_merge {R : α → α → Prop} {pend incoming cancel1 cancel2 : List α}
    (hp : pend.Pairwise R) (hi : incoming.Pairwise R)
    (hcross : ∀ x ∈ pend, ∀ y ∈ incoming, x ∉ cancel1 → x ∉ cancel2 → y ∉ cancel1 →
      y ∉ cancel2 → R x y) :
    (merge pend incoming cancel1 cancel2).Pairwise R := by
  refine List.pairwise_append.mpr ⟨hp.filter _, hi.filter _, fun x hx y hy => ?_⟩
  simp only [List.mem_filter, decide_eq_true_eq] at hx hy
  exact hcross x hx.1 y hy.1 hx.2.1 hx.2.2 hy.2.1 hy.2.2

variable {h₀ h h' : α} {c : HeadChangeCoalescer α} {r a : List α}

/-- Coalescing the change from `h` to `h'` into the change from `h₀` to `h` makes a pair of the
shape of the change from `h₀` to `h'`. -/
theorem coalesce_changeSpec (hc : ChangeSpec T h₀ h c.revert c.apply)
    (hra : ChangeSpec T h h' r a) :
    ChangeSpec T h₀ h' (c.coalesce r a).revert (c.coalesce r a).apply where
  rev_sorted := by
    -- a kept pending revert is not an ancestor of `h`; a kept incoming one is, and of `h₀` too
    refine pairwise_merge hc.rev_sorted hra.rev_sorted fun x hx y hy _ _ hyA _ => ?_
    have hx' := (hc.mem_rev x).mp hx
    have hy' := (hra.mem_rev y).mp hy
    have hyh₀ : y ∈ T.ancestors h₀ := by
      by_contra hn
      exact hyA ((hc.mem_app y).mpr ⟨hy'.1, hn⟩)
    exact HeightTree.height_lt_of_mem_of_not_mem hx'.1 hyh₀ hy'.1 hx'.2
  app_sorted := by
    -- a kept pending apply is an ancestor of `h` and of `h'`; a kept incoming one is not of `h`
    refine pairwise_merge hc.app_sorted hra.app_sorted fun x hx y hy _ hxr _ _ => ?_
    have hx' := (hc.mem_app x).mp hx
    have hy' := (hra.mem_app y).mp hy
    have hxh' : x ∈ T.ancestors h' := by
      by_contra hn
      exact hxr ((hra.mem_rev x).mpr ⟨hx'.1, hn⟩)
    exact HeightTree.height_lt_of_mem_of_not_mem hy'.1 hxh' hx'.1 hy'.2
  mem_rev x := by
    simp only [coalesce, mem_merge, hc.mem_rev, hc.mem_app, hra.mem_rev, hra.mem_app]
    tauto
  mem_app x := by
    simp only [coalesce, mem_merge, hc.mem_rev, hc.mem_app, hra.mem_rev, hra.mem_app]
    tauto

/-- Coalescing the head change from `h` to `h'` into the head change from `h₀` to `h` gives the
head change from `h₀` to `h'`. -/
theorem coalesce_headChange (hc : headChange T h₀ h = some (c.revert, c.apply))
    (hra : headChange T h h' = some (r, a)) :
    headChange T h₀ h' = some ((c.coalesce r a).revert, (c.coalesce r a).apply) := by
  obtain ⟨l, hl, -⟩ := headChange_eq_some_iff.mp hc
  obtain ⟨f, hf, -⟩ := headChange_eq_some_iff.mp hra
  have hlca := HeightTree.isLca_of_lca_eq_some hl
  have hfca := HeightTree.isLca_of_lca_eq_some hf
  -- the two fork points are ancestors of `h`, so the lower one is common to `h₀` and `h'`
  obtain ⟨z, hz₀, hz'⟩ : ∃ z, z ∈ T.ancestors h₀ ∧ z ∈ T.ancestors h' := by
    rcases HeightTree.mem_ancestors_total hlca.2.1 hfca.1 with hlf | hfl
    · exact ⟨l, hlca.1, HeightTree.mem_ancestors_trans hfca.2.1 hlf⟩
    · exact ⟨f, HeightTree.mem_ancestors_trans hlca.1 hfl, hfca.2.1⟩
  exact headChange_of_changeSpec
    (coalesce_changeSpec (changeSpec_of_headChange hc) (changeSpec_of_headChange hra)) hz₀ hz'

end HeadChangeCoalescer

/-! ## Runs of the loop -/

/-- A run of head changes followed by one more is a run. -/
theorem isHeadChanges_append_singleton {a m b : α} {c : List α × List α} :
    ∀ {cs : List (List α × List α)}, IsHeadChanges T a cs m → headChange T m b = some c →
      IsHeadChanges T a (cs ++ [c]) b
  | [], hcs, hc => ⟨b, hcs ▸ hc, rfl⟩
  | _ :: _, ⟨m', hm', hrest⟩, hc => ⟨m', hm', isHeadChanges_append_singleton hrest hc⟩

/-- Coalescing a run of head changes from `h` to `hₙ` into the head change from `h₀` to `h`
gives the head change from `h₀` to `hₙ`. -/
theorem coalesce_run_headChange {h₀ hₙ : α} :
    ∀ (changes : List (List α × List α)) {h : α} (c : HeadChangeCoalescer α),
      headChange T h₀ h = some (c.revert, c.apply) → IsHeadChanges T h changes hₙ →
      headChange T h₀ hₙ = some
        ((Run.run (fun c ch => c.coalesce ch.1 ch.2) c changes).revert,
          (Run.run (fun c ch => c.coalesce ch.1 ch.2) c changes).apply)
  | [], _, _, hc, hrun => hrun ▸ hc
  | (r, a) :: changes, _, c, hc, ⟨_, hm, hrest⟩ =>
    coalesce_run_headChange changes (c.coalesce r a) (HeadChangeCoalescer.coalesce_headChange hc hm)
      hrest

/-- Coalescing any run of head changes from `h₀` to `hₙ` into a new coalescer and dispatching
notifies the head change from `h₀` to `hₙ`, in which no tipset appears twice. -/
theorem dispatch_coalesced_is_head_change {h₀ hₙ : α} (changes : List (List α × List α))
    (hv : IsHeadChanges T h₀ changes hₙ) :
    headChange T h₀ hₙ = some (Run.run (fun c ch => c.coalesce ch.1 ch.2)
        (⟨[], []⟩ : HeadChangeCoalescer α) changes).dispatch.1 ∧
      ((Run.run (fun c ch => c.coalesce ch.1 ch.2)
        (⟨[], []⟩ : HeadChangeCoalescer α) changes).dispatch.1.1 ++
      (Run.run (fun c ch => c.coalesce ch.1 ch.2)
        (⟨[], []⟩ : HeadChangeCoalescer α) changes).dispatch.1.2).Nodup := by
  have h := coalesce_run_headChange changes ⟨[], []⟩ (headChange_self h₀) hv
  exact ⟨h, (changeSpec_of_headChange h).nodup⟩

/-- A genesis `0`, a tipset `1` on it, and two tipsets `2` and `3` forking from `1`. -/
def forkTree : HeightTree ℕ where
  height n := min n 2
  parent n := if n ≤ 1 then 0 else 1
  parent_lt n h := by
    rcases Nat.lt_or_ge n 2 with hn | hn
    · simp only [min_eq_left hn.le] at h ⊢
      rw [if_pos (by omega)]
      omega
    · rw [if_neg (by omega)]
      omega

/-- From `2` to `3` on `forkTree`, `reorgWorker` notifies the revert of `2` and the apply of `3`. -/
theorem reorgNotification_eq_fork :
    headChange forkTree 2 3 = some ([2], [3]) ∧ reorgNotification forkTree 2 3 = .ok ([2], [3]) := by
  have h : headChange forkTree 2 3 = some ([2], [3]) := by decide
  exact ⟨h, reorgNotification_eq h⟩

theorem dispatch_coalesced_is_head_change_fork :
    IsHeadChanges forkTree 2 [([2], [3]), ([3], []), ([], [3])] 3 ∧
      headChange forkTree 2 3 = some (Run.run (fun c ch => c.coalesce ch.1 ch.2)
          (⟨[], []⟩ : HeadChangeCoalescer ℕ) [([2], [3]), ([3], []), ([], [3])]).dispatch.1 ∧
        ((Run.run (fun c ch => c.coalesce ch.1 ch.2)
          (⟨[], []⟩ : HeadChangeCoalescer ℕ) [([2], [3]), ([3], []), ([], [3])]).dispatch.1.1 ++
        (Run.run (fun c ch => c.coalesce ch.1 ch.2)
          (⟨[], []⟩ : HeadChangeCoalescer ℕ) [([2], [3]), ([3], []), ([], [3])]).dispatch.1.2).Nodup :=
  ⟨⟨3, by decide, 1, by decide, 3, by decide, rfl⟩,
    dispatch_coalesced_is_head_change _ ⟨3, by decide, 1, by decide, 3, by decide, rfl⟩⟩

theorem dispatched_headChange {h₀ h h' : α} {s : HeadChangeCoalescer α × List (List α × List α)}
    {r a : List α} (hs : Dispatched T h₀ h s) (hra : headChange T h h' = some (r, a)) :
    Dispatched T h₀ h' (background s (.headChange r a)) := by
  obtain ⟨hd, hsent, hpend⟩ := hs
  exact ⟨hd, hsent, HeadChangeCoalescer.coalesce_headChange hpend hra⟩

theorem dispatched_dispatch {h₀ h : α} {s : HeadChangeCoalescer α × List (List α × List α)}
    (hs : Dispatched T h₀ h s) : Dispatched T h₀ h (background s .dispatch) := by
  obtain ⟨hd, hsent, hpend⟩ := hs
  exact ⟨h, isHeadChanges_append_singleton hsent hpend, headChange_self h⟩

/-- Along every run of the loop whose head changes take the head from `h₀` to `hₙ`, the
notifications sent are head changes one after another, and what is pending is the head change
from the last head they reach to `hₙ`. -/
theorem run_background_dispatched {h₀ hₙ : α} (evs : List (Event α))
    (hv : IsHeadChanges T h₀ (changesOf evs) hₙ) : Dispatched T h₀ hₙ (runBackground evs) := by
  suffices key : ∀ (evs : List (Event α)) {h : α} (s : HeadChangeCoalescer α × List _),
      Dispatched T h₀ h s → IsHeadChanges T h (changesOf evs) hₙ →
        Dispatched T h₀ hₙ (Run.run background s evs) from
    key evs _ ⟨h₀, rfl, headChange_self h₀⟩ hv
  intro evs
  induction evs with
  | nil => intro h s hs hrun; exact hrun ▸ hs
  | cons e evs ih =>
    intro h s hs hrun
    cases e with
    | headChange r a =>
      obtain ⟨m, hm, hrest⟩ := hrun
      exact ih _ (dispatched_headChange hs hm) hrest
    | dispatch => exact ih _ (dispatched_dispatch hs) hrun

/-- The fork of `forkTree` from 2 to 3 and back out and in again, with a dispatch after the first
change and one at the end. -/
theorem run_background_dispatched_fork :
    IsHeadChanges forkTree 2 (changesOf [.headChange [2] [3], .dispatch, .headChange [3] [],
      .headChange [] [3], .dispatch]) 3 ∧
    Dispatched forkTree 2 3 (runBackground [.headChange [2] [3], .dispatch, .headChange [3] [],
      .headChange [] [3], .dispatch]) := by
  have hv : IsHeadChanges forkTree 2 (changesOf [.headChange [2] [3], .dispatch,
      .headChange [3] [], .headChange [] [3], .dispatch]) 3 :=
    show IsHeadChanges forkTree 2 [([2], [3]), ([3], []), ([], [3])] 3 from
      ⟨3, by decide, 1, by decide, 3, by decide, rfl⟩
  exact ⟨hv, run_background_dispatched _ hv⟩

end Store

end Lotus
