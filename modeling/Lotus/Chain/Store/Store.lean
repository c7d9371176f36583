import Lotus.Chain.Store.Coalescer

/-!
# Common ancestors and fork lengths (`chain/store/store.go`)

`NearestCommonAncestor(a, b)` runs `ReorgOps(a, b)` and loads the parents of the last tipset on
the way down from `a`.  `exceedsForkLength(synced, external)` decides whether the chain store
may move its head from `synced` to the heavier `external`: on each of `ForkLengthThreshold`
turns it walks `external` down to the height of `synced`, stops with `false` where the two
meet, stops with `true` at the checkpoint or at the genesis, and otherwise takes `synced` one
tipset down.

Tipsets are the nodes of a `HeightTree`, as for `ReorgOps`; the checkpoint and the two heads of
`exceedsForkLength` may be `nil`, which is `none`.  Each walk runs on fuel that its height
covers.

**`NearestCommonAncestor` on a fork.**  For two tipsets with a lowest common ancestor `l`,
`ReorgOps` returns the paths down to `l`, and `NearestCommonAncestor` returns `l`
when `a` is not an ancestor of `b`; when it is (`a = b` included), the path from `a` is empty and
`l[len(l)-1]` panics (`nearestCommonAncestor_panics`).

**The fork length.**  The walk of `external` stops at the first of its ancestors at or below the
height of `synced`, and that is `synced` exactly when `synced` is the lowest common ancestor
(`walkDown_spec`).  So `exceedsForkLength` answers `false` exactly when the lowest common ancestor
is fewer than `ForkLengthThreshold` steps below `synced` and no tipset before it is the checkpoint
(`exceedsForkLength_spec`).
-/

namespace Lotus

namespace Store

variable {α : Type*} [DecidableEq α] (T : HeightTree α)

/-! ## The model -/

/-- `NearestCommonAncestor(a, b)`: the parents of the last tipset `ReorgOps` leaves on the way
down from `a`; `none` where `l[len(l)-1]` panics on an empty path. -/
def nearestCommonAncestor (a b : α) : Option (Except String α) :=
  match reorgOps T a b with
  | .error e => some (.error e)
  | .ok (l, _) => l.getLast?.map (loadParent T)

/-- `build.ForkLengthThreshold`: `Finality`, the 900 epochs of `policy.ChainFinality`. -/
def forkLengthThreshold : ℕ := 900

/-- The inner loop of `exceedsForkLength`: `external` walks down to the height `h` of `synced`;
`none` for the return at the external genesis. -/
def walkDown : ℕ → α → ℕ → Except String (Option α)
  | 0, _, _ => .error "exceedsForkLength: out of fuel"
  | fuel + 1, external, h =>
    if T.height external > h then
      if T.height external = 0 then .ok none
      else
        match loadParent T external with
        | .error e => .error ("failed to load parent tipset in external chain: " ++ e)
        | .ok par => walkDown fuel par h
    else .ok (some external)

/-- The outer loop of `exceedsForkLength`, with `n` turns left. -/
def forkLoop (checkpoint : Option α) : ℕ → α → α → Except String Bool
  | 0, _, _ => .ok true
  | n + 1, synced, external =>
    match walkDown T (T.height external + 1) external (T.height synced) with
    | .error e => .error e
    | .ok none => .ok true
    | .ok (some external) =>
      if synced = external then .ok false
      else if some synced = checkpoint then .ok true
      else if T.height synced = 0 then .ok true
      else
        match loadParent T synced with
        | .error e => .error ("failed to load parent tipset in synced chain: " ++ e)
        | .ok par => forkLoop checkpoint n par external

/-- `cs.exceedsForkLength(synced, external)`, with the store's checkpoint. -/
def exceedsForkLength (checkpoint synced external : Option α) : Except String Bool :=
  match synced, external with
  | some synced, some external => forkLoop T checkpoint forkLengthThreshold synced external
  | _, _ => .ok false

variable {T}

/-! ## `NearestCommonAncestor` -/

/-- `ReorgOps` on two tipsets with a lowest common ancestor. -/
theorem reorgOps_eq {a b l : α} (hl : T.IsLca a b l) :
    reorgOps T a b = .ok (T.pathDown a l, T.pathDown b l) := by
  rw [reorgOps, reorgLoop_eq _ _ _ _ _ (by omega) hl]
  rfl

/-- **`ReorgOps` and `NearestCommonAncestor`.**  For two tipsets with a lowest common ancestor
`l`, `ReorgOps` returns the paths from each of them down to `l`, `l` excluded;
`NearestCommonAncestor` returns `l` when `a` is not an ancestor of `b`, and panics when it is. -/
theorem nearestCommonAncestor_panics {a b l : α} (hl : T.IsLca a b l) :
    reorgOps T a b = .ok (T.pathDown a l, T.pathDown b l) ∧
      nearestCommonAncestor T a b = if a ∈ T.ancestors b then none else some (.ok l) := by
  refine ⟨reorgOps_eq hl, ?_⟩
  rw [nearestCommonAncestor, reorgOps_eq hl]
  dsimp only
  split_ifs with hab
  · -- `a` is a common ancestor, so it is the lowest one and the path from it is empty
    rw [hl.eq_of_mem (T.mem_ancestors_self a) hab hl.1, HeightTree.pathDown_self]
    rfl
  · have hne : l ≠ a := fun h => hab (h ▸ hl.2.1)
    obtain ⟨x, hx, hpos, hpar⟩ := HeightTree.getLast?_pathDown hl.1 hne
    rw [hx, Option.map_some, loadParent_of_pos hpos, hpar]

/-- On the fork of `forkTree`, `1` is an ancestor of `3`. -/
theorem nearestCommonAncestor_panics_fork :
    reorgOps forkTree 1 3 = .ok (forkTree.pathDown 1 1, forkTree.pathDown 3 1) ∧
      nearestCommonAncestor forkTree 1 3 = if 1 ∈ forkTree.ancestors 3 then none else some (.ok 1) :=
  nearestCommonAncestor_panics (HeightTree.isLca_of_lca_eq_some (by decide))

example : nearestCommonAncestor forkTree 1 3 = none := by decide

example : nearestCommonAncestor forkTree 2 3 = some (.ok 1) := by decide

/-! ## `exceedsForkLength` -/

omit [DecidableEq α] in
/-- The external walk stops at an ancestor at or below the height, with every lower ancestor of
the start below it. -/
theorem walkDown_spec : ∀ (fuel : ℕ) (ext : α) (h : ℕ) (c : α), T.height ext < fuel →
    c ∈ T.ancestors ext → T.height c ≤ h →
      ∃ ext', walkDown T fuel ext h = .ok (some ext') ∧ ext' ∈ T.ancestors ext ∧
        T.height ext' ≤ h ∧ c ∈ T.ancestors ext'
  | 0, _, _, _, hf, _, _ => absurd hf (Nat.not_lt_zero _)
  | fuel + 1, ext, h, c, hf, hc, hch => by
    rw [walkDown]
    by_cases hgt : T.height ext > h
    · -- above the height, `ext` is not `c`: it has a parent, and `c` is below that
      have hne : c ≠ ext := fun hce => by rw [hce] at hch; omega
      obtain ⟨hpos, hcp⟩ := HeightTree.mem_ancestors_parent_of_ne hc hne
      have hlt := T.parent_lt ext hpos
      rw [if_pos hgt, if_neg (by omega), loadParent_of_pos hpos]
      dsimp only
      obtain ⟨ext', hw, hmem, hle, hc'⟩ := walkDown_spec fuel _ h c (by omega) hcp hch
      exact ⟨ext', hw, HeightTree.mem_ancestors_trans (HeightTree.parent_mem_ancestors hpos) hmem,
        hle, hc'⟩
    · rw [if_neg hgt]
      exact ⟨ext, rfl, T.mem_ancestors_self ext, by omega, hc⟩

/-- With `n` turns left, the loop answers `false` exactly when the lowest common ancestor is
fewer than `n` steps down and no tipset on the way is the checkpoint.  The lowest common ancestor
of the two walks stays the same from turn to turn. -/
theorem forkLoop_eq (cp : Option α) {l : α} : ∀ (n : ℕ) (synced ext : α), T.IsLca synced ext l →
    forkLoop T cp n synced ext =
      .ok (decide ¬((T.pathDown synced l).length < n ∧ ∀ x ∈ T.pathDown synced l, some x ≠ cp))
  | 0, synced, ext, _ => by simp [forkLoop]
  | n + 1, synced, ext, hl => by
    obtain ⟨ext', hw, hmem, hle, hlext'⟩ := walkDown_spec (T.height ext + 1) ext (T.height synced) l
      (by omega) hl.2.1 (HeightTree.height_le_of_mem_ancestors hl.1)
    have hl' : T.IsLca synced ext' l :=
      ⟨hl.1, hlext', fun c hs he => hl.2.2 c hs (HeightTree.mem_ancestors_trans hmem he)⟩
    rw [forkLoop, hw]
    dsimp only
    by_cases hs : synced = l
    · -- the walks meet at the lowest common ancestor
      have hext : synced = ext' := hs.trans (HeightTree.eq_of_mem_ancestors hlext' (hs ▸ hle))
      rw [if_pos hext, hs, HeightTree.pathDown_self]
      simp
    · -- `synced` is above the lowest common ancestor, so the walk of `external` passed it by
      have hne : synced ≠ ext' := fun h =>
        hs (hl'.eq_of_mem (T.mem_ancestors_self synced) (h ▸ T.mem_ancestors_self ext') hl.1)
      rw [if_neg hne, HeightTree.pathDown_of_ne hl.1 (Ne.symm hs)]
      by_cases hcp : some synced = cp
      · rw [if_pos hcp]
        simp [hcp]
      · obtain ⟨hpos, hpar⟩ := hl'.parent_left (Ne.symm hs)
        rw [if_neg hcp, if_neg (by omega), loadParent_of_pos hpos]
        dsimp only
        rw [forkLoop_eq cp n _ _ hpar]
        simp [hcp]

/-- **The fork length.**  For a synced head and an external head with a lowest common ancestor
`l`, and every checkpoint, `exceedsForkLength` answers `false` exactly when `l` is fewer than
`ForkLengthThreshold` steps below `synced` and the checkpoint is not one of the tipsets the walk
leaves on the way; it never fails. -/
theorem exceedsForkLength_spec (cp : Option α) {synced external l : α}
    (hl : T.IsLca synced external l) :
    exceedsForkLength T cp (some synced) (some external) =
      .ok (decide ¬((T.pathDown synced l).length < forkLengthThreshold ∧
        ∀ x ∈ T.pathDown synced l, some x ≠ cp)) :=
  forkLoop_eq cp _ _ _ hl

/-- On the fork of `forkTree`, the heads `2` and `3` meet one step below `2`. -/
theorem exceedsForkLength_spec_fork :
    exceedsForkLength forkTree none (some 2) (some 3) =
      .ok (decide ¬((forkTree.pathDown 2 1).length < forkLengthThreshold ∧
        ∀ x ∈ forkTree.pathDown 2 1, some x ≠ none)) :=
  exceedsForkLength_spec none (HeightTree.isLca_of_lca_eq_some (by decide))

example : exceedsForkLength forkTree (some 2) (some 2) (some 3) = .ok true := by decide

end Store

end Lotus
