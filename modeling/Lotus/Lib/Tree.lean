import Mathlib

/-!
# Trees of nodes with heights

A forest in which every node of positive height has a parent of strictly smaller height, and the
nodes of height zero are roots.  `ancestors a` lists `a` and its ancestors, from `a` down to its
root; it is computed by recursion on a fuel argument that the height always covers.

**Ancestor chains.**  The ancestors of a node strictly decrease in height
(`ancestors_pairwise`), the ancestors of an ancestor are a suffix of the list
(`ancestors_suffix_of_mem`), so any two ancestors of one node are ancestors of one another
(`mem_ancestors_total`), and an ancestor is determined by its height (`eq_of_mem_ancestors`).

**The lowest ancestor at or above a height.**  `lowestAbove a h` is the last ancestor of `a`
whose height is at least `h` (`isLowestAbove_lowestAbove`); it is the same from every ancestor
of `a` still at or above `h` (`lowestAbove_of_mem`).

**Paths and common ancestors.**  `pathDown a l` is the descending path from `a` to its ancestor
`l`, `l` excluded; its members are the ancestors of `a` that are not ancestors of `l`
(`mem_pathDown_iff`).  `IsLca a b l` says `l` is the highest common ancestor, under which every
common ancestor lies; a list of ancestors of one node in descending order is determined by its
members (`eq_of_sorted_of_mem_iff`).  `lca a b`, the first ancestor of `a` that is one of
`b`, is the lowest common ancestor (`isLca_of_lca_eq_some`) whenever the two have a common
ancestor at all (`exists_lca`), and the path from `a` down to it holds the ancestors of `a` that
are not ancestors of `b` (`IsLca.mem_pathDown_iff`).
-/

universe u

/-- A forest whose parents are strictly lower; nodes of height zero are roots. -/
structure HeightTree (α : Type u) where
  height : α → ℕ
  parent : α → α
  parent_lt : ∀ a, 0 < height a → height (parent a) < height a

namespace HeightTree

variable {α : Type u} (T : HeightTree α)

/-- `a` and its ancestors, taking at most `n` parent steps. -/
def ancestorsFrom : ℕ → α → List α
  | 0, a => [a]
  | n + 1, a => if T.height a = 0 then [a] else a :: ancestorsFrom n (T.parent a)

/-- `a` and all its ancestors, from `a` down to its root. -/
def ancestors (a : α) : List α :=
  T.ancestorsFrom (T.height a) a

/-- Induction from the roots up. -/
theorem induction {P : α → Prop} (root : ∀ a, T.height a = 0 → P a)
    (step : ∀ a, 0 < T.height a → P (T.parent a) → P a) (a : α) : P a := by
  induction hn : T.height a using Nat.strong_induction_on generalizing a with
  | _ n ih =>
    rcases Nat.eq_zero_or_pos (T.height a) with h0 | hpos
    · exact root a h0
    · exact step a hpos (ih _ (hn ▸ T.parent_lt a hpos) _ rfl)

variable {T}

theorem ancestorsFrom_eq_ancestors : ∀ (n : ℕ) (a : α), T.height a ≤ n →
    T.ancestorsFrom n a = T.ancestors a
  | 0, a, h => by
    have h0 : T.height a = 0 := by omega
    simp [ancestors, h0]
  | n + 1, a, h => by
    rcases Nat.eq_zero_or_pos (T.height a) with h0 | hpos
    · simp [ancestors, ancestorsFrom, h0]
    · obtain ⟨m, hm⟩ : ∃ m, T.height a = m + 1 := ⟨T.height a - 1, by omega⟩
      have hp := T.parent_lt a hpos
      rw [ancestors, hm, ancestorsFrom, ancestorsFrom, if_neg (by omega), if_neg (by omega),
        ancestorsFrom_eq_ancestors n _ (by omega), ancestorsFrom_eq_ancestors m _ (by omega)]

@[simp]
theorem ancestors_of_height_eq_zero {a : α} (h : T.height a = 0) : T.ancestors a = [a] := by
  simp [ancestors, h, ancestorsFrom]

theorem ancestors_of_pos {a : α} (h : 0 < T.height a) :
    T.ancestors a = a :: T.ancestors (T.parent a) := by
  obtain ⟨m, hm⟩ : ∃ m, T.height a = m + 1 := ⟨T.height a - 1, by omega⟩
  rw [ancestors, hm, ancestorsFrom, if_neg (by omega),
    ancestorsFrom_eq_ancestors m _ (by have := T.parent_lt a h; omega)]

theorem ancestors_eq_cons (a : α) : ∃ rest, T.ancestors a = a :: rest := by
  rcases Nat.eq_zero_or_pos (T.height a) with h0 | hpos
  · exact ⟨[], ancestors_of_height_eq_zero h0⟩
  · exact ⟨_, ancestors_of_pos hpos⟩

@[simp]
theorem mem_ancestors_self (a : α) : a ∈ T.ancestors a := by
  obtain ⟨rest, h⟩ := ancestors_eq_cons (T := T) a
  simp [h]

theorem parent_mem_ancestors {a : α} (h : 0 < T.height a) : T.parent a ∈ T.ancestors a := by
  simp [ancestors_of_pos h]

/-! ## Ancestor chains -/

theorem height_le_of_mem_ancestors {a b : α} (h : b ∈ T.ancestors a) :
    T.height b ≤ T.height a := by
  induction a using T.induction with
  | root a h0 =>
    rw [ancestors_of_height_eq_zero h0, List.mem_singleton] at h
    rw [h]
  | step a hpos ih =>
    rw [ancestors_of_pos hpos, List.mem_cons] at h
    rcases h with rfl | h
    · exact le_rfl
    · exact (ih h).trans (T.parent_lt a hpos).le

/-- Heights strictly decrease along the ancestors. -/
theorem ancestors_pairwise (a : α) :
    (T.ancestors a).Pairwise fun x y => T.height y < T.height x := by
  induction a using T.induction with
  | root a h0 => simp [ancestors_of_height_eq_zero h0]
  | step a hpos ih =>
    rw [ancestors_of_pos hpos, List.pairwise_cons]
    exact ⟨fun y hy => lt_of_le_of_lt (height_le_of_mem_ancestors hy) (T.parent_lt a hpos), ih⟩

/-- The ancestors of an ancestor are a suffix of the ancestors. -/
theorem ancestors_suffix_of_mem {a b : α} (h : b ∈ T.ancestors a) :
    T.ancestors b <:+ T.ancestors a := by
  induction a using T.induction with
  | root a h0 =>
    rw [ancestors_of_height_eq_zero h0, List.mem_singleton] at h
    rw [h]
  | step a hpos ih =>
    rw [ancestors_of_pos hpos, List.mem_cons] at h
    rcases h with rfl | h
    · rw [ancestors_of_pos hpos]
    · rw [ancestors_of_pos hpos]
      exact (ih h).trans (List.suffix_cons _ _)

theorem mem_ancestors_trans {a b c : α} (hb : b ∈ T.ancestors a) (hc : c ∈ T.ancestors b) :
    c ∈ T.ancestors a :=
  (ancestors_suffix_of_mem hb).subset hc

/-- Two ancestors of one node are ancestors of one another. -/
theorem mem_ancestors_total {a b c : α} (hb : b ∈ T.ancestors a) (hc : c ∈ T.ancestors a) :
    b ∈ T.ancestors c ∨ c ∈ T.ancestors b := by
  rcases List.suffix_or_suffix_of_suffix (ancestors_suffix_of_mem hb)
    (ancestors_suffix_of_mem hc) with h | h
  · exact .inl (h.subset (mem_ancestors_self b))
  · exact .inr (h.subset (mem_ancestors_self c))

/-- An ancestor at the node's own height is the node. -/
theorem eq_of_mem_ancestors {a b : α} (h : b ∈ T.ancestors a) (hh : T.height a ≤ T.height b) :
    b = a := by
  obtain ⟨rest, hrest⟩ := ancestors_eq_cons (T := T) a
  have hp := ancestors_pairwise (T := T) a
  rw [hrest, List.pairwise_cons] at hp
  rw [hrest, List.mem_cons] at h
  rcases h with h | h
  · exact h
  · exact absurd (hp.1 b h) (by omega)

/-! ## The lowest ancestor at or above a height -/

/-- The last ancestor of `a` whose height is at least `h` (`a` itself when there is none). -/
def lowestAbove (T : HeightTree α) (a : α) (h : ℕ) : α :=
  ((T.ancestors a).takeWhile fun x => h ≤ T.height x).getLastD a

theorem lowestAbove_eq_self {a : α} {h : ℕ} (hle : h ≤ T.height a)
    (hlow : T.height a = 0 ∨ T.height (T.parent a) < h) : T.lowestAbove a h = a := by
  rcases Nat.eq_zero_or_pos (T.height a) with h0 | hpos
  · simp [lowestAbove, ancestors_of_height_eq_zero h0, hle]
  · have hp : T.height (T.parent a) < h := hlow.resolve_left (by omega)
    obtain ⟨rest, hrest⟩ := ancestors_eq_cons (T := T) (T.parent a)
    simp [lowestAbove, ancestors_of_pos hpos, hrest, hle, hp]

theorem lowestAbove_parent {a : α} {h : ℕ} (hpos : 0 < T.height a)
    (hle : h ≤ T.height (T.parent a)) : T.lowestAbove a h = T.lowestAbove (T.parent a) h := by
  obtain ⟨rest, hrest⟩ := ancestors_eq_cons (T := T) (T.parent a)
  have hlt := T.parent_lt a hpos
  simp [lowestAbove, ancestors_of_pos hpos, hrest, show h ≤ T.height a by omega, hle,
    List.getLast?_cons]

/-- The lowest ancestor at or above `h` is the same from every ancestor still at or above `h`. -/
theorem lowestAbove_of_mem {a b : α} {h : ℕ} (hb : b ∈ T.ancestors a) (hh : h ≤ T.height b) :
    T.lowestAbove a h = T.lowestAbove b h := by
  induction a using T.induction with
  | root a h0 =>
    rw [ancestors_of_height_eq_zero h0, List.mem_singleton] at hb
    rw [hb]
  | step a hpos ih =>
    rw [ancestors_of_pos hpos, List.mem_cons] at hb
    rcases hb with rfl | hb
    · rfl
    · have hle : h ≤ T.height (T.parent a) := hh.trans (height_le_of_mem_ancestors hb)
      rw [lowestAbove_parent hpos hle, ih hb]

theorem lowestAbove_mem (a : α) (h : ℕ) : T.lowestAbove a h ∈ T.ancestors a := by
  induction a using T.induction with
  | root a h0 =>
    rw [ancestors_of_height_eq_zero h0, List.mem_singleton, lowestAbove,
      ancestors_of_height_eq_zero h0]
    by_cases ha : h ≤ T.height a <;> simp [ha]
  | step a hpos ih =>
    by_cases hle : h ≤ T.height (T.parent a)
    · rw [lowestAbove_parent hpos hle, ancestors_of_pos hpos]
      exact List.mem_cons_of_mem _ ih
    · by_cases ha : h ≤ T.height a
      · rw [lowestAbove_eq_self ha (.inr (by omega))]
        exact mem_ancestors_self a
      · simp [lowestAbove, ancestors_of_pos hpos, ha]

/-- Below `a`'s height, the lowest ancestor at or above `h` is at or above `h`, and its parent,
if any, is below `h`. -/
theorem lowestAbove_spec {a : α} {h : ℕ} (hle : h ≤ T.height a) :
    h ≤ T.height (T.lowestAbove a h) ∧
      (T.height (T.lowestAbove a h) = 0 ∨ T.height (T.parent (T.lowestAbove a h)) < h) := by
  induction a using T.induction with
  | root a h0 =>
    rw [lowestAbove_eq_self hle (.inl h0)]
    exact ⟨hle, .inl h0⟩
  | step a hpos ih =>
    by_cases hp : h ≤ T.height (T.parent a)
    · rw [lowestAbove_parent hpos hp]
      exact ih hp
    · rw [lowestAbove_eq_self hle (.inr (by omega))]
      exact ⟨hle, .inr (by omega)⟩

/-- `c` is the lowest ancestor of `a` whose height is at least `h`. -/
def IsLowestAbove (T : HeightTree α) (c a : α) (h : ℕ) : Prop :=
  c ∈ T.ancestors a ∧ h ≤ T.height c ∧ ∀ d ∈ T.ancestors a, h ≤ T.height d → T.height c ≤ T.height d

/-- An ancestor other than the node itself is an ancestor of its parent. -/
theorem mem_ancestors_parent_of_ne {a b : α} (h : b ∈ T.ancestors a) (hne : b ≠ a) :
    0 < T.height a ∧ b ∈ T.ancestors (T.parent a) := by
  rcases Nat.eq_zero_or_pos (T.height a) with h0 | hpos
  · rw [ancestors_of_height_eq_zero h0, List.mem_singleton] at h
    exact absurd h hne
  · rw [ancestors_of_pos hpos, List.mem_cons] at h
    exact ⟨hpos, h.resolve_left hne⟩

theorem isLowestAbove_lowestAbove {a : α} {h : ℕ} (hle : h ≤ T.height a) :
    T.IsLowestAbove (T.lowestAbove a h) a h := by
  obtain ⟨hh, hlow⟩ := lowestAbove_spec (T := T) hle
  refine ⟨lowestAbove_mem a h, hh, fun d hd hdh => ?_⟩
  rcases mem_ancestors_total (lowestAbove_mem a h) hd with hin | hin
  · exact height_le_of_mem_ancestors hin
  · -- `d` lies under the lowest one: it is that one, or under its parent, which is below `h`
    by_cases heq : d = T.lowestAbove a h
    · rw [heq]
    · obtain ⟨hpos, hpar⟩ := mem_ancestors_parent_of_ne hin heq
      have := height_le_of_mem_ancestors hpar
      omega

/-! ## Paths and common ancestors -/

/-- Two lists of ancestors of one node, both in descending order, with the same members, are
equal. -/
theorem eq_of_sorted_of_mem_iff {l₁ l₂ : List α}
    (h₁ : l₁.Pairwise fun x y => T.height y < T.height x)
    (h₂ : l₂.Pairwise fun x y => T.height y < T.height x) (hmem : ∀ x, x ∈ l₁ ↔ x ∈ l₂) :
    l₁ = l₂ := by
  have hnd₁ : l₁.Nodup := h₁.imp fun h he => by rw [he] at h; exact lt_irrefl _ h
  have hnd₂ : l₂.Nodup := h₂.imp fun h he => by rw [he] at h; exact lt_irrefl _ h
  have hperm : l₁.Perm l₂ := (List.perm_ext_iff_of_nodup hnd₁ hnd₂).mpr hmem
  exact hperm.eq_of_pairwise (fun _ _ _ _ hab hba => absurd (hab.trans hba) (lt_irrefl _)) h₁ h₂

/-- Of two ancestors of one node, one inside the ancestors of `d` and one outside, the one inside
is strictly lower. -/
theorem height_lt_of_mem_of_not_mem {c d x y : α} (hx : x ∈ T.ancestors c)
    (hy : y ∈ T.ancestors c) (hyd : y ∈ T.ancestors d) (hxd : x ∉ T.ancestors d) :
    T.height y < T.height x := by
  rcases mem_ancestors_total hx hy with hxy | hyx
  · exact absurd (mem_ancestors_trans hyd hxy) hxd
  · rcases (height_le_of_mem_ancestors hyx).lt_or_eq with hlt | heq
    · exact hlt
    · have hyx' : y = x := eq_of_mem_ancestors hyx heq.ge
      exact absurd (hyx' ▸ hyd) hxd

/-- `l` is the lowest common ancestor of `a` and `b`: a common ancestor under which every common
ancestor lies. -/
def IsLca (T : HeightTree α) (a b l : α) : Prop :=
  l ∈ T.ancestors a ∧ l ∈ T.ancestors b ∧ ∀ c, c ∈ T.ancestors a → c ∈ T.ancestors b →
    c ∈ T.ancestors l

theorem IsLca.symm {a b l : α} (h : T.IsLca a b l) : T.IsLca b a l :=
  ⟨h.2.1, h.1, fun c hb ha => h.2.2 c ha hb⟩

/-- Below the lowest common ancestor, the ancestors of `a` are those of `b`. -/
theorem IsLca.mem_ancestors_iff {a b l x : α} (h : T.IsLca a b l) (hx : x ∈ T.ancestors a) :
    x ∈ T.ancestors l ↔ x ∈ T.ancestors b :=
  ⟨fun hxl => mem_ancestors_trans h.2.1 hxl, fun hxb => h.2.2 x hx hxb⟩

/-- A common ancestor with the lowest common ancestor below it is the lowest common ancestor. -/
theorem IsLca.eq_of_mem {a b l x : α} (h : T.IsLca a b l) (hxa : x ∈ T.ancestors a)
    (hxb : x ∈ T.ancestors b) (hlx : l ∈ T.ancestors x) : x = l :=
  eq_of_mem_ancestors (h.2.2 x hxa hxb) (height_le_of_mem_ancestors hlx)

theorem IsLca.eq_of_self {a l : α} (h : T.IsLca a a l) : l = a :=
  eq_of_mem_ancestors h.1 (height_le_of_mem_ancestors (h.2.2 a (by simp) (by simp)))

/-- The lowest common ancestor of a node other than it and `b` is that of its parent and `b`. -/
theorem IsLca.parent_left {a b l : α} (h : T.IsLca a b l) (hne : l ≠ a) :
    0 < T.height a ∧ T.IsLca (T.parent a) b l := by
  obtain ⟨hpos, hl⟩ := mem_ancestors_parent_of_ne h.1 hne
  refine ⟨hpos, hl, h.2.1, fun c hc hcb => h.2.2 c ?_ hcb⟩
  exact mem_ancestors_trans (parent_mem_ancestors hpos) hc

variable [DecidableEq α]

/-- The descending path from `a` to its ancestor `l`, `l` excluded. -/
def pathDown (T : HeightTree α) (a l : α) : List α :=
  (T.ancestors a).takeWhile fun x => x ≠ l

theorem pathDown_sublist (a l : α) : (T.pathDown a l).Sublist (T.ancestors a) :=
  (List.takeWhile_prefix _).sublist

theorem pathDown_pairwise (a l : α) :
    (T.pathDown a l).Pairwise fun x y => T.height y < T.height x :=
  (ancestors_pairwise a).sublist (pathDown_sublist a l)

/-- On the path from `a` down to its ancestor `l` lie the ancestors of `a` that are not ancestors
of `l`. -/
theorem mem_pathDown_iff {a l x : α} (hl : l ∈ T.ancestors a) :
    x ∈ T.pathDown a l ↔ x ∈ T.ancestors a ∧ x ∉ T.ancestors l := by
  obtain ⟨pre, hpre⟩ := ancestors_suffix_of_mem hl
  obtain ⟨rest, hrest⟩ := ancestors_eq_cons (T := T) l
  have hpw := ancestors_pairwise (T := T) a
  rw [← hpre, hrest] at hpw
  -- every node before `l` is strictly above it, so none of them is `l`
  have habove : ∀ y ∈ pre, T.height l < T.height y := by
    intro y hy
    rw [List.pairwise_append] at hpw
    exact hpw.2.2 y hy l (by simp)
  have hne : ∀ y ∈ pre, y ≠ l := fun y hy hyl => by have := habove y hy; rw [hyl] at this; omega
  have htake : T.pathDown a l = pre := by
    rw [pathDown, ← hpre, hrest, List.takeWhile_append_of_pos (by simpa using hne)]
    simp
  have hdisj : ∀ y ∈ pre, y ∉ T.ancestors l := fun y hy hyl =>
    absurd (height_le_of_mem_ancestors hyl) (by have := habove y hy; omega)
  rw [htake, ← hpre, List.mem_append]
  constructor
  · intro hx
    exact ⟨.inl hx, hdisj x hx⟩
  · rintro ⟨hx | hx, hnot⟩
    · exact hx
    · exact absurd hx hnot

theorem pathDown_self (a : α) : T.pathDown a a = [] := by
  obtain ⟨rest, h⟩ := ancestors_eq_cons (T := T) a
  simp [pathDown, h]

/-- A path that does not start at its end starts with a step to the parent. -/
theorem pathDown_of_ne {a l : α} (hl : l ∈ T.ancestors a) (hne : l ≠ a) :
    T.pathDown a l = a :: T.pathDown (T.parent a) l := by
  obtain ⟨hpos, -⟩ := mem_ancestors_parent_of_ne hl hne
  rw [pathDown, ancestors_of_pos hpos, List.takeWhile_cons_of_pos (by simpa using hne.symm)]
  rfl

/-- The last node of a path that does not start at its end is a child of the end. -/
theorem getLast?_pathDown {a l : α} (hl : l ∈ T.ancestors a) (hne : l ≠ a) :
    ∃ x, (T.pathDown a l).getLast? = some x ∧ 0 < T.height x ∧ T.parent x = l := by
  induction a using T.induction with
  | root a h0 =>
    rw [ancestors_of_height_eq_zero h0, List.mem_singleton] at hl
    exact absurd hl hne
  | step a hpos ih =>
    rw [pathDown_of_ne hl hne]
    by_cases hp : l = T.parent a
    · -- `a` is the last step
      refine ⟨a, ?_, hpos, hp.symm⟩
      rw [← hp, pathDown_self]
      rfl
    · obtain ⟨x, hx, hxpos, hxl⟩ := ih (mem_ancestors_parent_of_ne hl hne).2 hp
      refine ⟨x, ?_, hxpos, hxl⟩
      rw [List.getLast?_cons, hx]
      rfl

/-! ## Lowest common ancestors -/

/-- The lowest common ancestor: the first ancestor of `a`, from `a` down, that is an ancestor of
`b`. -/
def lca (T : HeightTree α) (a b : α) : Option α :=
  ((T.ancestors a).filter (· ∈ T.ancestors b)).head?

/-- The path from `a` down to the lowest common ancestor with `b` holds the ancestors of `a` that
are not ancestors of `b`. -/
theorem IsLca.mem_pathDown_iff {a b l x : α} (h : T.IsLca a b l) :
    x ∈ T.pathDown a l ↔ x ∈ T.ancestors a ∧ x ∉ T.ancestors b := by
  rw [HeightTree.mem_pathDown_iff h.1]
  exact and_congr_right fun hx => not_congr (h.mem_ancestors_iff hx)

/-- A descending list of the ancestors of `a` that are not ancestors of `b` is the path from `a`
down to their lowest common ancestor. -/
theorem IsLca.eq_pathDown {a b l : α} (h : T.IsLca a b l) {p : List α}
    (hp : p.Pairwise fun x y => T.height y < T.height x)
    (hmem : ∀ x, x ∈ p ↔ x ∈ T.ancestors a ∧ x ∉ T.ancestors b) : p = T.pathDown a l :=
  eq_of_sorted_of_mem_iff hp (pathDown_pairwise a l) fun x => (hmem x).trans h.mem_pathDown_iff.symm

theorem isLca_of_lca_eq_some {a b l : α} (h : T.lca a b = some l) : T.IsLca a b l := by
  obtain ⟨rest, hfl⟩ : ∃ rest, (T.ancestors a).filter (· ∈ T.ancestors b) = l :: rest :=
    List.head?_eq_some_iff.mp h
  have hpw : (l :: rest).Pairwise fun x y => T.height y < T.height x :=
    hfl ▸ (ancestors_pairwise a).filter _
  have hl : l ∈ (T.ancestors a).filter (· ∈ T.ancestors b) := by simp [hfl]
  rw [List.mem_filter, decide_eq_true_iff] at hl
  refine ⟨hl.1, hl.2, fun c hca hcb => ?_⟩
  have hc : c ∈ l :: rest := hfl ▸ List.mem_filter.2 ⟨hca, decide_eq_true hcb⟩
  rcases List.mem_cons.1 hc with rfl | hc
  · exact mem_ancestors_self c
  · -- `c` comes after `l`, so it is strictly lower and cannot have `l` as an ancestor
    have hlt := List.rel_of_pairwise_cons hpw hc
    rcases mem_ancestors_total hl.1 hca with hlc | hcl
    · exact absurd (height_le_of_mem_ancestors hlc) (by omega)
    · exact hcl

/-- Two nodes with a common ancestor have a lowest one. -/
theorem exists_lca {a b c : α} (ha : c ∈ T.ancestors a) (hb : c ∈ T.ancestors b) :
    ∃ l, T.lca a b = some l := by
  have hc : c ∈ (T.ancestors a).filter (· ∈ T.ancestors b) :=
    List.mem_filter.2 ⟨ha, decide_eq_true hb⟩
  rw [← Option.isSome_iff_exists, lca, List.isSome_head?]
  exact List.ne_nil_of_mem hc

end HeightTree
