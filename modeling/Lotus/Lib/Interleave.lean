import Mathlib

/-!
# Splitting a list in two, in order

`Interleave l xs ys`: each element of `l`, in turn, goes either to `xs` or to `ys`, so that both
keep the order of `l`.  A loop that walks a list and moves some of its elements elsewhere,
keeping the others, splits it this way.  The two parts are sublists of the whole
(`Interleave.sublist_left`, `Interleave.sublist_right`) and together a permutation of it
(`Interleave.perm`).
-/

/-- `l` is split into `xs` and `ys`, each in the order of `l`. -/
inductive Interleave {α : Type*} : List α → List α → List α → Prop
  | nil : Interleave [] [] []
  | left (x : α) {l xs ys : List α} : Interleave l xs ys → Interleave (x :: l) (x :: xs) ys
  | right (x : α) {l xs ys : List α} : Interleave l xs ys → Interleave (x :: l) xs (x :: ys)

namespace Interleave

variable {α β : Type*} {l xs ys : List α}

lemma sublist_left (h : Interleave l xs ys) : xs.Sublist l := by
  induction h with
  | nil => exact .slnil
  | left x _ ih => exact ih.cons_cons x
  | right x _ ih => exact ih.cons x

lemma sublist_right (h : Interleave l xs ys) : ys.Sublist l := by
  induction h with
  | nil => exact .slnil
  | left x _ ih => exact ih.cons x
  | right x _ ih => exact ih.cons_cons x

/-- The two parts hold the elements of the whole, each as often. -/
lemma perm (h : Interleave l xs ys) : l.Perm (xs ++ ys) := by
  induction h with
  | nil => exact .nil
  | left x _ ih => exact ih.cons x
  | right x _ ih => exact (ih.cons x).trans List.perm_middle.symm

/-- With nothing taken out, what stays is the whole. -/
lemma eq_of_nil_left (h : Interleave l [] ys) : ys = l :=
  h.sublist_right.eq_of_length (by simpa using h.perm.length_eq.symm)

lemma map (f : α → β) (h : Interleave l xs ys) : Interleave (l.map f) (xs.map f) (ys.map f) := by
  induction h with
  | nil => exact .nil
  | left x _ ih => exact .left (f x) ih
  | right x _ ih => exact .right (f x) ih

end Interleave
