import Mathlib

/-!
# Bitfields as finite sets of numbers

A run-length bitfield of `uint64`s is a finite set of numbers: subtracting one bitfield from
another is `\`, merging two is `∪`, `Count` is `card` and `Set` is `insert`.  What the set alone
does not give is the order of `ForEach`, which visits the set bits in ascending order; that order
is `ascending`, computed over `range (max + 1)` so that a concrete set evaluates by `decide`.
The lemmas below are all a proof needs of it: it lists the set's elements (`mem_ascending`), each
once and in increasing order (`pairwise_ascending`), and nothing when the set is empty.
-/

namespace Bitfield

/-- The elements of `s` in ascending order, as `ForEach` visits them. -/
def ascending (s : Finset ℕ) : List ℕ :=
  (List.range (s.sup id + 1)).filter (· ∈ s)

@[simp] lemma mem_ascending {s : Finset ℕ} {n : ℕ} : n ∈ ascending s ↔ n ∈ s := by
  simp only [ascending, List.mem_filter, List.mem_range, decide_eq_true_eq]
  constructor
  · exact fun h => h.2
  · intro h
    exact ⟨Nat.lt_succ_of_le (Finset.le_sup (f := id) h), h⟩

lemma pairwise_ascending (s : Finset ℕ) : (ascending s).Pairwise (· < ·) :=
  List.Pairwise.filter _ (List.pairwise_lt_range)

lemma nodup_ascending (s : Finset ℕ) : (ascending s).Nodup :=
  (pairwise_ascending s).imp Nat.ne_of_lt

@[simp] lemma toFinset_ascending (s : Finset ℕ) : (ascending s).toFinset = s := by
  ext n
  simp

lemma length_ascending (s : Finset ℕ) : (ascending s).length = s.card := by
  rw [← List.toFinset_card_of_nodup (nodup_ascending s), toFinset_ascending]

@[simp] lemma ascending_eq_nil {s : Finset ℕ} : ascending s = [] ↔ s = ∅ := by
  constructor
  · intro h
    ext n
    simpa using (List.eq_nil_iff_forall_not_mem.1 h n : n ∉ ascending s)
  · rintro rfl
    rfl

end Bitfield
