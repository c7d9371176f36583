import Mathlib

/-!
# `sort.Slice` as a contract

Go's `sort.Slice(x, less)` is not stable and its algorithm is not part of its specification:
what it promises is a permutation of `x` in which no element is `less` than one before it.  A model
takes the sort as a parameter that meets this contract (`Sorts`), so every result proved about it
holds for whichever order the runtime picks among equal elements.

`sorts_singleton` and `sorts_pair` pin down the only possible output on one element and on two
that are strictly ordered, and `mergeSort_sorts` and `insertionSort_sorts` show the contract is met
by `List.mergeSort` and `List.insertionSort` whenever `less` is a strict weak order (its negation
is total and transitive), which gives the concrete sorts witnesses use.

Whatever it does with ties, such a sort keeps the order of elements that are strictly ordered:
a block of the input, ordered by `less`, comes out as the same block in the same order once the
other elements are filtered away (`filter_mem_sort`).

`sort.SliceIsSorted(x, less)` checks the same order on neighbours only: `sliceIsSorted`.
-/

namespace SortSlice

variable {α : Type*} (less : α → α → Bool)

/-- `sort` meets `sort.Slice`'s contract for `less`: a permutation, and no element is `less` than
an earlier one. -/
def Sorts (sort : List α → List α) : Prop :=
  ∀ l, (sort l).Perm l ∧ (sort l).Pairwise fun a b => (!less b a) = true

variable {less}

/-- One element comes out as it went in. -/
theorem sorts_singleton {sort : List α → List α} (h : Sorts less sort) (a : α) :
    sort [a] = [a] :=
  List.perm_singleton.mp (h [a]).1

/-- Two distinct elements, the second `less` than the first, come out swapped. -/
theorem sorts_pair {sort : List α → List α} (h : Sorts less sort) {a b : α} (hab : a ≠ b)
    (hlt : less b a = true) : sort [a, b] = [b, a] := by
  obtain ⟨hperm, hsorted⟩ := h [a, b]
  obtain ⟨x, y, hxy⟩ := List.length_eq_two.mp (hperm.length_eq.trans rfl)
  rw [hxy] at hperm hsorted ⊢
  have hnd : [x, y].Nodup := hperm.nodup_iff.mpr (by simp [hab])
  have hx : x ∈ [a, b] := hperm.subset (by simp)
  have hy : y ∈ [a, b] := hperm.subset (by simp)
  have hyx : less y x = false := by simpa using hsorted
  simp only [List.mem_cons, List.not_mem_nil, or_false] at hx hy
  simp only [List.nodup_cons, List.mem_singleton, List.not_mem_nil, not_false_eq_true,
    List.nodup_nil, and_true] at hnd
  -- of the four ways to pick `x` and `y`, two repeat an element and one puts `b` second
  rcases hx with rfl | rfl <;> rcases hy with rfl | rfl
  · exact absurd rfl hnd
  · simp [hlt] at hyx
  · rfl
  · exact absurd rfl hnd

/-- `List.mergeSort` on the negation of a strict weak order meets the contract. -/
theorem mergeSort_sorts (htrans : ∀ a b c, less b a = false → less c b = false → less c a = false)
    (htotal : ∀ a b, less a b = false ∨ less b a = false) :
    Sorts less fun l => l.mergeSort fun a b => !less b a := by
  intro l
  refine ⟨List.mergeSort_perm l _, List.pairwise_mergeSort ?_ ?_ l⟩
  · intro a b c hab hbc
    simp only [Bool.not_eq_true'] at hab hbc ⊢
    exact htrans a b c hab hbc
  · intro a b
    rcases htotal a b with h | h <;> simp [h]

/-- So does `List.insertionSort`, which computes by structural recursion. -/
theorem insertionSort_sorts
    (htrans : ∀ a b c, less b a = false → less c b = false → less c a = false)
    (htotal : ∀ a b, less a b = false ∨ less b a = false) :
    Sorts less fun l => l.insertionSort fun a b => (!less b a) = true := by
  have : Std.Total fun a b : α => (!less b a) = true :=
    ⟨fun a b => by rcases htotal a b with h | h <;> simp [h]⟩
  have : IsTrans α fun a b : α => (!less b a) = true :=
    ⟨fun a b c hab hbc => by
      simp only [Bool.not_eq_true'] at hab hbc ⊢
      exact htrans a b c hab hbc⟩
  intro l
  exact ⟨List.perm_insertionSort _ l, List.pairwise_insertionSort _ l⟩

/-- Two distinct elements of a `Pairwise R` list are related one way or the other. -/
lemma pairwise_rel_or_rel {R : α → α → Prop} : ∀ {l : List α}, l.Pairwise R → ∀ {a b : α}, a ∈ l → b ∈ l →
    a ≠ b → R a b ∨ R b a
  | [], _, _, _, ha, _, _ => absurd ha List.not_mem_nil
  | x :: l, h, a, b, ha, hb, hab => by
    rw [List.pairwise_cons] at h
    rcases List.mem_cons.1 ha with rfl | ha' <;> rcases List.mem_cons.1 hb with rfl | hb'
    · exact absurd rfl hab
    · exact .inl (h.1 b hb')
    · exact .inr (h.1 a ha')
    · exact pairwise_rel_or_rel h.2 ha' hb' hab

/-- Filtering a list without repeats down to one of its blocks gives the block. -/
lemma filter_mem_block [DecidableEq α] {A B C : List α} (h : (A ++ B ++ C).Nodup) :
    (A ++ B ++ C).filter (· ∈ B) = B := by
  rw [List.nodup_append, List.nodup_append] at h
  obtain ⟨⟨-, -, hAB⟩, -, hABC⟩ := h
  have hA : A.filter (· ∈ B) = [] :=
    List.filter_eq_nil_iff.2 fun x hx => by simpa using fun hxB => hAB x hx x hxB rfl
  have hC : C.filter (· ∈ B) = [] :=
    List.filter_eq_nil_iff.2 fun x hx => by
      simpa using fun hxB => hABC x (List.mem_append_right _ hxB) x hx rfl
  have hB : B.filter (· ∈ B) = B := List.filter_eq_self.2 fun x hx => by simpa using hx
  rw [List.filter_append, List.filter_append, hA, hB, hC, List.nil_append, List.append_nil]

/-- Filtering a concatenation of blocks that are each kept or dropped whole. -/
lemma filter_flatMap_of_blocks {β : Type*} (f : β → List α) (p : α → Bool) (q : β → Bool) :
    ∀ l : List β, (∀ c ∈ l, ∀ x ∈ f c, p x = q c) → (l.flatMap f).filter p = (l.filter q).flatMap f
  | [], _ => rfl
  | c :: l, h => by
    rw [List.flatMap_cons, List.filter_append,
      filter_flatMap_of_blocks f p q l (fun c hc => h c (List.mem_cons_of_mem _ hc)), List.filter_cons]
    by_cases hq : q c = true
    · rw [if_pos hq, List.flatMap_cons,
        List.filter_eq_self.2 fun x hx => (h c List.mem_cons_self x hx).trans hq]
    · rw [if_neg hq, List.filter_eq_nil_iff.2 fun x hx => by rw [h c List.mem_cons_self x hx]; exact hq,
        List.nil_append]

/-- **A sort keeps the order of strictly ordered elements.**  If a block `s` of a list without
repeats is ordered by `less`, which is asymmetric, then filtering the sorted list down to `s`
gives `s` back. -/
theorem filter_mem_sort [DecidableEq α] {sort : List α → List α} (h : Sorts less sort)
    (hasymm : ∀ a b, less a b = true → less b a = false) {A s C : List α} (hnd : (A ++ s ++ C).Nodup)
    (hs : s.Pairwise fun a b => less a b = true) :
    (sort (A ++ s ++ C)).filter (· ∈ s) = s := by
  obtain ⟨hperm, hsorted⟩ := h (A ++ s ++ C)
  have hperm' : ((sort (A ++ s ++ C)).filter (· ∈ s)).Perm s := by
    have := hperm.filter (· ∈ s)
    rwa [filter_mem_block hnd] at this
  have hfs : ((sort (A ++ s ++ C)).filter (· ∈ s)).Pairwise fun a b => (!less b a) = true :=
    hsorted.filter _
  have hs' : s.Pairwise fun a b => (!less b a) = true := hs.imp fun {a b} hab => by simp [hasymm a b hab]
  refine List.Perm.eq_of_pairwise (fun a b ha hb hab hba => ?_) hfs hs' hperm'
  -- two distinct elements of `s` are ordered by `less`, against the sort's order
  have ha' : a ∈ s := by simpa using (List.mem_filter.1 ha).2
  by_contra hne
  rcases pairwise_rel_or_rel hs ha' hb hne with h' | h' <;> simp_all

/-- **A total order on the elements makes the sort canonical**: when of two different elements of
`l` one is always `less` than the other, every permutation of `l` sorts to the same list. -/
theorem sorts_perm_eq {sort : List α → List α} (h : Sorts less sort) {l l' : List α}
    (htotal : ∀ a ∈ l, ∀ b ∈ l, less a b = false → less b a = false → a = b)
    (hperm : l'.Perm l) : sort l' = sort l := by
  obtain ⟨hp', hs'⟩ := h l'
  obtain ⟨hp, hs⟩ := h l
  refine List.Perm.eq_of_pairwise (fun a b ha hb hab hba => ?_) hs' hs (hp'.trans (hperm.trans hp.symm))
  simp only [Bool.not_eq_true'] at hab hba
  exact htotal a ((hp'.trans hperm).subset ha) b (hp.subset hb) hba hab

/-- `sort.SliceIsSorted(x, less)`: no element is `less` than the one before it. -/
def sliceIsSorted (less : α → α → Bool) (l : List α) : Bool :=
  (l.zip l.tail).all fun p => !less p.2 p.1

end SortSlice
