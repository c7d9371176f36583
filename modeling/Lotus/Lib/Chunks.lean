import Mathlib

/-!
# Mapping a list chunk by chunk

Block codecs map their input in chunks of a fixed size: every `a` input elements become `b`
output elements, and output `j` depends only on input chunk `j / b`.  `chunkwise a b f d l` is
that map over the `l.length / a` whole chunks of `l`; `d` stands for reads past the end, which
whole chunks never make.  Its one law is **`chunkwise_append`**: after whole chunks, the map of a
concatenation is the concatenation of the maps, so a stream coded piece by piece gives what the
one-shot code gives.

Splitting a list into batches of at most `k`, as the loop
`for i := 0; i < len(l); i += k { end := min(i + k, len(l)); out = append(out, l[i:end]) }` does,
is `slicesFrom l k hk 0`: joined, the batches give the list back (`flatten_slicesFrom`), there are
`⌈len(l) / k⌉` of them (`length_slicesFrom`), and each holds between one and `k` elements
(`mem_slicesFrom`); together, `Batches l k`.  The batch an element lands in starts after the
elements of the batches before it (`getElem?_flatten_sum`).
-/

namespace Chunks

variable {α β : Type*} (a b : ℕ) (f : (ℕ → α) → ℕ → β) (d : α)

/-- Output `j` is `f` of input chunk `j / b`, re-indexed from `0`, at offset `j % b`. -/
def chunkwise (l : List α) : List β :=
  List.ofFn fun j : Fin (l.length / a * b) => f (fun i => l.getD (j / b * a + i) d) (j % b)

lemma length_chunkwise (l : List α) : (chunkwise a b f d l).length = l.length / a * b :=
  List.length_ofFn

lemma getElem_chunkwise (l : List α) (j : ℕ) (hj : j < (chunkwise a b f d l).length) :
    (chunkwise a b f d l)[j] = f (fun i => l.getD (j / b * a + i) d) (j % b) :=
  List.getElem_ofFn ..

/-- **Chunks map independently**: when `f` reads only the `a` elements of its chunk, the map of
`A ++ B`, with `A` in whole chunks, is the map of `A` followed by the map of `B`. -/
theorem chunkwise_append (hf : ∀ x x' : ℕ → α, (∀ i < a, x i = x' i) → ∀ k < b, f x k = f x' k)
    {A B : List α} (hA : a ∣ A.length) :
    chunkwise a b f d (A ++ B) = chunkwise a b f d A ++ chunkwise a b f d B := by
  obtain ⟨q, hq⟩ := hA
  rcases Nat.eq_zero_or_pos a with rfl | ha
  · -- no chunks at all
    simp [chunkwise]
  have hqa : A.length / a = q := by rw [hq, Nat.mul_div_cancel_left _ ha]
  have hdiv : (A.length + B.length) / a = q + B.length / a := by
    rw [hq, Nat.mul_add_div ha]
  apply List.ext_getElem
  · simp only [length_chunkwise, List.length_append, hdiv, hqa, Nat.add_mul]
  · intro j h₁ h₂
    have hb : 0 < b := Nat.pos_of_ne_zero fun hb => by simp [length_chunkwise, hb] at h₁
    rw [getElem_chunkwise]
    by_cases hj : j < (chunkwise a b f d A).length
    · -- a chunk of `A`: its reads stay in `A`
      rw [List.getElem_append_left hj, getElem_chunkwise]
      rw [length_chunkwise, hqa] at hj
      have hjq : j / b < q := (Nat.div_lt_iff_lt_mul hb).2 hj
      refine hf _ _ (fun i hi => List.getD_append _ _ _ _ ?_) _ (Nat.mod_lt _ hb)
      calc j / b * a + i < (j / b + 1) * a := by rw [Nat.add_mul, Nat.one_mul]; omega
        _ ≤ q * a := Nat.mul_le_mul_right _ hjq
        _ = A.length := by rw [hq, Nat.mul_comm]
    · -- a chunk of `B`, `q` chunks on
      rw [List.getElem_append_right (by omega), getElem_chunkwise]
      rw [length_chunkwise, hqa] at hj ⊢
      obtain ⟨j', rfl⟩ : ∃ j', j = b * q + j' := ⟨j - q * b, by rw [Nat.mul_comm]; omega⟩
      rw [Nat.mul_comm q b, Nat.add_sub_cancel_left, Nat.mul_add_div hb, Nat.mul_add_mod]
      refine hf _ _ (fun i hi => ?_) _ (Nat.mod_lt _ hb)
      have hidx : (q + j' / b) * a + i = A.length + (j' / b * a + i) := by
        rw [hq, Nat.add_mul, Nat.mul_comm q a, Nat.add_assoc]
      rw [hidx, List.getD_append_right _ _ _ _ (Nat.le_add_right _ _), Nat.add_sub_cancel_left]

/-! ## Batches -/

section Batches

variable {γ : Type*} (l : List γ) (k : ℕ)

/-- The batches the loop slices out of `l` from index `i` on; `stop` is the loop's `end`, clamped
to the length of the list. -/
def slicesFrom (hk : 0 < k) (i : ℕ) : List (List γ) :=
  if i < l.length then
    let stop := min (i + k) l.length
    (l.drop i).take (stop - i) :: slicesFrom hk (i + k)
  else []
termination_by l.length - i
decreasing_by omega

/-- The slice `l[i:end]` is the next `k` elements, fewer at the end of the list. -/
lemma take_stop_sub {i stop : ℕ} (hstop : stop = min (i + k) l.length) :
    (l.drop i).take (stop - i) = (l.drop i).take k := by
  rw [List.take_eq_take_min, List.take_eq_take_min (i := k), List.length_drop, hstop]
  congr 1
  omega

theorem flatten_slicesFrom (hk : 0 < k) (i : ℕ) : (slicesFrom l k hk i).flatten = l.drop i := by
  fun_induction slicesFrom l k hk i with
  | case1 i hi stop ih =>
    rw [List.flatten_cons, ih, take_stop_sub l k rfl, ← List.drop_drop, List.take_append_drop]
  | case2 i hi =>
    rw [List.flatten_nil, List.drop_eq_nil_of_le (by omega)]

/-- `⌈(len(l) - i) / k⌉` batches: one more for each `k` elements, and one for a shorter rest. -/
theorem length_slicesFrom (hk : 0 < k) (i : ℕ) :
    (slicesFrom l k hk i).length = (l.length - i + k - 1) / k := by
  fun_induction slicesFrom l k hk i with
  | case1 i hi stop ih =>
    rw [List.length_cons, ih]
    by_cases hfull : i + k ≤ l.length
    · -- a whole batch: the rest has `k` elements fewer
      have hrest : l.length - (i + k) + k - 1 = (l.length - i + k - 1) - k * 1 := by omega
      rw [hrest, Nat.sub_mul_div, Nat.sub_add_cancel]
      exact (Nat.le_div_iff_mul_le hk).2 (by omega)
    · -- the last batch, shorter than `k`
      have hrest : l.length - (i + k) + k - 1 = k - 1 := by omega
      rw [hrest, Nat.div_eq_of_lt (by omega), Nat.zero_add]
      exact (Nat.div_eq_of_lt_le (k := 1) (by omega) (by omega)).symm
  | case2 i hi =>
    rw [List.length_nil, Nat.div_eq_of_lt (by omega)]

theorem mem_slicesFrom (hk : 0 < k) {B : List γ} (i : ℕ) (h : B ∈ slicesFrom l k hk i) :
    B ≠ [] ∧ B.length ≤ k := by
  fun_induction slicesFrom l k hk i with
  | case1 i hi stop ih =>
    rcases List.mem_cons.1 h with rfl | h
    · rw [take_stop_sub l k rfl]
      refine ⟨?_, List.length_take_le _ _⟩
      simp only [ne_eq, List.take_eq_nil_iff, List.drop_eq_nil_iff, not_or]
      omega
    · exact ih h
  | case2 i hi => cases h

/-- `batches` splits `l` into `⌈len(l) / k⌉` batches of one to `k` elements each. -/
structure Batches (l : List γ) (k : ℕ) (batches : List (List γ)) : Prop where
  flatten_eq : batches.flatten = l
  length_eq : batches.length = (l.length + k - 1) / k
  mem : ∀ B ∈ batches, B ≠ [] ∧ B.length ≤ k

theorem batches_slicesFrom (hk : 0 < k) : Batches l k (slicesFrom l k hk 0) where
  flatten_eq := by rw [flatten_slicesFrom, List.drop_zero]
  length_eq := by rw [length_slicesFrom, Nat.sub_zero]
  mem _ h := mem_slicesFrom l k hk 0 h

/-- Element `j` of batch `b` is the element after the batches before `b` and `j` more. -/
lemma getElem?_flatten_sum {L : List (List γ)} {b : ℕ} {B : List γ} (hB : L[b]? = some B)
    {j : ℕ} (hj : j < B.length) :
    L.flatten[((L.take b).map List.length).sum + j]? = B[j]? := by
  obtain ⟨hb, rfl⟩ := List.getElem?_eq_some_iff.1 hB
  rw [List.map_take, ← List.getElem?_drop, List.drop_sum_flatten, List.drop_eq_getElem_cons hb,
    List.flatten_cons, List.getElem?_append_left hj]

end Batches

end Chunks
