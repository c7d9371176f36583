import Mathlib

/-!
# Ring buffers read backwards from their newest slot

A ring of `L` slots kept in a list, indexed by integers modulo `L`, with a newest slot `s` and a
count `n`: the live contents are the `window` of the `n` slots `s, s - 1, …, s - (n - 1)`, newest
first.  The two moves of such a ring are **advancing** (write one past `s` and move `s` there,
the count growing up to `L`) and **retreating** (clear `s` and move back one, the count
shrinking).  Their laws on the window:

* `window_advance`: advancing puts the new value in front of the window, the oldest slot falling
  off when the ring is full;
* `window_retreat`: retreating drops the front of the window;
* `OutsideEq.advance`, `OutsideEq.retreat`: the slots outside the window keep holding the value
  that clearing writes, so a window of length zero sees only that value at `s`.
-/

namespace RingBuffer

variable {β : Type*} (d : β)

/-- The slot at index `i`, taken modulo the ring's size; `d` for a ring of no slots. -/
def slot (cache : List β) (i : ℤ) : β :=
  cache.getD (i % cache.length).toNat d

/-- The ring with `x` written to the slot at index `i`, taken modulo the ring's size. -/
def write (cache : List β) (i : ℤ) (x : β) : List β :=
  cache.set (i % cache.length).toNat x

/-- The `n` slots `s, s - 1, …, s - (n - 1)`, newest first. -/
def window (cache : List β) (s : ℤ) (n : ℕ) : List β :=
  (List.range n).map fun k : ℕ => slot d cache (s - k)

/-- The slots behind the window, up to a whole turn of the ring, hold `d`. -/
def OutsideEq (cache : List β) (s : ℤ) (n : ℕ) : Prop :=
  ∀ k : ℕ, n ≤ k → k < cache.length → slot d cache (s - k) = d

variable {d} {cache : List β} {i j s : ℤ} {n : ℕ} {x : β}

/-! ## Slots -/

@[simp]
lemma length_write : (write cache i x).length = cache.length :=
  List.length_set ..

/-- Indices `k` apart, for `0 < k < L`, are different slots of a ring of `L`. -/
lemma emod_sub_ne {L k : ℤ} (s : ℤ) (hk : 0 < k) (hkL : k < L) : (s - k) % L ≠ s % L := by
  intro h
  have hdvd : L ∣ s - (s - k) := by
    apply Int.dvd_of_emod_eq_zero
    rw [Int.sub_emod, h, sub_self, Int.zero_emod]
  rw [sub_sub_cancel] at hdvd
  exact absurd (Int.le_of_dvd hk hdvd) (not_le.mpr hkL)

lemma slot_write_self (hL : 0 < cache.length) : slot d (write cache i x) i = x := by
  have hlt : (i % (cache.length : ℤ)).toNat < cache.length := by
    have := Int.emod_lt_of_pos i (by omega : (0 : ℤ) < cache.length)
    have := Int.emod_nonneg i (by omega : (cache.length : ℤ) ≠ 0)
    omega
  simp [slot, write, List.getD_eq_getElem?_getD, hlt]

lemma slot_write_of_ne (hL : 0 < cache.length) (h : i % (cache.length : ℤ) ≠ j % cache.length) :
    slot d (write cache i x) j = slot d cache j := by
  have hne : (i % (cache.length : ℤ)).toNat ≠ (j % (cache.length : ℤ)).toNat := by
    have := Int.emod_nonneg i (by omega : (cache.length : ℤ) ≠ 0)
    have := Int.emod_nonneg j (by omega : (cache.length : ℤ) ≠ 0)
    omega
  simp only [slot, write, List.length_set, List.getD_eq_getElem?_getD, List.getElem?_set_ne hne]

lemma slot_sub_length : slot d cache (i - cache.length) = slot d cache i := by
  rw [slot, slot, Int.sub_emod_right]

lemma slot_emod_sub {L : ℤ} (hL : (cache.length : ℤ) = L) (k : ℤ) :
    slot d cache (s % L - k) = slot d cache (s - k) := by
  subst hL
  rw [slot, slot, Int.sub_emod, Int.emod_emod, ← Int.sub_emod]

/-! ## The window -/

@[simp]
lemma length_window : (window d cache s n).length = n := by
  simp [window]

/-- The window of `n + 1` slots is the slot `s` in front of the `n` slots behind it. -/
lemma window_succ : window d cache s (n + 1) = slot d cache s :: window d cache (s - 1) n := by
  simp only [window, List.range_succ_eq_map, List.map_cons, List.map_map, Nat.cast_zero,
    sub_zero, List.cons.injEq, true_and]
  refine List.map_congr_left fun k _ => ?_
  simp only [Function.comp_apply, Nat.cast_succ]
  ring_nf

lemma getElem?_window {k : ℕ} (hk : k < n) :
    (window d cache s n)[k]? = some (slot d cache (s - k)) := by
  simp [window, hk]

lemma getD_window {k : ℕ} (hk : k < n) : (window d cache s n).getD k d = slot d cache (s - k) := by
  rw [List.getD_eq_getElem?_getD, getElem?_window hk, Option.getD_some]

/-- The window depends on its newest index only modulo the ring's size. -/
lemma window_emod {L : ℤ} (hL : (cache.length : ℤ) = L) :
    window d cache (s % L) n = window d cache s n :=
  List.map_congr_left fun k _ => slot_emod_sub hL k

lemma take_window (m : ℕ) : (window d cache s n).take m = window d cache s (min m n) := by
  rw [window, ← List.map_take, List.take_range, window]

/-- Read from the oldest end, the window is the slots `s - n + 1, …, s`. -/
lemma reverse_window :
    (window d cache s n).reverse = (List.range n).map fun k : ℕ => slot d cache (s - n + (k + 1)) := by
  induction n generalizing s with
  | zero => rfl
  | succ n ih =>
    -- the oldest slot comes off the back of the window and goes to the front of the reverse
    rw [List.range_succ_eq_map, List.map_cons, List.map_map, window, List.range_succ,
      List.map_append, List.reverse_append, ← window, ih]
    simp only [List.map_cons, List.map_nil, List.reverse_cons, List.reverse_nil, List.nil_append,
      List.singleton_append]
    congr 1
    · push_cast; ring_nf
    · refine List.map_congr_left fun k _ => ?_
      simp only [Function.comp_apply, Nat.cast_succ]
      ring_nf

/-- A write to a slot outside the window leaves the window as it was. -/
lemma window_write_outside (hL : 0 < cache.length) (hout : ∀ k < n, (s - k) % (cache.length : ℤ) ≠ i % cache.length) :
    window d (write cache i x) s n = window d cache s n := by
  refine List.map_congr_left fun k hk => ?_
  exact slot_write_of_ne hL (hout k (List.mem_range.mp hk)).symm

/-- **Advancing** puts `x` in front of the window; a full ring loses its oldest slot. -/
lemma window_advance (hL : 0 < cache.length) (hn : n ≤ cache.length) :
    window d (write cache (s + 1) x) (s + 1) (min (n + 1) cache.length) =
      (x :: window d cache s n).take cache.length := by
  -- the new window is `x` in front of the `min n (L - 1)` slots behind it, none of them written
  have hm : min (n + 1) cache.length = min n (cache.length - 1) + 1 := by omega
  have hout : ∀ k < min n (cache.length - 1), (s + 1 - 1 - k) % (cache.length : ℤ) ≠
      (s + 1) % cache.length := by
    intro k hk
    rw [sub_sub]
    exact emod_sub_ne (s + 1) (by omega) (by omega)
  rw [hm, window_succ, slot_write_self hL, window_write_outside hL hout, add_sub_cancel_right]
  obtain ⟨L, hL'⟩ : ∃ L, cache.length = L + 1 := ⟨cache.length - 1, by omega⟩
  rw [hL', List.take_succ_cons, take_window, Nat.add_sub_cancel, min_comm]

/-- **Retreating** from `s` drops the front of the window. -/
lemma window_retreat (y : β) (hn : n < cache.length) :
    window d (write cache s y) (s - 1) n = (window d cache s (n + 1)).tail := by
  have hout : ∀ k < n, (s - 1 - k) % (cache.length : ℤ) ≠ s % cache.length := by
    intro k hk
    rw [sub_sub]
    exact emod_sub_ne s (by omega) (by omega)
  rw [window_write_outside (by omega) hout, window_succ, List.tail_cons]

/-! ## Behind the window -/

lemma OutsideEq.advance (hL : 0 < cache.length) (h : OutsideEq d cache s n) (x : β) :
    OutsideEq d (write cache (s + 1) x) (s + 1) (min (n + 1) cache.length) := by
  intro k hk hkL
  rw [length_write] at hkL
  -- a slot behind the new window is one behind the old window, and not the one written
  have hne : (s + 1) % (cache.length : ℤ) ≠ (s + 1 - k) % cache.length :=
    (emod_sub_ne (s + 1) (by omega) (by omega)).symm
  rw [slot_write_of_ne hL hne, show s + 1 - (k : ℤ) = s - ((k - 1 : ℕ) : ℤ) by omega]
  exact h (k - 1) (by omega) (by omega)

lemma OutsideEq.retreat (h : OutsideEq d cache s (n + 1)) :
    OutsideEq d (write cache s d) (s - 1) n := by
  intro k hk hkL
  rw [length_write] at hkL
  -- the slot a whole turn behind is the one cleared; the others were behind the old window
  by_cases hlast : k + 1 = cache.length
  · have hs : s - 1 - (k : ℤ) = s - (write cache s d).length := by rw [length_write]; omega
    rw [hs, slot_sub_length, slot_write_self (by omega)]
  · have hne : s % (cache.length : ℤ) ≠ (s - 1 - k) % cache.length := by
      rw [sub_sub]
      exact (emod_sub_ne s (by omega) (by omega)).symm
    rw [slot_write_of_ne (by omega) hne, sub_sub, show (1 : ℤ) + k = ((k + 1 : ℕ) : ℤ) by push_cast; ring]
    exact h (k + 1) (by omega) (by omega)

lemma outsideEq_emod {L : ℤ} (hL : (cache.length : ℤ) = L) :
    OutsideEq d cache (s % L) n ↔ OutsideEq d cache s n := by
  simp only [OutsideEq, slot_emod_sub hL]

/-- An empty window sees `d` at its newest index. -/
lemma OutsideEq.slot_eq (h : OutsideEq d cache s 0) (hL : 0 < cache.length) :
    slot d cache s = d := by
  simpa using h 0 le_rfl hL

/-! ## Lists -/

/-- Cutting the back of a list to `m` before cutting the whole to `m` changes nothing. -/
lemma take_append_take {γ : Type*} (l₁ l₂ : List γ) (m : ℕ) :
    (l₁ ++ l₂.take m).take m = (l₁ ++ l₂).take m := by
  rw [List.take_append, List.take_append, List.take_take]
  congr 2
  omega

/-- The first `some` of a list of options, found as an element or as a value. -/
lemma join_find?_isSome {γ : Type*} (l : List (Option γ)) :
    (l.find? Option.isSome).join = l.findSome? id := by
  induction l with
  | nil => rfl
  | cons x l ih =>
    cases x with
    | none => simpa using ih
    | some a => simp

end RingBuffer
