import Mathlib

/-!
# Runs of a bit string

A bit string read as its maximal runs of equal bits, each a value and a length, in the order a
run-length encoding iterates them.  `runs` splits a string into its runs and `expand` puts them
back (`expand_runs`).  `positioned` gives each run the index it starts at, the sum of the lengths
before it, and the bits a run covers are its value (`getElem?_expand_of_mem_positioned`).  A
string of two blocks has those two blocks as its runs (`runs_replicate_append_replicate`).
-/

namespace Runs

/-- The runs in order, each as `len` copies of its value. -/
def expand (rs : List (Bool × ℕ)) : List Bool :=
  rs.flatMap fun r => List.replicate r.2 r.1

/-- The runs of `cnt` copies of `cur` in front of `l`. -/
def runsFrom (cur : Bool) (cnt : ℕ) : List Bool → List (Bool × ℕ)
  | [] => [(cur, cnt)]
  | b :: l => if b = cur then runsFrom cur (cnt + 1) l else (cur, cnt) :: runsFrom b 1 l

/-- The maximal runs of `l`. -/
def runs : List Bool → List (Bool × ℕ)
  | [] => []
  | b :: l => runsFrom b 1 l

/-- Each run with the index it starts at, counting from `start`. -/
def positioned : List (Bool × ℕ) → ℕ → List (Bool × ℕ × ℕ)
  | [], _ => []
  | (v, n) :: rs, start => (v, start, n) :: positioned rs (start + n)

@[simp]
lemma expand_nil : expand [] = [] := rfl

@[simp]
lemma expand_cons (r : Bool × ℕ) (rs : List (Bool × ℕ)) :
    expand (r :: rs) = List.replicate r.2 r.1 ++ expand rs := by
  simp [expand]

lemma expand_runsFrom (cur : Bool) (cnt : ℕ) (l : List Bool) :
    expand (runsFrom cur cnt l) = List.replicate cnt cur ++ l := by
  induction l generalizing cur cnt with
  | nil => simp [runsFrom]
  | cons b l ih =>
    rw [runsFrom]
    split_ifs with hb
    · rw [ih, hb, List.replicate_succ', List.append_assoc, List.singleton_append]
    · rw [expand_cons, ih]
      simp

/-- **Splitting into runs loses nothing.** -/
theorem expand_runs (l : List Bool) : expand (runs l) = l := by
  cases l with
  | nil => rfl
  | cons b l =>
    rw [runs, expand_runsFrom]
    rfl

/-- The bits a run covers hold its value. -/
theorem getElem?_expand_of_mem_positioned :
    ∀ (rs : List (Bool × ℕ)) (start : ℕ) {v : Bool} {at_ n : ℕ},
      (v, at_, n) ∈ positioned rs start → ∀ i, at_ ≤ i → i < at_ + n →
        (expand rs)[i - start]? = some v
  | [], _, _, _, _, h => by simp [positioned] at h
  | (w, m) :: rs, start, v, at_, n, h => by
    intro i hlo hhi
    rw [positioned, List.mem_cons] at h
    rcases h with h | h
    · -- the run itself
      simp only [Prod.mk.injEq] at h
      obtain ⟨rfl, rfl, rfl⟩ := h
      rw [expand_cons, List.getElem?_append_left (by simp; omega)]
      simp [show i - at_ < n by omega]
    · -- a later run: it starts past this one
      have hle : start + m ≤ at_ := le_of_mem_positioned rs (start + m) h
      rw [expand_cons, List.getElem?_append_right (by simp; omega), List.length_replicate,
        show i - start - m = i - (start + m) by omega]
      exact getElem?_expand_of_mem_positioned rs (start + m) h i hlo hhi
where
  /-- Every run starts at `start` or later. -/
  le_of_mem_positioned : ∀ (rs : List (Bool × ℕ)) (start : ℕ) {v : Bool} {at_ n : ℕ},
      (v, at_, n) ∈ positioned rs start → start ≤ at_
    | [], _, _, _, _, h => by simp [positioned] at h
    | (w, m) :: rs, start, v, at_, n, h => by
      rw [positioned, List.mem_cons] at h
      rcases h with h | h
      · simp only [Prod.mk.injEq] at h
        omega
      · have := le_of_mem_positioned rs (start + m) h
        omega

lemma runsFrom_replicate_append (cur : Bool) (cnt k : ℕ) (l : List Bool) :
    runsFrom cur cnt (List.replicate k cur ++ l) = runsFrom cur (cnt + k) l := by
  induction k generalizing cnt with
  | zero => rfl
  | succ k ih =>
    rw [List.replicate_succ, List.cons_append, runsFrom, if_pos rfl, ih]
    congr 1
    omega

/-- A string of equal bits is one run. -/
theorem runs_replicate (b : Bool) {a : ℕ} (ha : 0 < a) : runs (List.replicate a b) = [(b, a)] := by
  obtain ⟨a, rfl⟩ : ∃ a', a = a' + 1 := ⟨a - 1, by omega⟩
  rw [List.replicate_succ, runs, ← List.append_nil (List.replicate a b), runsFrom_replicate_append]
  simp [runsFrom, Nat.add_comm]

/-- A string of `a` bits `b` then `c` bits `!b` has those two blocks as its runs. -/
theorem runs_replicate_append_replicate (b : Bool) {a c : ℕ} (ha : 0 < a) (hc : 0 < c) :
    runs (List.replicate a b ++ List.replicate c (!b)) = [(b, a), (!b, c)] := by
  obtain ⟨a, rfl⟩ : ∃ a', a = a' + 1 := ⟨a - 1, by omega⟩
  obtain ⟨c, rfl⟩ : ∃ c', c = c' + 1 := ⟨c - 1, by omega⟩
  rw [List.replicate_succ, List.cons_append, runs, runsFrom_replicate_append,
    List.replicate_succ, runsFrom, if_neg (by cases b <;> simp), ← List.append_nil
      (List.replicate c (!b)), runsFrom_replicate_append]
  simp [runsFrom, Nat.add_comm]

end Runs
