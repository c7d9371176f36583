import Mathlib

/-!
# Sequence numbers kept per key

Two loops of the chain code keep a map from a key to the next sequence number that key is to use,
and walk a list of items, each of which carries a key and a number.  A *checker* refuses the list
at the first item whose number is not the next one of its key, where a key's first number is read
from elsewhere (`init`); a *selector* drops such an item and goes on, and takes a key's first
number from its first item.

**The checker.**  Along a list the checker accepts, each key's items carry `init a, init a + 1, …`
in order (`Consecutive`), and the map holds for each key seen the number after its last item
(`Counted`); `checkStep_invariant` carries both through one step.

**The selector.**  `select` is one pass: a list split in two is selected in two passes, the second
from the map the first leaves (`select_append`), and what it takes of a key depends only on that
key's items and entry (`ofKey_select`).  On one key's items coming in blocks, each numbered from
the same `n`, it takes from each block the items past the longest block before it
(`select_flatten`, with `taken`): the `j`-th item taken is the `j`-th of the first block that has
one (`getElem?_taken`), and the numbers taken run from `n` on, once each, for as many as the
longest block has (`map_taken`).
-/

namespace SeqNo

variable {α κ : Type*} [DecidableEq κ] (key : α → κ) (val : α → ℕ)

/-- The items of key `a`, in order. -/
def ofKey (a : κ) (l : List α) : List α :=
  l.filter fun x => key x = a

@[simp] lemma ofKey_nil (a : κ) : ofKey key a ([] : List α) = [] := rfl

lemma ofKey_append (a : κ) (l₁ l₂ : List α) :
    ofKey key a (l₁ ++ l₂) = ofKey key a l₁ ++ ofKey key a l₂ :=
  List.filter_append _ _

lemma ofKey_cons_of_eq {a : κ} {x : α} (h : key x = a) (l : List α) :
    ofKey key a (x :: l) = x :: ofKey key a l := by
  simp [ofKey, h]

lemma ofKey_cons_of_ne {a : κ} {x : α} (h : key x ≠ a) (l : List α) :
    ofKey key a (x :: l) = ofKey key a l := by
  simp [ofKey, h]

lemma ofKey_flatten (a : κ) (ls : List (List α)) :
    ofKey key a ls.flatten = (ls.map (ofKey key a)).flatten := by
  induction ls with
  | nil => rfl
  | cons l ls ih => rw [List.flatten_cons, ofKey_append, ih, List.map_cons, List.flatten_cons]

lemma key_of_mem_ofKey {a : κ} {l : List α} {x : α} (h : x ∈ ofKey key a l) : key x = a := by
  simpa [ofKey] using (List.mem_filter.mp h).2

/-! ## The checker -/

/-- One step of the checker from the map `c`: item `x` carries its key's next number, the one
after its last item or `init` for a key not seen yet, and the map moves that key on. -/
def CheckStep (init : κ → ℕ) (c : κ → Option ℕ) (x : α) (c' : κ → Option ℕ) : Prop :=
  val x = (c (key x)).getD (init (key x)) ∧ c' = Function.update c (key x) (some (val x + 1))

/-- The map after `p`: each key seen holds the number after its last item. -/
def Counted (init : κ → ℕ) (p : List α) (c : κ → Option ℕ) : Prop :=
  ∀ a, c a = if ofKey key a p = [] then none else some (init a + (ofKey key a p).length)

/-- Each key's items carry `init a, init a + 1, …`, in order. -/
def Consecutive (init : κ → ℕ) (p : List α) : Prop :=
  ∀ a, (ofKey key a p).map val = List.range' (init a) (ofKey key a p).length

lemma counted_nil (init : κ → ℕ) : Counted key init ([] : List α) fun _ => none :=
  fun _ => by simp

lemma consecutive_nil (init : κ → ℕ) : Consecutive key val init ([] : List α) :=
  fun _ => by simp

lemma ofKey_concat (a : κ) (p : List α) (x : α) :
    ofKey key a (p ++ [x]) = if key x = a then ofKey key a p ++ [x] else ofKey key a p := by
  rw [ofKey_append]
  split_ifs with h
  · simp [ofKey, h]
  · simp [ofKey, h]

/-- **The checker's step**: an item on its key's next number extends that key's run by one and
moves its entry on, and leaves every other key as it was. -/
theorem checkStep_invariant {init : κ → ℕ} {p : List α} {c c' : κ → Option ℕ} {x : α}
    (hc : Counted key init p c) (hp : Consecutive key val init p)
    (h : CheckStep key val init c x c') :
    Counted key init (p ++ [x]) c' ∧ Consecutive key val init (p ++ [x]) := by
  obtain ⟨hx, rfl⟩ := h
  -- the number `x` carries is how many items of its key came before it, from `init`
  have hn : val x = init (key x) + (ofKey key (key x) p).length := by
    rw [hx, hc (key x)]
    split <;> simp_all
  refine ⟨fun a => ?_, fun a => ?_⟩
  · rw [ofKey_concat]
    by_cases ha : key x = a
    · subst ha
      simp [hn, Nat.add_assoc]
    · rw [Function.update_of_ne (Ne.symm ha), hc a, if_neg ha]
  · rw [ofKey_concat]
    split_ifs with ha
    · subst ha
      rw [List.map_append, hp, List.length_append, List.length_singleton, List.range'_1_concat,
        List.map_singleton, hn]
    · exact hp a

/-! ## The selector -/

/-- One step of the selector: the first item of a key sets its entry to its own number; an item
on its key's entry is taken and moves the entry on, and one off it is dropped. -/
def selectStep (c : κ → Option ℕ) (x : α) : Bool × (κ → Option ℕ) :=
  let n := (c (key x)).getD (val x)
  if val x = n then (true, Function.update c (key x) (some (n + 1))) else (false, c)

/-- The selector over a list: the items it takes, and the map it leaves. -/
def select : (κ → Option ℕ) → List α → List α × (κ → Option ℕ)
  | c, [] => ([], c)
  | c, x :: xs =>
    let r := select (selectStep key val c x).2 xs
    (if (selectStep key val c x).1 then x :: r.1 else r.1, r.2)

@[simp] lemma select_nil (c : κ → Option ℕ) : select key val c [] = ([], c) := rfl

/-- A list selected in two parts: the second part from the map the first leaves. -/
theorem select_append (c : κ → Option ℕ) (l₁ l₂ : List α) :
    select key val c (l₁ ++ l₂) =
      ((select key val c l₁).1 ++ (select key val (select key val c l₁).2 l₂).1,
        (select key val (select key val c l₁).2 l₂).2) := by
  induction l₁ generalizing c with
  | nil => rfl
  | cons x xs ih =>
    simp only [List.cons_append, select, ih]
    split <;> rfl

/-- A step on another key leaves `a`'s entry alone. -/
lemma selectStep_other {a : κ} {x : α} (h : key x ≠ a) (c : κ → Option ℕ) :
    (selectStep key val c x).2 a = c a := by
  unfold selectStep
  dsimp only
  split
  · exact Function.update_of_ne (Ne.symm h) _ _
  · rfl

/-- A step reads the map only at its item's key. -/
lemma selectStep_congr {a : κ} {x : α} (h : key x = a) {c c' : κ → Option ℕ} (hc : c a = c' a) :
    (selectStep key val c x).1 = (selectStep key val c' x).1 ∧
      (selectStep key val c x).2 a = (selectStep key val c' x).2 a := by
  subst h
  unfold selectStep
  simp only [hc]
  split <;> simp [hc]

/-- **What the selector takes of a key depends only on that key**: its items, and its entry. -/
theorem ofKey_select (a : κ) :
    ∀ (l : List α) (c c' : κ → Option ℕ), c a = c' a →
      ofKey key a (select key val c l).1 = (select key val c' (ofKey key a l)).1 ∧
        (select key val c l).2 a = (select key val c' (ofKey key a l)).2 a
  | [], _, _, hc => ⟨rfl, hc⟩
  | x :: xs, c, c', hc => by
    by_cases hx : key x = a
    · -- both sides take the same step on `x`, from entries that agree
      obtain ⟨h1, h2⟩ := selectStep_congr key val hx hc
      obtain ⟨ih1, ih2⟩ := ofKey_select a xs _ _ h2
      rw [ofKey_cons_of_eq key hx]
      simp only [select, ← h1]
      split
      · exact ⟨by rw [ofKey_cons_of_eq key hx, ih1], ih2⟩
      · exact ⟨ih1, ih2⟩
    · -- the left side steps on another key, which leaves `a`'s entry alone
      have h2 : (selectStep key val c x).2 a = c' a := (selectStep_other key val hx c).trans hc
      obtain ⟨ih1, ih2⟩ := ofKey_select a xs _ _ h2
      rw [ofKey_cons_of_ne key hx]
      simp only [select]
      split
      · exact ⟨by rw [ofKey_cons_of_ne key hx, ih1], ih2⟩
      · exact ⟨ih1, ih2⟩

/-- The entry of a key whose blocks so far, numbered from `n`, are at most `M` long. -/
def entry (n M : ℕ) : Option ℕ :=
  if M = 0 then none else some (n + M)

/-- On one key's items numbered `s, s + 1, …` from an entry `t ≥ s`, the selector drops those
below `t` and takes the rest. -/
lemma select_run {a : κ} :
    ∀ (l : List α) (s t : ℕ) (c : κ → Option ℕ), (∀ x ∈ l, key x = a) →
      l.map val = List.range' s l.length → c a = some t → s ≤ t →
      (select key val c l).1 = l.drop (t - s) ∧
        (select key val c l).2 a = some (max t (s + l.length))
  | [], s, t, c, _, _, hc, hst => by simp [hc, hst]
  | x :: xs, s, t, c, hkey, hval, hc, hst => by
    have hx : key x = a := hkey x List.mem_cons_self
    simp only [List.map_cons, List.length_cons, List.range'_succ, List.cons.injEq] at hval
    obtain ⟨hxs, hrest⟩ := hval
    have hstep : selectStep key val c x =
        if s = t then (true, Function.update c a (some (t + 1))) else (false, c) := by
      simp only [selectStep, hx, hc, Option.getD_some, hxs]
    have hxs' : ∀ y ∈ xs, key y = a := fun y hy => hkey y (List.mem_cons_of_mem _ hy)
    by_cases heq : s = t
    · -- `x` is on the entry: it is taken, and so is every item after it
      subst heq
      have hstep' : selectStep key val c x = (true, Function.update c a (some (s + 1))) := by
        rw [hstep, if_pos rfl]
      obtain ⟨h1, h2⟩ := select_run xs (s + 1) (s + 1) (Function.update c a (some (s + 1))) hxs'
        hrest (Function.update_self _ _ _) le_rfl
      simp only [select, hstep', h1, h2, ↓reduceIte, Nat.sub_self, List.drop_zero,
        List.length_cons, true_and]
      congr 1
      omega
    · -- `x` is below the entry: it is dropped
      have hstep' : selectStep key val c x = (false, c) := by rw [hstep, if_neg heq]
      obtain ⟨h1, h2⟩ := select_run xs (s + 1) t c hxs' hrest hc (by omega)
      simp only [select, hstep', h1, h2, Bool.false_eq_true, ↓reduceIte, List.length_cons]
      refine ⟨?_, by congr 1; omega⟩
      rw [show t - s = t - (s + 1) + 1 by omega, List.drop_succ_cons]

/-- On one key's block numbered from `n`, the selector takes what is past the longest block
before it. -/
lemma select_block {a : κ} {n M : ℕ} {l : List α} {c : κ → Option ℕ} (hkey : ∀ x ∈ l, key x = a)
    (hval : l.map val = List.range' n l.length) (hc : c a = entry n M) :
    (select key val c l).1 = l.drop M ∧ (select key val c l).2 a = entry n (max M l.length) := by
  rcases Nat.eq_zero_or_pos M with rfl | hM
  · cases l with
    | nil => simp [hc]
    | cons x xs =>
      -- the first item sets the entry to `n`, and from there it is a run from `n`
      have hx : key x = a := hkey x List.mem_cons_self
      have hxn : val x = n := by
        simp only [List.map_cons, List.length_cons, List.range'_succ, List.cons.injEq] at hval
        exact hval.1
      have hnone : c a = none := by simpa [entry] using hc
      have hstep : selectStep key val c x = (true, Function.update c a (some (n + 1))) := by
        simp [selectStep, hx, hnone, hxn]
      simp only [List.map_cons, List.length_cons, List.range'_succ, List.cons.injEq] at hval
      obtain ⟨h1, h2⟩ := select_run key val xs (n + 1) (n + 1) (Function.update c a (some (n + 1)))
        (fun y hy => hkey y (List.mem_cons_of_mem _ hy)) hval.2 (Function.update_self _ _ _) le_rfl
      simp only [select, hstep, h1, h2, ↓reduceIte, Nat.sub_self, List.drop_zero, entry,
        List.length_cons, true_and]
      congr 1
      omega
  · have hsome : c a = some (n + M) := by simpa [entry, hM.ne'] using hc
    obtain ⟨h1, h2⟩ := select_run key val l n (n + M) c hkey hval hsome (by omega)
    refine ⟨by rw [h1]; congr 1; omega, ?_⟩
    rw [h2, entry, if_neg (by omega)]
    congr 1
    omega

/-- The length of the longest list. -/
def longest : List (List α) → ℕ
  | [] => 0
  | l :: ls => max l.length (longest ls)

/-- What the selector takes from one key's blocks, past the first `M` of each: from each block the
items past the longest block before it. -/
def taken : ℕ → List (List α) → List α
  | _, [] => []
  | M, l :: ls => l.drop M ++ taken (max M l.length) ls

/-- **The selector over blocks of one key**, each numbered from `n`: it takes `taken`, and leaves
the entry of the longest block. -/
theorem select_flatten {a : κ} {n : ℕ} :
    ∀ (ls : List (List α)) (M : ℕ) (c : κ → Option ℕ), (∀ l ∈ ls, ∀ x ∈ l, key x = a) →
      (∀ l ∈ ls, l.map val = List.range' n l.length) → c a = entry n M →
      (select key val c ls.flatten).1 = taken M ls ∧
        (select key val c ls.flatten).2 a = entry n (max M (longest ls))
  | [], M, c, _, _, hc => by simp [hc, taken, longest]
  | l :: ls, M, c, hkey, hval, hc => by
    obtain ⟨h1, h2⟩ := select_block key val (hkey l List.mem_cons_self) (hval l List.mem_cons_self) hc
    obtain ⟨ih1, ih2⟩ := select_flatten ls (max M l.length) _
      (fun l' hl' => hkey l' (List.mem_cons_of_mem _ hl'))
      (fun l' hl' => hval l' (List.mem_cons_of_mem _ hl')) h2
    rw [List.flatten_cons, select_append, h1, ih1, ih2]
    refine ⟨rfl, ?_⟩
    simp only [longest, max_assoc]

/-- **The selector, per key**: over blocks in which each key's items are numbered from the same
`n`, what it takes of key `a` is `taken 0` of `a`'s items in each block. -/
theorem ofKey_select_flatten (a : κ) (n : ℕ) (ls : List (List α))
    (hval : ∀ l ∈ ls, (ofKey key a l).map val = List.range' n (ofKey key a l).length) :
    ofKey key a (select key val (fun _ => none) ls.flatten).1 = taken 0 (ls.map (ofKey key a)) := by
  rw [(ofKey_select key val a ls.flatten _ (fun _ => none) rfl).1, ofKey_flatten]
  refine (select_flatten key val (a := a) (n := n) (ls.map (ofKey key a)) 0 _ ?_ ?_
    (by simp [entry])).1
  · intro l hl x hx
    obtain ⟨l', -, rfl⟩ := List.mem_map.mp hl
    exact key_of_mem_ofKey key hx
  · intro l hl
    obtain ⟨l', hl', rfl⟩ := List.mem_map.mp hl
    exact hval l' hl'

omit [DecidableEq κ] in
/-- **Each item taken comes from the first block that has one at its place**: the `j`-th item
taken past the first `M` is the `M + j`-th of the first block longer than `M + j`. -/
theorem getElem?_taken :
    ∀ (ls : List (List α)) (M j : ℕ),
      (taken M ls)[j]? = (ls.find? fun l => M + j < l.length).bind (·[M + j]?)
  | [], _, _ => rfl
  | l :: ls, M, j => by
    rw [taken, List.getElem?_append, List.find?_cons, List.length_drop]
    by_cases hlt : M + j < l.length
    · rw [if_pos (by omega), decide_eq_true hlt, List.getElem?_drop]
      rfl
    · -- the block is too short: the item comes from a later one
      have hidx : max M l.length + (j - (l.length - M)) = M + j := by omega
      rw [if_neg (by omega), decide_eq_false hlt, getElem?_taken ls, hidx]

omit [DecidableEq κ] in
/-- The numbers taken from blocks numbered from `n`, past the first `M`, run on from `n + M` to
the longest block. -/
theorem map_taken {n : ℕ} :
    ∀ (ls : List (List α)) (M : ℕ), (∀ l ∈ ls, l.map val = List.range' n l.length) →
      (taken M ls).map val = List.range' (n + M) (max M (longest ls) - M)
  | [], M, _ => by simp [taken, longest]
  | l :: ls, M, hval => by
    have ih := map_taken ls (max M l.length) fun l' hl' => hval l' (List.mem_cons_of_mem _ hl')
    rw [taken, List.map_append, ih, List.map_drop, hval l List.mem_cons_self, List.drop_range']
    -- the block's part and the rest's part meet
    rw [Nat.mul_one, show n + max M l.length = n + M + (l.length - M) by omega,
      List.range'_append_1, longest]
    congr 1
    omega

end SeqNo
