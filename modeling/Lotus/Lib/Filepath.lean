import Mathlib

/-!
# Go's `path/filepath` on Unix: `Clean`, `Join` and `Base`

A path is a list of characters and `/` the separator.  `Clean` is Go's lexical cleaning: the path
is cut at each slash into elements; empty and `.` elements go; a `..` removes the element before
it, or, with none to remove, goes at the root and stays at the front of a relative path.  What is
left is joined by slashes after the root's slash, and an empty relative result is `.`.  Go's
`Clean` does this in one pass over the bytes, keeping the point after the last `..` it could not
remove; the stack of kept elements here is that output cut at its slashes.

`Join` cleans its parts joined by slashes, leaving out the empty ones before the first that is
not, and `Base` is the last element once trailing slashes are removed.  A plain name, with no
slash and neither `.` nor `..`, joined to any directory is the base of the result
(`base_join`).
-/

namespace Filepath

/-- The elements of a path, its parts between slashes. -/
def elems (p : List Char) : List (List Char) :=
  p.splitOn '/'

/-- One element of `Clean`, onto the elements kept so far. -/
def cleanStep (rooted : Bool) (st : List (List Char)) (e : List Char) : List (List Char) :=
  if e = [] ∨ e = ['.'] then st
  else if e = ['.', '.'] then
    -- backtrack over a real element; otherwise `..` goes at the root and stays in a relative path
    if st ≠ [] ∧ st.getLast? ≠ some ['.', '.'] then st.dropLast
    else if rooted then st
    else st ++ [e]
  else st ++ [e]

/-- `filepath.Clean`. -/
def clean (p : List Char) : List Char :=
  if p = [] then ['.']
  else
    let rooted := decide (p.head? = some '/')
    let body := ['/'].intercalate ((elems p).foldl (cleanStep rooted) [])
    if rooted then '/' :: body
    else if body = [] then ['.'] else body

/-- `filepath.Join(a, b)`. -/
def join (a b : List Char) : List Char :=
  if a ≠ [] then clean (a ++ '/' :: b)
  else if b ≠ [] then clean b
  else []

/-- `filepath.Base`: the last element, after trailing slashes are removed; `.` for the empty
path and `/` for one of slashes only. -/
def base (p : List Char) : List Char :=
  if p = [] then ['.']
  else
    let q := (p.reverse.dropWhile (· = '/')).reverse
    let b := (q.reverse.takeWhile (· ≠ '/')).reverse
    if b = [] then ['/'] else b

/-- A plain name: not empty, no slash, and neither `.` nor `..`. -/
def IsName (e : List Char) : Prop :=
  e ≠ [] ∧ e ≠ ['.'] ∧ e ≠ ['.', '.'] ∧ '/' ∉ e

lemma elems_append_cons (a b : List Char) : elems (a ++ '/' :: b) = elems a ++ elems b :=
  List.splitOn_append_cons_self a b

lemma elems_of_name {e : List Char} (h : IsName e) : elems e = [e] :=
  List.splitOn_eq_singleton h.2.2.2

/-- A plain name is kept. -/
lemma cleanStep_name {e : List Char} (h : IsName e) (rooted : Bool) (st : List (List Char)) :
    cleanStep rooted st e = st ++ [e] := by
  obtain ⟨h0, h1, h2, -⟩ := h
  simp [cleanStep, h0, h1, h2]

lemma intercalate_append_singleton (S : List (List Char)) (e : List Char) :
    ['/'].intercalate (S ++ [e]) = if S = [] then e else ['/'].intercalate S ++ '/' :: e := by
  induction S with
  | nil => simp
  | cons x S ih =>
    rw [List.cons_append, List.intercalate_cons_of_ne_nil (by simp), ih]
    by_cases hS : S = []
    · simp [hS]
    · simp [hS, List.intercalate_cons_of_ne_nil hS]

/-- Cleaning a path that ends in a plain name ends in the name, after a slash or alone. -/
lemma clean_append_name (a : List Char) {e : List Char} (h : IsName e) :
    ∃ pre, clean (a ++ '/' :: e) = pre ++ e ∧ (pre = [] ∨ pre.getLast? = some '/') := by
  have hp : a ++ '/' :: e ≠ [] := by simp
  -- the elements of `a` are cleaned first, then the name is kept
  have hst : ∀ r, (elems (a ++ '/' :: e)).foldl (cleanStep r) [] =
      (elems a).foldl (cleanStep r) [] ++ [e] := fun r => by
    rw [elems_append_cons, elems_of_name h, List.foldl_append, List.foldl_cons, List.foldl_nil,
      cleanStep_name h]
  unfold clean
  rw [if_neg hp]
  dsimp only
  rw [hst, intercalate_append_singleton]
  generalize (elems a).foldl _ [] = S
  -- the name follows the slash after the elements kept before it, or nothing
  obtain ⟨pre, hpre, hlast⟩ : ∃ pre,
      (if S = [] then e else ['/'].intercalate S ++ '/' :: e) = pre ++ e ∧
        (pre = [] ∨ pre.getLast? = some '/') := by
    by_cases hS : S = []
    · exact ⟨[], by simp [hS], .inl rfl⟩
    · exact ⟨['/'].intercalate S ++ ['/'], by simp [hS], .inr (by simp)⟩
  rw [hpre]
  split_ifs with hr hnil
  · -- a rooted path: the root's slash comes first
    refine ⟨'/' :: pre, rfl, .inr ?_⟩
    rcases hlast with rfl | hl
    · rfl
    · simp [List.getLast?_cons, hl]
  · exact absurd hnil (by simp [h.1])
  · exact ⟨pre, rfl, hlast⟩

/-- A plain name is clean. -/
lemma clean_name {e : List Char} (h : IsName e) : clean e = e := by
  have hhead : decide (e.head? = some '/') = false := by
    rcases e with _ | ⟨c, cs⟩
    · exact absurd rfl h.1
    · have hc : c ≠ '/' := fun hc => h.2.2.2 (hc ▸ List.mem_cons_self)
      simp [hc]
  unfold clean
  rw [if_neg h.1, hhead, elems_of_name h]
  simp [cleanStep_name h, h.1]

/-- The base of a path ending in a plain name after a slash, or of the name alone, is the name. -/
lemma base_append_name {pre e : List Char} (h : IsName e) (hpre : pre = [] ∨ pre.getLast? = some '/') :
    base (pre ++ e) = e := by
  obtain ⟨he, -, -, hslash⟩ := h
  have hne : ∀ c ∈ e.reverse, c ≠ '/' := fun c hc hc' => hslash (hc' ▸ List.mem_reverse.mp hc)
  -- nothing trails the name
  have hdrop : (pre ++ e).reverse.dropWhile (· = '/') = (pre ++ e).reverse := by
    obtain ⟨c, cs, hcs⟩ := List.exists_cons_of_ne_nil (List.reverse_ne_nil_iff.mpr he)
    rw [List.reverse_append, hcs, List.cons_append,
      List.dropWhile_cons_of_neg (by simpa using hne c (hcs ▸ List.mem_cons_self))]
  -- before the name stands a slash, or nothing
  have hpre' : pre.reverse.takeWhile (· ≠ '/') = [] := by
    rcases hpre with rfl | hlast
    · rfl
    · obtain ⟨init, rfl⟩ := List.getLast?_eq_some_iff.mp hlast
      simp
  have htake : (pre ++ e).reverse.takeWhile (· ≠ '/') = e.reverse := by
    rw [List.reverse_append, List.takeWhile_append_of_pos (by simpa using hne), hpre',
      List.append_nil]
  unfold base
  rw [if_neg (by simp [he])]
  dsimp only
  rw [hdrop, List.reverse_reverse, htake, List.reverse_reverse, if_neg he]

/-- **A plain name joined to a directory is the base of the result.** -/
theorem base_join (a : List Char) {e : List Char} (h : IsName e) : base (join a e) = e := by
  unfold join
  split_ifs with ha he
  · obtain ⟨pre, hclean, hpre⟩ := clean_append_name a h
    rw [hclean, base_append_name h hpre]
  · -- no directory: the name cleans to itself
    rw [clean_name h]
    show base ([] ++ e) = e
    exact base_append_name h (.inl rfl)
  · exact absurd h.1 he

example : join "/var/lib/../kvlog//".toList "1614000001.log.cbor".toList =
    "/var/kvlog/1614000001.log.cbor".toList := by
  decide

end Filepath
