import Mathlib
import Lotus.Lib.Run

/-!
# Go's `sort.Sort`, as Go 1.16 implements it

`sort.Sort(data)` of the Go release a module is built with (1.16 here) is an introsort over
`data.Less` and `data.Swap`: a quicksort whose pivot is a median of three (of three medians of
three beyond 40 elements), which falls back to a heapsort past a depth of twice the bit length,
and which leaves slices of at most 12 elements to a shell pass of gap 6 followed by an insertion
sort.  It is not stable: its swaps move elements that compare equal past one another, so the
order they come out in is fixed by the algorithm alone.

A slice is a list here, `Less(i, j)` is `lessAt` and `Swap(i, j)` is `swapAt`.  Every function
below is the Go function of the same name, loop by loop.  A loop that runs while a condition
holds carries fuel, the distance it can still move, so that it stops structurally: one step
more than the loop can take is never needed.  `quickSort` carries the length of its range as
fuel, since every call it makes is on a strictly shorter range.
-/

namespace GoSort

variable {α : Type*} (less : α → α → Bool)

/-- `data.Less(i, j)`; the indices Go passes are always in range. -/
def lessAt (xs : List α) (i j : ℕ) : Bool :=
  match xs[i]?, xs[j]? with
  | some x, some y => less x y
  | _, _ => false

/-- `data.Swap(i, j)`. -/
def swapAt (xs : List α) (i j : ℕ) : List α :=
  match xs[i]?, xs[j]? with
  | some x, some y => (xs.set i y).set j x
  | _, _ => xs

/-! ## Insertion sort and heapsort -/

/-- The inner loop of `insertionSort`: `for ; j > a && data.Less(j, j-1); j-- { data.Swap(j, j-1) }`. -/
def insertDown (a : ℕ) : ℕ → List α → List α
  | 0, xs => xs
  | j + 1, xs =>
    if a < j + 1 ∧ lessAt less xs (j + 1) j = true then insertDown a j (swapAt xs (j + 1) j)
    else xs

/-- `insertionSort(data, a, b)`. -/
def insertionSort (xs : List α) (a b : ℕ) : List α :=
  Run.forLoop (a + 1) b (fun i xs => insertDown less a i xs) xs

/-- The loop of `siftDown(data, lo, hi, first)` from `root`; `root` at least doubles at each
step, so `hi` steps are enough. -/
def siftDownLoop (hi first : ℕ) : ℕ → List α → ℕ → List α
  | 0, xs, _ => xs
  | fuel + 1, xs, root =>
    let child := 2 * root + 1
    if hi ≤ child then xs
    else
      let child :=
        if child + 1 < hi ∧ lessAt less xs (first + child) (first + child + 1) = true then child + 1
        else child
      if lessAt less xs (first + root) (first + child) = false then xs
      else siftDownLoop hi first fuel (swapAt xs (first + root) (first + child)) child

/-- `siftDown(data, lo, hi, first)`: the heap `data[lo:hi]`, offset by `first`, with its root
sifted down. -/
def siftDown (xs : List α) (lo hi first : ℕ) : List α :=
  siftDownLoop less hi first hi xs lo

/-- `heapSort(data, a, b)`: the heap is built with the greatest element at the top, which is
then swapped to the end, one element after another. -/
def heapSort (xs : List α) (a b : ℕ) : List α :=
  let first := a
  let hi := b - a
  -- `for i := (hi - 1) / 2; i >= 0; i--`
  let xs := ((List.range ((hi - 1) / 2 + 1)).reverse).foldl (fun xs i => siftDown less xs i hi first) xs
  -- `for i := hi - 1; i >= 0; i--`
  (List.range hi).reverse.foldl
    (fun xs i => siftDown less (swapAt xs first (first + i)) 0 i first) xs

/-! ## Quicksort -/

/-- `medianOfThree(data, m1, m0, m2)`: the median of the three moves to `m1`. -/
def medianOfThree (xs : List α) (m1 m0 m2 : ℕ) : List α :=
  let xs := if lessAt less xs m1 m0 then swapAt xs m1 m0 else xs
  if lessAt less xs m2 m1 then
    let xs := swapAt xs m2 m1
    if lessAt less xs m1 m0 then swapAt xs m1 m0 else xs
  else xs

/-- `for ; i < c && p(i); i++ {}`: the first index from `i` on where `p` fails, or `c`. -/
def scanUp (p : ℕ → Bool) (c : ℕ) : ℕ → ℕ → ℕ
  | 0, i => i
  | fuel + 1, i => if i < c ∧ p i = true then scanUp p c fuel (i + 1) else i

/-- `for ; b < c && p(c-1); c-- {}`: the first index from `c` down where `p` fails just below
it, or `b`. -/
def scanDown (p : ℕ → Bool) (b : ℕ) : ℕ → ℕ → ℕ
  | 0, c => c
  | fuel + 1, c => if b < c ∧ p (c - 1) = true then scanDown p b fuel (c - 1) else c

/-- The partition loop of `doPivot`: `data[b]` up to the pivot stay, `data[c-1]` above it stay,
and the first pair out of place is swapped; it returns the slice, `b` and `c`. -/
def partitionLoop (pivot : ℕ) : ℕ → List α → ℕ → ℕ → List α × ℕ × ℕ
  | 0, xs, b, c => (xs, b, c)
  | fuel + 1, xs, b, c =>
    -- `data[b] <= pivot`
    let b := scanUp (fun b => !lessAt less xs pivot b) c (c - b) b
    -- `data[c-1] > pivot`
    let c := scanDown (fun c => lessAt less xs pivot c) b (c - b) c
    if c ≤ b then (xs, b, c)
    else partitionLoop pivot fuel (swapAt xs b (c - 1)) (b + 1) (c - 1)

/-- The loop of `doPivot` that protects against many duplicates: the elements equal to the
pivot gather at `data[b:c]`; it returns the slice, `a` and `b`. -/
def protectLoop (pivot : ℕ) : ℕ → List α → ℕ → ℕ → List α × ℕ × ℕ
  | 0, xs, a, b => (xs, a, b)
  | fuel + 1, xs, a, b =>
    -- `data[b] == pivot`
    let b := scanDown (fun b => !lessAt less xs b pivot) a (b - a) b
    -- `data[a] < pivot`
    let a := scanUp (fun a => lessAt less xs a pivot) b (b - a) a
    if b ≤ a then (xs, a, b)
    else protectLoop pivot fuel (swapAt xs a (b - 1)) (a + 1) (b - 1)

/-- The check of `doPivot` for points equal to the pivot when few elements are above it: the
slice, `b`, `c`, and whether at least two were found. -/
def checkDups (xs : List α) (pivot m hi b c : ℕ) : List α × ℕ × ℕ × Bool :=
  -- `data[hi-1] = pivot`
  let (xs, c, dups) :=
    if lessAt less xs pivot (hi - 1) = false then (swapAt xs c (hi - 1), c + 1, 1) else (xs, c, 0)
  -- `data[b-1] = pivot`
  let (b, dups) := if lessAt less xs (b - 1) pivot = false then (b - 1, dups + 1) else (b, dups)
  -- `data[m] = pivot`
  let (xs, b, dups) :=
    if lessAt less xs m pivot = false then (swapAt xs m (b - 1), b - 1, dups + 1)
    else (xs, b, dups)
  (xs, b, c, decide (1 < dups))

/-- `doPivot(data, lo, hi)`: the slice partitioned around a pivot, and `midlo`, `midhi`, the
bounds of the elements equal to it. -/
def doPivot (xs : List α) (lo hi : ℕ) : List α × ℕ × ℕ :=
  let m := (lo + hi) / 2
  let xs :=
    if 40 < hi - lo then
      -- Tukey's ninther
      let s := (hi - lo) / 8
      let xs := medianOfThree less xs lo (lo + s) (lo + 2 * s)
      let xs := medianOfThree less xs m (m - s) (m + s)
      medianOfThree less xs (hi - 1) (hi - 1 - s) (hi - 1 - 2 * s)
    else xs
  let xs := medianOfThree less xs lo m (hi - 1)
  let pivot := lo
  let a := scanUp (fun a => lessAt less xs a pivot) (hi - 1) (hi - 1 - (lo + 1)) (lo + 1)
  let (xs, b, c) := partitionLoop less pivot (hi - 1 - a) xs a (hi - 1)
  let protect := decide (hi - c < 5)
  let (xs, b, c, protect) :=
    if !protect && decide (hi - c < (hi - lo) / 4) then checkDups less xs pivot m hi b c
    else (xs, b, c, protect)
  let (xs, _, b) := if protect then protectLoop less pivot (b - a) xs a b else (xs, a, b)
  -- the pivot goes to the middle
  (swapAt xs pivot (b - 1), b - 1, c)

/-- The shell pass of gap 6 on a slice of at most 12 elements. -/
def shellPass (xs : List α) (a b : ℕ) : List α :=
  Run.forLoop (a + 6) b (fun i xs => if lessAt less xs i (i - 6) then swapAt xs i (i - 6) else xs) xs

/-- `quickSort(data, a, b, maxDepth)`.  Go loops on the larger side and recurses on the smaller;
both are calls here, each on a range shorter than `b - a`, the fuel. -/
def quickSort : ℕ → List α → ℕ → ℕ → ℕ → List α
  | 0, xs, _, _, _ => xs
  | fuel + 1, xs, a, b, maxDepth =>
    if 12 < b - a then
      if maxDepth = 0 then heapSort less xs a b
      else
        let (xs, mlo, mhi) := doPivot less xs a b
        if mlo - a < b - mhi then
          quickSort fuel (quickSort fuel xs a mlo (maxDepth - 1)) mhi b (maxDepth - 1)
        else
          quickSort fuel (quickSort fuel xs mhi b (maxDepth - 1)) a mlo (maxDepth - 1)
    else if 1 < b - a then insertionSort less (shellPass less xs a b) a b
    else xs

/-- The loop of `maxDepth`: `for i := n; i > 0; i >>= 1 { depth++ }`, the number of bits of `i`;
`i` halves at each step. -/
def bitLength : ℕ → ℕ → ℕ
  | 0, _ => 0
  | fuel + 1, i => if i = 0 then 0 else bitLength fuel (i / 2) + 1

/-- `maxDepth(n)`: twice the number of bits of `n`. -/
def maxDepth (n : ℕ) : ℕ :=
  2 * bitLength n n

/-- `sort.Sort(data)`. -/
def sort (xs : List α) : List α :=
  quickSort less xs.length xs 0 xs.length (maxDepth xs.length)

end GoSort
