import Mathlib

/-!
# Counting the wins of an election proof (`chain/types/electionproof.go`)

`ComputeWinCount` reads the `blake2b` digest of the VRF proof as a number `lhs` in `[0, 2 ^ 256)`,
a `Q.256` fraction in `[0, 1)`, and counts how many times it falls below the upside-down Poisson
CDF of rate `λ = power · E / totalPower` (`E = 5`): `icdf(k) = 1 - Σ_{i ≤ k} pmf(i)`, up to
`MaxWinCount`.  Everything is integer arithmetic in `Q.256`: `lambda`, `expneg` (a rational
approximation of `e ^ -x` evaluated with Horner's method, `polyval`), and the incremental
`pmf(k) = pmf(k - 1) / k · λ`, each rounding down.  The digest is the one input that comes from
the proof, so the model takes it as a number; `blake2b` is not modelled.

**What holds** (`computeWinCount_spec`): a miner without power never wins; for every power from
zero up the count is computed without a panic and is at most `MaxWinCount`; and a larger digest
never wins more.

**What does not.**  The rounding makes `expneg` go up by one unit at some points: at
`x = 2 ^ 256 + 63`, `expneg (x + 1) = expneg x + 1`.  So `icdf(0)` drops by one as the power
grows by one, and the digest in between wins once with the smaller power and never with the
larger (`computeWinCount_not_mono`).
-/

namespace Lotus

namespace ElectionProof

/-- `precision`: numbers are `Q.256`. -/
def precision : ℕ := 256

/-- `expneg`'s numerator parameters (`num`), highest order first. -/
def expNumParams : List ℤ :=
  [-648770010757830093818553637600,
    67469480939593786226847644286976,
    -3197587544499098424029388939001856,
    89244641121992890118377641805348864,
    -1579656163641440567800982336819953664,
    17685496037279256458459817590917169152,
    -115682590513835356866803355398940131328,
    340282366920938463463374607431768211456]

/-- `expneg`'s denominator parameters (`deno`), highest order first. -/
def expDenoParams : List ℤ :=
  [1225524182432722209606361,
    114095592300906098243859450,
    5665570424063336070530214243,
    194450132448609991765137938448,
    5068267641632683791026134915072,
    104716890604972796896895427629056,
    1748338658439454459487681798864896,
    23704654329841312470660182937960448,
    259380097567996910282699886670381056,
    2250336698853390384720606936038375424,
    14978272436876548034486263159246028800,
    72144088983913131323343765784380833792,
    224599776407103106596571252037123047424,
    340282366920938463463374607431768211456]

/-- `init`'s `parse`: each integer parameter shifted left by `precision - 128`, so that a
parameter `c` is the `Q.256` coefficient `c · 2 ^ -128`. -/
def parse (coefs : List ℤ) : List ℤ :=
  coefs.map fun c => c * 2 ^ (precision - 128)

/-- `expNumCoef`. -/
def expNumCoef : List ℤ := parse expNumParams

/-- `expDenoCoef`. -/
def expDenoCoef : List ℤ := parse expDenoParams

/-- `polyval(p, x)`: from `p[0]`, Horner's method over `p[1:]`, each product shifted back to
`Q.256` (`Rsh` rounds down); `none` for an empty `p`, where `p[0]` panics. -/
def polyval (p : List ℤ) (x : ℤ) : Option ℤ :=
  match p with
  | [] => none
  | c0 :: cs => some (cs.foldl (fun res c => (res * x) >>> precision + c) c0)

/-- `expneg(x)`: `e ^ -x` in `Q.256`, the numerator shifted to `Q.512` over the denominator
(`Div` rounds down for a positive divisor); `none` is a division by zero. -/
def expneg (x : ℤ) : Option ℤ := do
  let num ← polyval expNumCoef x
  let deno ← polyval expDenoCoef x
  let num := num * 2 ^ precision
  if deno = 0 then none else some (num / deno)

/-- `build.BlocksPerEpoch`, the expected number of winners an epoch. -/
def blocksPerEpoch : ℤ := 5

/-- `lambda(power, totalPower)`: `power · E / totalPower` in `Q.256`; `none` is a division by
zero. -/
def lambda (power totalPower : ℤ) : Option ℤ :=
  let lam := power * blocksPerEpoch * 2 ^ precision
  if totalPower = 0 then none else some (lam / totalPower)

/-- `MaxWinCount = 3 * BlocksPerEpoch`. -/
def maxWinCount : ℕ := (3 * blocksPerEpoch).toNat

/-- A `poiss`: `λ`, `pmf(k)`, `icdf(k)` and `k`. -/
structure Poiss where
  lam : ℤ
  pmf : ℤ
  icdf : ℤ
  k : ℕ

/-- `newPoiss(lambda)`: `pmf(0) = e ^ -λ` and `icdf(0) = 1 - pmf(0)`, returned with it. -/
def newPoiss (lam : ℤ) : Option (Poiss × ℤ) := do
  let elam ← expneg lam
  let icdf := 2 ^ precision - elam
  pure (⟨lam, elam, icdf, 0⟩, icdf)

/-- `poiss.next()`: `k++`, `pmf(k) = pmf(k - 1) / k · λ` and `icdf(k) = icdf(k - 1) - pmf(k)`,
returned with it. -/
def Poiss.next (p : Poiss) : Poiss × ℤ :=
  let k := p.k + 1
  let pmf := p.pmf / k
  let pmf := (pmf * p.lam) >>> precision
  let icdf := p.icdf - pmf
  (⟨p.lam, pmf, icdf, k⟩, icdf)

/-- The loop of `ComputeWinCount` at `j` wins, `n` rounds before `MaxWinCount`: while `lhs` is
below `rhs`, one more win and the next `rhs`. -/
def winLoop (lhs : ℤ) : ℕ → Poiss → ℤ → ℕ → ℕ
  | 0, _, _, j => j
  | n + 1, p, rhs, j => if lhs < rhs then winLoop lhs n p.next.1 p.next.2 (j + 1) else j

/-- `ep.ComputeWinCount(power, totalPower)` for a VRF proof whose digest, read as a big-endian
number, is `h`; `none` is a panic. -/
def computeWinCount (h : ℕ) (power totalPower : ℤ) : Option ℕ := do
  let lam ← lambda power totalPower
  let (p, rhs) ← newPoiss lam
  pure (winLoop h maxWinCount p rhs 0)

/-! ## The loop -/

lemma le_winLoop (lhs : ℤ) : ∀ n p rhs j, j ≤ winLoop lhs n p rhs j
  | 0, _, _, _ => le_rfl
  | n + 1, p, rhs, j => by
    unfold winLoop
    split_ifs
    · exact (Nat.le_succ j).trans (le_winLoop lhs n _ _ _)
    · exact le_rfl

lemma winLoop_le (lhs : ℤ) : ∀ n p rhs j, winLoop lhs n p rhs j ≤ j + n
  | 0, _, _, _ => le_rfl
  | n + 1, p, rhs, j => by
    unfold winLoop
    split_ifs
    · have := winLoop_le lhs n p.next.1 p.next.2 (j + 1)
      omega
    · omega

/-- **A larger digest never wins more**: below the same `rhs` values, it stops no later. -/
lemma winLoop_anti {lhs lhs' : ℤ} (hle : lhs ≤ lhs') :
    ∀ n p rhs j, winLoop lhs' n p rhs j ≤ winLoop lhs n p rhs j
  | 0, _, _, _ => le_rfl
  | n + 1, p, rhs, j => by
    unfold winLoop
    by_cases h' : lhs' < rhs
    · rw [if_pos h', if_pos (lt_of_le_of_lt hle h')]
      exact winLoop_anti hle n _ _ _
    · rw [if_neg h']
      split_ifs
      · exact (Nat.le_succ j).trans (le_winLoop lhs n _ _ _)
      · exact le_rfl

/-! ## The arithmetic never divides by zero -/

/-- Horner's method with positive coefficients at a point from zero up stays positive. -/
lemma foldl_horner_pos {x : ℤ} (hx : 0 ≤ x) :
    ∀ (cs : List ℤ) (res : ℤ), 0 < res → (∀ c ∈ cs, 0 < c) →
      0 < cs.foldl (fun res c => (res * x) >>> precision + c) res
  | [], _, hres, _ => hres
  | c :: cs, res, hres, hcs => by
    rw [List.foldl_cons]
    apply foldl_horner_pos hx cs _ _ fun c' hc' => hcs c' (List.mem_cons_of_mem _ hc')
    have hshift : 0 ≤ (res * x) >>> precision := by
      rw [Int.shiftRight_eq_div_pow]
      exact Int.ediv_nonneg (mul_nonneg hres.le hx) (by positivity)
    linarith [hcs c List.mem_cons_self]

/-- The denominator of `expneg` has positive coefficients, so it is positive from zero up, and
`expneg` is computed. -/
lemma expneg_isSome {x : ℤ} (hx : 0 ≤ x) : ∃ e, expneg x = some e := by
  have hpos : ∀ c ∈ expDenoCoef, 0 < c := by decide
  obtain ⟨d0, ds, hd⟩ : ∃ d0 ds, expDenoCoef = d0 :: ds := ⟨_, _, rfl⟩
  have hdeno : 0 < ds.foldl (fun res c => (res * x) >>> precision + c) d0 := by
    rw [hd] at hpos
    exact foldl_horner_pos hx ds d0 (hpos d0 List.mem_cons_self)
      fun c hc => hpos c (List.mem_cons_of_mem _ hc)
  obtain ⟨n0, ns, hn⟩ : ∃ n0 ns, expNumCoef = n0 :: ns := ⟨_, _, rfl⟩
  unfold expneg
  rw [hn, hd]
  simp only [polyval, Option.bind_eq_bind, Option.bind_some, if_neg hdeno.ne']
  exact ⟨_, rfl⟩

lemma lambda_nonneg {power totalPower : ℤ} (hp : 0 ≤ power) (hT : 0 < totalPower) :
    ∃ lam, 0 ≤ lam ∧ lambda power totalPower = some lam := by
  refine ⟨_, ?_, if_neg hT.ne'⟩
  unfold blocksPerEpoch
  exact Int.ediv_nonneg (by positivity) hT.le

/-! ## The count -/

/-- `expneg 0` is exactly one: both polynomials are their constant coefficient, `2 ^ 256`. -/
lemma expneg_zero : expneg 0 = some (2 ^ precision) := by
  decide

/-- **The win count**: a miner without power never wins; from zero power up the count is computed
without a panic and is at most `MaxWinCount`; and a larger digest never wins more. -/
theorem computeWinCount_spec (h : ℕ) {totalPower : ℤ} (hT : 0 < totalPower) :
    computeWinCount h 0 totalPower = some 0 ∧
      (∀ power, 0 ≤ power → ∃ j ≤ maxWinCount, computeWinCount h power totalPower = some j) ∧
      ∀ h', h ≤ h' → ∀ power j j', computeWinCount h power totalPower = some j →
        computeWinCount h' power totalPower = some j' → j' ≤ j := by
  refine ⟨?_, fun power hp => ?_, fun h' hh power j j' hj hj' => ?_⟩
  · -- zero power: `λ = 0`, `icdf(0) = 0`, and no digest is below zero
    have hlam : lambda 0 totalPower = some 0 := by
      rw [lambda, if_neg hT.ne', zero_mul, zero_mul, Int.zero_ediv]
    simp only [computeWinCount, hlam, newPoiss, expneg_zero, sub_self, Option.bind_eq_bind,
      Option.bind_some, Option.pure_def]
    cases hw : maxWinCount with
    | zero => rfl
    | succ n => simp [winLoop]
  · obtain ⟨lam, hlam0, hlam⟩ := lambda_nonneg hp hT
    obtain ⟨e, he⟩ := expneg_isSome hlam0
    refine ⟨winLoop h maxWinCount ⟨lam, e, 2 ^ precision - e, 0⟩ (2 ^ precision - e) 0,
      (winLoop_le _ _ _ _ 0).trans (by omega), ?_⟩
    simp only [computeWinCount, hlam, newPoiss, he, Option.bind_eq_bind, Option.bind_some,
      Option.pure_def]
  · -- the same `rhs` values, compared with a larger digest
    simp only [computeWinCount, Option.bind_eq_bind, Option.pure_def] at hj hj'
    rcases hl : lambda power totalPower with _ | lam
    · simp [hl] at hj
    rcases hp : newPoiss lam with _ | ⟨p, rhs⟩
    · simp [hl, hp] at hj
    simp only [hl, hp, Option.bind_some, Option.some.injEq] at hj hj'
    rw [← hj, ← hj']
    exact winLoop_anti (by exact_mod_cast hh) _ _ _ _

/-- With a total power of one, zero power wins nothing and every power gets a count. -/
theorem computeWinCount_spec_one :
    computeWinCount 0 0 1 = some 0 ∧
      (∀ power, 0 ≤ power → ∃ j ≤ maxWinCount, computeWinCount 0 power 1 = some j) :=
  ⟨(computeWinCount_spec 0 one_pos).1, (computeWinCount_spec 0 one_pos).2.1⟩

/-- **The count is not monotone in power.**  With `totalPower = 5 · 2 ^ 256`, `λ` is the power;
`expneg` rounds up by one unit from `2 ^ 256 + 63` to `2 ^ 256 + 64`, and the digest
`2 ^ 256 - expneg (2 ^ 256 + 64)` wins once with the smaller power and never with the larger. -/
theorem computeWinCount_not_mono :
    computeWinCount 73194560156618532509659382928490637836045379258997477450079369435894970280305
        (2 ^ 256 + 63) (5 * 2 ^ 256) = some 1 ∧
      computeWinCount 73194560156618532509659382928490637836045379258997477450079369435894970280305
        (2 ^ 256 + 64) (5 * 2 ^ 256) = some 0 := by
  decide

end ElectionProof

end Lotus
