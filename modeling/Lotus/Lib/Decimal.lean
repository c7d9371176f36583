import Mathlib

/-!
# Decimal text of integers and rationals

Go's decimal conversions, on strings as lists of characters: `Int.String`, `Rat.FloatString`,
`Rat.SetString` on a decimal mantissa, and `strings.TrimLeft`/`TrimRight` with a cutset.
`Rat.FloatString` is its algorithm, with the last digit rounded half away from zero;
`Rat.SetString` is exact, and is modelled on what it accepts without an exponent or a `/`: an
optional sign, digits with at most one point, and at least one digit.

**Rendering.**  `floatString_div_pow`: `a / 10 ^ k` with `k` digits after the point is the
integer part of `|a| / 10 ^ k`, a point, and the remainder padded to `k` digits, after a minus
sign for a negative `a`.  There is nothing to round.

**Parsing back.**  `setString_point` and `setString_digits` read the value of such a text;
`setString_trimRight` says that dropping trailing zeros of the fraction, and then a point left
at the end, keeps it; and `setString_floatString_div_pow` puts the two together.
-/

namespace Decimal

/-! ## Definitions -/

/-- `unicode.IsSpace`: the Latin-1 spaces, and the other runes of Unicode's `White_Space`. -/
def isSpace (c : Char) : Bool :=
  if c.toNat ≤ 0xFF then decide (c.toNat ∈ [0x09, 0x0A, 0x0B, 0x0C, 0x0D, 0x20, 0x85, 0xA0])
  else decide (c.toNat = 0x1680 ∨ (0x2000 ≤ c.toNat ∧ c.toNat ≤ 0x200A) ∨
    c.toNat ∈ [0x2028, 0x2029, 0x202F, 0x205F, 0x3000])

/-- `strings.TrimSpace`. -/
def trimSpace (s : List Char) : List Char :=
  (s.dropWhile isSpace).rdropWhile isSpace

/-- `unicode.ToLower` as far as a comparison with an ASCII word can tell: the ASCII capitals, and
the two runes outside ASCII whose lower case is in it (U+0130 to `i`, the Kelvin sign U+212A to
`k`).  Other runes are kept; the lower case of each is outside ASCII too. -/
def toLower (c : Char) : Char :=
  if c.toNat = 0x130 then 'i' else if c.toNat = 0x212A then 'k' else c.toLower

/-- `strings.TrimLeft(s, cutset)`. -/
def trimLeft (cutset s : List Char) : List Char :=
  s.dropWhile fun c => decide (c ∈ cutset)

/-- `strings.TrimRight(s, cutset)`. -/
def trimRight (cutset s : List Char) : List Char :=
  s.rdropWhile fun c => decide (c ∈ cutset)

/-- `Int.String()`: the decimal digits of `|a|`, after a minus sign for a negative `a`. -/
def intString (a : ℤ) : List Char :=
  (if a < 0 then ['-'] else []) ++ Nat.toDigits 10 a.natAbs

/-- `x.FloatString(prec)`: `x` with `prec` digits after the point, the last one rounded half away
from zero. -/
def floatString (prec : ℕ) (x : ℚ) : List Char :=
  if x.den = 1 then
    intString x.num ++ (if 0 < prec then '.' :: List.replicate prec '0' else [])
  else
    let p := 10 ^ prec
    let q := x.num.natAbs / x.den
    let r := x.num.natAbs % x.den * p
    -- `r2` is what is left of the scaled remainder; twice it at least `x.den` rounds up
    let (q, r) :=
      if x.den ≤ 2 * (r % x.den) then
        if p ≤ r / x.den + 1 then (q + 1, r / x.den + 1 - p) else (q, r / x.den + 1)
      else (q, r / x.den)
    (if x.num < 0 then ['-'] else []) ++ Nat.toDigits 10 q ++
      (if 0 < prec then '.' :: List.leftpad prec '0' (Nat.toDigits 10 r) else [])

/-- `scanSign`: an optional sign, and what follows it. -/
def scanSign : List Char → Bool × List Char
  | '-' :: cs => (true, cs)
  | '+' :: cs => (false, cs)
  | cs => (false, cs)

/-- `z.SetString(s)` for a decimal mantissa: the sign, then the digits before the point and those
after it, all of them digits and at least one; the value is exact. -/
def setString (s : List Char) : Option ℚ :=
  let m := (scanSign s).2
  let ip := m.takeWhile (· != '.')
  let fp := (m.dropWhile (· != '.')).drop 1
  if (ip ++ fp).all Char.isDigit && !(ip ++ fp).isEmpty then
    let v : ℚ := (Nat.ofDigitChars 10 (ip ++ fp) 0 : ℚ) / 10 ^ fp.length
    some (if (scanSign s).1 then -v else v)
  else none

/-- `strconv.Quote` of printable ASCII text: the text between double quotes. -/
def quote (s : List Char) : List Char :=
  Char.ofNat 34 :: s ++ [Char.ofNat 34]

/-- `strconv.ParseInt(s, 10, 64)`: an optional sign, then at least one decimal digit and nothing
else, for a value an `int64` holds. -/
def parseInt64 (s : List Char) : Except String ℤ :=
  let m := (scanSign s).2
  if m.isEmpty || !m.all Char.isDigit then
    .error ("strconv.ParseInt: parsing " ++ String.ofList (quote s) ++ ": invalid syntax")
  else
    let v : ℤ := if (scanSign s).1 then -(Nat.ofDigitChars 10 m 0 : ℤ) else Nat.ofDigitChars 10 m 0
    if v < -2 ^ 63 ∨ 2 ^ 63 ≤ v then
      .error ("strconv.ParseInt: parsing " ++ String.ofList (quote s) ++ ": value out of range")
    else .ok v

/-! ## Digits -/

/-- `rdropWhile` of an append: the second part, unless it is dropped whole. -/
lemma rdropWhile_append {α : Type*} (p : α → Bool) (l m : List α) :
    (l ++ m).rdropWhile p = if ∀ x ∈ m, p x then l.rdropWhile p else l ++ m.rdropWhile p := by
  rw [List.rdropWhile, List.reverse_append, List.dropWhile_append]
  have hiff : (m.reverse.dropWhile p).isEmpty = true ↔ ∀ x ∈ m, p x := by
    rw [List.isEmpty_iff, List.dropWhile_eq_nil_iff]
    simp
  by_cases h : ∀ x ∈ m, p x
  · rw [if_pos (hiff.mpr h), if_pos h]
    rfl
  · rw [if_neg (mt hiff.mp h), if_neg h, List.reverse_append, List.reverse_reverse]
    rfl

/-- The sign `floatString` and `intString` write. -/
def sign (neg : Bool) : List Char := if neg then ['-'] else []

lemma eq_of_mem_sign {neg : Bool} {c : Char} (hc : c ∈ sign neg) : c = '-' := by
  cases neg
  · simp [sign] at hc
  · simpa [sign] using hc

/-- The value of a digit string with zeros appended is scaled by a power of ten. -/
lemma ofDigitChars_append_zeros (l : List Char) (j : ℕ) :
    Nat.ofDigitChars 10 (l ++ List.replicate j '0') 0 = 10 ^ j * Nat.ofDigitChars 10 l 0 := by
  rw [Nat.ofDigitChars_append, Nat.ofDigitChars_replicate_zero]

/-- A padded digit string has the value of its digits. -/
lemma ofDigitChars_leftpad (k n : ℕ) :
    Nat.ofDigitChars 10 (List.leftpad k '0' (Nat.toDigits 10 n)) 0 = n := by
  rw [List.leftpad, Nat.ofDigitChars_append, Nat.ofDigitChars_replicate_zero, Nat.mul_zero,
    Nat.ofDigitChars_ten_toDigits]

lemma isDigit_of_mem_leftpad {k n : ℕ} {c : Char} (hc : c ∈ List.leftpad k '0' (Nat.toDigits 10 n)) :
    c.isDigit := by
  rw [List.leftpad, List.mem_append, List.mem_replicate] at hc
  rcases hc with ⟨-, rfl⟩ | hc
  · rfl
  · exact Nat.isDigit_of_mem_toDigits (by decide) (by decide) hc

lemma ne_point_of_isDigit {c : Char} (hc : c.isDigit) : c ≠ '.' := by
  rintro rfl
  exact absurd hc (by decide)

lemma mem_of_mem_trimRight {cutset s : List Char} {c : Char} (hc : c ∈ trimRight cutset s) : c ∈ s :=
  (List.rdropWhile_prefix _ _).subset hc

/-- `s[:len(s)-len(suffix)]`: what comes before the suffix. -/
lemma take_length_sub_append (u s : List Char) : (u ++ s).take ((u ++ s).length - s.length) = u := by
  rw [List.length_append, Nat.add_sub_cancel, List.take_left']
  rfl

/-- `TrimLeft` leaves what follows the longest prefix in the cutset. -/
lemma trimLeft_append {cutset u s : List Char} (hu : ∀ c ∈ u, c ∈ cutset) (hs : ∀ c ∈ s.head?, c ∉ cutset) :
    trimLeft cutset (u ++ s) = s := by
  rw [trimLeft, List.dropWhile_append_of_pos (by simpa using hu)]
  cases s with
  | nil => rfl
  | cons c s => exact List.dropWhile_cons_of_neg (by simpa using hs c rfl)

/-! ## Rendering -/

section Render

variable (a : ℤ) {k : ℕ}

/-- The numerator and the denominator of `a / 10 ^ k` are those of `a` and `10 ^ k`, cancelled
by a common factor. -/
lemma natAbs_num_mul (x : ℚ) (hx : x = a / 10 ^ k) : x.num.natAbs * 10 ^ k = a.natAbs * x.den := by
  have hq : (x.num : ℚ) * 10 ^ k = a * x.den := by
    rw [← Rat.mul_den_eq_num, hx]
    field_simp
  have hz : x.num * 10 ^ k = a * x.den := by exact_mod_cast hq
  have := congrArg Int.natAbs hz
  rwa [Int.natAbs_mul, Int.natAbs_mul, Int.natAbs_pow, Int.natAbs_natCast] at this

lemma num_neg_iff (x : ℚ) (hx : x = a / 10 ^ k) : x.num < 0 ↔ a < 0 := by
  rw [Rat.num_neg, hx, div_lt_iff₀ (by positivity), zero_mul, Int.cast_lt_zero]

/-- **The text of `a / 10 ^ k` with `k` digits after the point.** -/
theorem floatString_div_pow (hk : 0 < k) :
    floatString k ((a : ℚ) / 10 ^ k) =
      sign (decide (a < 0)) ++ Nat.toDigits 10 (a.natAbs / 10 ^ k) ++
        '.' :: List.leftpad k '0' (Nat.toDigits 10 (a.natAbs % 10 ^ k)) := by
  set x : ℚ := a / 10 ^ k with hx
  have hcross := natAbs_num_mul a x hx
  have hsign := num_neg_iff a x hx
  have hd : 0 < x.den := x.den_pos
  unfold floatString
  by_cases h1 : x.den = 1
  · -- an integer: its digits and `k` zeros
    rw [if_pos h1, if_pos hk, intString]
    rw [h1, Nat.mul_one] at hcross
    have hdiv : a.natAbs / 10 ^ k = x.num.natAbs := by
      rw [← hcross, Nat.mul_div_cancel _ (by positivity)]
    have hmod : a.natAbs % 10 ^ k = 0 := by
      rw [← hcross, Nat.mul_mod_left]
    have hpad : List.leftpad k '0' (Nat.toDigits 10 0) = List.replicate k '0' := by
      rw [Nat.toDigits_zero, List.leftpad, List.length_singleton, ← List.replicate_succ',
        Nat.sub_add_cancel hk]
    rw [hdiv, hmod, hpad, sign]
    simp only [hsign, decide_eq_true_eq, List.append_assoc]
  · -- a fraction: the remainder scales to exactly the digits after the point
    rw [if_neg h1]
    dsimp only
    have hq : x.num.natAbs / x.den = a.natAbs / 10 ^ k := by
      rw [← Nat.mul_div_mul_right _ _ (show 0 < 10 ^ k by positivity), hcross, Nat.mul_comm x.den,
        Nat.mul_div_mul_right _ _ hd]
    have hr : x.num.natAbs % x.den * 10 ^ k = a.natAbs % 10 ^ k * x.den := by
      have hn := Nat.div_add_mod x.num.natAbs x.den
      have hA := Nat.div_add_mod a.natAbs (10 ^ k)
      rw [hq] at hn
      zify at hn hA hcross ⊢
      linear_combination (10 ^ k : ℤ) * hn - (x.den : ℤ) * hA + hcross
    -- nothing is left over, so nothing rounds
    have hround : ¬x.den ≤ 2 * (a.natAbs % 10 ^ k * x.den % x.den) := by
      rw [Nat.mul_mod_left]
      omega
    simp only [hq, hr, Nat.mul_div_cancel _ hd]
    rw [if_neg hround]
    simp only [if_pos hk, sign, hsign, decide_eq_true_eq]

/-- `floatString` writes a sign, digits and a point. -/
lemma mem_floatString_div_pow (hk : 0 < k) {c : Char} (hc : c ∈ floatString k ((a : ℚ) / 10 ^ k)) :
    c = '-' ∨ c = '.' ∨ c.isDigit := by
  rw [floatString_div_pow a hk] at hc
  rcases List.mem_append.mp hc with hc | hc
  · rcases List.mem_append.mp hc with hc | hc
    · exact Or.inl (eq_of_mem_sign hc)
    · exact Or.inr (Or.inr (Nat.isDigit_of_mem_toDigits (by decide) (by decide) hc))
  · rcases List.mem_cons.mp hc with hc | hc
    · exact Or.inr (Or.inl hc)
    · exact Or.inr (Or.inr (isDigit_of_mem_leftpad hc))

end Render

/-! ## Parsing -/

section Parse

variable {neg : Bool} {Q P : List Char}

lemma scanSign_sign (hQ : Q ≠ []) (hd : ∀ c ∈ Q, c.isDigit) (rest : List Char) :
    scanSign (sign neg ++ Q ++ rest) = (neg, Q ++ rest) := by
  obtain ⟨c, Q', rfl⟩ := List.exists_cons_of_ne_nil hQ
  have hc : c.isDigit := hd c List.mem_cons_self
  cases neg
  · -- no sign: the first digit is neither `-` nor `+`
    have hm : c ≠ '-' := by rintro rfl; exact absurd hc (by decide)
    have hp : c ≠ '+' := by rintro rfl; exact absurd hc (by decide)
    simp only [sign, Bool.false_eq_true, if_false, List.nil_append, List.cons_append]
    unfold scanSign
    split
    next _ _ h => exact absurd (List.cons_eq_cons.mp h).1 hm
    next _ _ h => exact absurd (List.cons_eq_cons.mp h).1 hp
    next => rfl
  · rfl

lemma setString_of_parts (hQ : Q ≠ []) (hd : ∀ c ∈ Q ++ P, c.isDigit) (rest : List Char)
    (hip : (Q ++ rest).takeWhile (· != '.') = Q)
    (hfp : (((Q ++ rest).dropWhile (· != '.')).drop 1) = P) :
    setString (sign neg ++ Q ++ rest) =
      some (if neg then -((Nat.ofDigitChars 10 (Q ++ P) 0 : ℚ) / 10 ^ P.length)
        else (Nat.ofDigitChars 10 (Q ++ P) 0 : ℚ) / 10 ^ P.length) := by
  have hQd : ∀ c ∈ Q, c.isDigit := fun c hc => hd c (List.mem_append_left P hc)
  unfold setString
  rw [scanSign_sign hQ hQd]
  dsimp only
  rw [hip, hfp]
  have hall : (Q ++ P).all Char.isDigit = true := List.all_eq_true.mpr hd
  have hne : (Q ++ P).isEmpty = false := by simp [hQ]
  simp only [hall, hne, Bool.not_false, Bool.and_self, if_true]

/-- The value of `[-]Q.P`. -/
theorem setString_point (hQ : Q ≠ []) (hd : ∀ c ∈ Q ++ P, c.isDigit) :
    setString (sign neg ++ Q ++ '.' :: P) =
      some (if neg then -((Nat.ofDigitChars 10 (Q ++ P) 0 : ℚ) / 10 ^ P.length)
        else (Nat.ofDigitChars 10 (Q ++ P) 0 : ℚ) / 10 ^ P.length) := by
  have hQ' : ∀ c ∈ Q, (c != '.') = true := fun c hc =>
    bne_iff_ne.mpr (ne_point_of_isDigit (hd c (List.mem_append_left P hc)))
  refine setString_of_parts hQ hd ('.' :: P) ?_ ?_
  · rw [List.takeWhile_append_of_pos hQ', List.takeWhile_cons_of_neg (by decide), List.append_nil]
  · rw [List.dropWhile_append_of_pos hQ', List.dropWhile_cons_of_neg (by decide)]
    rfl

/-- The value of `[-]Q`. -/
theorem setString_digits (hQ : Q ≠ []) (hd : ∀ c ∈ Q, c.isDigit) :
    setString (sign neg ++ Q) =
      some (if neg then -(Nat.ofDigitChars 10 Q 0 : ℚ) else (Nat.ofDigitChars 10 Q 0 : ℚ)) := by
  have hQ' : ∀ c ∈ Q, (c != '.') = true := fun c hc => bne_iff_ne.mpr (ne_point_of_isDigit (hd c hc))
  have h := @setString_of_parts neg Q [] hQ (by simpa using hd) [] (by
    rw [List.takeWhile_append_of_pos hQ', List.takeWhile_nil, List.append_nil])
    (by rw [List.dropWhile_append_of_pos hQ', List.dropWhile_nil, List.drop_nil])
  simpa using h

/-- `trimRight` drops a tail of the cutset: what is left, and a tail all in the cutset. -/
lemma trimRight_append_rtakeWhile (cutset s : List Char) :
    trimRight cutset s ++ s.rtakeWhile (fun c => decide (c ∈ cutset)) = s :=
  List.rdropWhile_append_rtakeWhile

lemma trimRight_append (cutset l m : List Char) :
    trimRight cutset (l ++ m) =
      if ∀ x ∈ m, x ∈ cutset then trimRight cutset l else l ++ trimRight cutset m := by
  simp only [trimRight, rdropWhile_append, decide_eq_true_eq]

/-- A string that does not end in the cutset is left as it is. -/
lemma trimRight_concat (cutset l : List Char) {c : Char} (hc : c ∉ cutset) :
    trimRight cutset (l ++ [c]) = l ++ [c] :=
  List.rdropWhile_concat_neg _ _ _ (by simpa using hc)

/-- Trailing zeros of the fraction, and then a point left at the end, are trimmed off `[-]Q.P`. -/
lemma trimRight_point (hQ : Q ≠ []) (hd : ∀ c ∈ Q ++ P, c.isDigit) :
    trimRight ['.'] (trimRight ['0'] (sign neg ++ Q ++ '.' :: P)) =
      if ∀ c ∈ P, c = '0' then sign neg ++ Q else sign neg ++ Q ++ '.' :: trimRight ['0'] P := by
  have hsplit : sign neg ++ Q ++ '.' :: P = (sign neg ++ Q ++ ['.']) ++ P := by simp
  have hpoint : trimRight ['0'] (sign neg ++ Q ++ ['.']) = sign neg ++ Q ++ ['.'] :=
    trimRight_concat _ _ (by decide)
  rw [hsplit, trimRight_append, hpoint]
  by_cases h0 : ∀ c ∈ P, c = '0'
  · -- all zeros: the point is left at the end, and then dropped; `Q` ends in a digit
    obtain ⟨Q', c, rfl⟩ := (List.eq_nil_or_concat Q).resolve_left hQ
    rw [List.concat_eq_append] at hd ⊢
    have hc : c ∉ ['.'] := by simpa using ne_point_of_isDigit (hd c (by simp))
    rw [if_pos (by simpa using h0), if_pos h0, trimRight, List.rdropWhile_concat_pos _ _ _ (by decide),
      ← List.append_assoc, ← trimRight, trimRight_concat _ _ hc]
  · -- a nonzero digit: the zeros after it go, and the digits before it stay
    have hP' : ∀ c ∈ trimRight ['0'] P, c.isDigit := fun c hc =>
      hd c (List.mem_append_right _ ((List.rdropWhile_prefix _ _).subset hc))
    have hne : trimRight ['0'] P ≠ [] := by
      rw [trimRight, Ne, List.rdropWhile_eq_nil_iff]
      simpa using h0
    have hkeep : trimRight ['.'] (trimRight ['0'] P) = trimRight ['0'] P := by
      rw [trimRight, List.rdropWhile_eq_self_iff]
      intro hl
      simpa using ne_point_of_isDigit (hP' _ (List.getLast_mem hl))
    have hnot : ¬∀ x ∈ trimRight ['0'] P, x ∈ ['.'] := fun h => by
      obtain ⟨c, hc⟩ := List.exists_mem_of_ne_nil _ hne
      exact ne_point_of_isDigit (hP' c hc) (by simpa using h c hc)
    rw [if_neg (by simpa using h0), if_neg h0, trimRight_append, if_neg hnot, hkeep]
    simp

/-- **Trimming keeps the value**: `[-]Q.P` and its trimmed text parse to the same number. -/
theorem setString_trimRight (hQ : Q ≠ []) (hd : ∀ c ∈ Q ++ P, c.isDigit) :
    setString (trimRight ['.'] (trimRight ['0'] (sign neg ++ Q ++ '.' :: P))) =
      setString (sign neg ++ Q ++ '.' :: P) := by
  have hQd : ∀ c ∈ Q, c.isDigit := fun c hc => hd c (List.mem_append_left P hc)
  rw [trimRight_point hQ hd, setString_point hQ hd]
  by_cases h0 : ∀ c ∈ P, c = '0'
  · -- `P` is zeros: `Q` alone has the value
    have hP : P = List.replicate P.length '0' := List.eq_replicate_iff.mpr ⟨rfl, h0⟩
    have hval : (Nat.ofDigitChars 10 Q 0 : ℚ) =
        (Nat.ofDigitChars 10 (Q ++ P) 0 : ℚ) / 10 ^ P.length := by
      rw [hP, ofDigitChars_append_zeros, List.length_replicate]
      push_cast
      field_simp
    rw [if_pos h0, setString_digits hQ hQd, hval]
  · -- `P` is the trimmed fraction `P'` and zeros
    set P' := trimRight ['0'] P with hP'def
    have hZ : P.rtakeWhile (fun c => decide (c ∈ ['0'])) =
        List.replicate (P.rtakeWhile (fun c => decide (c ∈ ['0']))).length '0' :=
      List.eq_replicate_iff.mpr ⟨rfl, fun c hc => by simpa using List.mem_rtakeWhile_imp hc⟩
    have hP : P = P' ++ List.replicate (P.rtakeWhile (fun c => decide (c ∈ ['0']))).length '0' := by
      rw [← hZ, hP'def, trimRight_append_rtakeWhile]
    have hd' : ∀ c ∈ Q ++ P', c.isDigit := fun c hc => hd c (by
      rw [hP, ← List.append_assoc]
      exact List.mem_append_left _ hc)
    generalize (P.rtakeWhile (fun c => decide (c ∈ ['0']))).length = j at hP
    have hval : (Nat.ofDigitChars 10 (Q ++ P') 0 : ℚ) / 10 ^ P'.length =
        (Nat.ofDigitChars 10 (Q ++ P) 0 : ℚ) / 10 ^ P.length := by
      rw [hP, ← List.append_assoc, ofDigitChars_append_zeros, List.length_append,
        List.length_replicate, pow_add]
      push_cast
      field_simp
    rw [if_neg h0, setString_point hQ hd', hval]

/-- **`a / 10 ^ k` parses back from its text.** -/
theorem setString_floatString_div_pow (a : ℤ) {k : ℕ} (hk : 0 < k) :
    setString (floatString k ((a : ℚ) / 10 ^ k)) = some ((a : ℚ) / 10 ^ k) := by
  have hlen : (List.leftpad k '0' (Nat.toDigits 10 (a.natAbs % 10 ^ k))).length = k := by
    rw [List.length_leftpad, max_eq_left ((Nat.length_toDigits_le_iff (by decide) hk).mpr
      (Nat.mod_lt _ (by positivity)))]
  have hd : ∀ c ∈ Nat.toDigits 10 (a.natAbs / 10 ^ k) ++
      List.leftpad k '0' (Nat.toDigits 10 (a.natAbs % 10 ^ k)), c.isDigit := by
    intro c hc
    rcases List.mem_append.mp hc with hc | hc
    · exact Nat.isDigit_of_mem_toDigits (by decide) (by decide) hc
    · exact isDigit_of_mem_leftpad hc
  -- the digits before and after the point make up `|a|`
  have hval : Nat.ofDigitChars 10 (Nat.toDigits 10 (a.natAbs / 10 ^ k) ++
      List.leftpad k '0' (Nat.toDigits 10 (a.natAbs % 10 ^ k))) 0 = a.natAbs := by
    rw [Nat.ofDigitChars_append, Nat.ofDigitChars_ten_toDigits, Nat.ofDigitChars_eq_ofDigitChars_zero,
      ofDigitChars_leftpad, hlen, Nat.div_add_mod]
  rw [floatString_div_pow a hk, setString_point Nat.toDigits_ne_nil hd, hval, hlen]
  congr 1
  rw [Nat.cast_natAbs, Int.cast_abs]
  split_ifs with ha
  · rw [abs_of_neg (by exact_mod_cast of_decide_eq_true ha), neg_div, neg_neg]
  · rw [abs_of_nonneg (by exact_mod_cast not_lt.mp (of_decide_eq_false (Bool.not_eq_true _ ▸ ha)))]

/-- **The trimmed text of `a / 10 ^ k` parses back to it.** -/
theorem setString_trimRight_floatString (a : ℤ) {k : ℕ} (hk : 0 < k) :
    setString (trimRight ['.'] (trimRight ['0'] (floatString k ((a : ℚ) / 10 ^ k)))) =
      some ((a : ℚ) / 10 ^ k) := by
  rw [floatString_div_pow a hk, setString_trimRight Nat.toDigits_ne_nil, ← floatString_div_pow a hk,
    setString_floatString_div_pow a hk]
  intro c hc
  rcases List.mem_append.mp hc with hc | hc
  · exact Nat.isDigit_of_mem_toDigits (by decide) (by decide) hc
  · exact isDigit_of_mem_leftpad hc

/-- **`ParseInt` reads back the digits of a number an `int64` holds.** -/
theorem parseInt64_toDigits {n : ℕ} (h : n < 2 ^ 63) :
    parseInt64 (Nat.toDigits 10 n) = .ok n := by
  have hd : ∀ c ∈ Nat.toDigits 10 n, c.isDigit :=
    fun c hc => Nat.isDigit_of_mem_toDigits (by decide) (by decide) hc
  have hs := @scanSign_sign false _ Nat.toDigits_ne_nil hd []
  simp only [sign, Bool.false_eq_true, if_false, List.nil_append, List.append_nil] at hs
  have hall : (Nat.toDigits 10 n).all Char.isDigit = true := List.all_eq_true.mpr hd
  have hne : (Nat.toDigits 10 n).isEmpty = false := List.isEmpty_eq_false_iff.mpr Nat.toDigits_ne_nil
  simp only [parseInt64, hs, hall, hne, Nat.ofDigitChars_ten_toDigits, Bool.not_true, Bool.or_false,
    Bool.false_eq_true, if_false]
  rw [if_neg (by omega)]

end Parse

end Decimal
