import Mathlib
import Lotus.Lib.Decimal

/-!
# FIL amounts as text (`chain/types/fil.go`)

A `FIL` is a `BigInt`, a pointer to a `big.Int` that is `nil` in the zero value.  `Unitless`
writes the amount in FIL: the rational `f / 10^18` with 18 digits after the point, trailing zeros
and then a trailing point trimmed; `String` and `MarshalText` add `" FIL"`.  `ParseFIL` splits
off what follows the longest prefix of `-.1234567890` as the unit, caps the number at 50
characters, parses it with `big.Rat.SetString`, scales FIL to attoFIL and wants an integer.
`UnmarshalText` has a value receiver: it writes the parsed amount through the receiver's pointer,
into the caller's value, with `f.Int.Set`.

Strings are lists of characters (runes), and the `%q` quoting of the error texts is a parameter
of `ParseError.message`.

**Round trip.**  For every amount whose `Unitless` text has at most 50 characters, `ParseFIL`
gives the amount back from that text and from its `String` (`parseFIL_unitless_append`), and so
`UnmarshalText` of the `MarshalText` stores it into any value that holds an allocated `big.Int`.

**The zero value.**  `UnmarshalText` on a zero `FIL` calls `Set` on the `nil` pointer, and panics
for every text that parses.
-/

namespace Lotus

open Decimal

/-- `build.FilecoinPrecision`: attoFIL in one FIL. -/
def filecoinPrecision : ℕ := 1000000000000000000

/-- A `FIL`: its `*big.Int`, `none` for the `nil` of the zero value. -/
structure FIL where
  int : Option ℤ
  deriving DecidableEq, Repr

/-- What `ParseFIL` fails with. -/
inductive ParseError
  | unrecognizedSuffix (suffix : List Char)
  | lengthTooLarge (len : ℕ)
  | notDecimal (s : List Char)
  | invalidValue (attofil : Bool) (s : List Char)
  deriving DecidableEq, Repr

/-- The text of the error, with `quote` for `%q`. -/
def ParseError.message (quote : List Char → List Char) : ParseError → List Char
  | .unrecognizedSuffix suffix => "unrecognized suffix: ".toList ++ quote suffix
  | .lengthTooLarge len => "string length too large: ".toList ++ Nat.toDigits 10 len
  | .notDecimal s => "failed to parse ".toList ++ quote s ++ " as a decimal number".toList
  | .invalidValue attofil s =>
    "invalid ".toList ++ (if attofil then "atto".toList else []) ++ "FIL value: ".toList ++ quote s

namespace FIL

/-- `f.Unitless()`; `none` for the zero value, where `SetFrac` reads through the `nil` pointer. -/
def unitless (f : FIL) : Option (List Char) :=
  f.int.map fun a =>
    let r : ℚ := (a : ℚ) / (filecoinPrecision : ℚ)
    if r = 0 then ['0'] else trimRight ['.'] (trimRight ['0'] (floatString 18 r))

/-- `f.String()`. -/
def string (f : FIL) : Option (List Char) :=
  f.unitless.map (· ++ " FIL".toList)

/-- `f.MarshalText()`, whose error is always `nil`. -/
def marshalText (f : FIL) : Option (List Char) :=
  f.string

end FIL

/-- The characters `ParseFIL` keeps as the number: `strings.TrimLeft(s, "-.1234567890")` leaves
the suffix. -/
def numberChars : List Char := "-.1234567890".toList

/-- The `switch` on the suffix in `ParseFIL`: whether it names attoFIL.  An empty suffix names
nothing, and FIL is the default. -/
def suffixUnit (suffix : List Char) : Except ParseError Bool :=
  if suffix ≠ [] then
    let norm := (trimSpace suffix).map toLower
    if norm = [] ∨ norm = "fil".toList then .ok false
    else if norm = "attofil".toList ∨ norm = "afil".toList then .ok true
    else .error (.unrecognizedSuffix suffix)
  else .ok false

/-- `ParseFIL(s)`. -/
def parseFIL (s : List Char) : Except ParseError FIL := do
  let suffix := trimLeft numberChars s
  let s := s.take (s.length - suffix.length)
  let attofil ← suffixUnit suffix
  if 50 < s.length then throw (.lengthTooLarge s.length)
  match setString s with
  | none => throw (.notDecimal s)
  | some r =>
    let r := if attofil then r else r * (filecoinPrecision : ℚ)
    if r.den ≠ 1 then throw (.invalidValue attofil s) else pure ⟨some r.num⟩

namespace FIL

/-- `t.UnmarshalText(text)`: the value `t` holds afterwards, and the error.  The receiver is a
copy of `t` that shares its pointer, so `Set` writes into `t`; `none` where it is `nil`. -/
def unmarshalText (t : FIL) (text : List Char) : Option (FIL × Option ParseError) :=
  match parseFIL text with
  | .error e => some (t, some e)
  | .ok p => t.int.map fun _ => (p, none)

end FIL

/-! ## The text of an amount -/

lemma filecoinPrecision_cast : (filecoinPrecision : ℚ) = 10 ^ 18 := by
  norm_num [filecoinPrecision]

/-- `Unitless` of an allocated amount: `0`, or the trimmed 18-digit text of `a / 10^18`. -/
lemma unitless_some (a : ℤ) :
    FIL.unitless ⟨some a⟩ =
      some (if a = 0 then ['0'] else trimRight ['.'] (trimRight ['0'] (floatString 18 ((a : ℚ) / 10 ^ 18)))) := by
  simp only [FIL.unitless, filecoinPrecision_cast]
  simp [div_eq_zero_iff]

lemma mem_numberChars_of_isDigit {c : Char} (h : c.isDigit) : c ∈ numberChars := by
  have h' : 48 ≤ c.toNat ∧ c.toNat ≤ 57 := by
    simp only [Char.isDigit, Bool.and_eq_true, decide_eq_true_eq] at h
    exact ⟨h.1, h.2⟩
  rw [← Char.ofNat_toNat c]
  generalize c.toNat = n at h'
  obtain ⟨h1, h2⟩ := h'
  interval_cases n <;> decide

/-- `Unitless` writes only characters of the number. -/
lemma mem_numberChars_of_unitless {a : ℤ} {u : List Char} (hu : FIL.unitless ⟨some a⟩ = some u) :
    ∀ c ∈ u, c ∈ numberChars := by
  rw [unitless_some, Option.some.injEq] at hu
  subst hu
  intro c hc
  split_ifs at hc
  · rw [List.mem_singleton.mp hc]
    decide
  · rcases mem_floatString_div_pow a (by decide) (mem_of_mem_trimRight (mem_of_mem_trimRight hc))
      with rfl | rfl | hd
    · decide
    · decide
    · exact mem_numberChars_of_isDigit hd

/-- `Unitless` writes a decimal text of the amount in FIL. -/
lemma setString_unitless {a : ℤ} {u : List Char} (hu : FIL.unitless ⟨some a⟩ = some u) :
    setString u = some ((a : ℚ) / 10 ^ 18) := by
  rw [unitless_some, Option.some.injEq] at hu
  subst hu
  split_ifs with ha
  · -- `0` is one digit
    rw [ha, Int.cast_zero, zero_div]
    have h0 := @setString_digits false ['0'] (by simp) fun c hc => by
      rw [List.mem_singleton.mp hc]
      rfl
    simpa [sign, Nat.ofDigitChars] using h0
  · exact setString_trimRight_floatString a (by decide)

/-! ## Parsing it back -/

section Split

variable {u sfx : List Char} {attofil : Bool} (hu : ∀ c ∈ u, c ∈ numberChars)
  (hhead : ∀ c ∈ sfx.head?, c ∉ numberChars) (hunit : suffixUnit sfx = .ok attofil)
include hu hhead hunit

/-- **What `ParseFIL` accepts**: a number followed by a unit suffix parses to `a` exactly when the
number has at most 50 characters and denotes `a` attoFIL. -/
theorem parseFIL_append_eq_ok_iff {a : ℤ} :
    parseFIL (u ++ sfx) = .ok ⟨some a⟩ ↔
      u.length ≤ 50 ∧ ∃ r, setString u = some r ∧ (if attofil then r else r * 10 ^ 18) = a := by
  simp only [parseFIL, trimLeft_append hu hhead, take_length_sub_append, hunit, bind, Except.bind,
    filecoinPrecision_cast]
  by_cases hlen : 50 < u.length
  · rw [if_pos hlen]
    simp only [reduceCtorEq, false_iff, not_and]
    exact fun h => absurd hlen (by omega)
  rw [if_neg hlen]
  cases hs : setString u with
  | none => simp [throw, throwThe, MonadExceptOf.throw]
  | some r =>
    -- the scaled value is the integer `a` exactly when it is one, with `a` its numerator
    simp only [Option.some.injEq, exists_eq_left', not_lt.mp hlen, true_and]
    generalize (if attofil then r else r * 10 ^ 18) = r'
    by_cases hden : r'.den = 1
    · rw [if_neg (not_not.mpr hden)]
      simp only [pure, Except.pure, Except.ok.injEq, FIL.mk.injEq, Option.some.injEq]
      constructor
      · rintro rfl
        exact ((Rat.den_eq_one_iff r').mp hden).symm
      · rintro rfl
        rfl
    · rw [if_pos hden]
      simp only [throw, throwThe, MonadExceptOf.throw, reduceCtorEq, false_iff]
      rintro rfl
      exact hden (Rat.den_intCast a)

/-- **The 50-character cap**: a longer number is refused, whatever it denotes. -/
theorem parseFIL_lengthTooLarge (hlen : 50 < u.length) :
    parseFIL (u ++ sfx) = .error (.lengthTooLarge u.length) := by
  simp only [parseFIL, trimLeft_append hu hhead, take_length_sub_append, hunit, bind, Except.bind]
  rw [if_pos hlen]
  rfl

end Split

/-- "1." and 49 zeros denotes one FIL in 51 characters, and is refused. -/
theorem parseFIL_lengthTooLarge_oneFIL :
    parseFIL ('1' :: '.' :: List.replicate 49 '0') = .error (.lengthTooLarge 51) := by
  have hdigits : ∀ c ∈ '1' :: '.' :: List.replicate 49 '0', c ∈ numberChars := by
    simp only [List.forall_mem_cons, List.mem_replicate]
    exact ⟨by decide, by decide, fun c hc => hc.2 ▸ by decide⟩
  have h := @parseFIL_lengthTooLarge ('1' :: '.' :: List.replicate 49 '0') [] false hdigits
    (by simp) rfl (by simp)
  simpa only [List.append_nil, List.length_cons, List.length_replicate] using h

/-- `ParseFIL` of a decimal text of `a / 10^18` FIL, of at most 50 characters, followed by a
suffix that names FIL. -/
lemma parseFIL_append {a : ℤ} {u sfx : List Char} (hu : ∀ c ∈ u, c ∈ numberChars)
    (hlen : u.length ≤ 50) (hset : setString u = some ((a : ℚ) / 10 ^ 18))
    (hhead : ∀ c ∈ sfx.head?, c ∉ numberChars) (hunit : suffixUnit sfx = .ok false) :
    parseFIL (u ++ sfx) = .ok ⟨some a⟩ := by
  refine (parseFIL_append_eq_ok_iff hu hhead hunit).mpr ⟨hlen, _, hset, ?_⟩
  -- scaled back to attoFIL, the amount is the integer `a`
  rw [if_neg Bool.false_ne_true, div_mul_cancel₀ _ (by norm_num)]

/-- **A FIL amount's text parses back to it**: `Unitless`, alone or followed by a suffix that names
FIL, when it has at most 50 characters. -/
theorem parseFIL_unitless_append {a : ℤ} {u sfx : List Char} (hu : FIL.unitless ⟨some a⟩ = some u)
    (hlen : u.length ≤ 50) (hhead : ∀ c ∈ sfx.head?, c ∉ numberChars)
    (hunit : suffixUnit sfx = .ok false) :
    parseFIL (u ++ sfx) = .ok ⟨some a⟩ :=
  parseFIL_append (mem_numberChars_of_unitless hu) hlen (setString_unitless hu) hhead hunit

/-- `String` is `Unitless` and `" FIL"`, whose suffix names FIL. -/
lemma parseFIL_string {a : ℤ} {u : List Char} (hu : FIL.unitless ⟨some a⟩ = some u)
    (hlen : u.length ≤ 50) :
    FIL.marshalText ⟨some a⟩ = some (u ++ " FIL".toList) ∧
      parseFIL (u ++ " FIL".toList) = .ok ⟨some a⟩ := by
  refine ⟨by rw [FIL.marshalText, FIL.string, hu, Option.map_some], ?_⟩
  -- the suffix starts with a space, which is not part of a number
  refine parseFIL_unitless_append hu hlen (fun c hc => ?_) (by decide)
  rw [show (" FIL".toList).head? = some ' ' from rfl, Option.mem_some_iff] at hc
  subst hc
  decide

/-- `Unitless` alone. -/
lemma parseFIL_unitless {a : ℤ} {u : List Char} (hu : FIL.unitless ⟨some a⟩ = some u)
    (hlen : u.length ≤ 50) : parseFIL u = .ok ⟨some a⟩ := by
  have h : parseFIL (u ++ []) = .ok ⟨some a⟩ := parseFIL_unitless_append hu hlen (by simp) (by decide)
  simpa using h

/-! ## Unmarshalling -/

/-- A text that parses is stored into a value with an allocated `big.Int`. -/
lemma unmarshalText_ok {t p : FIL} {text : List Char} (ht : t.int.isSome) (hp : parseFIL text = .ok p) :
    FIL.unmarshalText t text = some (p, none) := by
  obtain ⟨x, hx⟩ := Option.isSome_iff_exists.mp ht
  simp only [FIL.unmarshalText, hp, hx, Option.map_some]

/-- A text that parses makes `UnmarshalText` on the zero value panic. -/
lemma unmarshalText_nil {p : FIL} {text : List Char} (hp : parseFIL text = .ok p) :
    FIL.unmarshalText ⟨none⟩ text = none := by
  simp only [FIL.unmarshalText, hp, Option.map_none]

/-- **The text round trip, and the zero value.**  For every amount whose `Unitless` text has at
most 50 characters, `ParseFIL` gives it back from its `String` (its `MarshalText`) and from its
`Unitless`; `UnmarshalText` of that text stores it into every value with an allocated `big.Int`,
and panics on the zero value. -/
theorem unmarshalText_zero_panics (a : ℤ) {u : List Char} (hu : FIL.unitless ⟨some a⟩ = some u)
    (hlen : u.length ≤ 50) :
    FIL.marshalText ⟨some a⟩ = some (u ++ " FIL".toList) ∧
      parseFIL (u ++ " FIL".toList) = .ok ⟨some a⟩ ∧ parseFIL u = .ok ⟨some a⟩ ∧
      (∀ t : FIL, t.int.isSome → FIL.unmarshalText t (u ++ " FIL".toList) = some (⟨some a⟩, none)) ∧
      FIL.unmarshalText ⟨none⟩ (u ++ " FIL".toList) = none := by
  obtain ⟨hmarshal, hparse⟩ := parseFIL_string hu hlen
  exact ⟨hmarshal, hparse, parseFIL_unitless hu hlen, fun _ ht => unmarshalText_ok ht hparse,
    unmarshalText_nil hparse⟩

/-- One attoFIL is `0.000000000000000001 FIL`, and the zero value panics on it. -/
theorem unmarshalText_zero_panics_oneAtto :
    FIL.marshalText ⟨some 1⟩ = some ("0.000000000000000001".toList ++ " FIL".toList) ∧
      parseFIL ("0.000000000000000001".toList ++ " FIL".toList) = .ok ⟨some 1⟩ ∧
      parseFIL "0.000000000000000001".toList = .ok ⟨some 1⟩ ∧
      (∀ t : FIL, t.int.isSome →
        FIL.unmarshalText t ("0.000000000000000001".toList ++ " FIL".toList) = some (⟨some 1⟩, none)) ∧
      FIL.unmarshalText ⟨none⟩ ("0.000000000000000001".toList ++ " FIL".toList) = none :=
  unmarshalText_zero_panics 1 (by decide +kernel) (by decide)

end Lotus
