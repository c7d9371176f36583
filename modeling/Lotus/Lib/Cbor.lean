import Mathlib

/-!
# Reading byte streams, and CBOR major-type headers

A `Decoder` reads from the front of a byte string and returns what it read with the rest, or
why it failed: the input ended before the read (`eof`), inside it (`unexpectedEOF`), or held
something else (`other`).  `Reads d enc x` says that `d` reads `x` from `enc` followed by anything,
and fails as truncated on every strict prefix of `enc`; it is closed under `bind`
(`Reads.bind`), so a format read piece by piece is read whole, and a cut anywhere inside it is
seen as a truncation.

The CBOR header of major type `t` with argument `l` is one byte `t << 5 | l` for `l < 24`, and
otherwise `t << 5 | 24 + k` followed by `l` in `1`, `2`, `4` or `8` big-endian bytes, the fewest
that hold it (`writeHeader`).  `readHeader` reads it back, and refuses an argument written in
more bytes than it needs; so it `Reads` every header `writeHeader` writes (`reads_readHeader`),
and `readByteArray` every byte string up to its bound (`reads_readByteArray`).
-/

namespace Cbor

/-- Why a read fails. -/
inductive ReadError
  /-- The input ended before the read: `io.EOF`. -/
  | eof
  /-- The input ended inside the read: `io.ErrUnexpectedEOF`. -/
  | unexpectedEOF
  /-- The input is not what was expected. -/
  | other (msg : String)
  deriving DecidableEq

/-- The input ended. -/
def ReadError.truncated : ReadError → Bool
  | .eof => true
  | .unexpectedEOF => true
  | .other _ => false

/-- `err.Error()`. -/
def ReadError.toString : ReadError → String
  | .eof => "EOF"
  | .unexpectedEOF => "unexpected EOF"
  | .other msg => msg

/-- A reader of a byte stream: what it reads, and the rest of the stream. -/
abbrev Decoder (α : Type) := List UInt8 → Except ReadError (α × List UInt8)

namespace Decoder

variable {α β : Type}

/-- Reading nothing. -/
def pure (x : α) : Decoder α := fun bs => .ok (x, bs)

/-- Failing without reading. -/
def fail (msg : String) : Decoder α := fun _ => .error (.other msg)

/-- Reading with `d`, then with `f` of what it read. -/
def bind (d : Decoder α) (f : α → Decoder β) : Decoder β := fun bs =>
  match d bs with
  | .ok (x, rest) => f x rest
  | .error e => .error e

/-- `io.ReadAtLeast(r, buf, 1)` on one byte. -/
def readByte : Decoder UInt8
  | [] => .error .eof
  | b :: rest => .ok (b, rest)

/-- `io.ReadFull`: `n` bytes, `io.EOF` when there are none, `io.ErrUnexpectedEOF` when there are
too few. -/
def readFull (n : ℕ) : Decoder (List UInt8) := fun bs =>
  if n ≤ bs.length then .ok (bs.take n, bs.drop n)
  else if bs = [] then .error .eof
  else .error .unexpectedEOF

end Decoder

open Decoder

variable {α β : Type}

/-- `d` reads `x` from `enc` followed by anything, and fails as truncated on each strict prefix
of `enc`. -/
structure Reads (d : Decoder α) (enc : List UInt8) (x : α) : Prop where
  exact : ∀ rest, d (enc ++ rest) = .ok (x, rest)
  trunc : ∀ j < enc.length, ∃ e, d (enc.take j) = .error e ∧ e.truncated

lemma reads_pure (x : α) : Reads (pure x) [] x :=
  ⟨fun _ => rfl, fun j hj => absurd hj (Nat.not_lt_zero j)⟩

lemma reads_readByte (b : UInt8) : Reads readByte [b] b :=
  ⟨fun _ => rfl, fun j hj => ⟨.eof, by simp [show j = 0 by simpa using hj, readByte], rfl⟩⟩

lemma reads_readFull (bs : List UInt8) : Reads (readFull bs.length) bs bs := by
  refine ⟨fun rest => by simp [readFull], fun j hj => ?_⟩
  have hlen : (bs.take j).length = j := by simp; omega
  by_cases h0 : j = 0
  · exact ⟨.eof, by simp [readFull, h0, show bs.length ≠ 0 by omega], rfl⟩
  · refine ⟨.unexpectedEOF, ?_, rfl⟩
    have hne : bs.take j ≠ [] := fun h => h0 (by simpa [h] using hlen.symm)
    simp only [readFull, hlen, hne, if_false]
    rw [if_neg (by omega)]

/-- **Reading in sequence**: what `d` reads from `enc₁`, and then `f` of it from `enc₂`, is read
from `enc₁ ++ enc₂`, and a cut inside either is a truncation. -/
theorem Reads.bind {d : Decoder α} {f : α → Decoder β} {enc₁ enc₂ : List UInt8} {x : α} {y : β}
    (h₁ : Reads d enc₁ x) (h₂ : Reads (f x) enc₂ y) : Reads (d.bind f) (enc₁ ++ enc₂) y := by
  refine ⟨fun rest => ?_, fun j hj => ?_⟩
  · rw [Decoder.bind, List.append_assoc, h₁.exact]
    exact h₂.exact rest
  · rw [List.length_append] at hj
    by_cases hj₁ : j < enc₁.length
    · -- the cut is inside `enc₁`
      obtain ⟨e, he, htr⟩ := h₁.trunc j hj₁
      refine ⟨e, ?_, htr⟩
      rw [Decoder.bind, List.take_append_of_le_length (Nat.le_of_lt hj₁), he]
    · -- `enc₁` is whole, and the cut is inside `enc₂`
      obtain ⟨e, he, htr⟩ := h₂.trunc (j - enc₁.length) (by omega)
      refine ⟨e, ?_, htr⟩
      rw [Decoder.bind, List.take_append, List.take_of_length_le (by omega), h₁.exact]
      exact he

/-- Reading with `d`, then with `f` of what it read, which reads no more. -/
lemma Reads.bind_nil {d : Decoder α} {f : α → Decoder β} {enc : List UInt8} {x : α} {y : β}
    (h₁ : Reads d enc x) (h₂ : Reads (f x) [] y) : Reads (d.bind f) enc y := by
  have h := h₁.bind h₂
  rwa [List.append_nil] at h

/-- Reading with `d` and returning a function of what it read. -/
lemma Reads.bind_pure {d : Decoder α} {enc : List UInt8} {x : α} (g : α → β) (h : Reads d enc x) :
    Reads (d.bind fun y => pure (g y)) enc (g x) :=
  h.bind_nil (reads_pure (g x))

/-! ## Major-type headers -/

/-- `l` in `k` big-endian bytes. -/
def beBytes : ℕ → ℕ → List UInt8
  | 0, _ => []
  | k + 1, l => beBytes k (l / 256) ++ [UInt8.ofNat (l % 256)]

/-- `binary.BigEndian.Uint16`, `Uint32`, `Uint64`: the number the bytes spell, the most
significant first. -/
def beValue (bs : List UInt8) : ℕ :=
  bs.foldl (fun acc b => acc * 256 + b.toNat) 0

/-- A byte in `%x`: lower-case hex digits, no leading zero. -/
def hexByte (b : UInt8) : String :=
  String.ofList (Nat.toDigits 16 b.toNat)

/-- A byte slice in `%x`: two lower-case hex digits a byte. -/
def hexBytes (bs : List UInt8) : String :=
  String.join (bs.map fun b =>
    String.ofList (Nat.toDigits 16 (b.toNat / 16) ++ Nat.toDigits 16 (b.toNat % 16)))

/-- cbor-gen's `MajUnsignedInt`. -/
def majUnsignedInt : ℕ := 0

/-- cbor-gen's `MajNegativeInt`. -/
def majNegativeInt : ℕ := 1

/-- cbor-gen's `MajByteString`. -/
def majByteString : ℕ := 2

/-- cbor-gen's `MajArray`. -/
def majArray : ℕ := 4

/-- cbor-gen's `WriteMajorTypeHeaderBuf`: the major type `t` in the top three bits of the first
byte, the argument `l` in its low five bits, or in the fewest big-endian bytes after it. -/
def writeHeader (t l : ℕ) : List UInt8 :=
  if l < 24 then [UInt8.ofNat (t * 32 + l)]
  else if l < 2 ^ 8 then UInt8.ofNat (t * 32 + 24) :: beBytes 1 l
  else if l < 2 ^ 16 then UInt8.ofNat (t * 32 + 25) :: beBytes 2 l
  else if l < 2 ^ 32 then UInt8.ofNat (t * 32 + 26) :: beBytes 4 l
  else UInt8.ofNat (t * 32 + 27) :: beBytes 8 l

/-- An argument of `k` big-endian bytes, refused when it is below `least`, which fewer bytes
would have held. -/
def readArg (k least : ℕ) (msg : String) : Decoder ℕ :=
  (readFull k).bind fun bs => if beValue bs < least then fail msg else pure (beValue bs)

/-- cbor-gen's `CborReadHeaderBuf`: the major type and the argument, which must be written in
the fewest bytes. -/
def readHeader : Decoder (ℕ × ℕ) :=
  readByte.bind fun first =>
    let maj := first.toNat / 32
    let low := first.toNat % 32
    if low < 24 then pure (maj, low)
    else if low = 24 then
      (readArg 1 24 "cbor input was not canonical (lval 24 with value < 24)").bind
        fun v => pure (maj, v)
    else if low = 25 then
      (readArg 2 (2 ^ 8) "cbor input was not canonical (lval 25 with value <= MaxUint8)").bind
        fun v => pure (maj, v)
    else if low = 26 then
      (readArg 4 (2 ^ 16) "cbor input was not canonical (lval 26 with value <= MaxUint16)").bind
        fun v => pure (maj, v)
    else if low = 27 then
      (readArg 8 (2 ^ 32) "cbor input was not canonical (lval 27 with value <= MaxUint32)").bind
        fun v => pure (maj, v)
    else fail s!"invalid header: ({hexByte first})"

@[simp]
lemma length_beBytes (k l : ℕ) : (beBytes k l).length = k := by
  induction k generalizing l with
  | zero => rfl
  | succ k ih => simp [beBytes, ih]

lemma beValue_append_singleton (bs : List UInt8) (b : UInt8) :
    beValue (bs ++ [b]) = beValue bs * 256 + b.toNat := by
  simp [beValue, List.foldl_append]

lemma beValue_beBytes (k : ℕ) {l : ℕ} (hl : l < 256 ^ k) : beValue (beBytes k l) = l := by
  induction k generalizing l with
  | zero =>
    rw [Nat.pow_zero] at hl
    simp [beBytes, beValue]
    omega
  | succ k ih =>
    have hdiv : l / 256 < 256 ^ k := by
      rw [Nat.div_lt_iff_lt_mul (by decide), ← Nat.pow_succ]
      exact hl
    rw [beBytes, beValue_append_singleton, ih hdiv, UInt8.toNat_ofNat']
    omega

lemma reads_readArg (k least l : ℕ) (msg : String) (hlo : least ≤ l) (hhi : l < 256 ^ k) :
    Reads (readArg k least msg) (beBytes k l) l := by
  have h := (length_beBytes k l ▸ reads_readFull (beBytes k l)).bind
    (f := fun bs => if beValue bs < least then fail msg else pure (beValue bs))
    (show Reads _ [] l by
      simp only [beValue_beBytes k hhi, show ¬l < least by omega, if_false]
      exact reads_pure l)
  rw [List.append_nil] at h
  exact h

/-- The continuation of `readHeader` after a first byte of major type `t` and low bits `c`. -/
lemma readHeader_first {t c : ℕ} (ht : t < 8) (hc : c < 32) :
    (UInt8.ofNat (t * 32 + c)).toNat / 32 = t ∧ (UInt8.ofNat (t * 32 + c)).toNat % 32 = c := by
  rw [UInt8.toNat_ofNat']
  omega

/-- **`readHeader` reads every header `writeHeader` writes**, and a cut inside one is a
truncation. -/
theorem reads_readHeader {t l : ℕ} (ht : t < 8) (hl : l < 2 ^ 64) :
    Reads readHeader (writeHeader t l) (t, l) := by
  unfold writeHeader
  split_ifs with h24 h8 h16 h32
  · obtain ⟨hmaj, hlow⟩ := readHeader_first ht (show l < 32 by omega)
    refine (reads_readByte _).bind_nil ?_
    simp only [hmaj, hlow, h24, if_true]
    exact reads_pure _
  · obtain ⟨hmaj, hlow⟩ := readHeader_first ht (show 24 < 32 by omega)
    refine (reads_readByte _).bind ?_
    simp only [hmaj, hlow, Nat.lt_irrefl, if_false, if_true]
    exact (reads_readArg 1 24 l "cbor input was not canonical (lval 24 with value < 24)"
      (by omega) (by simpa using h8)).bind_pure (Prod.mk t)
  · obtain ⟨hmaj, hlow⟩ := readHeader_first ht (show 25 < 32 by omega)
    refine (reads_readByte _).bind ?_
    simp only [hmaj, hlow, show ¬(25 : ℕ) < 24 by omega, show (25 : ℕ) ≠ 24 by omega, if_false,
      if_true]
    exact (reads_readArg 2 (2 ^ 8) l
      "cbor input was not canonical (lval 25 with value <= MaxUint8)" (by omega)
      (by simpa using h16)).bind_pure (Prod.mk t)
  · obtain ⟨hmaj, hlow⟩ := readHeader_first ht (show 26 < 32 by omega)
    refine (reads_readByte _).bind ?_
    simp only [hmaj, hlow, show ¬(26 : ℕ) < 24 by omega, show (26 : ℕ) ≠ 24 by omega,
      show (26 : ℕ) ≠ 25 by omega, if_false, if_true]
    exact (reads_readArg 4 (2 ^ 16) l
      "cbor input was not canonical (lval 26 with value <= MaxUint16)" (by omega)
      (by simpa using h32)).bind_pure (Prod.mk t)
  · obtain ⟨hmaj, hlow⟩ := readHeader_first ht (show 27 < 32 by omega)
    refine (reads_readByte _).bind ?_
    simp only [hmaj, hlow, show ¬(27 : ℕ) < 24 by omega, show (27 : ℕ) ≠ 24 by omega,
      show (27 : ℕ) ≠ 25 by omega, show (27 : ℕ) ≠ 26 by omega, if_false, if_true]
    exact (reads_readArg 8 (2 ^ 32) l
      "cbor input was not canonical (lval 27 with value <= MaxUint32)" (by omega)
      (by simpa using hl)).bind_pure (Prod.mk t)

/-- cbor-gen's `ReadByteArray(br, maxlen)`: a byte string of at most `maxlen` bytes. -/
def readByteArray (maxlen : ℕ) : Decoder (List UInt8) :=
  readHeader.bind fun (maj, extra) =>
    if maj ≠ majByteString then fail "expected cbor type \x27byte string\x27 in input"
    else if extra > maxlen then fail ("string in cbor input too long, maxlen: " ++ toString maxlen)
    else readFull extra

lemma reads_readByteArray {maxlen : ℕ} (bs : List UInt8) (hmax : bs.length ≤ maxlen)
    (h64 : bs.length < 2 ^ 64) :
    Reads (readByteArray maxlen) (writeHeader majByteString bs.length ++ bs) bs := by
  refine (reads_readHeader (by decide) h64).bind ?_
  simp only [majByteString, ne_eq, not_true_eq_false, if_false, show ¬bs.length > maxlen by omega]
  exact reads_readFull bs

end Cbor
