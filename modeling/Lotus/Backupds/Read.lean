import Lotus.Lib.Cbor
import Lotus.Lib.GoInt
import Lotus.Backupds.Log

/-!
# The backup file, byte by byte (`lib/backupds/read.go`, `cbor.go`, `Backup`)

A backup file is what `Backup` writes, `array(2)` of the child's pairs in an indefinite-length
array and the SHA-256 of that array, followed by the log: one `Entry` per logged write, each
`Entry.MarshalCBOR`'s `array(3)` of the key, the value and the `int64` timestamp.  `ReadBackup`
reads it back and calls its callback on each pair (`log = false`) and each entry
(`log = true`); `RestoreInto` puts what it is called with into a batch.

The hash is a parameter with 32-byte sums, and so is `path.Clean`, which `datastore.NewKey`
applies to every key read.  The callback accepts every call; `ReadBackup`'s calls are returned in
the order it makes them, with its result.  `LOTUS_ALLOW_TRUNCATED_LOG=1` is `allowTruncated`.

**Round trip.**  Every `Reads` lemma of `Lotus.Lib.Cbor` gives one field; so a pair and an entry
are read back whole (`readPairs_pairs`, `readLog_entries`), and a cut inside an entry is a
truncation (`readLog_truncated`).  A key is reported as `NewKey` gives it: the base's keys are
canonical, which `NewKey` keeps, but an entry's key need not be, and the empty key comes back
as `/`.  Base keys and values are read with `ReadByteArray(hr, 1<<40)`, which refuses a longer
one.  `restoreInto_logfile` connects the bytes to the model of `Lotus.Backupds.Log`: restoring a
file written for a log gives that log's replay.
-/

namespace Lotus

namespace Backupds

namespace Wire

open Cbor Cbor.Decoder GoInt

/-- A log record, `Entry{Key, Value, Timestamp}`. -/
structure Entry where
  key : List UInt8
  value : List UInt8
  timestamp : Int64
  deriving DecidableEq

/-- `Entry.MarshalCBOR`: `lengthBufEntry` (`array(3)`), the key and the value as byte strings,
and the timestamp as an unsigned or a negative integer. -/
def Entry.marshalCBOR (e : Entry) : List UInt8 :=
  let t := e.timestamp.toInt
  [131] ++ writeHeader majByteString e.key.length ++ e.key ++
    writeHeader majByteString e.value.length ++ e.value ++
    if 0 ≤ t then writeHeader majUnsignedInt (uint64 t)
    else writeHeader majNegativeInt (uint64 (int64 (int64 (-t) - 1)))

/-- The last field of `Entry.UnmarshalCBOR`: `extraI := int64(extra)`, which must not be
negative, and for a negative integer `-1 - extraI`. -/
def Entry.readTimestamp (maj extra : ℕ) : Decoder Int64 :=
  if maj = majUnsignedInt then
    if int64 extra < 0 then fail "int64 positive overflow" else pure (Int64.ofInt (int64 extra))
  else if maj = majNegativeInt then
    if int64 extra < 0 then fail "int64 negative oveflow"
    else pure (Int64.ofInt (int64 (-1 - int64 extra)))
  else fail ("wrong type for int64 field: " ++ toString maj)

/-- `Entry.UnmarshalCBOR`. -/
def Entry.unmarshalCBOR : Decoder Entry :=
  readHeader.bind fun (maj, extra) =>
    if maj ≠ majArray then fail "cbor input should be of type array"
    else if extra ≠ 3 then fail "cbor input had wrong number of fields"
    else readHeader.bind fun (maj, extra) =>
      if maj ≠ majByteString then fail "expected byte array"
      else (readFull extra).bind fun key =>
        readHeader.bind fun (maj, extra) =>
          if maj ≠ majByteString then fail "expected byte array"
          else (readFull extra).bind fun value =>
            readHeader.bind fun (maj, extra) =>
              (Entry.readTimestamp maj extra).bind fun timestamp => pure ⟨key, value, timestamp⟩

/-! ## An entry read back -/

/-- The timestamp's field, then anything made of it, is read back for every `int64`,
`MinInt64` included. -/
lemma reads_timestamp {β : Type} (t : Int64) (g : Int64 → β) :
    Reads (readHeader.bind fun (maj, extra) =>
        (Entry.readTimestamp maj extra).bind fun ts => pure (g ts))
      (if 0 ≤ t.toInt then writeHeader majUnsignedInt (uint64 t.toInt)
        else writeHeader majNegativeInt (uint64 (int64 (int64 (-t.toInt) - 1)))) (g t) := by
  have hrange : InRange t.toInt := ⟨Int64.le_toInt t, Int64.toInt_lt t⟩
  obtain ⟨hlo, hhi⟩ := hrange
  by_cases h0 : 0 ≤ t.toInt
  · -- an unsigned integer, whose `int64` is the timestamp
    have hval : uint64 t.toInt = t.toInt.toNat := by
      unfold uint64
      omega
    have hext : int64 (t.toInt.toNat : ℤ) = t.toInt := by
      rw [Int.toNat_of_nonneg h0]
      exact int64_of_inRange ⟨hlo, hhi⟩
    rw [if_pos h0, hval]
    refine (reads_readHeader (by decide) (by omega)).bind_nil ?_
    simp only [Entry.readTimestamp, majUnsignedInt, if_true, hext, not_lt.mpr h0, if_false,
      Int64.ofInt_toInt]
    exact (reads_pure t).bind_pure g
  · -- a negative integer `-1 - n`, with `n` an `int64`
    have hext : int64 ((-1 - t.toInt).toNat : ℤ) = -1 - t.toInt := by
      rw [Int.toNat_of_nonneg (by omega)]
      exact int64_of_inRange ⟨by omega, by omega⟩
    have hts : int64 (-1 - (-1 - t.toInt)) = t.toInt := by
      rw [show -1 - (-1 - t.toInt) = t.toInt by omega]
      exact int64_of_inRange ⟨hlo, hhi⟩
    rw [if_neg h0, uint64_int64_neg_sub_one ⟨hlo, hhi⟩ (by omega)]
    refine (reads_readHeader (by decide) (by omega)).bind_nil ?_
    simp only [Entry.readTimestamp, majUnsignedInt, majNegativeInt, hext,
      show ¬-1 - t.toInt < 0 by omega, hts, Int64.ofInt_toInt, if_false, if_true]
    exact (reads_pure t).bind_pure g

/-- **An entry is read back**, from its encoding followed by anything, and a cut inside its
encoding is a truncation. -/
theorem reads_marshalCBOR (e : Entry) (hk : e.key.length < 2 ^ 64)
    (hv : e.value.length < 2 ^ 64) : Reads Entry.unmarshalCBOR e.marshalCBOR e := by
  have harr : ([131] : List UInt8) = writeHeader majArray 3 := by decide
  rw [Entry.marshalCBOR, harr]
  simp only [List.append_assoc]
  refine (reads_readHeader (show majArray < 8 by decide) (show 3 < 2 ^ 64 by decide)).bind ?_
  simp only [majArray, ne_eq, not_true_eq_false, if_false]
  -- the key, then the value: a byte-string header and as many bytes
  refine (reads_readHeader (show majByteString < 8 by decide) hk).bind ?_
  simp only [majByteString, not_true_eq_false, if_false]
  refine (reads_readFull e.key).bind ?_
  refine (reads_readHeader (show majByteString < 8 by decide) hv).bind ?_
  simp only [majByteString, not_true_eq_false, if_false]
  refine (reads_readFull e.value).bind ?_
  exact reads_timestamp e.timestamp (Entry.mk e.key e.value)

/-- A call of the callback: the key, the value, and whether it came from the log. -/
abbrev Call := List UInt8 × List UInt8 × Bool

section Format

variable (hash : List UInt8 → List UInt8) (clean : List UInt8 → List UInt8)

/-- `datastore.NewKey(string(b))`: `/` for the empty key, and otherwise `path.Clean` of the key
with a leading `/`. -/
def newKey (b : List UInt8) : List UInt8 :=
  if b = [] then [47] else if b.head? = some 47 then clean b else clean (47 :: b)

/-- One pair of the base as `Backup` writes it: `array(2)` of the key and the value. -/
def pairBytes (p : List UInt8 × List UInt8) : List UInt8 :=
  writeHeader majArray 2 ++ writeHeader majByteString p.1.length ++ p.1 ++
    writeHeader majByteString p.2.length ++ p.2

/-- `Backup` of the pairs `Query` returns: `array(2)`, then what the hasher also sees (the pairs
in an indefinite-length array), then its sum as a byte string. -/
def backup (pairs : List (List UInt8 × List UInt8)) : List UInt8 :=
  let body := [0x9f] ++ (pairs.map pairBytes).flatten ++ [0xff]
  writeHeader majArray 2 ++ body ++ writeHeader majByteString (hash body).length ++ hash body

/-- The loop over the base's pairs in `ReadBackup`: the calls made, and the stream after the
closing `0xff`, or the error.  Each round reads at least a byte, so the length of the stream is
fuel enough. -/
def readPairs : ℕ → List UInt8 → List Call → List Call × Except String (List UInt8)
  | 0, _, calls => (calls, .error "out of fuel")
  | fuel + 1, bs, calls =>
    match readByte bs with
    | .error e => (calls, .error ("reading tuple header: " ++ e.toString))
    | .ok (b, rest) =>
      if b = 0xff then (calls, .ok rest)
      else if b ≠ 0x82 then (calls, .error ("expected array(2) header 0x82, got " ++ hexByte b))
      else match readByteArray (2 ^ 40) rest with
        | .error e => (calls, .error ("reading key: " ++ e.toString))
        | .ok (keyb, rest) =>
          match readByteArray (2 ^ 40) rest with
          | .error e => (calls, .error ("reading value: " ++ e.toString))
          | .ok (value, rest) => readPairs fuel rest (calls ++ [(newKey clean keyb, value, false)])

/-- The loop over the log in `ReadBackup`: it ends cleanly where the stream does, and at an
entry cut short it stops, without an error only under `LOTUS_ALLOW_TRUNCATED_LOG=1`. -/
def readLog (allowTruncated : Bool) : ℕ → List UInt8 → List Call → List Call × Except String Bool
  | 0, _, calls => (calls, .error "out of fuel")
  | _ + 1, [], calls => (calls, .ok true)
  | fuel + 1, b :: bs, calls =>
    match Entry.unmarshalCBOR (b :: bs) with
    | .ok (ent, rest) =>
      readLog allowTruncated fuel rest (calls ++ [(newKey clean ent.key, ent.value, true)])
    | .error e =>
      if e.truncated then
        if allowTruncated then (calls, .ok false)
        else (calls, .error
          ("log entry potentially truncated, set LOTUS_ALLOW_TRUNCATED_LOG=1 to proceed: " ++
            e.toString))
      else (calls, .error ("unmarshaling log entry: " ++ e.toString))

/-- `ReadBackup`: the calls of the callback, and what it returns. -/
def readBackup (allowTruncated : Bool) (input : List UInt8) : List Call × Except String Bool :=
  match readByte input with
  | .error e => ([], .error ("reading array header: " ++ e.toString))
  | .ok (b, r) =>
    if b ≠ 0x82 then ([], .error ("expected array(2) header byte 0x82, got " ++ hexByte b))
    else match readByte r with
      | .error e => ([], .error ("reading array header: " ++ e.toString))
      | .ok (b, hr) =>
        if b ≠ 0x9f then
          ([], .error ("expected indefinite length array header byte 0x9f, got " ++ hexByte b))
        else match readPairs clean input.length hr [] with
          | (calls, .error msg) => (calls, .error msg)
          | (calls, .ok rest) =>
            -- the tee has seen everything read since the first byte
            let sum := hash (r.take (r.length - rest.length))
            match readByteArray 32 rest with
            | .error e => (calls, .error ("reading expected checksum: " ++ e.toString))
            | .ok (expSum, rest) =>
              if sum ≠ expSum then
                (calls, .error ("checksum didn't match; expected " ++ hexBytes expSum ++
                  ", got " ++ hexBytes sum))
              else readLog clean allowTruncated input.length rest calls

/-- `RestoreInto` an empty datastore: a batch `Put` per call, committed when `ReadBackup`
returns no error. -/
def restoreInto (allowTruncated : Bool) (input : List UInt8) :
    Except String (AList fun _ : List UInt8 => List UInt8) :=
  match readBackup hash clean allowTruncated input with
  | (_, .error msg) => .error ("reading backup: " ++ msg)
  | (calls, .ok _) => .ok (calls.foldl (fun m c => m.insert c.1 c.2.1) ∅)

/-! ## The base read back -/

variable {hash clean}

lemma writeHeader_array_two : writeHeader majArray 2 = [0x82] := by decide

/-- One round of the base loop reads a pair back. -/
lemma readPairs_pair (fuel : ℕ) (p : List UInt8 × List UInt8) (hk : p.1.length ≤ 2 ^ 40)
    (hv : p.2.length ≤ 2 ^ 40) (rest : List UInt8) (calls : List Call) :
    readPairs clean (fuel + 1) (pairBytes p ++ rest) calls =
      readPairs clean fuel rest (calls ++ [(newKey clean p.1, p.2, false)]) := by
  have hkey := (reads_readByteArray p.1 hk (by omega)).exact
  have hval := (reads_readByteArray p.2 hv (by omega)).exact
  simp only [List.append_assoc] at hkey hval
  -- the header byte is `0x82`, not the break `0xff`
  have hbyte : ((0x82 : UInt8) = 0xff) ↔ False := by decide
  simp only [readPairs, readByte, pairBytes, writeHeader_array_two, List.append_assoc,
    List.cons_append, List.nil_append, hbyte, if_false, ne_eq, not_true_eq_false, hkey, hval]

/-- The break ends the base loop. -/
lemma readPairs_break (fuel : ℕ) (rest : List UInt8) (calls : List Call) :
    readPairs clean (fuel + 1) (0xff :: rest) calls = (calls, .ok rest) := by
  simp [readPairs, readByte]

/-- **The base loop reads every pair back**, in order, and stops after the break. -/
theorem readPairs_pairs (pairs : List (List UInt8 × List UInt8))
    (hmax : ∀ p ∈ pairs, p.1.length ≤ 2 ^ 40 ∧ p.2.length ≤ 2 ^ 40) (fuel : ℕ) (rest : List UInt8)
    (calls : List Call) :
    readPairs clean (fuel + 1 + pairs.length) ((pairs.map pairBytes).flatten ++ 0xff :: rest)
      calls = (calls ++ pairs.map fun p => (newKey clean p.1, p.2, false), .ok rest) := by
  induction pairs generalizing calls with
  | nil => simpa using readPairs_break fuel rest calls
  | cons p ps ih =>
    obtain ⟨hk, hv⟩ := hmax p List.mem_cons_self
    rw [List.length_cons, ← Nat.add_assoc, List.map_cons, List.flatten_cons, List.append_assoc,
      readPairs_pair _ p hk hv, ih (fun q hq => hmax q (List.mem_cons_of_mem p hq))]
    simp

/-! ## The log read back -/

section Log

variable (allowTruncated : Bool)

/-- One round of the log loop reads an entry back. -/
lemma readLog_entry (fuel : ℕ) (e : Entry) (hk : e.key.length < 2 ^ 64)
    (hv : e.value.length < 2 ^ 64) (rest : List UInt8) (calls : List Call) :
    readLog clean allowTruncated (fuel + 1) (e.marshalCBOR ++ rest) calls =
      readLog clean allowTruncated fuel rest (calls ++ [(newKey clean e.key, e.value, true)]) := by
  have hcons : e.marshalCBOR ++ rest = 131 :: (e.marshalCBOR ++ rest).tail := by
    simp [Entry.marshalCBOR]
  rw [hcons, readLog, ← hcons, (reads_marshalCBOR e hk hv).exact rest]

/-- **The log loop reads every entry back**, in order. -/
theorem readLog_entries (entries : List Entry)
    (hlen : ∀ e ∈ entries, e.key.length < 2 ^ 64 ∧ e.value.length < 2 ^ 64) (fuel : ℕ)
    (rest : List UInt8) (calls : List Call) :
    readLog clean allowTruncated (fuel + entries.length)
        ((entries.map Entry.marshalCBOR).flatten ++ rest) calls =
      readLog clean allowTruncated fuel rest
        (calls ++ entries.map fun e => (newKey clean e.key, e.value, true)) := by
  induction entries generalizing calls with
  | nil => simp
  | cons e es ih =>
    obtain ⟨hk, hv⟩ := hlen e List.mem_cons_self
    rw [List.length_cons, ← Nat.add_assoc, List.map_cons, List.flatten_cons, List.append_assoc,
      readLog_entry allowTruncated _ e hk hv, ih (fun f hf => hlen f (List.mem_cons_of_mem e hf))]
    simp

/-- The log loop ends cleanly where the stream does. -/
lemma readLog_nil (fuel : ℕ) (calls : List Call) :
    readLog clean allowTruncated (fuel + 1) [] calls = (calls, .ok true) := by
  rw [readLog]

/-- **A cut inside an entry is seen**: the log loop stops there, with an error, or without one
but unclean under `LOTUS_ALLOW_TRUNCATED_LOG=1`. -/
theorem readLog_truncated (fuel : ℕ) (e : Entry) (hk : e.key.length < 2 ^ 64)
    (hv : e.value.length < 2 ^ 64) {j : ℕ} (hj0 : 0 < j) (hj : j < e.marshalCBOR.length)
    (calls : List Call) :
    ∃ err : ReadError, err.truncated ∧
      readLog clean allowTruncated (fuel + 1) (e.marshalCBOR.take j) calls =
        (calls, if allowTruncated then .ok false else .error
          ("log entry potentially truncated, set LOTUS_ALLOW_TRUNCATED_LOG=1 to proceed: " ++
            err.toString)) := by
  obtain ⟨err, herr, htr⟩ := (reads_marshalCBOR e hk hv).trunc j hj
  have hpos : 0 < (e.marshalCBOR.take j).length := by
    rw [List.length_take]
    omega
  obtain ⟨b, bs, hcons⟩ := List.exists_cons_of_ne_nil (List.ne_nil_of_length_pos hpos)
  refine ⟨err, htr, ?_⟩
  rw [hcons, readLog, ← hcons, herr]
  cases allowTruncated <;> simp [htr]

end Log

/-! ## The whole file -/

/-- Pieces of a byte each at least: a fuel bound. -/
lemma length_le_length_flatten_map {α : Type} (l : List α) {f : α → List UInt8}
    (hf : ∀ x, f x ≠ []) : l.length ≤ ((l.map f).flatten).length := by
  induction l with
  | nil => simp
  | cons x l ih =>
    have hx : 0 < (f x).length := List.length_pos_of_ne_nil (hf x)
    simp only [List.map_cons, List.flatten_cons, List.length_append, List.length_cons]
    omega

lemma marshalCBOR_ne_nil (e : Entry) : e.marshalCBOR ≠ [] := by
  simp [Entry.marshalCBOR]

/-- **`ReadBackup` of a backup**: the base's pairs are called back, the checksum matches, and
the log is read from what follows. -/
theorem readBackup_backup_append (hhash : ∀ bs, (hash bs).length = 32) (allowTruncated : Bool)
    (pairs : List (List UInt8 × List UInt8))
    (hmax : ∀ p ∈ pairs, p.1.length ≤ 2 ^ 40 ∧ p.2.length ≤ 2 ^ 40) (log : List UInt8) :
    readBackup hash clean allowTruncated (backup hash pairs ++ log) =
      readLog clean allowTruncated (backup hash pairs ++ log).length log
        (pairs.map fun p => (newKey clean p.1, p.2, false)) := by
  set body : List UInt8 := [0x9f] ++ (pairs.map pairBytes).flatten ++ [0xff] with hbody
  set ck := writeHeader majByteString (hash body).length ++ hash body with hck
  have hin : backup hash pairs ++ log = 0x82 :: (body ++ (ck ++ log)) := by
    simp [backup, writeHeader_array_two, hbody, hck]
  obtain ⟨m, hm⟩ : ∃ m, (backup hash pairs ++ log).length = m + 1 + pairs.length := by
    have := length_le_length_flatten_map pairs (f := pairBytes)
      (fun p => by simp [pairBytes, writeHeader_array_two])
    refine ⟨(backup hash pairs ++ log).length - 1 - pairs.length, ?_⟩
    rw [hin]
    simp only [hbody, List.length_cons, List.length_append]
    omega
  -- the tee has seen the body, and the checksum after it is the body's
  have htee : (body ++ (ck ++ log)).take ((body ++ (ck ++ log)).length - (ck ++ log).length) =
      body := by simp
  have hsum : readByteArray 32 (ck ++ log) = .ok (hash body, log) := by
    have h := (reads_readByteArray (hash body) (by rw [hhash]) (by rw [hhash]; decide)).exact log
    rwa [← hck] at h
  have hr : body ++ (ck ++ log) = 0x9f :: ((pairs.map pairBytes).flatten ++ 0xff :: (ck ++ log)) := by
    simp [hbody]
  rw [hr] at htee
  rw [readBackup, hm, hin, hr]
  simp only [readByte, ne_eq, not_true_eq_false, if_false]
  rw [readPairs_pairs pairs hmax m (ck ++ log) []]
  simp only [hsum, htee, not_true_eq_false, if_false, List.nil_append]

/-- The file's length is fuel for the log loop: the backup, and each entry, are a byte at
least. -/
lemma exists_length_eq_fuel (pairs : List (List UInt8 × List UInt8)) (entries : List Entry)
    (rest : List UInt8) :
    ∃ m, (backup hash pairs ++ ((entries.map Entry.marshalCBOR).flatten ++ rest)).length =
      m + 1 + entries.length := by
  have hf := length_le_length_flatten_map entries marshalCBOR_ne_nil
  have hb : 0 < (backup hash pairs).length := by simp [backup]
  refine ⟨(backup hash pairs).length - 1 + rest.length +
    ((entries.map Entry.marshalCBOR).flatten.length - entries.length), ?_⟩
  simp only [List.length_append]
  omega

section Roundtrip

variable (hhash : ∀ bs, (hash bs).length = 32) (allowTruncated : Bool)
  (pairs : List (List UInt8 × List UInt8)) (entries : List Entry)
  (hbase : ∀ p ∈ pairs, p.1.length ≤ 2 ^ 40 ∧ p.2.length ≤ 2 ^ 40)
  (hlen : ∀ e ∈ entries, e.key.length < 2 ^ 64 ∧ e.value.length < 2 ^ 64)

include hhash hbase hlen

/-- **A backup and its log are read back**: the base's pairs, then the entries, and the log
ends clean. -/
theorem readBackup_backup_entries :
    readBackup hash clean allowTruncated
        (backup hash pairs ++ (entries.map Entry.marshalCBOR).flatten) =
      ((pairs.map fun p => (newKey clean p.1, p.2, false)) ++
        entries.map (fun e => (newKey clean e.key, e.value, true)), .ok true) := by
  obtain ⟨m, hm⟩ := @exists_length_eq_fuel hash pairs entries []
  have h := @readLog_entries clean allowTruncated entries hlen (m + 1) []
    (pairs.map fun p => (newKey clean p.1, p.2, false))
  rw [List.append_nil] at h hm
  rw [readBackup_backup_append hhash allowTruncated pairs hbase, hm, h, readLog_nil]

/-- **A log cut inside an entry is seen**: the entries before the cut are read back, and the
read stops at the cut entry, with an error, or unclean under `LOTUS_ALLOW_TRUNCATED_LOG=1`. -/
theorem readBackup_backup_cut (i : ℕ) (hi : i < entries.length) {j : ℕ} (hj0 : 0 < j)
    (hj : j < entries[i].marshalCBOR.length) :
    ∃ err : ReadError, err.truncated ∧
      readBackup hash clean allowTruncated (backup hash pairs ++
          ((entries.take i).map Entry.marshalCBOR).flatten ++ entries[i].marshalCBOR.take j) =
        ((pairs.map fun p => (newKey clean p.1, p.2, false)) ++
            (entries.take i).map (fun e => (newKey clean e.key, e.value, true)),
          if allowTruncated then .ok false else .error
            ("log entry potentially truncated, set LOTUS_ALLOW_TRUNCATED_LOG=1 to proceed: " ++
              err.toString)) := by
  have htake : ∀ e ∈ entries.take i, e.key.length < 2 ^ 64 ∧ e.value.length < 2 ^ 64 :=
    fun e he => hlen e (List.mem_of_mem_take he)
  obtain ⟨hk, hv⟩ := hlen entries[i] (List.getElem_mem hi)
  obtain ⟨m, hm⟩ := @exists_length_eq_fuel hash pairs (entries.take i)
    (entries[i].marshalCBOR.take j)
  obtain ⟨err, htr, herr⟩ := @readLog_truncated clean allowTruncated m entries[i] hk hv j
    hj0 hj ((pairs.map fun p => (newKey clean p.1, p.2, false)) ++
      (entries.take i).map fun e => (newKey clean e.key, e.value, true))
  refine ⟨err, htr, ?_⟩
  rw [List.append_assoc, readBackup_backup_append hhash allowTruncated pairs hbase, hm,
    readLog_entries allowTruncated (entries.take i) htake, herr]

end Roundtrip

/-- **The backup file round-trips.**  `ReadBackup` of a backup of pairs with canonical keys,
followed by a log of entries, calls back the pairs in order, then the entries in order with their
keys as `NewKey` gives them, and returns that the log was clean.  Cut inside an entry, the file
gives the same calls up to that entry and then an error, or under `LOTUS_ALLOW_TRUNCATED_LOG=1`
no error but an unclean log. -/
theorem readBackup_roundTrip (hhash : ∀ bs, (hash bs).length = 32) (allowTruncated : Bool)
    (pairs : List (List UInt8 × List UInt8)) (entries : List Entry)
    (hcanon : ∀ p ∈ pairs, newKey clean p.1 = p.1)
    (hbase : ∀ p ∈ pairs, p.1.length ≤ 2 ^ 40 ∧ p.2.length ≤ 2 ^ 40)
    (hlen : ∀ e ∈ entries, e.key.length < 2 ^ 64 ∧ e.value.length < 2 ^ 64) :
    readBackup hash clean allowTruncated
        (backup hash pairs ++ (entries.map Entry.marshalCBOR).flatten) =
      (pairs.map (fun p => (p.1, p.2, false)) ++
        entries.map (fun e => (newKey clean e.key, e.value, true)), .ok true) ∧
    ∀ i (hi : i < entries.length) j, 0 < j → j < entries[i].marshalCBOR.length →
      ∃ err : ReadError, err.truncated ∧
        readBackup hash clean allowTruncated (backup hash pairs ++
            ((entries.take i).map Entry.marshalCBOR).flatten ++ entries[i].marshalCBOR.take j) =
          (pairs.map (fun p => (p.1, p.2, false)) ++
              (entries.take i).map (fun e => (newKey clean e.key, e.value, true)),
            if allowTruncated then .ok false else .error
              ("log entry potentially truncated, set LOTUS_ALLOW_TRUNCATED_LOG=1 to proceed: " ++
                err.toString)) := by
  -- `NewKey` keeps the base's canonical keys
  have hcalls : pairs.map (fun p => (newKey clean p.1, p.2, false)) =
      pairs.map (fun p => (p.1, p.2, false)) :=
    List.map_congr_left fun p hp => by rw [hcanon p hp]
  refine ⟨?_, fun i hi j hj0 hj => ?_⟩
  · rw [readBackup_backup_entries hhash allowTruncated pairs entries hbase hlen, hcalls]
  · rw [← hcalls]
    exact readBackup_backup_cut hhash allowTruncated pairs entries hbase hlen i hi hj0 hj

/-- A sum of 32 zero bytes. -/
def zeroSum (_ : List UInt8) : List UInt8 := List.replicate 32 0

theorem readBackup_roundTrip_one :
    let pairs : List (List UInt8 × List UInt8) := [([47, 97], [1])]
    let entries : List Entry := [⟨[47, 98], [2], -1⟩]
    readBackup zeroSum id false (backup zeroSum pairs ++ (entries.map Entry.marshalCBOR).flatten) =
      (pairs.map (fun p => (p.1, p.2, false)) ++
        entries.map (fun e => (newKey id e.key, e.value, true)), .ok true) ∧
    ∀ i (hi : i < entries.length) j, 0 < j → j < entries[i].marshalCBOR.length →
      ∃ err : ReadError, err.truncated ∧
        readBackup zeroSum id false (backup zeroSum pairs ++
            ((entries.take i).map Entry.marshalCBOR).flatten ++ entries[i].marshalCBOR.take j) =
          (pairs.map (fun p => (p.1, p.2, false)) ++
              (entries.take i).map (fun e => (newKey id e.key, e.value, true)),
            .error ("log entry potentially truncated, set LOTUS_ALLOW_TRUNCATED_LOG=1 to proceed: " ++
              err.toString)) :=
  @readBackup_roundTrip zeroSum id (fun _ => rfl) false _ _ (by decide) (by decide) (by decide)

/-- A log entry under the empty key. -/
def emptyKeyEntry : Entry := ⟨[], [1], 0⟩

/-- An entry under the empty key is called back under `/`. -/
theorem readBackup_emptyKey :
    emptyKeyEntry.key = [] ∧
      readBackup zeroSum id false (backup zeroSum [] ++ emptyKeyEntry.marshalCBOR) =
        ([([47], [1], true)], .ok true) :=
  ⟨rfl, rfl⟩

/-- **The file written for a log restores that log's replay** (`Lotus.Backupds.restoreInto`),
whatever the entries' timestamps, when its keys are canonical. -/
theorem restoreInto_logfile (hhash : ∀ bs, (hash bs).length = 32) (allowTruncated : Bool)
    (l : Logfile (List UInt8) (List UInt8)) (entries : List Entry)
    (hentries : entries.map (fun e => (⟨e.key, e.value⟩ : Σ _ : List UInt8, List UInt8)) =
      l.entries)
    (hcanon : ∀ e ∈ l.base ++ l.entries, newKey clean e.1 = e.1)
    (hbase : ∀ e ∈ l.base, e.1.length ≤ 2 ^ 40 ∧ e.2.length ≤ 2 ^ 40)
    (hlen : ∀ e ∈ entries, e.key.length < 2 ^ 64 ∧ e.value.length < 2 ^ 64) :
    restoreInto hash clean allowTruncated
        (backup hash (l.base.map fun e => (e.1, e.2)) ++ (entries.map Entry.marshalCBOR).flatten) =
      .ok (Backupds.restoreInto l) := by
  have hb : ∀ p ∈ l.base.map (fun e => (e.1, e.2)), p.1.length ≤ 2 ^ 40 ∧ p.2.length ≤ 2 ^ 40 := by
    intro p hp
    obtain ⟨e, he, rfl⟩ := List.mem_map.1 hp
    exact hbase e he
  -- the calls, as records, are the base and then the entries
  have hbase' : l.base.map (fun e => (⟨newKey clean e.1, e.2⟩ : Σ _ : List UInt8, List UInt8)) =
      l.base := by
    conv_rhs => rw [← List.map_id l.base]
    exact List.map_congr_left fun e he => by rw [hcanon e (List.mem_append_left _ he)]; rfl
  have hlog : entries.map (fun e => (⟨newKey clean e.key, e.value⟩ : Σ _ : List UInt8, List UInt8))
      = l.entries := by
    rw [← hentries]
    refine List.map_congr_left fun e he => ?_
    have hk := hcanon ⟨e.key, e.value⟩ (List.mem_append_right _ (hentries ▸ List.mem_map_of_mem he))
    rw [hk]
  rw [restoreInto, readBackup_backup_entries hhash allowTruncated _ entries hb hlen]
  conv_rhs => rw [Backupds.restoreInto, ← hbase', ← hlog]
  simp [List.foldl_map]

/-- A log with one base value and one entry, whose timestamp is negative. -/
theorem restoreInto_logfile_one :
    restoreInto zeroSum id false (backup zeroSum [([47, 97], [1])] ++
        (([⟨[47, 98], [2], -1⟩] : List Entry).map Entry.marshalCBOR).flatten) =
      .ok (Backupds.restoreInto ⟨[⟨[47, 97], [1]⟩], [⟨[47, 98], [2]⟩]⟩) :=
  @restoreInto_logfile zeroSum id (fun _ => rfl) false ⟨[⟨[47, 97], [1]⟩], [⟨[47, 98], [2]⟩]⟩
    [⟨[47, 98], [2], -1⟩] rfl (by decide) (by decide) (by decide)

end Format

end Wire

end Backupds

end Lotus
