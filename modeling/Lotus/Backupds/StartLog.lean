import Mathlib
import Lotus.Lib.Decimal
import Lotus.Lib.Filepath

/-!
# Choosing the log file at start (`lib/backupds/log.go`, `startLog`)

`startLog` lists the log directory, sorted by name as `ioutil.ReadDir` returns it, and opens
the name ending in `.log.cbor` with the greatest timestamp, or creates a new log when there is
none; `openLog` then checks that the datastore's log head names the file it opens.  The
timestamp is parsed from `fn[:len(".log.cbor")]`, the first nine characters of the name, not
from the name without its suffix.  Names are ASCII, so characters are bytes.

**What is chosen.**  The loop keeps the first name whose timestamp is greater than those before
it and than `0`, which is `List.argmax` of the timestamps.  Nine characters are all the digits of
a nine-digit timestamp; a ten-digit one, every unix second since September 2001, loses its last
digit (`take_logName`), so the loop compares timestamps divided by ten (`startLogLoop_tenDigits`).
Of the logs of the latest ten seconds it opens the first listed, the oldest
(`startLog_tenDigits`), though the log head names the newest, and `openLog` refuses it
(`startLog_opens_older`).
-/

namespace Lotus

namespace Backupds

open Decimal

/-- `".log.cbor"`. -/
def logExt : List Char := ".log.cbor".toList

/-- The name `createLog` gives the log it makes at unix second `now`:
`strconv.FormatInt(now, 10)+".log.cbor"`. -/
def logName (now : ℤ) : List Char :=
  intString now ++ logExt

/-- One round of the loop of `startLog`, on the name `fn`: the latest name and timestamp so far
are kept, unless `fn` ends in `.log.cbor` and its first `len(".log.cbor")` characters parse to
a greater timestamp. -/
def startLogStep (acc : List Char × ℤ) (fn : List Char) : Except String (List Char × ℤ) :=
  if !logExt.isSuffixOf fn then .ok acc
  else match parseInt64 (fn.take logExt.length) with
    | .error e => .error ("parsing logfile as a number: " ++ e)
    | .ok sec => .ok (if sec > acc.2 then (fn, sec) else acc)

/-- The loop of `startLog` over the names in `ioutil.ReadDir`'s order, from no name and the
timestamp `0`. -/
def startLogLoop (files : List (List Char)) : Except String (List Char × ℤ) :=
  files.foldlM startLogStep ([], 0)

/-- What `startLog` goes on to do. -/
inductive LogStart
  /-- `createLog`: no log was found. -/
  | create
  /-- `openLog` of the chosen name. -/
  | open (name : List Char)
  deriving DecidableEq

/-- `startLog`, up to the log it creates or opens. -/
def startLog (files : List (List Char)) : Except String LogStart :=
  (startLogLoop files).map fun acc => if acc.1 = [] then .create else .open acc.1

/-- The log head `writeLogHead` writes: `fmt.Sprintf("%s;%s;%d", logname, uuid, now)`. -/
def logHeadValue (logname uuid : List Char) (now : ℤ) : List Char :=
  logname ++ ';' :: (uuid ++ ';' :: intString now)

/-- The log head check of `openLog(p)`, which `startLog` calls with
`p = filepath.Join(logdir, name)`: the head has three parts, and the first is `filepath.Base(p)`. -/
def checkLogHead (lh p : List Char) : Except String Unit :=
  let lhp := lh.splitOn ';'
  if lhp.length ≠ 3 then .error "expected loghead to have 3 parts"
  else if lhp.headD [] ≠ Filepath.base p then
    .error ("loghead log file doesn't match, opening " ++ String.ofList p ++
      ", expected " ++ String.ofList (lhp.headD []))
  else .ok ()

/-! ## Ten-digit names -/

lemma intString_natCast (t : ℕ) : intString t = Nat.toDigits 10 t := by
  simp [intString]

lemma isSuffixOf_logName (now : ℤ) : logExt.isSuffixOf (logName now) = true :=
  List.isSuffixOf_iff_suffix.mpr (List.suffix_append _ _)

/-- A ten-digit number's digits: the first nine, which are its tenth, and the last. -/
lemma toDigits_tenDigits {t : ℕ} (hlo : 10 ^ 9 ≤ t) (hhi : t < 10 ^ 10) :
    Nat.toDigits 10 t = Nat.toDigits 10 (t / 10) ++ [Nat.digitChar (t % 10)] ∧
      (Nat.toDigits 10 (t / 10)).length = 9 := by
  refine ⟨Nat.toDigits_of_base_le (by decide) (by omega), ?_⟩
  have hle : (Nat.toDigits 10 (t / 10)).length ≤ 9 :=
    (Nat.length_toDigits_le_iff (by decide) (by decide)).mpr (by omega)
  have hgt : ¬(Nat.toDigits 10 (t / 10)).length ≤ 8 :=
    fun h => absurd ((Nat.length_toDigits_le_iff (by decide) (by decide)).mp h) (by omega)
  omega

/-- **The first nine characters of a ten-digit log name are its timestamp over ten.** -/
lemma take_logName {t : ℕ} (hlo : 10 ^ 9 ≤ t) (hhi : t < 10 ^ 10) :
    (logName t).take logExt.length = Nat.toDigits 10 (t / 10) := by
  obtain ⟨hdigits, hlen⟩ := toDigits_tenDigits hlo hhi
  rw [logName, intString_natCast, hdigits, List.append_assoc]
  exact List.take_left' hlen

/-- So a round of the loop reads a ten-digit log name as its timestamp over ten. -/
lemma startLogStep_logName (acc : List Char × ℤ) {t : ℕ} (hlo : 10 ^ 9 ≤ t) (hhi : t < 10 ^ 10) :
    startLogStep acc (logName t) =
      .ok (if ((t / 10 : ℕ) : ℤ) > acc.2 then (logName t, ((t / 10 : ℕ) : ℤ)) else acc) := by
  rw [startLogStep, isSuffixOf_logName, take_logName hlo hhi, parseInt64_toDigits (by omega)]
  rfl

lemma except_ok_bind {ε α β : Type} (a : α) (f : α → Except ε β) : (Except.ok a >>= f) = f a :=
  rfl

/-- **The loop picks the first name of greatest timestamp over ten**, `List.argmax` of it. -/
theorem startLogLoop_tenDigits (stamps : List ℕ) (h : ∀ t ∈ stamps, 10 ^ 9 ≤ t ∧ t < 10 ^ 10) :
    startLogLoop (stamps.map fun t : ℕ => logName (t : ℤ)) =
      .ok ((stamps.argmax (· / 10)).elim ([], 0) fun t => (logName t, ((t / 10 : ℕ) : ℤ))) := by
  induction stamps using List.reverseRecOn with
  | nil => rfl
  | append_singleton l t ih =>
    obtain ⟨hlo, hhi⟩ := h t (by simp)
    rw [List.map_append, startLogLoop, List.foldlM_append, ← startLogLoop,
      ih (fun u hu => h u (by simp [hu])), List.argmax_concat]
    cases hm : l.argmax (· / 10) with
    | none =>
      -- the first ten-digit name is greater than the initial `0`
      simp [startLogStep_logName _ hlo hhi, except_ok_bind, show (0 : ℤ) < (t : ℤ) / 10 by omega]
    | some c =>
      simp only [Option.elim, List.map_cons, List.map_nil, List.foldlM_cons, List.foldlM_nil,
        except_ok_bind, startLogStep_logName _ hlo hhi, bind_pure]
      -- the new name is taken exactly when its tenth is greater
      have hcast : ((c / 10 : ℕ) : ℤ) < ((t / 10 : ℕ) : ℤ) ↔ c / 10 < t / 10 := Int.ofNat_lt
      by_cases hlt : c / 10 < t / 10
      · rw [if_pos (hcast.mpr hlt), if_pos hlt]
      · rw [if_neg (mt hcast.mp hlt), if_neg hlt]

lemma logName_ne_nil (now : ℤ) : logName now ≠ [] :=
  List.append_ne_nil_of_right_ne_nil _ (by decide)

/-- **Of ten-digit logs, `startLog` opens the first listed of the latest ten seconds**: no
log's timestamp over ten is greater, and every log of the same ten seconds is listed after it.
The listing is by name, so that is the oldest of them. -/
theorem startLog_tenDigits (stamps : List ℕ) (h : ∀ t ∈ stamps, 10 ^ 9 ≤ t ∧ t < 10 ^ 10)
    (hne : stamps ≠ []) :
    ∃ t ∈ stamps, startLog (stamps.map fun t : ℕ => logName (t : ℤ)) = .ok (.open (logName t)) ∧
      (∀ u ∈ stamps, u / 10 ≤ t / 10) ∧
      ∀ u ∈ stamps, u / 10 = t / 10 → stamps.idxOf t ≤ stamps.idxOf u := by
  obtain ⟨t, ht⟩ : ∃ t, stamps.argmax (· / 10) = some t :=
    Option.ne_none_iff_exists'.mp (mt List.argmax_eq_none.mp hne)
  obtain ⟨hmem, hmax, hfirst⟩ := List.argmax_eq_some_iff.mp ht
  refine ⟨t, hmem, ?_, hmax, fun u hu hut => hfirst u hu hut.ge⟩
  rw [startLog, startLogLoop_tenDigits stamps h, ht]
  simp [Except.map, logName_ne_nil]

/-- Logs of February 2021, the second and the third of the same ten seconds. -/
theorem startLog_tenDigits_feb2021 :
    let stamps : List ℕ := [1613999990, 1614000001, 1614000005]
    ∃ t ∈ stamps, startLog (stamps.map fun t : ℕ => logName (t : ℤ)) = .ok (.open (logName t)) ∧
      (∀ u ∈ stamps, u / 10 ≤ t / 10) ∧
      ∀ u ∈ stamps, u / 10 = t / 10 → stamps.idxOf t ≤ stamps.idxOf u :=
  startLog_tenDigits _ (by simp) (List.cons_ne_nil _ _)

/-! ## Two logs of the same ten seconds -/

/-- A number's text holds digits and its sign only. -/
lemma not_mem_intString {c : Char} (hd : c.isDigit = false) (hm : c ≠ '-') (now : ℤ) :
    c ∉ intString now := by
  intro h
  rw [intString, List.mem_append] at h
  rcases h with h | h
  · split_ifs at h
    · exact hm (List.mem_singleton.mp h)
    · simp at h
  · exact absurd (Nat.isDigit_of_mem_toDigits (by decide) (by decide) h) (by simp [hd])

lemma semicolon_not_mem_logName (now : ℤ) : ';' ∉ logName now := by
  rw [logName, List.mem_append, not_or]
  exact ⟨not_mem_intString (by decide) (by decide) now, by decide⟩

/-- A log's name is a plain file name, the base of its path in any directory. -/
lemma isName_logName (now : ℤ) : Filepath.IsName (logName now) := by
  have hslash : '/' ∉ logName now := by
    rw [logName, List.mem_append, not_or]
    exact ⟨not_mem_intString (by decide) (by decide) now, by decide⟩
  -- the name ends in `.log.cbor`, nine characters
  have hlen : 9 ≤ (logName now).length := by
    rw [logName, List.length_append, show logExt.length = 9 by decide]
    omega
  refine ⟨fun h => ?_, fun h => ?_, fun h => ?_, hslash⟩ <;> rw [h] at hlen <;> simp at hlen

/-- The log head's three parts, when the uuid has no `;`. -/
lemma splitOn_logHeadValue (logname uuid : List Char) (now : ℤ) (hn : ';' ∉ logname)
    (hu : ';' ∉ uuid) :
    (logHeadValue logname uuid now).splitOn ';' = [logname, uuid, intString now] := by
  rw [logHeadValue, List.splitOn_append_cons_self_of_not_mem hn,
    List.splitOn_append_cons_self_of_not_mem hu,
    List.splitOn_eq_singleton (not_mem_intString (by decide) (by decide) now)]

lemma digitChar_lt_digitChar {i j : ℕ} (hij : i < j) (hj : j < 10) :
    Nat.digitChar i < Nat.digitChar j := by
  have h : ∀ i j : Fin 10, i < j → Nat.digitChar i < Nat.digitChar j := by decide
  exact h ⟨i, by omega⟩ ⟨j, hj⟩ hij

/-- Two logs of the same ten seconds are listed by name in the order of their timestamps. -/
lemma logName_lt_logName {a b : ℕ} (ha : 10 ^ 9 ≤ a) (hab : a < b) (hb : b < 10 ^ 10)
    (hten : a / 10 = b / 10) : logName a < logName b := by
  obtain ⟨hda, -⟩ := toDigits_tenDigits ha (by omega)
  obtain ⟨hdb, -⟩ := toDigits_tenDigits (by omega) hb
  rw [logName, logName, intString_natCast, intString_natCast, hda, hdb, hten, List.append_assoc,
    List.append_assoc, List.singleton_append, List.singleton_append]
  -- the same first nine digits, then a smaller last one
  exact List.append_left_lt
    (List.Lex.rel (digitChar_lt_digitChar (by omega) (Nat.mod_lt _ (by decide))))

/-- **Two logs made in the same ten seconds: `startLog` opens the older.**  Listed by name, the
older comes first, and both names parse to the same first nine digits, so the older is kept;
the log head, written when the newer was made, names the newer, and `openLog` refuses the
file. -/
theorem startLog_opens_older {a b : ℕ} (ha : 10 ^ 9 ≤ a) (hab : a < b) (hb : b < 10 ^ 10)
    (hten : a / 10 = b / 10) (logdir uuid : List Char) (now : ℤ) (hu : ';' ∉ uuid) :
    logName a < logName b ∧ startLog [logName a, logName b] = .ok (.open (logName a)) ∧
      checkLogHead (logHeadValue (logName b) uuid now) (Filepath.join logdir (logName a)) =
        .error ("loghead log file doesn't match, opening " ++
          String.ofList (Filepath.join logdir (logName a)) ++ ", expected " ++
          String.ofList (logName b)) := by
  have hlt := logName_lt_logName ha hab hb hten
  refine ⟨hlt, ?_, ?_⟩
  · -- the older is the first of greatest timestamp over ten
    have harg : [a, b].argmax (· / 10) = some a :=
      List.argmax_eq_some_iff.mpr ⟨by simp, by simp [hten], by simp⟩
    have hloop := startLogLoop_tenDigits [a, b] (by simp; omega)
    rw [harg] at hloop
    rw [startLog, show [logName a, logName b] = [a, b].map fun t : ℕ => logName (t : ℤ) from rfl,
      hloop]
    simp [Except.map, logName_ne_nil]
  · -- the head names the newer
    have hne : logName b ≠ logName a := fun h => List.lt_irrefl (logName a) (h ▸ hlt)
    rw [checkLogHead, splitOn_logHeadValue _ _ _ (semicolon_not_mem_logName _) hu,
      Filepath.base_join logdir (isName_logName a)]
    simp [hne]

theorem startLog_opens_older_feb2021 :
    let a : ℕ := 1614000001
    let b : ℕ := 1614000005
    let logdir := "kvlog/metadata".toList
    let uuid := "6ba7b810-9dad-11d1-80b4-00c04fd430c8".toList
    logName a < logName b ∧ startLog [logName a, logName b] = .ok (.open (logName a)) ∧
      checkLogHead (logHeadValue (logName b) uuid 1614000005) (Filepath.join logdir (logName a)) =
        .error ("loghead log file doesn't match, opening " ++
          String.ofList (Filepath.join logdir (logName a)) ++ ", expected " ++
          String.ofList (logName b)) :=
  startLog_opens_older (by decide) (by decide) (by decide) (by decide) _ _ 1614000005 (by decide)

end Backupds

end Lotus
