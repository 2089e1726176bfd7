import Mathlib.Data.UInt
import OhMySockets.Memory
import OhMySockets.Strtoul
import OhMySockets.WhileLoop

/-! # Reading numbers from a CSV file

`helper_read_int16_from_csv_file` and `helper_cycle_read_from_csv_file` of
`common/helper/helper.c`.  The reader collects the digits of one number, after an optional minus
sign, in a scratch array of six bytes and converts them with `strtoul`; at the end of the file it
rewinds.  The array is memory from address 0 on: writes behind its end and a string without a
terminator reach the bytes behind it, which may hold anything.  Where a compiler puts the locals `c`
and `i` behind the array, the digits of a number longer than the array hit them as well; that is not
modelled, so a result about the value read or the loop needs numbers of at most six bytes.

* `firstNumber`, `nextNumber`: the number that stands next in the file, described without the loop;
* `firstNumber_numeral`: an integer at the start is the next number;
* `nextNumber_append`: the next number is a part of the file. -/

namespace OhMySockets

open ByteMemory Decimal WhileLoop

/-- `MAX_ASCII_CHARS_COUNT_IN_INT32_VALUE`: the size of the scratch array. -/
abbrev maxAsciiCharsCountInInt32Value : ℕ := 6

/-- The test of the loop: a digit anywhere, a minus sign at index 0. -/
def isNumberByte (i : ℕ) (c : UInt8) : Bool := isDigit c || (c = 45 && i = 0)

/-- The variables of the scanning loop, with the indices written to so far.  The index `i` has no bound
here: the `int` of the source overflows only far behind the array. -/
structure Scan where
  pos : ℕ
  i : ℕ
  asciiInt16 : Mem
  writes : List ℕ

/-- One turn of the scanning loop.  A write at index 6 or later changes the string only, not the
locals that a compiler may have put there. -/
def scanTurn (content : List UInt8) (s : Scan) : Turn Scan Scan :=
  match content[s.pos]? with
  | some c =>
      if isNumberByte s.i c then
        .again ⟨s.pos + 1, s.i + 1, Function.update s.asciiInt16 s.i c, s.writes ++ [s.i]⟩
      else if s.i ≠ 0 then .leave { s with pos := s.pos + 1 }
      else .again { s with pos := s.pos + 1 }
  | none =>
      -- `EOF` is not a number byte either
      if s.i ≠ 0 then .leave { s with pos := 0 } else .again { s with pos := 0 }

/-- The scratch array after `bzero`, with the bytes `behind` it. -/
def scratch (behind : List UInt8) : Mem := writeBytes (fun _ => 0) maxAsciiCharsCountInInt32Value behind

/-- The string at address 0, which ends before address `bound`. -/
def cString (m : Mem) (bound : ℕ) : List UInt8 := (bytesAt m 0 bound).takeWhile (· ≠ 0)

/-- A file, and the bytes that each call finds behind its scratch array. -/
structure CsvFile where
  content : List UInt8
  behind : ℕ → List UInt8

/-- The position in the file, `errno`, and the number of calls so far. -/
structure FileState where
  pos : ℕ
  errno : ℤ
  calls : ℕ

/-- What a call returns, what it stores in `*buffer`, and the state it leaves. -/
structure ReadResult where
  status : UInt32
  stored : Option Int16
  state : FileState

/-- The second half of `helper_read_int16_from_csv_file`: the conversion of the string. -/
def convert (str : List UInt8) (s : FileState) : ReadResult :=
  let result := strtoul str s.errno
  let value := result.1.toUInt16.toInt16
  let state := { s with errno := result.2 }
  if errnoFails result.2 then ⟨1, none, state⟩ else ⟨0, some value, state⟩

/-- The variables at the start of the loop. -/
def scanStart (behind : List UInt8) (pos : ℕ) : Scan := ⟨pos, 0, scratch behind, []⟩

/-- `helper_read_int16_from_csv_file`, with fuel for the loop. -/
def helperReadInt16FromCsvFile (F : CsvFile) (fuel : ℕ) (s : FileState) : Option ReadResult :=
  let behind := F.behind s.calls
  -- the memory is zero from the bound on, so the string ends before it
  (run (scanTurn F.content) fuel (scanStart behind s.pos)).map fun t =>
    convert (cString t.asciiInt16 (t.i + (behind.length + maxAsciiCharsCountInInt32Value)))
      ⟨t.pos, s.errno, s.calls + 1⟩

/-- What a call returns, the values it stores from `buffer` on, and the state it leaves. -/
structure CycleResult where
  status : UInt32
  stored : List Int16
  state : FileState

/-- The loop of `helper_cycle_read_from_csv_file` for `count` elements. -/
def readElements (F : CsvFile) (fuel : ℕ) : ℕ → FileState → Option CycleResult
  | 0, s => some ⟨0, [], s⟩
  | count + 1, s =>
      (helperReadInt16FromCsvFile F fuel s).bind fun r =>
        if r.status ≠ 0 then some ⟨1, [], r.state⟩
        else (readElements F fuel count r.state).map fun rest =>
          { rest with stored := r.stored.toList ++ rest.stored }

/-- `helper_cycle_read_from_csv_file`, with fuel for each scanning loop. -/
def helperCycleReadFromCsvFile (F : CsvFile) (size : UInt32) (fuel : ℕ) (s : FileState) : Option CycleResult :=
  if size % 2 ≠ 0 then some ⟨1, [], s⟩ else readElements F fuel (size / 2).toNat s

/-! ### The number that the loop finds -/

/-- The first number in a byte string, and the bytes behind it. -/
def firstNumber : List UInt8 → Option (List UInt8 × List UInt8)
  | [] => none
  | b :: bs =>
      if isNumberByte 0 b then some (b :: bs.takeWhile isDigit, bs.dropWhile isDigit) else firstNumber bs

/-- The number found from a position on, if need be after the end of the file. -/
def nextNumber (content : List UInt8) (pos : ℕ) : Option (List UInt8 × List UInt8) :=
  (firstNumber (content.drop pos)).or (firstNumber content)

/-- The position behind a number: the byte after it is gone, or the end of the file has rewound it. -/
def posAfter (content rest : List UInt8) : ℕ :=
  if rest = [] then 0 else content.length - rest.length + 1

section numbers

variable {content tok rest u : List UInt8} {pos : ℕ}

theorem isNumberByte_of_isDigit {b : UInt8} (h : isDigit b = true) (i : ℕ) : isNumberByte i b = true := by
  unfold isNumberByte
  rw [h, Bool.true_or]

theorem isNumberByte_of_ne_zero {i : ℕ} (hi : i ≠ 0) (b : UInt8) : isNumberByte i b = isDigit b := by
  unfold isNumberByte
  simp [hi]

theorem isNumberByte_ne_zero {b : UInt8} (h : isNumberByte 0 b = true) : b ≠ 0 := by
  rintro rfl
  cases h

theorem firstNumber_eq_none : firstNumber u = none ↔ ∀ b ∈ u, isNumberByte 0 b = false := by
  induction u with
  | nil => simp [firstNumber]
  | cons b bs ih =>
      unfold firstNumber
      cases hb : isNumberByte 0 b with
      | true => simp [hb]
      | false => simp [hb, ih]

theorem nextNumber_eq_none : nextNumber content pos = none ↔ ∀ b ∈ content, isNumberByte 0 b = false := by
  unfold nextNumber
  rw [Option.or_eq_none_iff, firstNumber_eq_none, firstNumber_eq_none]
  exact ⟨fun h => h.2, fun h => ⟨fun b hb => h b (List.mem_of_mem_drop hb), h⟩⟩

theorem isNumberByte_of_mem_first (h : firstNumber u = some (tok, rest)) :
    ∀ b ∈ tok, isNumberByte 0 b = true := by
  induction u with
  | nil => cases h
  | cons c cs ih =>
      unfold firstNumber at h
      by_cases hc : isNumberByte 0 c = true
      · rw [if_pos hc] at h
        cases h
        intro b hb
        rcases List.mem_cons.mp hb with rfl | hb
        · exact hc
        · exact isNumberByte_of_isDigit (List.mem_takeWhile_imp hb) 0
      · rw [if_neg hc] at h
        exact ih h

theorem isNumberByte_of_mem_next (h : nextNumber content pos = some (tok, rest)) :
    ∀ b ∈ tok, isNumberByte 0 b = true := by
  rcases Option.or_eq_some_iff.mp h with hfirst | ⟨_, hfirst⟩
  · exact isNumberByte_of_mem_first hfirst
  · exact isNumberByte_of_mem_first hfirst

theorem firstNumber_append (h : firstNumber u = some (tok, rest)) :
    ∃ skipped, u = skipped ++ (tok ++ rest) := by
  induction u with
  | nil => cases h
  | cons b bs ih =>
      unfold firstNumber at h
      split_ifs at h
      · cases h
        exact ⟨[], by rw [List.nil_append, List.cons_append, List.takeWhile_append_dropWhile]⟩
      · obtain ⟨skipped, hbs⟩ := ih h
        exact ⟨b :: skipped, by rw [List.cons_append, ← hbs]⟩

theorem nextNumber_append (h : nextNumber content pos = some (tok, rest)) :
    ∃ skipped, content = skipped ++ (tok ++ rest) := by
  rcases Option.or_eq_some_iff.mp h with hfirst | ⟨_, hfirst⟩
  · obtain ⟨skipped, hdrop⟩ := firstNumber_append hfirst
    exact ⟨content.take pos ++ skipped, by rw [List.append_assoc, ← hdrop, List.take_append_drop]⟩
  · exact firstNumber_append hfirst

theorem firstNumber_cons {b : UInt8} {ds : List UInt8} (hb : isNumberByte 0 b = true)
    (hds : ∀ c ∈ ds, isDigit c = true) (hrest : ∀ c ∈ rest.head?, isDigit c = false) :
    firstNumber (b :: (ds ++ rest)) = some (b :: ds, rest) := by
  unfold firstNumber
  rw [if_pos hb, takeWhile_digits hds hrest, dropWhile_digits hds hrest]

/-- An integer at the start of a byte string is the first number. -/
theorem firstNumber_numeral {v : ℤ} (h : Numeral tok v) (hrest : ∀ b ∈ rest.head?, isDigit b = false) :
    firstNumber (tok ++ rest) = some (tok, rest) := by
  cases h with
  | pos hne hds =>
      cases tok with
      | nil => exact absurd rfl hne
      | cons d ds =>
          exact firstNumber_cons (isNumberByte_of_isDigit (hds d List.mem_cons_self) 0)
            (fun b hb => hds b (List.mem_cons_of_mem d hb)) hrest
  | neg hne hds => exact firstNumber_cons rfl hds hrest

end numbers

end OhMySockets
