import OhMySockets.CsvFile

/-! # The file reader

What one call of `helper_read_int16_from_csv_file` does, and what successive calls do.

* `scan_ends`: the loop finds the next number, searching on from the start of the file;
* `scan_not_ends`: it never ends when the file has neither a digit nor a minus sign;
* `read_returns`, `read_returns_scanned`: what one call returns, stores and leaves behind;
* `readElements_fail`, `readElements_succ`: the calls for the elements of a buffer. -/

namespace OhMySockets

open ByteMemory Decimal WhileLoop

/-- The variables after the loop. -/
def collected (behind tok : List UInt8) (pos : ℕ) : Scan :=
  ⟨pos, tok.length, writeBytes (scratch behind) 0 tok, List.range tok.length⟩

theorem collected_cons (behind : List UInt8) (b : UInt8) (ds : List UInt8) (pos : ℕ) :
    collected behind (b :: ds) pos = ⟨pos, 1 + ds.length, writeBytes (Function.update (scratch behind) 0 b) 1 ds,
      [0] ++ List.range' 1 ds.length⟩ := by
  unfold collected
  rw [List.length_cons, Nat.add_comm, writeBytes_update (scratch behind) 0 b, List.range_eq_range',
    Nat.add_comm 1, List.range'_succ]
  rfl

/-! ### The loop -/

section scan

variable {content behind tok rest : List UInt8} {pos : ℕ}

theorem getElem?_of_drop {b : UInt8} {bs : List UInt8} (h : content.drop pos = b :: bs) :
    content[pos]? = some b := by
  rw [← List.head?_drop, h, List.head?_cons]

theorem getElem?_of_drop_nil (h : content.drop pos = []) : content[pos]? = none := by
  rw [← List.head?_drop, h, List.head?_nil]

theorem drop_succ_of_drop {b : UInt8} {bs : List UInt8} (h : content.drop pos = b :: bs) :
    content.drop (pos + 1) = bs := by
  rw [← List.tail_drop, h, List.tail_cons]

theorem posAfter_of_drop {b : UInt8} {bs : List UInt8} (h : content.drop pos = b :: bs) :
    posAfter content (b :: bs) = pos + 1 := by
  have hlen := congrArg List.length h
  rw [List.length_drop, List.length_cons] at hlen
  unfold posAfter
  rw [if_neg (List.cons_ne_nil b bs), List.length_cons]
  omega

theorem scan_leave (hrest : ∀ b ∈ rest.head?, isDigit b = false) {s : Scan} (hi : s.i ≠ 0)
    (hdrop : content.drop s.pos = rest) :
    scanTurn content s = .leave { s with pos := posAfter content rest } := by
  unfold scanTurn
  cases rest with
  | nil =>
      rw [getElem?_of_drop_nil hdrop]
      exact if_pos hi
  | cons b bs =>
      have hb : isNumberByte s.i b = false := by rw [isNumberByte_of_ne_zero hi, hrest b rfl]
      rw [getElem?_of_drop hdrop, posAfter_of_drop hdrop]
      dsimp only
      rw [hb, if_neg Bool.false_ne_true, if_pos hi]

theorem scan_collect {s : Scan} {b : UInt8} {bs : List UInt8} (hb : isNumberByte s.i b = true)
    (hdrop : content.drop s.pos = b :: bs) :
    scanTurn content s = .again ⟨s.pos + 1, s.i + 1, Function.update s.asciiInt16 s.i b, s.writes ++ [s.i]⟩ := by
  unfold scanTurn
  rw [getElem?_of_drop hdrop]
  exact if_pos hb

/-- Behind its first byte a number goes on as long as there are digits. -/
theorem scan_digits {ds : List UInt8} (hds : ∀ b ∈ ds, isDigit b = true)
    (hrest : ∀ b ∈ rest.head?, isDigit b = false) {s : Scan} (hi : s.i ≠ 0)
    (hdrop : content.drop s.pos = ds ++ rest) :
    Ends (scanTurn content) s ⟨posAfter content rest, s.i + ds.length, writeBytes s.asciiInt16 s.i ds,
      s.writes ++ List.range' s.i ds.length⟩ := by
  induction ds generalizing s with
  | nil =>
      apply ends_of_leave
      rw [scan_leave hrest hi hdrop, writeBytes_nil, List.length_nil, List.range'_zero, List.append_nil]
      rfl
  | cons d ds ih =>
      have hd := isNumberByte_of_isDigit (hds d List.mem_cons_self) s.i
      rw [ends_iff_of_again (scan_collect hd hdrop), List.length_cons, List.range'_succ,
        ← writeBytes_update, List.append_cons s.writes s.i (List.range' (s.i + 1) ds.length),
        Nat.add_comm ds.length, ← Nat.add_assoc]
      exact ih (fun b hb => hds b (List.mem_cons_of_mem d hb)) (s := ⟨_, _, _, _⟩) (Nat.succ_ne_zero s.i)
        (drop_succ_of_drop hdrop)

theorem scan_skip {s : Scan} {b : UInt8} {bs : List UInt8} (hb : isNumberByte 0 b = false) (hi : s.i = 0)
    (hdrop : content.drop s.pos = b :: bs) : scanTurn content s = .again { s with pos := s.pos + 1 } := by
  unfold scanTurn
  rw [getElem?_of_drop hdrop]
  dsimp only
  rw [hi, hb, if_neg Bool.false_ne_true, if_neg (not_not_intro rfl)]

theorem scan_rewind {s : Scan} (hi : s.i = 0) (hdrop : content.drop s.pos = []) :
    scanTurn content s = .again { s with pos := 0 } := by
  unfold scanTurn
  rw [getElem?_of_drop_nil hdrop]
  dsimp only
  rw [hi, if_neg (not_not_intro rfl)]

theorem scan_first {u : List UInt8} (hfirst : firstNumber u = some (tok, rest))
    (hdrop : content.drop pos = u) :
    Ends (scanTurn content) (scanStart behind pos) (collected behind tok (posAfter content rest)) := by
  induction u generalizing pos with
  | nil => cases hfirst
  | cons b bs ih =>
      unfold firstNumber at hfirst
      by_cases hb : isNumberByte 0 b = true
      · rw [if_pos hb] at hfirst
        cases hfirst
        rw [ends_iff_of_again (scan_collect hb hdrop), collected_cons]
        apply scan_digits (s := ⟨_, _, _, _⟩) (fun c hc => List.mem_takeWhile_imp hc) (head?_dropWhile_digits bs)
          Nat.one_ne_zero
        rw [List.takeWhile_append_dropWhile]
        exact drop_succ_of_drop hdrop
      · rw [if_neg hb] at hfirst
        rw [ends_iff_of_again (scan_skip (Bool.eq_false_of_not_eq_true hb) rfl hdrop)]
        exact ih hfirst (drop_succ_of_drop hdrop)

theorem scan_none {u : List UInt8} (hfirst : firstNumber u = none) (hdrop : content.drop pos = u) (t : Scan) :
    Ends (scanTurn content) (scanStart behind pos) t ↔ Ends (scanTurn content) (scanStart behind 0) t := by
  induction u generalizing pos with
  | nil => rw [ends_iff_of_again (scan_rewind rfl hdrop)]; rfl
  | cons b bs ih =>
      unfold firstNumber at hfirst
      by_cases hb : isNumberByte 0 b = true
      · rw [if_pos hb] at hfirst
        cases hfirst
      · rw [if_neg hb] at hfirst
        rw [ends_iff_of_again (scan_skip (Bool.eq_false_of_not_eq_true hb) rfl hdrop)]
        exact ih hfirst (drop_succ_of_drop hdrop)

/-- The loop ends with the next number. -/
theorem scan_ends (hnext : nextNumber content pos = some (tok, rest)) (behind : List UInt8) :
    Ends (scanTurn content) (scanStart behind pos) (collected behind tok (posAfter content rest)) := by
  unfold nextNumber at hnext
  cases hfirst : firstNumber (content.drop pos) with
  | some found =>
      rw [hfirst, Option.some_or] at hnext
      exact scan_first (hfirst.trans hnext) rfl
  | none =>
      rw [hfirst, Option.none_or] at hnext
      rw [scan_none hfirst rfl]
      exact scan_first hnext (List.drop_zero)

theorem scan_again_of_none (hnext : nextNumber content pos = none) {s : Scan} (hi : s.i = 0) :
    ∃ pos', scanTurn content s = .again { s with pos := pos' } := by
  rw [nextNumber_eq_none] at hnext
  cases hdrop : content.drop s.pos with
  | nil => exact ⟨0, scan_rewind hi hdrop⟩
  | cons b bs =>
      have hmem : b ∈ content := List.mem_of_mem_drop (hdrop ▸ List.mem_cons_self)
      exact ⟨s.pos + 1, scan_skip (hnext b hmem) hi hdrop⟩

/-- Without a number in the file the loop never ends. -/
theorem scan_not_ends (hnext : nextNumber content pos = none) (behind : List UInt8) (t : Scan) :
    ¬ Ends (scanTurn content) (scanStart behind pos) t := by
  apply not_ends (I := fun s => s.i = 0)
  · intro s hi
    obtain ⟨pos', hturn⟩ := scan_again_of_none hnext hi
    exact ⟨_, hturn, hi⟩
  · rfl

end scan

/-! ### The string that the conversion reads -/

section string

variable {behind tok : List UInt8}

/-- The string: a number that leaves no room for its terminator runs on in the bytes behind the array. -/
def scanned (behind tok : List UInt8) : List UInt8 :=
  if tok.length < maxAsciiCharsCountInInt32Value then tok else tok ++ behind.takeWhile (· ≠ 0)

theorem scanned_length_le (behind tok : List UInt8) : (scanned behind tok).length ≤ tok.length + behind.length := by
  unfold scanned
  split_ifs
  · exact Nat.le_add_right _ _
  · rw [List.length_append]
    exact Nat.add_le_add_left (List.takeWhile_sublist _).length_le _

theorem bytesAt_collected (behind tok : List UInt8) (pos k : ℕ) :
    bytesAt (collected behind tok pos).asciiInt16 0 (tok.length + k) =
      tok ++ bytesAt (scratch behind) tok.length k := by
  unfold collected
  rw [bytesAt_add, bytesAt_writeBytes_self _ 0 tok rfl, Nat.zero_add,
    bytesAt_writeBytes_of_disjoint _ (Or.inr (Nat.le_of_eq (Nat.zero_add _)))]

theorem takeWhile_append_zero {bs : List UInt8} (hbs : ∀ b ∈ bs, b ≠ 0) (cs : List UInt8) :
    (bs ++ cs).takeWhile (· ≠ 0) = bs ++ cs.takeWhile (· ≠ 0) := by
  apply List.takeWhile_append_of_pos
  intro b hb
  exact decide_eq_true (hbs b hb)

theorem takeWhile_zero (bs cs : List UInt8) : (bs ++ 0 :: cs).takeWhile (· ≠ 0) = bs.takeWhile (· ≠ 0) := by
  induction bs with
  | nil => rfl
  | cons b bs ih => rw [List.cons_append, List.takeWhile_cons, List.takeWhile_cons, ih]

theorem scratch_zero {x : ℕ} (h : x < 6 ∨ 6 + behind.length ≤ x) : scratch behind x = 0 :=
  writeBytes_outside h

theorem bytesAt_scratch (behind : List UInt8) : bytesAt (scratch behind) 6 behind.length = behind :=
  bytesAt_writeBytes_self _ 6 behind rfl

/-- The number is followed by a zero byte of the array, if there is one left. -/
theorem cString_collected (htok : ∀ b ∈ tok, b ≠ 0) (hlen : tok.length ≤ 6) (pos : ℕ) :
    cString (collected behind tok pos).asciiInt16 (tok.length + (behind.length + 6)) = scanned behind tok := by
  unfold cString scanned
  rw [bytesAt_collected, takeWhile_append_zero htok]
  split_ifs with h
  · rw [bytesAt_succ, scratch_zero (Or.inl h), List.takeWhile_cons_of_neg (by decide), List.append_nil]
  · have h6 : tok.length = 6 := Nat.le_antisymm hlen (Nat.le_of_not_lt h)
    rw [h6, bytesAt_add, bytesAt_scratch, bytesAt_succ, scratch_zero (Or.inr (Nat.le_refl _)), takeWhile_zero]

end string

/-! ### One call -/

section read

variable {F : CsvFile} {s : FileState} {tok rest : List UInt8}

theorem read_returns (hnext : nextNumber F.content s.pos = some (tok, rest)) :
    Returns (fun fuel => helperReadInt16FromCsvFile F fuel s)
      (convert (cString (collected (F.behind s.calls) tok (posAfter F.content rest)).asciiInt16
        (tok.length + ((F.behind s.calls).length + maxAsciiCharsCountInInt32Value)))
        ⟨posAfter F.content rest, s.errno, s.calls + 1⟩) :=
  (returns_run (scan_ends hnext (F.behind s.calls))).map _

/-- A number of at most six bytes is converted together with what stands behind the array. -/
theorem read_returns_scanned (hnext : nextNumber F.content s.pos = some (tok, rest)) (hlen : tok.length ≤ 6) :
    Returns (fun fuel => helperReadInt16FromCsvFile F fuel s)
      (convert (scanned (F.behind s.calls) tok) ⟨posAfter F.content rest, s.errno, s.calls + 1⟩) := by
  rw [← cString_collected (fun b hb => isNumberByte_ne_zero (isNumberByte_of_mem_next hnext b hb)) hlen
    (posAfter F.content rest)]
  exact read_returns hnext

theorem read_not_returns (hnext : nextNumber F.content s.pos = none) (r : ReadResult) :
    ¬ Returns (fun fuel => helperReadInt16FromCsvFile F fuel s) r := by
  intro h
  obtain ⟨t, hends, -⟩ := ends_of_returns_map h
  exact scan_not_ends hnext _ t hends

/-- A conversion in range leaves `errno` alone, and fails on what it held before. -/
theorem convert_inRange {str : List UInt8} (hrange : ¬ OutOfRange str) (s : FileState) :
    convert str s =
      if errnoFails s.errno then ⟨1, none, s⟩ else ⟨0, some (Int16.ofInt (leadingInt str)), s⟩ := by
  have herr : (strtoul str s.errno).2 = s.errno := by rw [strtoul_errno, if_neg hrange]
  unfold convert
  dsimp only
  rw [toInt16_strtoul hrange, herr]

theorem convert_of_inRange {str : List UInt8} (hrange : ¬ OutOfRange str) (herrno : errnoFails s.errno = false) :
    convert str s = ⟨0, some (Int16.ofInt (leadingInt str)), s⟩ := by
  rw [convert_inRange hrange, herrno, if_neg Bool.false_ne_true]

theorem convert_of_errnoFails (str : List UInt8) (herrno : errnoFails s.errno = true) :
    (convert str s).status ≠ 0 := by
  have hfails : errnoFails (strtoul str s.errno).2 = true := by
    rw [strtoul_errno]
    split_ifs
    · rfl
    · exact herrno
  unfold convert
  rw [if_pos hfails]
  exact show (1 : UInt32) ≠ 0 by decide

theorem read_short (hlen : tok.length ≤ 5) (hnext : nextNumber F.content s.pos = some (tok, rest)) :
    Returns (fun fuel => helperReadInt16FromCsvFile F fuel s)
      (convert tok ⟨posAfter F.content rest, s.errno, s.calls + 1⟩) ∧ ¬ OutOfRange tok := by
  have hread := read_returns_scanned hnext (Nat.le_succ_of_le hlen)
  have hstr : scanned (F.behind s.calls) tok = tok := if_pos (Nat.lt_succ_of_le hlen)
  rw [hstr] at hread
  exact ⟨hread, inRange_of_length_le (Nat.le_trans hlen (by decide))⟩

/-- With `errno` clean it is never refused. -/
theorem read_accepts (herrno : errnoFails s.errno = false) (hlen : tok.length ≤ 5)
    (hnext : nextNumber F.content s.pos = some (tok, rest)) :
    Returns (fun fuel => helperReadInt16FromCsvFile F fuel s)
      ⟨0, some (Int16.ofInt (leadingInt tok)), ⟨posAfter F.content rest, s.errno, s.calls + 1⟩⟩ := by
  obtain ⟨hread, hrange⟩ := read_short hlen hnext
  rw [convert_of_inRange (s := ⟨posAfter F.content rest, s.errno, s.calls + 1⟩) hrange herrno] at hread
  exact hread

/-! ### Several calls -/

theorem readElements_fail {r : ReadResult} (hread : Returns (fun fuel => helperReadInt16FromCsvFile F fuel s) r)
    (hstatus : r.status ≠ 0) (count : ℕ) :
    Returns (fun fuel => readElements F fuel (count + 1) s) ⟨1, [], r.state⟩ := by
  apply hread.bind
  simp only [if_pos hstatus]
  exact returns_const _

theorem readElements_succ {r : ReadResult} {rest : CycleResult} {count : ℕ}
    (hread : Returns (fun fuel => helperReadInt16FromCsvFile F fuel s) r) (hstatus : r.status = 0)
    (hrest : Returns (fun fuel => readElements F fuel count r.state) rest) :
    Returns (fun fuel => readElements F fuel (count + 1) s)
      { rest with stored := r.stored.toList ++ rest.stored } := by
  apply hread.bind
  simp only [if_neg (not_not_intro hstatus)]
  exact hrest.map fun rest => { rest with stored := r.stored.toList ++ rest.stored }

theorem helperCycleReadFromCsvFile_odd {size : UInt32} (hsize : size % 2 ≠ 0) :
    Returns (fun fuel => helperCycleReadFromCsvFile F size fuel s) ⟨1, [], s⟩ := by
  unfold helperCycleReadFromCsvFile
  simp only [if_pos hsize]
  exact returns_const _

theorem helperCycleReadFromCsvFile_even {size : UInt32} (hsize : size % 2 = 0) (fuel : ℕ) :
    helperCycleReadFromCsvFile F size fuel s = readElements F fuel (size / 2).toNat s :=
  if_neg (not_not_intro hsize)

theorem readElements_returns (hread : ∀ s, ∃ r, Returns (fun fuel => helperReadInt16FromCsvFile F fuel s) r)
    (count : ℕ) (s : FileState) : ∃ r, Returns (fun fuel => readElements F fuel count s) r := by
  induction count generalizing s with
  | zero => exact ⟨_, returns_const _⟩
  | succ count ih =>
      obtain ⟨r, hr⟩ := hread s
      by_cases hstatus : r.status = 0
      · obtain ⟨rest, hrest⟩ := ih r.state
        exact ⟨_, readElements_succ hr hstatus hrest⟩
      · exact ⟨_, readElements_fail hr hstatus count⟩

end read

end OhMySockets
