import OhMySockets.CsvLoop

/-! # The scanning loop on any file

What the reader of `common/helper/helper.c` does on a file of any bytes, from any position.

* `scratchSafe_iff`: it stays inside its scratch array, and the array keeps a terminator, exactly
  when the number it finds has at most five bytes;
* `readerTerminates_iff`: it ends, and reports a file without digits, exactly when there is a digit,
  or a minus sign and an error left over in `errno`. -/

namespace OhMySockets

open ByteMemory Decimal WhileLoop

/-! ### The scratch array -/

section array

variable {content behind tok rest : List UInt8} {pos : ℕ}

/-- Every write is at an index of the array, and the array holds a zero byte when the loop is left. -/
structure ScratchSafe (content behind : List UInt8) (pos : ℕ) : Prop where
  writes : ∀ s, Reached (scanTurn content) (scanStart behind pos) s →
    ∀ w ∈ s.writes, w < maxAsciiCharsCountInInt32Value
  terminator : ∀ t, Ends (scanTurn content) (scanStart behind pos) t →
    ∃ k < maxAsciiCharsCountInInt32Value, t.asciiInt16 k = 0

/-- The next number, if there is one, leaves room for a terminator in the array. -/
def FitsScratch (content : List UInt8) (pos : ℕ) : Prop :=
  ∀ found ∈ nextNumber content pos, found.1.length < maxAsciiCharsCountInInt32Value

theorem scanTurn_writes {s s' : Scan} (h : scanTurn content s = .again s') : ∀ w ∈ s.writes, w ∈ s'.writes := by
  unfold scanTurn at h
  intro w hw
  split at h
  · split_ifs at h
    · cases h
      exact List.mem_append_left _ hw
    · cases h
      exact hw
  · split_ifs at h
    cases h
    exact hw

theorem scanTurn_leave_writes {s t : Scan} (h : scanTurn content s = .leave t) : t.writes = s.writes := by
  unfold scanTurn at h
  split at h
  · split_ifs at h
    cases h
    rfl
  · split_ifs at h
    cases h
    rfl

theorem ends_writes {s t : Scan} (h : Ends (scanTurn content) s t) : ∀ w ∈ s.writes, w ∈ t.writes := by
  apply h.induct (P := fun s t => ∀ w ∈ s.writes, w ∈ t.writes)
  · intro s t hturn w hw
    rw [scanTurn_leave_writes hturn]
    exact hw
  · intro s s' t hturn hle w hw
    exact hle w (scanTurn_writes hturn w hw)

theorem reached_writes_of_none (hnext : nextNumber content pos = none) {s : Scan}
    (h : Reached (scanTurn content) (scanStart behind pos) s) : s.i = 0 ∧ s.writes = [] := by
  induction h with
  | start => exact ⟨rfl, rfl⟩
  | again _ hturn ih =>
      obtain ⟨pos', hagain⟩ := scan_again_of_none hnext ih.1
      rw [hagain] at hturn
      cases hturn
      exact ih

theorem collected_terminator (h : tok.length < 6) (pos : ℕ) :
    (collected behind tok pos).asciiInt16 tok.length = 0 := by
  unfold collected
  dsimp only
  rw [writeBytes_outside (Or.inr (Nat.le_of_eq (Nat.zero_add _)))]
  exact scratch_zero (Or.inl h)

theorem collected_ne_zero (hnext : nextNumber content pos = some (tok, rest)) {k : ℕ} (hk : k < tok.length)
    (pos' : ℕ) : (collected behind tok pos').asciiInt16 k ≠ 0 := by
  unfold collected writeBytes
  dsimp only
  rw [if_pos (by omega), Nat.sub_zero, List.getD_eq_getElem?_getD, List.getElem?_eq_getElem hk, Option.getD_some]
  exact isNumberByte_ne_zero (isNumberByte_of_mem_next hnext _ (List.getElem_mem hk))

/-- **The reader stays inside its scratch array, and the array keeps a terminator, exactly when the
number that it finds has at most five bytes.** -/
theorem scratchSafe_iff (content behind : List UInt8) (pos : ℕ) :
    ScratchSafe content behind pos ↔ FitsScratch content pos := by
  constructor
  · rintro hsafe ⟨tok, rest⟩ hnext
    by_contra hlen
    obtain ⟨k, hk, hzero⟩ := hsafe.terminator _ (scan_ends hnext behind)
    exact collected_ne_zero hnext (Nat.lt_of_lt_of_le hk (Nat.le_of_not_lt hlen)) _ hzero
  · intro hfits
    cases hnext : nextNumber content pos with
    | none =>
        constructor
        · intro s hs w hw
          rw [(reached_writes_of_none hnext hs).2] at hw
          cases hw
        · intro t ht
          exact absurd ht (scan_not_ends hnext behind t)
    | some found =>
        obtain ⟨tok, rest⟩ := found
        have hlen := hfits (tok, rest) hnext
        have hends := scan_ends hnext behind
        constructor
        · intro s hs w hw
          have hmem := ends_writes (hs.ends_iff.mp hends) w hw
          exact Nat.lt_trans (List.mem_range.mp hmem) hlen
        · intro t ht
          rw [ht.unique hends]
          exact ⟨tok.length, hlen, collected_terminator hlen _⟩

/-- The number `-32768` leaves no terminator, and `1234567` is written over the end of the array. -/
theorem scratch_overrun :
    ¬ ScratchSafe [45, 51, 50, 55, 54, 56] [] 0 ∧ ¬ ScratchSafe [49, 50, 51, 52, 53, 54, 55, 44] [] 0 ∧
      (run (scanTurn [49, 50, 51, 52, 53, 54, 55, 44]) 8 (scanStart [] 0)).map (fun t => t.writes) =
        some [0, 1, 2, 3, 4, 5, 6] := by
  refine ⟨fun hsafe => ?_, fun hsafe => ?_, rfl⟩
  · obtain ⟨k, hk, hzero⟩ := hsafe.terminator _ ⟨7, rfl⟩
    interval_cases k <;> cases hzero
  · obtain ⟨k, hk, hzero⟩ := hsafe.terminator _ ⟨8, rfl⟩
    interval_cases k <;> cases hzero

end array

/-! ### Termination -/

section termination

variable {F : CsvFile} {s : FileState}

/-- The loop ends, whole reads return, and a file without digits is reported. -/
structure ReaderTerminates (F : CsvFile) (s : FileState) : Prop where
  scan : ∃ t, Ends (scanTurn F.content) (scanStart (F.behind s.calls) s.pos) t
  cycle : ∀ size, ∃ r, Returns (fun fuel => helperCycleReadFromCsvFile F size fuel s) r
  noDigit : (∀ b ∈ F.content, isDigit b = false) →
    ∃ r, Returns (fun fuel => helperReadInt16FromCsvFile F fuel s) r ∧ r.status ≠ 0
  noDigitCycle : (∀ b ∈ F.content, isDigit b = false) → ∀ size, size ≠ 0 →
    ∃ r, Returns (fun fuel => helperCycleReadFromCsvFile F size fuel s) r ∧ r.status ≠ 0

/-- There is a digit, or a minus sign and an error left over in `errno`. -/
def Scannable (F : CsvFile) (s : FileState) : Prop :=
  (∃ b ∈ F.content, isDigit b = true) ∨ (45 ∈ F.content ∧ errnoFails s.errno = true)

theorem nextNumber_of_some {content : List UInt8} (hfound : ∃ b ∈ content, isNumberByte 0 b = true) (pos : ℕ) :
    ∃ found, nextNumber content pos = some found := by
  rw [← Option.ne_none_iff_exists']
  intro hnone
  obtain ⟨b, hb, hnumber⟩ := hfound
  rw [nextNumber_eq_none.mp hnone b hb] at hnumber
  cases hnumber

theorem read_returns_of_some (hfound : ∃ b ∈ F.content, isNumberByte 0 b = true) (s : FileState) :
    ∃ r, Returns (fun fuel => helperReadInt16FromCsvFile F fuel s) r := by
  obtain ⟨found, hnext⟩ := nextNumber_of_some hfound s.pos
  exact ⟨_, read_returns hnext⟩

theorem cycle_returns_of_some (hfound : ∃ b ∈ F.content, isNumberByte 0 b = true) (size : UInt32)
    (s : FileState) : ∃ r, Returns (fun fuel => helperCycleReadFromCsvFile F size fuel s) r := by
  by_cases hsize : size % 2 = 0
  · simp only [helperCycleReadFromCsvFile_even hsize]
    exact readElements_returns (read_returns_of_some hfound) _ s
  · exact ⟨_, helperCycleReadFromCsvFile_odd hsize⟩

theorem cycle_fails {size : UInt32} (hsize : size ≠ 0)
    (hfails : ∃ r, Returns (fun fuel => helperReadInt16FromCsvFile F fuel s) r ∧ r.status ≠ 0) :
    ∃ r, Returns (fun fuel => helperCycleReadFromCsvFile F size fuel s) r ∧ r.status ≠ 0 := by
  obtain ⟨r, hread, hstatus⟩ := hfails
  by_cases heven : size % 2 = 0
  · obtain ⟨count, hcount⟩ : ∃ count, (size / 2).toNat = count + 1 := by
      apply Nat.exists_eq_add_one_of_ne_zero
      intro hzero
      apply hsize
      rw [← UInt32.toNat_inj] at heven ⊢
      simp only [UInt32.toNat_div, UInt32.toNat_mod, UInt32.reduceToNat] at hzero heven ⊢
      omega
    simp only [helperCycleReadFromCsvFile_even heven, hcount]
    exact ⟨_, readElements_fail hread hstatus count, by simp⟩
  · exact ⟨_, helperCycleReadFromCsvFile_odd heven, by simp⟩

theorem firstNumber_noDigit {u tok rest : List UInt8} (hno : ∀ b ∈ u, isDigit b = false)
    (h : firstNumber u = some (tok, rest)) : tok = [45] ∧ 45 ∈ u := by
  induction u with
  | nil => cases h
  | cons b bs ih =>
      have hbs : ∀ c ∈ bs, isDigit c = false := fun c hc => hno c (List.mem_cons_of_mem b hc)
      unfold firstNumber at h
      split_ifs at h with hb
      · cases h
        have hminus : b = 45 := by
          unfold isNumberByte at hb
          rw [hno b List.mem_cons_self] at hb
          simpa using hb
        have hnone : bs.takeWhile isDigit = [] := by
          rw [List.takeWhile_eq_nil_iff]
          intro hpos hdigit
          rw [hbs _ (List.get_mem bs ⟨0, hpos⟩)] at hdigit
          cases hdigit
        rw [hminus, hnone]
        exact ⟨rfl, List.mem_cons_self⟩
      · obtain ⟨htok, hmem⟩ := ih hbs h
        exact ⟨htok, List.mem_cons_of_mem b hmem⟩

theorem nextNumber_noDigit {content tok rest : List UInt8} {pos : ℕ} (hno : ∀ b ∈ content, isDigit b = false)
    (h : nextNumber content pos = some (tok, rest)) : tok = [45] ∧ 45 ∈ content := by
  rcases Option.or_eq_some_iff.mp h with hfirst | ⟨_, hfirst⟩
  · obtain ⟨htok, hmem⟩ := firstNumber_noDigit (fun b hb => hno b (List.mem_of_mem_drop hb)) hfirst
    exact ⟨htok, List.mem_of_mem_drop hmem⟩
  · exact firstNumber_noDigit hno hfirst

/-- A call that finds a minus sign alone reports it only through an error left over in `errno`. -/
theorem read_noDigit (hno : ∀ b ∈ F.content, isDigit b = false) {r : ReadResult}
    (hread : Returns (fun fuel => helperReadInt16FromCsvFile F fuel s) r) (hstatus : r.status ≠ 0) :
    45 ∈ F.content ∧ errnoFails s.errno = true := by
  cases hnext : nextNumber F.content s.pos with
  | none => exact absurd hread (read_not_returns hnext r)
  | some found =>
      obtain ⟨tok, rest⟩ := found
      obtain ⟨rfl, hmem⟩ := nextNumber_noDigit hno hnext
      refine ⟨hmem, ?_⟩
      by_contra herrno
      have hrange : ¬ OutOfRange [45] := by decide
      have hconvert := convert_of_inRange (s := ⟨posAfter F.content rest, s.errno, s.calls + 1⟩) hrange
        (Bool.eq_false_of_not_eq_true herrno)
      have hreturns := read_returns_scanned hnext (by decide)
      rw [show scanned (F.behind s.calls) [45] = [45] from rfl, hconvert] at hreturns
      rw [hread.unique hreturns] at hstatus
      exact hstatus rfl

/-- **The reader ends, and reports a file without digits, exactly when the file has a digit, or a
minus sign and `errno` an error left over.** -/
theorem readerTerminates_iff (F : CsvFile) (s : FileState) : ReaderTerminates F s ↔ Scannable F s := by
  constructor
  · intro h
    by_cases hdigit : ∃ b ∈ F.content, isDigit b = true
    · exact Or.inl hdigit
    · push Not at hdigit
      have hno : ∀ b ∈ F.content, isDigit b = false := fun b hb => Bool.eq_false_of_not_eq_true (hdigit b hb)
      obtain ⟨r, hread, hstatus⟩ := h.noDigit hno
      exact Or.inr (read_noDigit hno hread hstatus)
  · intro h
    have hfound : ∃ b ∈ F.content, isNumberByte 0 b = true := by
      rcases h with ⟨b, hb, hdigit⟩ | ⟨hminus, _⟩
      · exact ⟨b, hb, isNumberByte_of_isDigit hdigit 0⟩
      · exact ⟨45, hminus, rfl⟩
    obtain ⟨found, hnext⟩ := nextNumber_of_some hfound s.pos
    have hfails : (∀ b ∈ F.content, isDigit b = false) →
        ∃ r, Returns (fun fuel => helperReadInt16FromCsvFile F fuel s) r ∧ r.status ≠ 0 := by
      intro hno
      rcases h with ⟨b, hb, hdigit⟩ | ⟨_, herrno⟩
      · rw [hno b hb] at hdigit
        cases hdigit
      · exact ⟨_, read_returns hnext, convert_of_errnoFails _ herrno⟩
    constructor
    · exact ⟨_, scan_ends hnext _⟩
    · exact fun size => cycle_returns_of_some hfound size s
    · exact hfails
    · exact fun hno size hsize => cycle_fails hsize (hfails hno)

/-- On the empty file the loop never ends; the file `-` is read as the number 0. -/
theorem empty_file_never_ends :
    (∀ t, ¬ Ends (scanTurn []) (scanStart [] 0) t) ∧
      Returns (fun fuel => helperReadInt16FromCsvFile ⟨[45], fun _ => []⟩ fuel ⟨0, 0, 0⟩)
        ⟨0, some 0, ⟨0, 0, 1⟩⟩ := by
  refine ⟨scan_not_ends rfl [], ?_⟩
  have hnext : nextNumber [45] 0 = some ([45], []) := rfl
  exact read_returns_scanned (F := ⟨[45], fun _ => []⟩) (s := ⟨0, 0, 0⟩) hnext (by decide)

end termination

end OhMySockets
