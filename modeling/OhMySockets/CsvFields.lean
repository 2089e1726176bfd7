import OhMySockets.CsvLoop

/-! # Reading one field

What `helper_read_int16_from_csv_file` makes of a field of at most five bytes in a file of such
fields.

* `fieldRead_iff`: it accepts exactly the 16-bit integers, exactly when the field is one: on any
  other field it does not report an error. -/

namespace OhMySockets

open ByteMemory Decimal WhileLoop

/-- A comma or a newline. -/
def isSeparator (b : UInt8) : Bool := b = 44 || b = 10

/-- The fields of a file, the parts between separators, have at most `k` bytes. -/
def FieldsAtMost (k : ℕ) (content : List UInt8) : Prop :=
  ∀ part, part <:+: content → (∀ b ∈ part, isSeparator b = false) → part.length ≤ k

/-- A field that is not empty starts at a position. -/
structure FieldAt (content : List UInt8) (pos : ℕ) (field : List UInt8) : Prop where
  nonempty : field ≠ []
  noSeparator : ∀ b ∈ field, isSeparator b = false
  before : ∀ b ∈ (content.take pos).getLast?, isSeparator b = true
  after : ∃ post, content.drop pos = field ++ post ∧ ∀ b ∈ post.head?, isSeparator b = true

/-- The field is a 16-bit integer. -/
def Int16Field (field : List UInt8) (v : ℤ) : Prop := Numeral field v ∧ -32768 ≤ v ∧ v ≤ 32767

/-- A call accepts exactly the 16-bit integers, stores exactly their values, and otherwise leaves the
destination alone. -/
structure FieldRead (F : CsvFile) (s : FileState) (field : List UInt8) : Prop where
  zero_iff : (∃ r, Returns (fun fuel => helperReadInt16FromCsvFile F fuel s) r ∧ r.status = 0) ↔
    ∃ v, Int16Field field v
  accepts : ∀ v, Int16Field field v → ∃ r, Returns (fun fuel => helperReadInt16FromCsvFile F fuel s) r ∧
    r.status = 0 ∧ ∃ w : Int16, r.stored = some w ∧ w.toInt = v
  rejects : (∀ v, ¬ Int16Field field v) → ∃ r, Returns (fun fuel => helperReadInt16FromCsvFile F fuel s) r ∧
    r.status ≠ 0 ∧ r.stored = none

section fields

variable {F : CsvFile} {s : FileState} {field tok rest : List UInt8}

theorem isSeparator_of_isNumberByte {b : UInt8} (h : isNumberByte 0 b = true) : isSeparator b = false := by
  rw [Bool.eq_false_iff]
  intro hsep
  unfold isSeparator at hsep
  rcases Bool.or_eq_true_iff.mp hsep with hcomma | hnewline
  · rw [of_decide_eq_true hcomma] at h
    cases h
  · rw [of_decide_eq_true hnewline] at h
    cases h

theorem isDigit_of_isSeparator {b : UInt8} (h : isSeparator b = true) : isDigit b = false := by
  rw [Bool.eq_false_iff]
  intro hdigit
  rw [isSeparator_of_isNumberByte (isNumberByte_of_isDigit hdigit 0)] at h
  cases h

theorem nextNumber_length_le {k : ℕ} (hfields : FieldsAtMost k F.content)
    (hnext : nextNumber F.content s.pos = some (tok, rest)) : tok.length ≤ k := by
  obtain ⟨skipped, hcontent⟩ := nextNumber_append hnext
  apply hfields
  · exact ⟨skipped, rest, by rw [List.append_assoc, ← hcontent]⟩
  · exact fun b hb => isSeparator_of_isNumberByte (isNumberByte_of_mem_next hnext b hb)

/-- A field that is an integer is the next number. -/
theorem FieldAt.nextNumber {v : ℤ} (h : FieldAt F.content s.pos field) (hv : Numeral field v) :
    ∃ post, nextNumber F.content s.pos = some (field, post) := by
  obtain ⟨post, hdrop, hpost⟩ := h.after
  refine ⟨post, ?_⟩
  unfold OhMySockets.nextNumber
  rw [hdrop, firstNumber_numeral hv fun b hb => isDigit_of_isSeparator (hpost b hb), Option.some_or]

theorem Int16Field.toInt {v : ℤ} (h : Int16Field field v) : (Int16.ofInt v).toInt = v :=
  Int16.toInt_ofInt_of_le h.2.1 (by have := h.2.2; omega)

theorem FieldAt.read {v : ℤ} (hfields : FieldsAtMost 5 F.content) (h : FieldAt F.content s.pos field)
    (herrno : errnoFails s.errno = false) (hv : Int16Field field v) :
    ∃ r, Returns (fun fuel => helperReadInt16FromCsvFile F fuel s) r ∧ r.status = 0 ∧
      ∃ w : Int16, r.stored = some w ∧ w.toInt = v := by
  obtain ⟨post, hnext⟩ := h.nextNumber hv.1
  have hread := read_accepts herrno (nextNumber_length_le hfields hnext) hnext
  rw [leadingInt_numeral_self hv.1] at hread
  exact ⟨_, hread, rfl, _, rfl, hv.toInt⟩

/-- **A field of at most five bytes is read correctly exactly when it is a 16-bit integer.** -/
theorem fieldRead_iff (hfields : FieldsAtMost 5 F.content) (hfield : FieldAt F.content s.pos field)
    (herrno : s.errno = 0) : FieldRead F s field ↔ ∃ v, Int16Field field v := by
  have hclean : errnoFails s.errno = false := by rw [herrno]; rfl
  constructor
  · intro h
    by_contra hinvalid
    obtain ⟨r, hread, hstatus, _⟩ := h.rejects (not_exists.mp hinvalid)
    cases hnext : nextNumber F.content s.pos with
    | none => exact read_not_returns hnext r hread
    | some found =>
        obtain ⟨tok, rest⟩ := found
        -- whatever is found, the call reports no error
        have haccepts := read_accepts hclean (nextNumber_length_le hfields hnext) hnext
        rw [hread.unique haccepts] at hstatus
        exact hstatus rfl
  · rintro ⟨v, hv⟩
    constructor
    · obtain ⟨r, hread, hstatus, _⟩ := hfield.read hfields hclean hv
      exact ⟨fun _ => ⟨v, hv⟩, fun _ => ⟨r, hread, hstatus⟩⟩
    · exact fun v' hv' => hfield.read hfields hclean hv'
    · exact fun hinvalid => absurd hv (hinvalid v)

theorem fieldRead_iff_minus_seven :
    FieldRead ⟨[49, 50, 44, 45, 55], fun _ => []⟩ ⟨3, 0, 0⟩ [45, 55] ↔ ∃ v, Int16Field [45, 55] v := by
  have hfields : FieldsAtMost 5 [49, 50, 44, 45, 55] := fun part hpart _ => hpart.length_le
  exact fieldRead_iff (F := ⟨[49, 50, 44, 45, 55], fun _ => []⟩) (s := ⟨3, 0, 0⟩) hfields
    ⟨by simp, by simp [isSeparator], by simp [isSeparator], ⟨[], rfl, by simp⟩⟩ rfl

/-- The file `40000` is read as -25536, `12a` as 12 and `-` as 0, each without an error. -/
theorem invalid_fields_accepted :
    FieldsAtMost 5 [52, 48, 48, 48, 48] ∧ FieldAt [52, 48, 48, 48, 48] 0 [52, 48, 48, 48, 48] ∧
      Returns (fun fuel => helperReadInt16FromCsvFile ⟨[52, 48, 48, 48, 48], fun _ => []⟩ fuel ⟨0, 0, 0⟩)
        ⟨0, some (-25536), ⟨0, 0, 1⟩⟩ ∧
      ¬ FieldRead ⟨[52, 48, 48, 48, 48], fun _ => []⟩ ⟨0, 0, 0⟩ [52, 48, 48, 48, 48] ∧
      Returns (fun fuel => helperReadInt16FromCsvFile ⟨[49, 50, 97], fun _ => []⟩ fuel ⟨0, 0, 0⟩)
        ⟨0, some 12, ⟨3, 0, 1⟩⟩ ∧
      Returns (fun fuel => helperReadInt16FromCsvFile ⟨[45], fun _ => []⟩ fuel ⟨0, 0, 0⟩)
        ⟨0, some 0, ⟨0, 0, 1⟩⟩ := by
  have hnext : nextNumber [52, 48, 48, 48, 48] 0 = some ([52, 48, 48, 48, 48], []) := rfl
  have hnext' : nextNumber [49, 50, 97] 0 = some ([49, 50], [97]) := rfl
  have hnext'' : nextNumber [45] 0 = some ([45], []) := rfl
  have hlarge : Returns (fun fuel => helperReadInt16FromCsvFile ⟨[52, 48, 48, 48, 48], fun _ => []⟩ fuel ⟨0, 0, 0⟩)
      ⟨0, some (-25536), ⟨0, 0, 1⟩⟩ :=
    read_accepts (F := ⟨_, _⟩) (s := ⟨_, _, _⟩) rfl (by decide) hnext
  refine ⟨fun part hpart _ => hpart.length_le, ⟨by simp, by simp [isSeparator], by simp, ⟨[], rfl, by simp⟩⟩,
    hlarge, fun hread => ?_, ?_, ?_⟩
  · obtain ⟨v, hv, _, hle⟩ := hread.zero_iff.mp ⟨_, hlarge, rfl⟩
    have hvalue := leadingInt_numeral_self hv
    rw [show leadingInt [52, 48, 48, 48, 48] = 40000 from rfl] at hvalue
    omega
  · exact read_accepts (F := ⟨_, _⟩) (s := ⟨_, _, _⟩) rfl (by decide) hnext'
  · exact read_accepts (F := ⟨_, _⟩) (s := ⟨_, _, _⟩) rfl (by decide) hnext''

end fields

end OhMySockets
