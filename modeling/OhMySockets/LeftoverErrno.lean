import OhMySockets.CsvLoop
import OhMySockets.ParsePort

/-! # What `errno` held before

Both number parsers of `common/helper/helper.c` look at `errno` after `strtoul`, which leaves it
alone on success, and neither sets it to zero first.  So a call depends on what earlier calls left.

* `ParserCall.same_iff`: two values of `errno` on entry give the same result exactly when both or
  neither stand for an error, or the call fails anyway;
* `leftover_errno_iff`: with it, the calls before which a call on valid input does not fail. -/

namespace OhMySockets

open WhileLoop

/-- A call of the file reader at a position where the next number fits the scratch array.  The call
has the number `calls` on its file. -/
structure FileCall where
  file : CsvFile
  pos : ℕ
  calls : ℕ
  tok : List UInt8
  rest : List UInt8
  found : nextNumber file.content pos = some (tok, rest)
  fits : tok.length < maxAsciiCharsCountInInt32Value

/-- A call of one of the two number parsers. -/
inductive ParserCall where
  | readInt16 (c : FileCall)
  | parsePort (data : List UInt8)

/-- What a file call returns, with `errno` on entry. -/
def FileCall.Gives (c : FileCall) (errno : ℤ) (r : ReadResult) : Prop :=
  Returns (fun fuel => helperReadInt16FromCsvFile c.file fuel ⟨c.pos, errno, c.calls⟩) r

/-- The call returns the same status and stores the same value for two values of `errno` on entry. -/
def ParserCall.Same (errno errno' : ℤ) : ParserCall → Prop
  | .readInt16 c => ∃ r r', c.Gives errno r ∧ c.Gives errno' r' ∧ r.status = r'.status ∧ r.stored = r'.stored
  | .parsePort data =>
      (helperParsePort data errno).status = (helperParsePort data errno').status ∧
        (helperParsePort data errno).result = (helperParsePort data errno').result

/-- The call returns 0. -/
def ParserCall.Succeeds (errno : ℤ) : ParserCall → Prop
  | .readInt16 c => ∃ r, c.Gives errno r ∧ r.status = 0
  | .parsePort data => (helperParsePort data errno).status = 0

/-- The call is on a number larger than `ULONG_MAX`; one that fits the scratch array never is. -/
def ParserCall.OutOfRange : ParserCall → Prop
  | .readInt16 _ => False
  | .parsePort data => OhMySockets.OutOfRange data

/-- What a sequence of calls leaves in `errno`. -/
inductive Leaves : ℤ → List ParserCall → ℤ → Prop where
  | nil {errno : ℤ} : Leaves errno [] errno
  | readInt16 {errno errno' : ℤ} {c : FileCall} {r : ReadResult} {cs : List ParserCall} (hcall : c.Gives errno r)
      (hrest : Leaves r.state.errno cs errno') : Leaves errno (.readInt16 c :: cs) errno'
  | parsePort {errno errno' : ℤ} {data : List UInt8} {cs : List ParserCall}
      (hrest : Leaves (helperParsePort data errno).errno cs errno') : Leaves errno (.parsePort data :: cs) errno'

/-! ### One call -/

section call

variable {errno errno' : ℤ}

/-- The state after a file call. -/
def FileCall.after (c : FileCall) (errno : ℤ) : FileState := ⟨posAfter c.file.content c.rest, errno, c.calls + 1⟩

theorem FileCall.gives (c : FileCall) (errno : ℤ) :
    c.Gives errno (if errnoFails errno then ⟨1, none, c.after errno⟩
      else ⟨0, some (Int16.ofInt (leadingInt c.tok)), c.after errno⟩) := by
  obtain ⟨hread, hrange⟩ := read_short (s := ⟨c.pos, errno, c.calls⟩) (Nat.le_of_lt_succ c.fits) c.found
  rw [convert_inRange hrange] at hread
  exact hread

theorem FileCall.same_iff (c : FileCall) :
    (ParserCall.readInt16 c).Same errno errno' ↔ errnoFails errno = errnoFails errno' := by
  have hgives := c.gives errno
  have hgives' := c.gives errno'
  constructor
  · rintro ⟨r, r', hr, hr', hstatus, _⟩
    rw [hr.unique hgives, hr'.unique hgives'] at hstatus
    revert hstatus
    cases errnoFails errno <;> cases errnoFails errno' <;> simp
  · intro heq
    rw [← heq] at hgives'
    refine ⟨_, _, hgives, hgives', ?_, ?_⟩
    · split_ifs <;> rfl
    · split_ifs <;> rfl

theorem FileCall.succeeds_iff (c : FileCall) :
    (ParserCall.readInt16 c).Succeeds errno ↔ errnoFails errno = false := by
  have hgives := c.gives errno
  constructor
  · rintro ⟨r, hr, hstatus⟩
    rw [hr.unique hgives] at hstatus
    by_contra hfails
    rw [Bool.not_eq_false] at hfails
    rw [if_pos hfails] at hstatus
    cases hstatus
  · intro h
    rw [h, if_neg Bool.false_ne_true] at hgives
    exact ⟨_, hgives, rfl⟩

theorem parsePort_same_iff {data : List UInt8} (h : ¬ OutOfRange data) :
    (ParserCall.parsePort data).Same errno errno' ↔ errnoFails errno = errnoFails errno' := by
  rw [ParserCall.Same, helperParsePort_of_inRange h errno, helperParsePort_of_inRange h errno']
  cases errnoFails errno <;> cases errnoFails errno' <;> simp

theorem parsePort_succeeds_iff {data : List UInt8} (h : ¬ OutOfRange data) :
    (ParserCall.parsePort data).Succeeds errno ↔ errnoFails errno = false := by
  rw [ParserCall.Succeeds, helperParsePort_of_inRange h errno]
  cases errnoFails errno <;> simp

/-- **Two runs** agree when `errno` held an error in both or in neither, or when the number is out of
range. -/
theorem ParserCall.same_iff (c : ParserCall) :
    c.Same errno errno' ↔ errnoFails errno = errnoFails errno' ∨ c.OutOfRange := by
  cases c with
  | readInt16 c => rw [c.same_iff, ParserCall.OutOfRange, or_false]
  | parsePort data =>
      by_cases h : OhMySockets.OutOfRange data
      · rw [ParserCall.OutOfRange, ParserCall.Same, helperParsePort_of_outOfRange h, helperParsePort_of_outOfRange h]
        exact iff_of_true ⟨rfl, rfl⟩ (Or.inr h)
      · rw [parsePort_same_iff h, ParserCall.OutOfRange, or_iff_left h]

theorem ParserCall.succeeds_iff (c : ParserCall) :
    c.Succeeds errno ↔ errnoFails errno = false ∧ ¬ c.OutOfRange := by
  cases c with
  | readInt16 c => rw [c.succeeds_iff, ParserCall.OutOfRange, not_false_eq_true, and_true]
  | parsePort data =>
      by_cases h : OhMySockets.OutOfRange data
      · rw [ParserCall.OutOfRange, ParserCall.Succeeds, helperParsePort_of_outOfRange h]
        exact iff_of_false (by decide) (fun hand => hand.2 h)
      · rw [parsePort_succeeds_iff h, ParserCall.OutOfRange, and_iff_left h]

end call

/-! ### Sequences of calls -/

theorem exists_leaves (cs : List ParserCall) (errno : ℤ) : ∃ errno', Leaves errno cs errno' := by
  induction cs generalizing errno with
  | nil => exact ⟨errno, .nil⟩
  | cons c cs ih =>
      cases c with
      | readInt16 c =>
          obtain ⟨errno', hrest⟩ := ih _
          exact ⟨errno', .readInt16 (c.gives errno) hrest⟩
      | parsePort data =>
          obtain ⟨errno', hrest⟩ := ih _
          exact ⟨errno', .parsePort hrest⟩

/-- **After a sequence of calls** `errno` stands for an error when it did before or when one of the
calls was out of range. -/
theorem Leaves.errnoFails_iff {errno errno' : ℤ} {cs : List ParserCall} (h : Leaves errno cs errno') :
    errnoFails errno' = true ↔ errnoFails errno = true ∨ ∃ c ∈ cs, c.OutOfRange := by
  induction h with
  | nil => simp
  | @readInt16 errno errno' c r cs hcall _ ih =>
      have herrno : r.state.errno = errno := by
        rw [hcall.unique (c.gives errno)]
        split_ifs <;> rfl
      rw [ih, herrno, List.exists_mem_cons_iff, ParserCall.OutOfRange, false_or]
  | @parsePort errno errno' data cs _ ih =>
      rw [ih, List.exists_mem_cons_iff, ParserCall.OutOfRange]
      by_cases h : OhMySockets.OutOfRange data
      · rw [helperParsePort_of_outOfRange h]
        exact iff_of_true (Or.inl rfl) (Or.inr (Or.inl h))
      · rw [helperParsePort_of_inRange h, or_iff_right h]

/-- **The parsers depend on what `errno` held before, unless it stood for an error in both runs or in
neither, or the number is out of range; and a call on valid input succeeds after other calls exactly
when none of these was out of range.** -/
theorem leftover_errno_iff (c : ParserCall) (errno errno' : ℤ) (cs : List ParserCall) :
    (c.Same errno errno' ↔ errnoFails errno = errnoFails errno' ∨ c.OutOfRange) ∧
    (∃ left, Leaves 0 cs left) ∧ ∀ left, Leaves 0 cs left →
      ((c.Succeeds 0 → c.Succeeds left) ↔ (∀ c' ∈ cs, ¬ c'.OutOfRange) ∨ c.OutOfRange) := by
  refine ⟨c.same_iff, exists_leaves cs 0, fun left hleaves => ?_⟩
  have hzero : errnoFails 0 = false := rfl
  have hclean : errnoFails left = false ↔ ∀ c' ∈ cs, ¬ c'.OutOfRange := by
    rw [← Bool.not_eq_true, hleaves.errnoFails_iff, hzero]
    simp
  rw [c.succeeds_iff, c.succeeds_iff, hclean, hzero]
  tauto

/-- After the failure on twenty nines the port `80` is refused, and so is the file `7`; with `errno`
clean both are accepted. -/
theorem leftover_error_refuses :
    helperParsePort (List.replicate 20 57) 0 = ⟨1, 65535, erange⟩ ∧
      helperParsePort [56, 48] erange = ⟨1, 80, erange⟩ ∧ helperParsePort [56, 48] 0 = ⟨0, 80, 0⟩ ∧
      Returns (fun fuel => helperReadInt16FromCsvFile ⟨[55], fun _ => []⟩ fuel ⟨0, erange, 0⟩)
        ⟨1, none, ⟨0, erange, 1⟩⟩ ∧
      Returns (fun fuel => helperReadInt16FromCsvFile ⟨[55], fun _ => []⟩ fuel ⟨0, 0, 0⟩)
        ⟨0, some 7, ⟨0, 0, 1⟩⟩ := by
  have hnext : nextNumber [55] 0 = some ([55], []) := rfl
  refine ⟨by decide, by decide, by decide, ?_, ?_⟩
  · exact (read_short (F := ⟨[55], fun _ => []⟩) (s := ⟨0, erange, 0⟩) (by decide) hnext).1
  · exact (read_short (F := ⟨[55], fun _ => []⟩) (s := ⟨0, 0, 0⟩) (by decide) hnext).1

end OhMySockets
