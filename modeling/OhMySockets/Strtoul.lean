import OhMySockets.Decimal

/-! # `strtoul`

The C library function that both number parsers of `common/helper/helper.c` use, for base 10 and a
64-bit `unsigned long`: white space, an optional sign, and as many digits as there are.  A number
that is too large gives `ULONG_MAX` and sets `errno`; otherwise `errno` is left alone, also when
there are no digits.  A minus sign negates in the unsigned type.

* `strtoul_errno`: `errno` afterwards;
* `toInt16_strtoul`: the value after the cast to `int16_t`;
* `leadingInt_numeral`: what is read of a string that starts with a number;
* `inRange_of_length_le`: short strings are in range. -/

namespace OhMySockets

open Decimal

/-- `ERANGE`. -/
abbrev erange : ℤ := 34
/-- `EINVAL`. -/
abbrev einval : ℤ := 22
/-- `ULONG_MAX`. -/
abbrev ulongMax : ℕ := 2 ^ 64 - 1

/-- `isspace` in the "C" locale. -/
def isSpace (b : UInt8) : Bool := b = 32 || (9 ≤ b && b ≤ 13)

/-- The number at the start of a string: whether it has a minus sign, and its digits. -/
def subject (s : List UInt8) : Bool × List UInt8 :=
  match s.dropWhile isSpace with
  | [] => (false, [])
  | b :: bs =>
      if b = 45 then (true, bs.takeWhile isDigit)
      else if b = 43 then (false, bs.takeWhile isDigit)
      else (false, (b :: bs).takeWhile isDigit)

/-- The number at the start of a string is larger than `ULONG_MAX`. -/
def OutOfRange (s : List UInt8) : Prop := ulongMax < digitsValue (subject s).2

instance (s : List UInt8) : Decidable (OutOfRange s) := inferInstanceAs (Decidable (_ < _))

/-- `strtoul(s, &end, 10)`: the value and `errno` afterwards. -/
def strtoul (s : List UInt8) (errno : ℤ) : UInt64 × ℤ :=
  let n := UInt64.ofNat (digitsValue (subject s).2)
  if OutOfRange s then (UInt64.ofNat ulongMax, erange)
  else (if (subject s).1 then -n else n, errno)

/-- The values of `errno` that both parsers treat as an error. -/
def errnoFails (errno : ℤ) : Bool := errno = erange || errno = einval

theorem strtoul_errno (s : List UInt8) (errno : ℤ) :
    (strtoul s errno).2 = if OutOfRange s then erange else errno := by
  unfold strtoul
  split_ifs <;> rfl

/-- The value does not depend on `errno`. -/
theorem strtoul_value (s : List UInt8) (errno errno' : ℤ) : (strtoul s errno).1 = (strtoul s errno').1 := by
  unfold strtoul
  by_cases h : OutOfRange s
  · rw [if_pos h, if_pos h]
  · rw [if_neg h, if_neg h]

/-- The integer that a string starts with. -/
def leadingInt (s : List UInt8) : ℤ :=
  if (subject s).1 then -(digitsValue (subject s).2 : ℤ) else digitsValue (subject s).2

theorem toInt16_ofNat (n : ℕ) : (UInt64.ofNat n).toUInt16.toInt16 = Int16.ofInt n := by
  apply Int16.toInt_inj.mp
  simp

theorem toInt16_neg_ofNat (n : ℕ) : (-UInt64.ofNat n).toUInt16.toInt16 = Int16.ofInt (-n) := by
  apply Int16.toInt_inj.mp
  simp

/-- The cast to `int16_t` keeps the value modulo `2 ^ 16`. -/
theorem toInt16_strtoul {s : List UInt8} (h : ¬ OutOfRange s) (errno : ℤ) :
    (strtoul s errno).1.toUInt16.toInt16 = Int16.ofInt (leadingInt s) := by
  unfold strtoul leadingInt
  rw [if_neg h]
  dsimp only
  split_ifs
  · exact toInt16_neg_ofNat _
  · exact toInt16_ofNat _

/-! ### Strings that start with a number -/

section leading

variable {ds rest : List UInt8}

theorem not_isSpace_of_isDigit {b : UInt8} (h : isDigit b = true) : isSpace b = false := by
  rw [isDigit_iff] at h
  simp only [isSpace, Bool.or_eq_false_iff, Bool.and_eq_false_iff, decide_eq_false_iff_not,
    UInt8.le_iff_toNat_le, ← UInt8.toNat_inj, UInt8.reduceToNat]
  omega

theorem subject_digits (hne : ds ≠ []) (hds : ∀ b ∈ ds, isDigit b = true)
    (hrest : ∀ b ∈ rest.head?, isDigit b = false) : subject (ds ++ rest) = (false, ds) := by
  cases ds with
  | nil => exact absurd rfl hne
  | cons d ds =>
      have hd := hds d List.mem_cons_self
      have hminus : d ≠ 45 := by
        rintro rfl
        cases hd
      have hplus : d ≠ 43 := by
        rintro rfl
        cases hd
      have htake := takeWhile_digits hds hrest
      rw [List.cons_append] at htake ⊢
      unfold subject
      rw [List.dropWhile_cons_of_neg (by rw [not_isSpace_of_isDigit hd]; decide)]
      dsimp only
      rw [if_neg hminus, if_neg hplus, htake]

theorem subject_minus (hds : ∀ b ∈ ds, isDigit b = true) (hrest : ∀ b ∈ rest.head?, isDigit b = false) :
    subject (45 :: (ds ++ rest)) = (true, ds) := by
  unfold subject
  rw [List.dropWhile_cons_of_neg (by decide)]
  dsimp only
  rw [if_pos rfl, takeWhile_digits hds hrest]

theorem leadingInt_numeral {tok : List UInt8} {v : ℤ} (h : Numeral tok v)
    (hrest : ∀ b ∈ rest.head?, isDigit b = false) : leadingInt (tok ++ rest) = v := by
  unfold leadingInt
  cases h with
  | pos hne hds => rw [subject_digits hne hds hrest, if_neg Bool.false_ne_true]
  | neg hne hds => rw [List.cons_append, subject_minus hds hrest, if_pos rfl]

theorem leadingInt_numeral_self {tok : List UInt8} {v : ℤ} (h : Numeral tok v) : leadingInt tok = v := by
  have hend : ∀ b ∈ ([] : List UInt8).head?, isDigit b = false := by simp
  have hself := leadingInt_numeral h hend
  rwa [List.append_nil] at hself

end leading

/-! ### Short strings -/

theorem mem_subject_isDigit {s : List UInt8} : ∀ b ∈ (subject s).2, isDigit b = true := by
  intro b hb
  unfold subject at hb
  split at hb
  · cases hb
  · split_ifs at hb <;> exact List.mem_takeWhile_imp hb

theorem subject_length_le (s : List UInt8) : (subject s).2.length ≤ s.length := by
  have hdrop : (s.dropWhile isSpace).length ≤ s.length := (List.dropWhile_sublist isSpace).length_le
  unfold subject
  split
  · exact Nat.zero_le _
  · rename_i b bs heq
    have htake : (bs.takeWhile isDigit).length ≤ bs.length := (List.takeWhile_sublist isDigit).length_le
    rw [heq, List.length_cons] at hdrop
    split_ifs
    · exact Nat.le_of_succ_le (Nat.le_trans (Nat.succ_le_succ htake) hdrop)
    · exact Nat.le_of_succ_le (Nat.le_trans (Nat.succ_le_succ htake) hdrop)
    · exact Nat.le_trans (List.takeWhile_sublist isDigit).length_le hdrop

/-- A string of at most nineteen bytes is in range. -/
theorem inRange_of_length_le {s : List UInt8} (h : s.length ≤ 19) : ¬ OutOfRange s := by
  have hlt := digitsValue_lt (mem_subject_isDigit (s := s))
  have hpow : 10 ^ (subject s).2.length ≤ 10 ^ 19 :=
    Nat.pow_le_pow_right (by decide) (Nat.le_trans (subject_length_le s) h)
  have hmax : 10 ^ 19 ≤ ulongMax := by decide
  exact Nat.not_lt.mpr (Nat.le_trans (Nat.le_of_lt hlt) (Nat.le_trans hpow hmax))

end OhMySockets
