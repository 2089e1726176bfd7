import Mathlib.Data.Int.Notation
import Mathlib.Data.List.TakeWhile
import Mathlib.Data.Nat.Digits.Lemmas

/-! # Decimal numerals in ASCII

Byte strings of decimal digits and the numbers they denote.

* `digitsValue bs` is the value of a digit string; leading zeros are allowed;
* `decimal n` is the canonical numeral of `n`, without leading zeros;
* `digitsValue_decimal`: printing and reading; `decimal_length_le_iff`: the length of a numeral;
* `digitsValue_lt`: a digit string of length `k` denotes a number below `10 ^ k`;
* `Numeral tok v`: an integer with an optional minus sign; `printInt` prints one. -/

namespace Decimal

/-- The bytes `'0'` to `'9'`. -/
def isDigit (b : UInt8) : Bool := 48 ≤ b && b ≤ 57

/-- One more digit at the end. -/
def addDigit (v : ℕ) (b : UInt8) : ℕ := 10 * v + (b.toNat - 48)

/-- The value of a digit string. -/
def digitsValue (bs : List UInt8) : ℕ := bs.foldl addDigit 0

/-- The byte of a digit. -/
def digitByte (d : ℕ) : UInt8 := UInt8.ofNat (48 + d)

/-- The canonical numeral of a number. -/
def decimal (n : ℕ) : List UInt8 := if n = 0 then [48] else ((Nat.digits 10 n).map digitByte).reverse

theorem isDigit_iff {b : UInt8} : isDigit b = true ↔ 48 ≤ b.toNat ∧ b.toNat ≤ 57 := by
  simp [isDigit, UInt8.le_iff_toNat_le]

theorem digitByte_toNat {d : ℕ} (h : d < 10) : (digitByte d).toNat = 48 + d := by
  unfold digitByte
  rw [UInt8.toNat_ofNat']
  omega

theorem isDigit_digitByte {d : ℕ} (h : d < 10) : isDigit (digitByte d) = true := by
  rw [isDigit_iff, digitByte_toNat h]
  omega

theorem digitsValue_concat (bs : List UInt8) (b : UInt8) :
    digitsValue (bs ++ [b]) = 10 * digitsValue bs + (b.toNat - 48) := by
  unfold digitsValue
  rw [List.foldl_append]
  rfl

/-- The bytes of digits, the least significant last, denote the number with these digits. -/
theorem digitsValue_reverse {ds : List ℕ} (h : ∀ d ∈ ds, d < 10) :
    digitsValue (ds.map digitByte).reverse = Nat.ofDigits 10 ds := by
  induction ds with
  | nil => rfl
  | cons d ds ih =>
      rw [List.map_cons, List.reverse_cons, digitsValue_concat, Nat.ofDigits_cons,
        ih fun x hx => h x (List.mem_cons_of_mem d hx), digitByte_toNat (h d List.mem_cons_self)]
      omega

theorem digitsValue_decimal (n : ℕ) : digitsValue (decimal n) = n := by
  unfold decimal
  split_ifs with h0
  · rw [h0]
    rfl
  · rw [digitsValue_reverse fun d hd => Nat.digits_lt_base (by decide) hd, Nat.ofDigits_digits]

theorem isDigit_of_mem_decimal {n : ℕ} {b : UInt8} (h : b ∈ decimal n) : isDigit b = true := by
  unfold decimal at h
  split_ifs at h
  · rw [List.mem_singleton] at h
    rw [h]
    rfl
  · obtain ⟨d, hd, rfl⟩ := List.mem_map.mp (List.mem_reverse.mp h)
    exact isDigit_digitByte (Nat.digits_lt_base (by decide) hd)

theorem decimal_ne_nil (n : ℕ) : decimal n ≠ [] := by
  unfold decimal
  split_ifs with h0
  · exact List.cons_ne_nil _ _
  · simpa using Nat.digits_ne_nil_iff_ne_zero.mpr h0

theorem decimal_length_le_iff {n k : ℕ} (hk : 1 ≤ k) : (decimal n).length ≤ k ↔ n < 10 ^ k := by
  unfold decimal
  split_ifs with h0
  · have hpos : 0 < 10 ^ k := Nat.pow_pos (by decide)
    simp only [List.length_singleton, h0, hk, hpos]
  · rw [List.length_reverse, List.length_map]
    exact Nat.digits_length_le_iff (by decide) n

theorem digitsValue_lt {bs : List UInt8} (h : ∀ b ∈ bs, isDigit b = true) :
    digitsValue bs < 10 ^ bs.length := by
  induction bs using List.reverseRecOn with
  | nil => decide
  | append_singleton bs b ih =>
      have hb := isDigit_iff.mp (h b (by simp))
      have hlt := ih fun x hx => h x (List.mem_append_left _ hx)
      rw [digitsValue_concat, List.length_append, List.length_singleton, Nat.pow_succ]
      omega

/-! ### Digits at the start of a string -/

section leading

variable {ds rest : List UInt8}

theorem takeWhile_digits (hds : ∀ b ∈ ds, isDigit b = true) (hrest : ∀ b ∈ rest.head?, isDigit b = false) :
    (ds ++ rest).takeWhile isDigit = ds := by
  rw [List.takeWhile_append_of_pos hds]
  cases rest with
  | nil => simp
  | cons b rest => simp [hrest b rfl]

theorem dropWhile_digits (hds : ∀ b ∈ ds, isDigit b = true)
    (hrest : ∀ b ∈ rest.head?, isDigit b = false) : (ds ++ rest).dropWhile isDigit = rest := by
  rw [List.dropWhile_append_of_pos hds]
  cases rest with
  | nil => rfl
  | cons b rest => simp [hrest b rfl]

theorem head?_dropWhile_digits (bs : List UInt8) : ∀ b ∈ (bs.dropWhile isDigit).head?, isDigit b = false := by
  intro b hb
  have hnot := List.head?_dropWhile_not isDigit bs
  rw [Option.mem_def.mp hb] at hnot
  exact hnot

end leading

/-! ### Integers -/

/-- An integer in decimal: digits, with a minus sign if it is negative. -/
inductive Numeral : List UInt8 → ℤ → Prop where
  | pos {ds : List UInt8} (hne : ds ≠ []) (hds : ∀ b ∈ ds, isDigit b = true) : Numeral ds (digitsValue ds)
  | neg {ds : List UInt8} (hne : ds ≠ []) (hds : ∀ b ∈ ds, isDigit b = true) :
      Numeral (45 :: ds) (-(digitsValue ds : ℤ))

/-- A zero at the end makes an integer ten times as large. -/
theorem Numeral.concat_zero {tok : List UInt8} {v : ℤ} (h : Numeral tok v) : Numeral (tok ++ [48]) (10 * v) := by
  have hzero : ∀ ds : List UInt8, (∀ b ∈ ds, isDigit b = true) → ∀ b ∈ ds ++ [48], isDigit b = true := by
    intro ds hds b hb
    rcases List.mem_append.mp hb with hb | hb
    · exact hds b hb
    · rw [List.mem_singleton.mp hb]
      rfl
  have hvalue : ∀ ds : List UInt8, digitsValue (ds ++ [48]) = 10 * digitsValue ds :=
    fun ds => digitsValue_concat ds 48
  cases h with
  | pos hne hds =>
      have hpos := Numeral.pos (List.append_ne_nil_of_left_ne_nil hne [48]) (hzero _ hds)
      rw [hvalue] at hpos
      exact_mod_cast hpos
  | @neg ds hne hds =>
      have hneg := Numeral.neg (List.append_ne_nil_of_left_ne_nil hne [48]) (hzero _ hds)
      have heq : -((10 * digitsValue ds : ℕ) : ℤ) = 10 * -(digitsValue ds : ℤ) := by omega
      rw [hvalue, heq] at hneg
      exact hneg

/-- The canonical decimal form of an integer. -/
def printInt (z : ℤ) : List UInt8 := if z < 0 then 45 :: decimal z.natAbs else decimal z.natAbs

theorem numeral_printInt (z : ℤ) : Numeral (printInt z) z := by
  have hdigits : ∀ b ∈ decimal z.natAbs, isDigit b = true := fun b => isDigit_of_mem_decimal
  have hne := decimal_ne_nil z.natAbs
  unfold printInt
  split_ifs with hneg
  · have hvalue : -(digitsValue (decimal z.natAbs) : ℤ) = z := by
      rw [digitsValue_decimal]
      omega
    have h := Numeral.neg hne hdigits
    rwa [hvalue] at h
  · have hvalue : (digitsValue (decimal z.natAbs) : ℤ) = z := by
      rw [digitsValue_decimal]
      omega
    have h := Numeral.pos hne hdigits
    rwa [hvalue] at h

theorem printInt_length_le_iff {z : ℤ} {k : ℕ} (hk : 1 ≤ k) :
    (printInt z).length ≤ k + 1 ↔ -(10 ^ k : ℕ) < z ∧ z < (10 ^ (k + 1) : ℕ) := by
  have hpow : 10 ^ k ≤ 10 ^ (k + 1) := Nat.pow_le_pow_right (by decide) (Nat.le_succ k)
  unfold printInt
  split_ifs with hneg
  · rw [List.length_cons, Nat.add_le_add_iff_right, decimal_length_le_iff hk]
    omega
  · rw [decimal_length_le_iff (Nat.le_succ_of_le hk)]
    omega

end Decimal
