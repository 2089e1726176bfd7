import OhMySockets.Strtoul

/-! # Parsing a port

`helper_parse_port` of `common/helper/helper.c`.  The result is stored before `errno` is looked at,
and `errno` is all that decides about the status.

* `helperParsePort_of_inRange`: what is stored when the number fits an `unsigned long`;
* `portParsed_iff`: the parser accepts exactly the ports on the strings that are one, and on those
  that start with a number too large for an `unsigned long`. -/

namespace OhMySockets

open Decimal

/-- What the parser returns, what it stores in `*result`, and `errno` afterwards. -/
structure PortResult where
  status : UInt16
  result : UInt16
  errno : ℤ
  deriving DecidableEq

/-- `helper_parse_port`. -/
def helperParsePort (data : List UInt8) (errno : ℤ) : PortResult :=
  let number := strtoul data errno
  ⟨if errnoFails number.2 then 1 else 0, number.1.toUInt16, number.2⟩

/-- A whole string that denotes a port. -/
structure ValidPort (data : List UInt8) (n : ℕ) : Prop where
  nonempty : data ≠ []
  digits : ∀ b ∈ data, isDigit b = true
  value : digitsValue data = n
  bound : n ≤ 65535

/-- With `errno` clean the parser accepts exactly the ports, and stores them. -/
structure PortParsed (data : List UInt8) : Prop where
  zero_iff : (helperParsePort data 0).status = 0 ↔ ∃ n, ValidPort data n
  stores : ∀ n, ValidPort data n → (helperParsePort data 0).result.toNat = n

section port

variable {data : List UInt8} {errno : ℤ} {n : ℕ}

theorem helperParsePort_of_outOfRange (h : OutOfRange data) (errno : ℤ) :
    helperParsePort data errno = ⟨1, 65535, erange⟩ := by
  unfold helperParsePort strtoul
  rw [if_pos h]
  rfl

/-- Otherwise `errno` stays as it is, and is all that counts. -/
theorem helperParsePort_of_inRange (h : ¬ OutOfRange data) (errno : ℤ) :
    helperParsePort data errno =
      ⟨if errnoFails errno then 1 else 0, (strtoul data 0).1.toUInt16, errno⟩ := by
  unfold helperParsePort
  dsimp only
  rw [strtoul_errno, if_neg h, strtoul_value data errno 0]

theorem helperParsePort_clean (h : ¬ OutOfRange data) : (helperParsePort data 0).status = 0 := by
  rw [helperParsePort_of_inRange h]
  rfl

theorem ValidPort.subject (h : ValidPort data n) : OhMySockets.subject data = (false, data) := by
  have hend : ∀ b ∈ ([] : List UInt8).head?, isDigit b = false := by simp
  have hself := subject_digits h.nonempty h.digits hend
  rwa [List.append_nil] at hself

theorem ValidPort.inRange (h : ValidPort data n) : ¬ OutOfRange data := by
  have hbound := h.bound
  unfold OutOfRange
  rw [h.subject, h.value]
  exact Nat.not_lt.mpr (Nat.le_trans hbound (by decide))

theorem ValidPort.result (h : ValidPort data n) : (helperParsePort data 0).result.toNat = n := by
  have hbound := h.bound
  rw [helperParsePort_of_inRange h.inRange]
  unfold strtoul
  rw [if_neg h.inRange, h.subject, h.value]
  simp only [Bool.false_eq_true, if_false, UInt64.toNat_toUInt16, UInt64.toNat_ofNat']
  omega

/-- **With `errno` clean the parser is right exactly on the ports and on the strings that start with a
number larger than `ULONG_MAX`.** -/
theorem portParsed_iff (data : List UInt8) : PortParsed data ↔ (∃ n, ValidPort data n) ∨ OutOfRange data := by
  constructor
  · intro h
    by_cases hrange : OutOfRange data
    · exact Or.inr hrange
    · exact Or.inl (h.zero_iff.mp (helperParsePort_clean hrange))
  · intro h
    refine ⟨⟨fun hzero => ?_, fun ⟨n, hn⟩ => helperParsePort_clean hn.inRange⟩, fun n hn => hn.result⟩
    rcases h with hvalid | hrange
    · exact hvalid
    · rw [helperParsePort_of_outOfRange hrange] at hzero
      cases hzero

/-- The strings `70000`, `80abc`, `-1` and the empty one are accepted, as the ports 4464, 80, 65535
and 0. -/
theorem invalid_ports_accepted :
    helperParsePort [55, 48, 48, 48, 48] 0 = ⟨0, 4464, 0⟩ ∧
      helperParsePort [56, 48, 97, 98, 99] 0 = ⟨0, 80, 0⟩ ∧
      helperParsePort [45, 49] 0 = ⟨0, 65535, 0⟩ ∧ helperParsePort [] 0 = ⟨0, 0, 0⟩ ∧
      ¬ PortParsed [55, 48, 48, 48, 48] ∧ ¬ PortParsed [] := by
  refine ⟨by decide, by decide, by decide, by decide, fun h => ?_, fun h => ?_⟩
  · obtain ⟨n, hn⟩ := h.zero_iff.mp (by decide)
    have hbound := hn.bound
    rw [← hn.value] at hbound
    revert hbound
    decide
  · obtain ⟨n, hn⟩ := h.zero_iff.mp (by decide)
    exact hn.nonempty rfl

end port

end OhMySockets
