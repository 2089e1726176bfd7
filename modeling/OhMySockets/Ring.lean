import Mathlib.Data.Nat.ModEq
import Mathlib.Data.UInt

/-! # Ring indices

Slots of a ring of `n` places: item number `a` lies at slot `a % n`.  Within a window of `n`
consecutive items the slots are distinct (`slot_inj`, `slot_ne`); `Outside n a m i` says that slot
`i` is not one of the `m` slots from item `a` on.  `advance` is the successor of a slot as
fixed-width code computes it: add one and compare with the length. -/

namespace Ring

theorem slot_inj {a b n : ℕ} (h : a ≤ b) (hn : b < a + n) (he : a % n = b % n) : a = b := by
  have hdvd : n ∣ b - a := (Nat.modEq_iff_dvd' h).mp he
  have hzero := Nat.eq_zero_of_dvd_of_lt hdvd (by omega)
  omega

theorem slot_ne {a i j n : ℕ} (hi : i < n) (hj : j < n) (h : i ≠ j) : (a + i) % n ≠ (a + j) % n := by
  intro he
  rcases Nat.lt_or_gt_of_ne h with hlt | hlt
  · have := slot_inj (by omega) (by omega) he
    omega
  · have := slot_inj (by omega) (by omega) he.symm
    omega

theorem succ_slot_ne {a k n : ℕ} (hk : k + 1 < n) : (a + (k + 1)) % n ≠ a % n :=
  slot_ne (i := k + 1) (j := 0) hk (by omega) (Nat.succ_ne_zero k)

/-- The slot `m` places after that of item `a`, with the wrap-around written out. -/
theorem add_mod_eq {a m n : ℕ} (hm : m < n) :
    (a + m) % n = if a % n + m < n then a % n + m else a % n + m - n := by
  have hlt := Nat.mod_lt a (show 0 < n by omega)
  rw [← Nat.mod_add_mod]
  split_ifs with h
  · exact Nat.mod_eq_of_lt h
  · rw [Nat.mod_eq_sub_mod (by omega), Nat.mod_eq_of_lt (by omega)]

theorem succ_mod (a : ℕ) {n : ℕ} (hn : 0 < n) :
    (a + 1) % n = if a % n + 1 = n then 0 else a % n + 1 := by
  have hlt := Nat.mod_lt a hn
  rw [← Nat.mod_add_mod]
  split_ifs with h
  · rw [h, Nat.mod_self]
  · exact Nat.mod_eq_of_lt (by omega)

/-- Slot `i` holds none of the `m` items from number `a` on. -/
def Outside (n a m i : ℕ) : Prop := ∀ k < m, (a + k) % n ≠ i

theorem outside_succ_left {n a m i : ℕ} :
    Outside n a (m + 1) i ↔ a % n ≠ i ∧ Outside n (a + 1) m i := by
  constructor
  · intro h
    refine ⟨h 0 (Nat.succ_pos m), fun k hk => ?_⟩
    rw [Nat.add_assoc, Nat.add_comm 1 k]
    exact h (k + 1) (Nat.succ_lt_succ hk)
  · rintro ⟨h0, h⟩ k hk
    cases k with
    | zero => exact h0
    | succ k =>
        rw [Nat.add_comm k 1, ← Nat.add_assoc]
        exact h k (by omega)

theorem outside_succ_right {n a m i : ℕ} :
    Outside n a (m + 1) i ↔ Outside n a m i ∧ (a + m) % n ≠ i := by
  constructor
  · exact fun h => ⟨fun k hk => h k (Nat.lt_succ_of_lt hk), h m (Nat.lt_succ_self m)⟩
  · rintro ⟨h, hm⟩ k hk
    rcases Nat.lt_succ_iff_lt_or_eq.mp hk with hlt | rfl
    · exact h k hlt
    · exact hm

theorem outside_full {n i : ℕ} (hn : 0 < n) (hi : i < n) (a : ℕ) : ¬ Outside n a n i := by
  intro hout
  apply hout ((i + (n - a % n)) % n) (Nat.mod_lt _ hn)
  have hlt := Nat.mod_lt a hn
  calc (a + (i + (n - a % n)) % n) % n
      = (a % n + (i + (n - a % n))) % n := by rw [Nat.add_mod_mod, Nat.mod_add_mod]
    _ = (i + n) % n := by rw [show a % n + (i + (n - a % n)) = i + n by omega]
    _ = i := by rw [Nat.add_mod_right, Nat.mod_eq_of_lt hi]

/-- The slot after `i` in a ring of `length` slots. -/
def advance (length i : UInt32) : UInt32 := if i + 1 = length then 0 else i + 1

theorem advance_toNat {length i : UInt32} {a : ℕ} (hpos : 0 < length.toNat)
    (hi : i.toNat = a % length.toNat) : (advance length i).toNat = (a + 1) % length.toNat := by
  have hlt := Nat.mod_lt a hpos
  have hlen := length.toNat_lt
  have hsucc : (i + 1).toNat = i.toNat + 1 := by
    rw [UInt32.toNat_add]
    simp only [UInt32.reduceToNat]
    omega
  have heq : i + 1 = length ↔ a % length.toNat + 1 = length.toNat := by
    rw [← UInt32.toNat_inj, hsucc, hi]
  unfold advance
  rw [succ_mod a hpos]
  split_ifs with h1 h2 h2
  · rfl
  · exact absurd (heq.mp h1) h2
  · exact absurd (heq.mpr h2) h1
  · rw [hsucc, hi]

end Ring
