import OhMySockets.ByteOrder
import OhMySockets.Memory

/-! # The helpers of the packet codec

`common/helper/helper.c`: the byte order of the host as the program finds it out
(`helperGetSystemEndian`) and the in-place reversal of a byte buffer (`helperFlipBytes`).
The indices of the reversal are 32-bit unsigned numbers, as in the source: for an empty
buffer the right index starts at `2 ^ 32 - 1`.

* `helperFlipBytes_footprint`: every access is at an index below `length`;
* `helperFlipBytes_bytesAt`: the buffer ends up reversed;
* `helperFlipBytes_twice`: a second call restores the memory;
* `helperFlipBytes_correct`: all of this for a buffer that may be longer than `length`. -/

namespace OhMySockets

open ByteMemory

/-- `helper_get_system_endian`: look at the first byte in memory of the `int` 1. -/
def helperGetSystemEndian (host : ByteOrder) : ByteOrder :=
  if (host.bytes 4 1).head? = some 1 then .little else .big

@[simp] theorem helperGetSystemEndian_eq (host : ByteOrder) : helperGetSystemEndian host = host := by
  cases host <;> decide

/-- The `for` loop of `helper_flip_bytes`, from the indices `leftIndex` and `rightIndex` on. -/
def flipLoop (buffer : ℕ) (length leftIndex rightIndex : UInt32) : Cmd Unit :=
  if leftIndex < length then
    if leftIndex = rightIndex ∨ leftIndex > rightIndex then pure ()
    else do
      let tmpByte ← load8 (buffer + leftIndex.toNat)
      let rightByte ← load8 (buffer + rightIndex.toNat)
      store8 (buffer + leftIndex.toNat) rightByte
      store8 (buffer + rightIndex.toNat) tmpByte
      flipLoop buffer length (leftIndex + 1) (rightIndex - 1)
  else pure ()
termination_by length.toNat - leftIndex.toNat
decreasing_by
  rename_i h _
  have h1 := UInt32.lt_iff_toNat_lt.mp h
  have h2 := length.toNat_lt
  rw [UInt32.toNat_add]
  simp only [UInt32.reduceToNat]
  omega

/-- `helper_flip_bytes`. -/
def helperFlipBytes (buffer : ℕ) (length : UInt32) : Cmd Unit :=
  flipLoop buffer length 0 (length - 1)

/-! ### Index arithmetic -/

theorem toNat_succ {i n : UInt32} (h : i < n) : (i + 1).toNat = i.toNat + 1 := by
  have h1 := UInt32.lt_iff_toNat_lt.mp h
  have h2 := n.toNat_lt
  rw [UInt32.toNat_add]
  simp only [UInt32.reduceToNat]
  omega

theorem toNat_pred {i n : UInt32} (h : n < i) : (i - 1).toNat = i.toNat - 1 := by
  have h1 := UInt32.lt_iff_toNat_lt.mp h
  have h2 : (1 : UInt32) ≤ i := UInt32.le_iff_toNat_le.mpr (by simp only [UInt32.reduceToNat]; omega)
  rw [UInt32.toNat_sub_of_le _ _ h2]
  rfl

/-! ### The accesses of the loop -/

theorem flipLoop_footprint (buffer : ℕ) (length l r : UInt32) (hr : r < length) :
    Footprint (Set.Ico buffer (buffer + length.toNat)) (Set.Ico buffer (buffer + length.toNat))
      (flipLoop buffer length l r) := by
  induction l, r using flipLoop.induct length with
  | case1 l r hl hstop =>
      rw [flipLoop, if_pos hl, if_pos hstop]
      exact Footprint.pure ()
  | case2 l r hl hgo ih =>
      have hl' := UInt32.lt_iff_toNat_lt.mp hl
      have hr' := UInt32.lt_iff_toNat_lt.mp hr
      have hL : buffer + l.toNat ∈ Set.Ico buffer (buffer + length.toNat) :=
        ⟨by omega, by omega⟩
      have hR : buffer + r.toNat ∈ Set.Ico buffer (buffer + length.toNat) :=
        ⟨by omega, by omega⟩
      have hlt : l < r := by grind
      have hpred := toNat_pred hlt
      have hr1 : r - 1 < length := UInt32.lt_iff_toNat_lt.mpr (by omega)
      rw [flipLoop, if_pos hl, if_neg hgo]
      exact (Footprint.load8 hL).bind fun _ => (Footprint.load8 hR).bind fun _ =>
        (Footprint.store8 hL).bind fun _ => (Footprint.store8 hR).bind fun _ => ih hr1
  | case3 l r hl =>
      rw [flipLoop, if_neg hl]
      exact Footprint.pure ()

theorem helperFlipBytes_footprint (buffer : ℕ) (length : UInt32) :
    Footprint (Set.Ico buffer (buffer + length.toNat)) (Set.Ico buffer (buffer + length.toNat))
      (helperFlipBytes buffer length) := by
  unfold helperFlipBytes
  by_cases h0 : length = 0
  · subst h0
    rw [flipLoop, if_neg (by decide)]
    exact Footprint.pure ()
  · apply flipLoop_footprint
    have hpos : 0 < length := by grind
    have := toNat_pred hpos
    have := UInt32.lt_iff_toNat_lt.mp hpos
    exact UInt32.lt_iff_toNat_lt.mpr (by simp only [UInt32.reduceToNat] at *; omega)

/-! ### The effect of the loop -/

theorem flipLoop_mem (buffer : ℕ) (length l r : UInt32) (hr : r < length) (m : Machine) (x : ℕ) :
    (exec (flipLoop buffer length l r) m).mem x =
      if buffer + l.toNat ≤ x ∧ x ≤ buffer + r.toNat then
        m.mem (buffer + l.toNat + (buffer + r.toNat) - x)
      else m.mem x := by
  induction l, r using flipLoop.induct length generalizing m with
  | case1 l r hl hstop =>
      have hle : r.toNat ≤ l.toNat := by
        rcases hstop with h | h
        · rw [h]
        · exact (UInt32.lt_iff_toNat_lt.mp h).le
      rw [flipLoop, if_pos hl, if_pos hstop, exec_pure]
      split_ifs with hx
      · congr 1
        omega
      · rfl
  | case2 l r hl hgo ih =>
      have hlt : l < r := by grind
      have hlt' := UInt32.lt_iff_toNat_lt.mp hlt
      have hpred := toNat_pred hlt
      have hsucc := toNat_succ hl
      have hr' := UInt32.lt_iff_toNat_lt.mp hr
      have hr1 : r - 1 < length := UInt32.lt_iff_toNat_lt.mpr (by omega)
      rw [flipLoop, if_pos hl, if_neg hgo]
      simp only [exec_bind, eval_load8]
      rw [ih hr1]
      simp only [mem_store8, mem_load8, hpred, hsucc, Function.update_apply]
      -- the two outermost bytes are exchanged here, the bytes between them by the rest
      grind
  | case3 l r hl =>
      have hl' := Nat.not_lt.mp fun h => hl (UInt32.lt_iff_toNat_lt.mpr h)
      have hr' := UInt32.lt_iff_toNat_lt.mp hr
      rw [flipLoop, if_neg hl, exec_pure, if_neg (by omega)]

/-- `helper_flip_bytes` at every address: the byte at index `i` comes from `length - 1 - i`. -/
theorem helperFlipBytes_mem (buffer : ℕ) (length : UInt32) (m : Machine) (x : ℕ) :
    (exec (helperFlipBytes buffer length) m).mem x =
      if buffer ≤ x ∧ x < buffer + length.toNat then
        m.mem (buffer + length.toNat - 1 - (x - buffer))
      else m.mem x := by
  unfold helperFlipBytes
  by_cases h0 : length = 0
  · subst h0
    rw [flipLoop, if_neg (by decide), exec_pure, if_neg (by simp)]
  · have hpos : 0 < length := by grind
    have hpred := toNat_pred hpos
    have hpos' := UInt32.lt_iff_toNat_lt.mp hpos
    simp only [UInt32.reduceToNat] at hpos'
    rw [flipLoop_mem _ _ _ _ (UInt32.lt_iff_toNat_lt.mpr (by omega)), hpred]
    simp only [UInt32.reduceToNat, Nat.add_zero]
    grind

theorem helperFlipBytes_bytesAt (buffer : ℕ) (length : UInt32) (m : Machine) {n : ℕ}
    (hn : length.toNat = n) :
    bytesAt (exec (helperFlipBytes buffer length) m).mem buffer n =
      (bytesAt m.mem buffer n).reverse := by
  apply List.ext_getElem (by simp)
  intro i h1 h2
  have hi : i < n := by simpa using h1
  rw [bytesAt_getElem, helperFlipBytes_mem, if_pos (by omega), List.getElem_reverse,
    bytesAt_getElem, bytesAt_length]
  congr 1
  omega

/-! ### The whole function -/

theorem helperFlipBytes_frame (buffer : ℕ) (length : UInt32) (m : Machine) {x : ℕ}
    (hx : x < buffer ∨ buffer + length.toNat ≤ x) :
    (exec (helperFlipBytes buffer length) m).mem x = m.mem x :=
  (helperFlipBytes_footprint buffer length).frame_Ico m hx

/-- A buffer of `size` bytes of which the first `length` are flipped. -/
theorem helperFlipBytes_prefix (buffer : ℕ) (length : UInt32) (m : Machine) {size : ℕ}
    (hsize : length.toNat ≤ size) :
    bytesAt (exec (helperFlipBytes buffer length) m).mem buffer size =
      ((bytesAt m.mem buffer size).take length.toNat).reverse ++
        (bytesAt m.mem buffer size).drop length.toNat := by
  obtain ⟨rest, rfl⟩ := Nat.exists_eq_add_of_le hsize
  have htail : bytesAt (exec (helperFlipBytes buffer length) m).mem (buffer + length.toNat) rest =
      bytesAt m.mem (buffer + length.toNat) rest := by
    apply bytesAt_congr
    intro i hi
    exact helperFlipBytes_frame buffer length m (Or.inr (by omega))
  rw [bytesAt_add, bytesAt_add, helperFlipBytes_bytesAt _ _ _ rfl, htail,
    List.take_left' (bytesAt_length _ _ _), List.drop_left' (bytesAt_length _ _ _)]

/-- The reflection of the indices is its own inverse, so a second flip undoes the first. -/
theorem helperFlipBytes_twice (buffer : ℕ) (length : UInt32) (m : Machine) :
    (exec (do helperFlipBytes buffer length; helperFlipBytes buffer length) m).mem = m.mem := by
  funext x
  rw [exec_bind, helperFlipBytes_mem]
  by_cases hx : buffer ≤ x ∧ x < buffer + length.toNat
  · have hback : buffer + length.toNat - 1 - (buffer + length.toNat - 1 - (x - buffer) - buffer) = x := by
      omega
    rw [if_pos hx, helperFlipBytes_mem, if_pos (by omega), hback]
  · rw [if_neg hx]
    exact helperFlipBytes_frame buffer length m (by omega)

/-- What `helper_flip_bytes` does to a memory `mem` when it is called on `buffer` and `length`. -/
structure FlipsBytes (buffer : ℕ) (length : UInt32) (mem : Mem) : Prop where
  /-- In a buffer of any size from `length` on, the first `length` bytes are reversed in place
  and the bytes behind them are as before. -/
  contents : ∀ size, length.toNat ≤ size →
    bytesAt (exec (helperFlipBytes buffer length) ⟨mem, [], []⟩).mem buffer size =
      ((bytesAt mem buffer size).take length.toNat).reverse ++ (bytesAt mem buffer size).drop length.toNat
  unchanged : ∀ x, x < buffer ∨ buffer + length.toNat ≤ x →
    (exec (helperFlipBytes buffer length) ⟨mem, [], []⟩).mem x = mem x
  reads : ∀ x ∈ (exec (helperFlipBytes buffer length) ⟨mem, [], []⟩).reads,
    ∃ i < length.toNat, x = buffer + i
  writes : ∀ x ∈ (exec (helperFlipBytes buffer length) ⟨mem, [], []⟩).writes,
    ∃ i < length.toNat, x = buffer + i
  twice : (exec (do helperFlipBytes buffer length; helperFlipBytes buffer length) ⟨mem, [], []⟩).mem = mem

theorem index_of_mem_buffer {buffer x : ℕ} {length : UInt32}
    (hx : x ∈ Set.Ico buffer (buffer + length.toNat)) : ∃ i < length.toNat, x = buffer + i := by
  obtain ⟨hlo, hhi⟩ := hx
  exact ⟨x - buffer, by omega, by omega⟩

/-- `helper_flip_bytes` on every buffer and every length, the length 0 with its wrapped right
index included: for it the access log stays empty. -/
theorem helperFlipBytes_correct (buffer : ℕ) (length : UInt32) (mem : Mem) :
    FlipsBytes buffer length mem where
  contents size hsize := helperFlipBytes_prefix buffer length _ hsize
  unchanged x hx := helperFlipBytes_frame buffer length _ hx
  reads x hx := by
    rcases (helperFlipBytes_footprint buffer length).reads _ x hx with hlog | hin
    · exact absurd hlog List.not_mem_nil
    · exact index_of_mem_buffer hin
  writes x hx := by
    rcases (helperFlipBytes_footprint buffer length).writes _ x hx with hlog | hin
    · exact absurd hlog List.not_mem_nil
    · exact index_of_mem_buffer hin
  twice := helperFlipBytes_twice buffer length _

end OhMySockets
