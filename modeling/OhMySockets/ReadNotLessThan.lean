import Mathlib.Data.UInt

/-! # `read_not_less_than`

The loop of `server/main.c` that reads a full frame.  One iteration asks for `chunkSize` bytes and
looks at what `read` returned (`readStatus`).

* `chunkSize_bounds`: the request is not empty and stays inside the frame;
* `readStatus_of_pos`, `readStatus_of_nonpos`: what follows from the result of `read`. -/

namespace OhMySockets

/-- `READ_CHUNK_SIZE`. -/
abbrev readChunkSize : UInt32 := 4096

/-- The number of bytes that the next `read` asks for. -/
def chunkSize (size total : UInt32) : UInt32 :=
  let sizeLeft := size - total
  if sizeLeft < readChunkSize then sizeLeft else readChunkSize

/-- The loop goes on with a new total, or the function returns. -/
inductive ReadStatus where
  | again (total : UInt32)
  | done (status : ℤ)
deriving DecidableEq

/-- What the loop does with the result of `read`; `EOF` is `-1`. -/
def readStatus (size total : UInt32) (readBytesCount : ℤ) : ReadStatus :=
  if readBytesCount = 0 then .done (-1)
  else if readBytesCount < 0 then .done readBytesCount
  else
    let total := total + UInt32.ofInt readBytesCount
    if size - total ≠ 0 then .again total else .done 0

theorem chunkSize_toNat {size total : UInt32} (h : total.toNat ≤ size.toNat) :
    (chunkSize size total).toNat = min (size.toNat - total.toNat) 4096 := by
  have hsub : (size - total).toNat = size.toNat - total.toNat :=
    UInt32.toNat_sub_of_le _ _ (UInt32.le_iff_toNat_le.mpr h)
  have hchunk : readChunkSize.toNat = 4096 := rfl
  unfold chunkSize
  simp only [UInt32.lt_iff_toNat_lt, hsub]
  split_ifs with hlt
  · omega
  · omega

/-- **Every request** is for at least one byte, at most a chunk, and stays inside the frame. -/
theorem chunkSize_bounds {size total : UInt32} (h : total.toNat < size.toNat) :
    1 ≤ (chunkSize size total).toNat ∧ (chunkSize size total).toNat ≤ 4096 ∧
      total.toNat + (chunkSize size total).toNat ≤ size.toNat := by
  rw [chunkSize_toNat (Nat.le_of_lt h)]
  omega

/-- End of stream, an error and a timeout end the loop with a negative status. -/
theorem readStatus_of_nonpos (size total : UInt32) {r : ℤ} (h : r ≤ 0) :
    ∃ status, readStatus size total r = .done status ∧ status < 0 := by
  unfold readStatus
  split_ifs with h0 hneg
  · exact ⟨-1, rfl, by decide⟩
  · exact ⟨r, rfl, hneg⟩
  all_goals omega

theorem readStatus_of_pos {size total : UInt32} {k : ℕ} (hk : 1 ≤ k) (hsize : total.toNat + k ≤ size.toNat) :
    ∃ total' : UInt32, total'.toNat = total.toNat + k ∧
      readStatus size total k = if total.toNat + k = size.toNat then .done 0 else .again total' := by
  have hlt := size.toNat_lt
  have hof : (UInt32.ofInt (k : ℤ)).toNat = k := by
    rw [UInt32.ofInt, UInt32.toNat_ofNat']
    omega
  have htotal : (total + UInt32.ofInt k).toNat = total.toNat + k := by
    rw [UInt32.toNat_add, hof]
    omega
  have hzero : size - (total + UInt32.ofInt k) = 0 ↔ total.toNat + k = size.toNat := by
    rw [← UInt32.toNat_inj, UInt32.toNat_sub_of_le _ _ (UInt32.le_iff_toNat_le.mpr (by omega)), htotal,
      UInt32.toNat_zero]
    omega
  refine ⟨_, htotal, ?_⟩
  unfold readStatus
  rw [if_neg (by omega), if_neg (by omega)]
  simp only [ne_eq, hzero, ite_not]

end OhMySockets
