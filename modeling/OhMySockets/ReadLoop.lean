import Mathlib.Algebra.BigOperators.Intervals
import Mathlib.Tactic.IntervalCases
import OhMySockets.Memory
import OhMySockets.ReadNotLessThan
import OhMySockets.WhileLoop

/-! # The whole of `read_not_less_than`

The loop with everything it calls: read number `k` returns `results k`, and a positive result
delivers that many of the next bytes of the stream at the requested place.

* `ReadInv` is what holds before every read: so far all results were positive, and their bytes are
  at the start of the buffer;
* `readNotLessThan_correct`: within `size` reads the function returns; it returns 0 exactly when the
  positive results reach `size`, and otherwise a negative number at the first other result. -/

namespace OhMySockets

open ByteMemory WhileLoop

/-- The arguments of a `read`: where in the buffer, and how many bytes. -/
structure Request where
  offset : UInt32
  count : UInt32
deriving DecidableEq

/-- The local variable `total_read_bytes` and what the reads have done so far. -/
structure ReadState where
  totalReadBytes : UInt32
  mem : Mem
  /-- the number of bytes taken from the stream -/
  consumed : ℕ
  requests : List Request

/-- What does not change during a call. -/
structure ReadCall where
  size : UInt32
  /-- the address of the buffer -/
  buffer : ℕ
  stream : ℕ → UInt8
  /-- what the successive reads return -/
  results : ℕ → ℤ

/-- The effect of one `read`. -/
def ReadCall.perform (C : ReadCall) (s : ReadState) : ReadState :=
  let result := C.results s.requests.length
  { s with
    mem := writeBytes s.mem (C.buffer + s.totalReadBytes.toNat) (bytesAt C.stream s.consumed result.toNat)
    consumed := s.consumed + result.toNat
    requests := s.requests ++ [⟨s.totalReadBytes, chunkSize C.size s.totalReadBytes⟩] }

@[simp] theorem ReadCall.perform_reads (C : ReadCall) (s : ReadState) :
    (C.perform s).requests.length = s.requests.length + 1 := by
  simp [ReadCall.perform]

/-- One turn of the loop of `read_not_less_than`. -/
def readTurn (C : ReadCall) (s : ReadState) : Turn ReadState (ReadState × ℤ) :=
  match readStatus C.size s.totalReadBytes (C.results s.requests.length) with
  | .again total => .again { C.perform s with totalReadBytes := total }
  | .done status => .leave (C.perform s, status)

/-- `read_not_less_than`, with at most `fuel` reads. -/
def readNotLessThan (C : ReadCall) (fuel : ℕ) (mem : Mem) : Option (ReadState × ℤ) :=
  run (readTurn C) fuel ⟨0, mem, 0, []⟩

/-- The bytes that the first `n` reads deliver. -/
def received (results : ℕ → ℤ) (n : ℕ) : ℕ := ∑ k ∈ Finset.range n, (results k).toNat

/-- The first `n` results are positive. -/
def AllPositive (results : ℕ → ℤ) (n : ℕ) : Prop := ∀ k < n, 0 < results k

/-- No read returns more than it was asked for. -/
def ReadCall.Admissible (C : ReadCall) : Prop :=
  ∀ n, AllPositive C.results n → received C.results n < C.size.toNat →
    C.results n ≤ (chunkSize C.size (UInt32.ofNat (received C.results n))).toNat

theorem received_succ (results : ℕ → ℤ) (n : ℕ) :
    received results (n + 1) = received results n + (results n).toNat := Finset.sum_range_succ _ _

theorem received_mono (results : ℕ → ℤ) : Monotone (received results) :=
  monotone_nat_of_le_succ fun n => by
    rw [received_succ]
    exact Nat.le_add_right _ _

theorem AllPositive.succ {results : ℕ → ℤ} {n : ℕ} (h : AllPositive results n) (hn : 0 < results n) :
    AllPositive results (n + 1) := by
  intro k hk
  rcases Nat.lt_succ_iff_lt_or_eq.mp hk with hk | rfl
  · exact h k hk
  · exact hn

theorem AllPositive.le_received {results : ℕ → ℤ} {n : ℕ} (h : AllPositive results n) :
    n ≤ received results n := by
  induction n with
  | zero => exact Nat.zero_le _
  | succ n ih =>
      have hn := h n (Nat.lt_succ_self n)
      have hle := ih fun k hk => h k (Nat.lt_succ_of_lt hk)
      rw [received_succ]
      omega

/-- A request that stays inside the buffer: not empty, at most a chunk, and the difference
`size - total_read_bytes` does not wrap. -/
structure Request.Inside (size : UInt32) (r : Request) : Prop where
  no_wrap : r.offset.toNat ≤ size.toNat
  one_le : 1 ≤ r.count.toNat
  le_chunk : r.count.toNat ≤ readChunkSize.toNat
  in_buffer : r.offset.toNat + r.count.toNat ≤ size.toNat

/-- The requests so far, each at the place that the bytes before it leave. -/
def ReadCall.GoodRequests (C : ReadCall) (requests : List Request) : Prop :=
  ∀ k r, requests[k]? = some r → r.offset.toNat = received C.results k ∧ r.Inside C.size ∧
    received C.results k + (C.results k).toNat ≤ C.size.toNat

/-- What holds before every read. -/
structure ReadInv (C : ReadCall) (s : ReadState) : Prop where
  positive : AllPositive C.results s.requests.length
  total : s.totalReadBytes.toNat = received C.results s.requests.length
  lt_size : s.totalReadBytes.toNat < C.size.toNat
  consumed : s.consumed = s.totalReadBytes.toNat
  buffer : bytesAt s.mem C.buffer s.totalReadBytes.toNat = bytesAt C.stream 0 s.totalReadBytes.toNat
  requests : C.GoodRequests s.requests

variable {C : ReadCall} {s s' : ReadState} {o : ReadState × ℤ}

/-- The function has returned 0: the buffer is full. -/
structure ReadFull (C : ReadCall) (o : ReadState × ℤ) : Prop where
  status : o.2 = 0
  positive : AllPositive C.results o.1.requests.length
  reached : received C.results o.1.requests.length = C.size.toNat
  consumed : o.1.consumed = C.size.toNat
  buffer : bytesAt o.1.mem C.buffer C.size.toNat = bytesAt C.stream 0 C.size.toNat

/-- The function has returned a negative number after a read that delivered nothing. -/
structure ReadCut (C : ReadCall) (o : ReadState × ℤ) (k : ℕ) : Prop where
  status : o.2 < 0
  reads : o.1.requests.length = k + 1
  positive : AllPositive C.results k
  last : C.results k ≤ 0
  short : received C.results k < C.size.toNat

namespace ReadInv

theorem start (hsize : 1 ≤ C.size) (mem : Mem) : ReadInv C ⟨0, mem, 0, []⟩ where
  positive := fun k hk => absurd hk (Nat.not_lt_zero k)
  total := rfl
  lt_size := UInt32.le_iff_toNat_le.mp hsize
  consumed := rfl
  buffer := rfl
  requests := fun k r hr => by simp at hr

theorem result_le (h : ReadInv C s) (hadm : C.Admissible) :
    (C.results s.requests.length).toNat ≤ (chunkSize C.size s.totalReadBytes).toNat := by
  have hlt := h.lt_size
  rw [h.total] at hlt
  have hle := hadm _ h.positive hlt
  rw [← h.total, UInt32.ofNat_toNat] at hle
  omega

theorem perform_requests (h : ReadInv C s) (hadm : C.Admissible) :
    C.GoodRequests (C.perform s).requests := by
  obtain ⟨hone, hchunk, hin⟩ := chunkSize_bounds h.lt_size
  have hresult := h.result_le hadm
  intro k r hr
  rcases Nat.lt_trichotomy k s.requests.length with hk | rfl | hk
  · apply h.requests k r
    rwa [ReadCall.perform, List.getElem?_append_left hk] at hr
  · have hr' : r = ⟨s.totalReadBytes, chunkSize C.size s.totalReadBytes⟩ := by
      simpa [ReadCall.perform, eq_comm] using hr
    subst hr'
    refine ⟨h.total, ⟨Nat.le_of_lt h.lt_size, hone, hchunk, hin⟩, ?_⟩
    rw [← h.total]
    omega
  · rw [ReadCall.perform, List.getElem?_eq_none (by simpa using hk)] at hr
    cases hr

theorem perform_buffer (h : ReadInv C s) :
    bytesAt (C.perform s).mem C.buffer (s.totalReadBytes.toNat + (C.results s.requests.length).toNat) =
      bytesAt C.stream 0 (s.totalReadBytes.toNat + (C.results s.requests.length).toNat) := by
  rw [bytesAt_add, bytesAt_add]
  unfold ReadCall.perform
  rw [bytesAt_writeBytes_self _ _ _ (bytesAt_length ..), bytesAt_writeBytes_of_disjoint _ (Or.inl (Nat.le_refl _)),
    h.buffer, h.consumed, Nat.zero_add]

theorem turn_pos (h : ReadInv C s) (hadm : C.Admissible) (hpos : 0 < C.results s.requests.length) :
    ∃ total : UInt32, total.toNat = s.totalReadBytes.toNat + (C.results s.requests.length).toNat ∧
      total.toNat ≤ C.size.toNat ∧
      readTurn C s = if total.toNat = C.size.toNat then .leave (C.perform s, 0)
        else .again { C.perform s with totalReadBytes := total } := by
  have hresult := h.result_le hadm
  obtain ⟨-, -, hin⟩ := chunkSize_bounds h.lt_size
  have hcast : ((C.results s.requests.length).toNat : ℤ) = C.results s.requests.length :=
    Int.toNat_of_nonneg (Int.le_of_lt hpos)
  have hfits : s.totalReadBytes.toNat + (C.results s.requests.length).toNat ≤ C.size.toNat := by omega
  obtain ⟨total, htotal, hstatus⟩ := readStatus_of_pos (by omega) hfits
  refine ⟨total, htotal, by omega, ?_⟩
  rw [hcast, ← htotal] at hstatus
  unfold readTurn
  rw [hstatus]
  split_ifs <;> rfl

theorem turn_nonpos (hres : C.results s.requests.length ≤ 0) :
    ∃ status, readTurn C s = .leave (C.perform s, status) ∧ status < 0 := by
  obtain ⟨status, hstatus, hneg⟩ := readStatus_of_nonpos C.size s.totalReadBytes hres
  refine ⟨status, ?_, hneg⟩
  unfold readTurn
  rw [hstatus]

/-- **A turn that goes on** keeps the invariant, and less of the buffer is left. -/
theorem again (h : ReadInv C s) (hadm : C.Admissible) (hturn : readTurn C s = .again s') :
    ReadInv C s' ∧ C.size.toNat - 1 - s'.totalReadBytes.toNat < C.size.toNat - 1 - s.totalReadBytes.toNat := by
  rcases lt_or_ge 0 (C.results s.requests.length) with hpos | hnonpos
  · obtain ⟨total, htotal, hle, heq⟩ := h.turn_pos hadm hpos
    rw [heq] at hturn
    split_ifs at hturn with hfull
    cases hturn
    have hlt := h.lt_size
    refine ⟨⟨?_, ?_, ?_, ?_, ?_, h.perform_requests hadm⟩, ?_⟩
    · show AllPositive C.results (C.perform s).requests.length
      rw [C.perform_reads]
      exact h.positive.succ hpos
    · show total.toNat = received C.results (C.perform s).requests.length
      rw [C.perform_reads, received_succ, ← h.total, htotal]
    · show total.toNat < C.size.toNat
      omega
    · show s.consumed + (C.results s.requests.length).toNat = total.toNat
      rw [h.consumed, htotal]
    · show bytesAt (C.perform s).mem C.buffer total.toNat = bytesAt C.stream 0 total.toNat
      rw [htotal]
      exact h.perform_buffer
    · show C.size.toNat - 1 - total.toNat < _
      omega
  · obtain ⟨status, heq, -⟩ := turn_nonpos hnonpos
    rw [heq] at hturn
    cases hturn

/-- **A turn that leaves the loop**: the buffer is full, or the read delivered nothing. -/
theorem leave (h : ReadInv C s) (hadm : C.Admissible) (hturn : readTurn C s = .leave o) :
    (ReadFull C o ∨ ∃ k, ReadCut C o k) ∧ C.GoodRequests o.1.requests := by
  rcases lt_or_ge 0 (C.results s.requests.length) with hpos | hnonpos
  · obtain ⟨total, htotal, hle, heq⟩ := h.turn_pos hadm hpos
    rw [heq] at hturn
    split_ifs at hturn with hfull
    cases hturn
    refine ⟨Or.inl ⟨rfl, ?_, ?_, ?_, ?_⟩, h.perform_requests hadm⟩
    · rw [C.perform_reads]
      exact h.positive.succ hpos
    · rw [C.perform_reads, received_succ, ← h.total, ← htotal, hfull]
    · show s.consumed + (C.results s.requests.length).toNat = C.size.toNat
      rw [h.consumed, ← htotal, hfull]
    · rw [← hfull, htotal]
      exact h.perform_buffer
  · obtain ⟨status, heq, hneg⟩ := turn_nonpos hnonpos
    rw [heq] at hturn
    cases hturn
    refine ⟨Or.inr ⟨s.requests.length, hneg, ?_, h.positive, hnonpos, ?_⟩, h.perform_requests hadm⟩
    · exact C.perform_reads s
    · rw [← h.total]
      exact h.lt_size

end ReadInv

/-- What `read_not_less_than` has done when it returns. -/
structure ReadCorrect (C : ReadCall) (o : ReadState × ℤ) : Prop where
  /-- it returns 0 when the positive results reach `size` before any other -/
  zero_iff : o.2 = 0 ↔ ∃ n, AllPositive C.results n ∧ received C.results n = C.size.toNat
  /-- then the buffer holds the delivered bytes, and no more have been taken -/
  filled : o.2 = 0 → bytesAt o.1.mem C.buffer C.size.toNat = bytesAt C.stream 0 C.size.toNat ∧
    o.1.consumed = C.size.toNat
  /-- otherwise it returns a negative number at the first result that is not positive -/
  negative : o.2 ≠ 0 → o.2 < 0 ∧ ∃ k, o.1.requests.length = k + 1 ∧ AllPositive C.results k ∧ C.results k ≤ 0
  requests : C.GoodRequests o.1.requests
  reads : o.1.requests.length ≤ C.size.toNat

theorem ReadFull.correct (h : ReadFull C o) (hrequests : C.GoodRequests o.1.requests) : ReadCorrect C o where
  zero_iff := ⟨fun _ => ⟨_, h.positive, h.reached⟩, fun _ => h.status⟩
  filled := fun _ => ⟨h.buffer, h.consumed⟩
  negative := fun hne => absurd h.status hne
  requests := hrequests
  reads := h.reached ▸ h.positive.le_received

theorem ReadCut.correct {k : ℕ} (h : ReadCut C o k) (hrequests : C.GoodRequests o.1.requests) :
    ReadCorrect C o where
  zero_iff := by
    constructor
    · intro h0
      exact absurd h0 (Int.ne_of_lt h.status)
    · rintro ⟨n, hpositive, hreached⟩
      -- the results cannot reach `size` before read number `k`, and that one is not positive
      rcases Nat.lt_or_ge k n with hlt | hge
      · exact absurd (hpositive k hlt) (Int.not_lt.mpr h.last)
      · have hmono := received_mono C.results hge
        have hshort := h.short
        omega
  filled := fun h0 => absurd h0 (Int.ne_of_lt h.status)
  negative := fun _ => ⟨h.status, k, h.reads, h.positive, h.last⟩
  requests := hrequests
  reads := by
    have hle := h.positive.le_received
    have hshort := h.short
    rw [h.reads]
    omega

/-- **`read_not_less_than` returns within `size` reads**, and does what it should. -/
theorem readNotLessThan_correct (hsize : 1 ≤ C.size) (hadm : C.Admissible) (mem : Mem) :
    ∃ o, readNotLessThan C C.size.toNat mem = some o ∧ ReadCorrect C o := by
  have hpos : 1 ≤ C.size.toNat := UInt32.le_iff_toNat_le.mp hsize
  have hvariant : C.size.toNat - 1 - (0 : UInt32).toNat < C.size.toNat := by
    rw [UInt32.toNat_zero]
    omega
  obtain ⟨o, hrun, hdone, hrequests⟩ :=
    run_of_variant (fun s : ReadState => C.size.toNat - 1 - s.totalReadBytes.toNat)
      (fun s s' h => ReadInv.again h hadm) (fun s o h => ReadInv.leave h hadm) (ReadInv.start hsize mem) hvariant
  refine ⟨o, hrun, ?_⟩
  rcases hdone with hfull | ⟨k, hcut⟩
  · exact hfull.correct hrequests
  · exact hcut.correct hrequests

theorem readNotLessThan_correct_two_reads :
    let C : ReadCall := ⟨3, 100, fun k => UInt8.ofNat (k + 7), fun k => if k = 0 then 2 else 1⟩
    ∃ o, readNotLessThan C 3 (fun _ => 0) = some o ∧ ReadCorrect C o := by
  apply readNotLessThan_correct (by decide)
  intro n hpositive hshort
  have hle := hpositive.le_received
  have hn : n < 3 := Nat.lt_of_le_of_lt hle hshort
  clear hle hpositive
  revert hshort
  interval_cases n <;> decide

end OhMySockets
