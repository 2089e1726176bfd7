import Mathlib.Data.List.ReduceOption
import OhMySockets.BufferRuns

/-! # The initial content of the slots

`cb_create` leaves the slots as `malloc` returns them.  Two runs of the same calls on buffers that
differ only in that content are compared:

* `returns_eq`: they always return the same values;
* `freed_effects`: the pointers that a run frees are those found in the slots of its first lap,
  followed by the pointers that the drop-oldest queue drops;
* `inspectsWritten_iff`: a run inspects no unwritten slot exactly when none of its pushes gets the
  lock;
* `content_irrelevant_iff`: the runs are alike in all respects exactly when none of the pushes gets
  the lock. -/

namespace OhMySockets

open DropQueue (Op pushes)

variable {α : Type}

/-- The number of pushes of a run that get the lock. -/
def lockedPushes (calls : List (Call α)) : ℕ := (pushes (queueOps calls)).length

theorem lockedPushes_concat (calls : List (Call α)) (c : Call α) :
    lockedPushes (calls ++ [c]) = lockedPushes calls + (pushes c.ops).length := by
  unfold lockedPushes
  rw [queueOps_concat, DropQueue.pushes_append, List.length_append]

/-- Every slot that a push of the run inspects was written by an earlier push or pull of the run. -/
def InspectsWritten (cb : CircularBuffer α) (calls : List (Call α)) : Prop :=
  ∀ pre mutex packet post, calls = pre ++ .push mutex packet :: post →
    ∀ i, .slotRead i ∈ (cbPush mutex (after cb pre) packet).effects → .slotWrite i ∈ effects cb pre

/-- The two runs return the same values, free the same pointers in the same order, and inspect no
slot that they have not written. -/
structure ContentIrrelevant (cb cb' : CircularBuffer α) (calls : List (Call α)) : Prop where
  returns : returns cb calls = returns cb' calls
  freed : freed (effects cb calls) = freed (effects cb' calls)
  written : InspectsWritten cb calls
  written' : InspectsWritten cb' calls

section oneRun

variable {length : UInt32} {content : ℕ → Option α} {cb : CircularBuffer α}

theorem range_min_succ (n cap : ℕ) : (List.range (min (n + 1) cap)).filterMap content =
    (List.range (min n cap)).filterMap content ++ if n < cap then (content n).toList else [] := by
  split_ifs with h
  · rw [Nat.min_eq_left (by omega), Nat.min_eq_left (by omega), List.range_succ, List.filterMap_append]
    cases hn : content n <;> simp [hn]
  · rw [Nat.min_eq_right (by omega), Nat.min_eq_right (by omega), List.append_nil]

/-- **The pointers that a run frees.** -/
theorem freed_effects (h : cbCreate 0 length content = some cb) (calls : List (Call α)) :
    freed (effects cb calls) =
      (List.range (min (lockedPushes calls) length.toNat)).filterMap content ++
        (DropQueue.dropped length.toNat (queueOps calls)).reduceOption := by
  induction calls using List.reverseRecOn with
  | nil => rfl
  | append_singleton calls c ih =>
      obtain ⟨a, hlayout, hcount⟩ := layout_run h calls
      rw [← lockedPushes] at hcount
      have hfreed := hlayout.freed_call c
      rw [after_length, (Layout.create h).2, hcount] at hfreed
      rw [effects_concat, freed_append, ih, hfreed, lockedPushes_concat, queueOps_concat]
      cases c with
      | currentLength mutex => simp [Call.frees, Call.ops]
      | pull mutex =>
          simp only [Call.frees, Call.ops, List.append_nil]
          split_ifs
          · rw [DropQueue.dropped_concat]
            simp [DropQueue.step, DropQueue.Output.dropped?]
          · simp
      | push mutex x =>
          simp only [Call.frees, Call.ops]
          split_ifs with hlock hfirst
          · -- a push of the first lap: the queue drops nothing
            have hnil : DropQueue.dropped length.toNat (queueOps calls) = [] :=
              DropQueue.dropped_eq_nil (Nat.le_of_lt hfirst)
            have hnone := DropQueue.push_snd_of_lt
              (show (DropQueue.contents length.toNat (queueOps calls)).length < length.toNat by omega) x
            rw [DropQueue.dropped_concat, hnil, DropQueue.pushes_push, DropQueue.pushes_nil,
              List.length_singleton, range_min_succ, if_pos hfirst]
            simp [DropQueue.step, DropQueue.Output.dropped?, hnone]
          · rw [DropQueue.dropped_concat, DropQueue.pushes_push, DropQueue.pushes_nil,
              List.length_singleton, range_min_succ, if_neg hfirst, List.append_nil,
              List.reduceOption_append, ← List.append_assoc]
            simp only [DropQueue.step, DropQueue.Output.dropped?]
            cases (DropQueue.push length.toNat (DropQueue.contents length.toNat (queueOps calls)) x).2 with
            | none => rfl
            | some d => cases d <;> rfl
          · simp

theorem effects_eq_nil (h : cbCreate 0 length content = some cb) {calls : List (Call α)}
    (hnone : lockedPushes calls = 0) : effects cb calls = [] := by
  induction calls using List.reverseRecOn with
  | nil => rfl
  | append_singleton calls c ih =>
      rw [lockedPushes_concat] at hnone
      rw [effects_concat, ih (by omega), List.nil_append]
      cases c with
      | currentLength mutex => exact cbCurrentLength_effects mutex _
      | pull mutex =>
          obtain ⟨a, hlayout, hcount⟩ := layout_run h calls
          have hle := (DropQueue.contents_suffix length.toNat (queueOps calls)).length_le
          have hempty : DropQueue.contents length.toNat (queueOps calls) = [] :=
            List.eq_nil_of_length_eq_zero (by unfold lockedPushes at hnone; omega)
          rw [hempty] at hlayout
          show (cbPull mutex (after cb calls)).effects = []
          unfold cbPull
          rw [hlayout.pull_empty]
          split_ifs <;> rfl
      | push mutex x =>
          have hlock : mutex.lock ≠ 0 := by
            intro hlock
            simp [Call.ops, hlock] at hnone
          show (cbPush mutex (after cb calls) x).effects = []
          unfold cbPush
          rw [if_pos hlock]

theorem exists_first_push {calls : List (Call α)} (h : lockedPushes calls ≠ 0) :
    ∃ pre mutex packet post, calls = pre ++ .push mutex packet :: post ∧ mutex.lock = 0 ∧
      lockedPushes pre = 0 := by
  induction calls using List.reverseRecOn with
  | nil => exact absurd rfl h
  | append_singleton calls c ih =>
      by_cases h0 : lockedPushes calls = 0
      · rw [lockedPushes_concat, h0, Nat.zero_add] at h
        cases c with
        | currentLength mutex => exact absurd rfl h
        | pull mutex =>
            simp only [Call.ops] at h
            split_ifs at h <;> exact absurd rfl h
        | push mutex x =>
            simp only [Call.ops] at h
            split_ifs at h with hlock
            · exact ⟨calls, mutex, x, [], rfl, hlock, h0⟩
            · exact absurd rfl h
      · obtain ⟨pre, mutex, x, post, rfl, hlock, hpre⟩ := ih h0
        exact ⟨pre, mutex, x, post ++ [c], by simp, hlock, hpre⟩

theorem slotRead_mem_cbPush {mutex : MutexCalls} {packet : Option α} (hlock : mutex.lock = 0) :
    .slotRead cb.pushIndex.toNat ∈ (cbPush mutex cb packet).effects := by
  unfold cbPush
  rw [if_neg (not_not_intro hlock)]
  split_ifs <;> exact List.mem_cons_self

/-- **A run inspects a slot that it has not written as soon as a push gets the lock.** -/
theorem inspectsWritten_iff (h : cbCreate 0 length content = some cb) (calls : List (Call α)) :
    InspectsWritten cb calls ↔ lockedPushes calls = 0 := by
  constructor
  · intro hwritten
    by_contra hsome
    obtain ⟨pre, mutex, x, post, hcalls, hlock, hpre⟩ := exists_first_push hsome
    have hwrite := hwritten pre mutex x post hcalls _ (slotRead_mem_cbPush hlock)
    rw [effects_eq_nil h hpre] at hwrite
    cases hwrite
  · rintro hnone pre mutex x post rfl i hread
    have hlock : mutex.lock ≠ 0 := by
      intro hlock
      unfold lockedPushes queueOps at hnone
      rw [List.flatMap_append, List.flatMap_cons] at hnone
      simp [Call.ops, hlock] at hnone
    unfold cbPush at hread
    rw [if_pos hlock] at hread
    cases hread

end oneRun

section twoRuns

variable {length : UInt32} {content content' : ℕ → Option α} {cb cb' : CircularBuffer α}

/-- **The returned values do not depend on the initial content.** -/
theorem returns_eq (h : cbCreate 0 length content = some cb) (h' : cbCreate 0 length content' = some cb')
    (calls : List (Call α)) : returns cb calls = returns cb' calls := by
  induction calls using List.reverseRecOn with
  | nil => rfl
  | append_singleton calls c ih =>
      obtain ⟨a, hlayout, _⟩ := layout_run h calls
      obtain ⟨a', hlayout', _⟩ := layout_run h' calls
      rw [returns_concat, returns_concat, ih, hlayout.call_ret, hlayout'.call_ret, after_length,
        after_length, (Layout.create h).2, (Layout.create h').2]

/-- **Two runs return the same values; they free the same pointers exactly when the slots of the
first lap held the same pointers; they are alike in all respects exactly when no push gets the
lock.** -/
theorem content_irrelevant_iff (h : cbCreate 0 length content = some cb)
    (h' : cbCreate 0 length content' = some cb') (calls : List (Call α)) :
    returns cb calls = returns cb' calls ∧
    (freed (effects cb calls) = freed (effects cb' calls) ↔
      (List.range (min (lockedPushes calls) length.toNat)).filterMap content =
        (List.range (min (lockedPushes calls) length.toNat)).filterMap content') ∧
    (ContentIrrelevant cb cb' calls ↔ lockedPushes calls = 0) := by
  refine ⟨returns_eq h h' calls, ?_, ?_⟩
  · rw [freed_effects h, freed_effects h', List.append_cancel_right_eq]
  · constructor
    · intro hirr
      exact (inspectsWritten_iff h calls).mp hirr.written
    · intro hnone
      refine ⟨returns_eq h h' calls, ?_, (inspectsWritten_iff h calls).mpr hnone,
        (inspectsWritten_iff h' calls).mpr hnone⟩
      rw [effects_eq_nil h hnone, effects_eq_nil h' hnone]

theorem content_irrelevant_iff_one_push :
    let cb : CircularBuffer ℕ := ⟨1, 0, fun _ => none, 0, 0⟩
    let cb' : CircularBuffer ℕ := ⟨1, 0, fun _ => some 5, 0, 0⟩
    let calls : List (Call ℕ) := [.push .ok (some 7)]
    cbCreate 0 1 (fun _ => none) = some cb ∧ cbCreate 0 1 (fun _ => some 5) = some cb' ∧
      returns cb calls = returns cb' calls ∧
      (freed (effects cb calls) = freed (effects cb' calls) ↔
        (List.range (min (lockedPushes calls) (1 : UInt32).toNat)).filterMap (fun _ => (none : Option ℕ)) =
          (List.range (min (lockedPushes calls) (1 : UInt32).toNat)).filterMap (fun _ => some 5)) ∧
      (ContentIrrelevant cb cb' calls ↔ lockedPushes calls = 0) :=
  ⟨rfl, rfl, content_irrelevant_iff rfl rfl _⟩

/-- One push into a buffer of one slot frees what `malloc` left there. -/
theorem first_push_frees :
    let cb : CircularBuffer ℕ := ⟨1, 0, fun _ => none, 0, 0⟩
    let cb' : CircularBuffer ℕ := ⟨1, 0, fun _ => some 5, 0, 0⟩
    cbCreate 0 1 (fun _ => none) = some cb ∧ cbCreate 0 1 (fun _ => some 5) = some cb' ∧
      freed (effects cb' [.push .ok (some 7)]) = [5] ∧
      ¬ ContentIrrelevant cb cb' [.push .ok (some 7)] := by
  refine ⟨rfl, rfl, by decide, fun hirr => ?_⟩
  have hfreed := hirr.freed
  revert hfreed
  decide

end twoRuns

end OhMySockets
