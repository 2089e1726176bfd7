import OhMySockets.BufferRuns

/-! # Failed calls on the buffer

A call reports failure with `-1` or `NULL`.  It keeps the buffer's contents when it changes no
unread packet and releases none (`KeepsContents`).

* `Layout.keeps_iff`: a failed call keeps the contents unless its unlock fails after the critical
  section has changed the buffer (`Call.FailsLate`);
* `failure_keeps_iff`: so it is in every state that is reached with packets that are not `NULL`. -/

namespace OhMySockets

open DropQueue (Op pushes)

variable {α : Type}

/-- The value by which a call reports failure; `cb_pull` also returns it for an empty buffer. -/
def Ret.Fails : Ret α → Prop
  | .push status => status = -1
  | .pull packet => packet = none
  | .currentLength length => length = -1

/-- The call changes no unread packet and releases none. -/
def KeepsContents (cb : CircularBuffer α) (c : Call α) : Prop :=
  (call cb c).1.unread = cb.unread ∧ freed (call cb c).2.2 = []

/-- The lock succeeds, the unlock fails, and the critical section in between changes the buffer. -/
def Call.FailsLate (cb : CircularBuffer α) : Call α → Prop
  | .push mutex _ => mutex.lock = 0 ∧ mutex.unlock ≠ 0
  | .pull mutex => mutex.lock = 0 ∧ mutex.unlock ≠ 0 ∧ cb.unread ≠ []
  | .currentLength _ => False

/-- What the call pushes, if anything, is not `NULL`. -/
def Call.NotNull : Call α → Prop
  | .push _ packet => packet ≠ none
  | _ => True

namespace Layout

variable {content : ℕ → Option α} {a : ℕ} {q : List (Option α)} {cb : CircularBuffer α}

theorem unread_call (h : Layout content a q cb) (c : Call α) : (OhMySockets.call cb c).1.unread =
    (Mealy.run (DropQueue.step cb.length.toNat) q c.ops).1 := by
  obtain ⟨a', hlayout, _⟩ := h.call c
  exact hlayout.unread_eq

theorem keeps_of_unlocked (h : Layout content a q cb) {c : Call α} (hops : c.ops = [])
    (hfrees : c.frees cb.length.toNat content (a + q.length) q = []) : KeepsContents cb c := by
  unfold KeepsContents
  rw [h.unread_call, h.freed_call, hops, hfrees, h.unread_eq]
  exact ⟨rfl, rfl⟩

theorem not_keeps_push (h : Layout content a q cb) (hq : none ∉ q) {mutex : MutexCalls} (x : Option α)
    (hlock : mutex.lock = 0) : ¬ KeepsContents cb (.push mutex x) := by
  rintro ⟨hunread, hfreed⟩
  rw [h.unread_call, h.unread_eq, Call.ops, if_pos hlock] at hunread
  rw [h.freed_call, Call.frees, if_pos hlock] at hfreed
  change (DropQueue.push cb.length.toNat q x).1 = q at hunread
  rcases Nat.lt_or_ge q.length cb.length.toNat with hroom | hfull
  · -- with room the buffer gets longer
    rw [DropQueue.push_of_lt hroom] at hunread
    have hlen := congrArg List.length hunread
    simp at hlen
  · -- without room the oldest packet is released
    rw [if_neg (by omega), DropQueue.push_of_le hfull] at hfreed
    obtain ⟨p, rest, rfl, -⟩ := h.exists_oldest hfull
    cases p with
    | none => exact hq List.mem_cons_self
    | some p => cases hfreed

theorem keeps_pull_iff (h : Layout content a q cb) {mutex : MutexCalls} (hlock : mutex.lock = 0) :
    KeepsContents cb (.pull mutex) ↔ q = [] := by
  unfold KeepsContents
  rw [h.unread_call, h.unread_eq, Call.ops, if_pos hlock]
  change q.tail = q ∧ _ ↔ q = []
  constructor
  · rintro ⟨htail, -⟩
    cases q with
    | nil => rfl
    | cons p q => exact absurd htail.symm (List.cons_ne_self p q)
  · rintro rfl
    exact ⟨rfl, freed_cbPull mutex cb⟩

/-- **One call**: when a reported failure keeps the contents. -/
theorem keeps_iff (h : Layout content a q cb) (hq : none ∉ q) (c : Call α) :
    ((OhMySockets.call cb c).2.1.Fails → KeepsContents cb c) ↔ ¬ c.FailsLate cb := by
  rw [h.call_ret c]
  cases c with
  | push mutex x =>
      have hkeeps : mutex.lock = 0 → ¬ KeepsContents cb (.push mutex x) := h.not_keeps_push hq x
      have hunlocked : mutex.lock ≠ 0 → KeepsContents cb (.push mutex x) := fun hlock =>
        h.keeps_of_unlocked (if_neg hlock) (if_neg hlock)
      simp only [Call.ret, Ret.Fails, Call.FailsLate, mutex.eq_ok_iff]
      split_ifs with hok
      · simp [hok]
      · tauto
  | pull mutex =>
      have hunlocked : mutex.lock ≠ 0 → KeepsContents cb (.pull mutex) := fun hlock =>
        h.keeps_of_unlocked (if_neg hlock) rfl
      have hempty : q.head?.join = none → q = [] := by
        intro hnone
        cases q with
        | nil => rfl
        | cons p q =>
            cases p with
            | none => exact absurd List.mem_cons_self hq
            | some p => cases hnone
      simp only [Call.ret, Ret.Fails, Call.FailsLate, mutex.eq_ok_iff, h.unread_eq]
      split_ifs with hok
      · rw [h.keeps_pull_iff hok.1]
        tauto
      · have hkeeps : mutex.lock = 0 → (KeepsContents cb (.pull mutex) ↔ q = []) := h.keeps_pull_iff
        tauto
  | currentLength mutex =>
      have hkeeps : KeepsContents cb (.currentLength mutex) := h.keeps_of_unlocked rfl rfl
      simp only [Call.FailsLate]
      tauto

end Layout

section runs

variable {mutexInit : ℤ} {length : UInt32} {content : ℕ → Option α} {cb : CircularBuffer α}

theorem none_notMem_pushes {calls : List (Call α)} (hcalls : ∀ c ∈ calls, c.NotNull) :
    none ∉ pushes (queueOps calls) := by
  rw [DropQueue.mem_pushes, queueOps, List.mem_flatMap]
  rintro ⟨c, hc, hop⟩
  have hnull := hcalls c hc
  cases c with
  | push mutex x =>
      rw [Call.ops] at hop
      split_ifs at hop
      · rw [List.mem_singleton] at hop
        cases hop
        exact hnull rfl
      · cases hop
  | pull mutex =>
      rw [Call.ops] at hop
      split_ifs at hop
      · rw [List.mem_singleton] at hop
        cases hop
      · cases hop
  | currentLength mutex => cases hop

/-- **In every reachable state a call that reports failure keeps the contents of the buffer exactly
when it does not fail late.** -/
theorem failure_keeps_iff (hcreate : cbCreate mutexInit length content = some cb) {calls : List (Call α)}
    (hcalls : ∀ c ∈ calls, c.NotNull) (c : Call α) :
    ((call (after cb calls) c).2.1.Fails → KeepsContents (after cb calls) c) ↔
      ¬ c.FailsLate (after cb calls) := by
  obtain ⟨a, hlayout, _⟩ := layout_run hcreate calls
  apply hlayout.keeps_iff
  intro hmem
  exact none_notMem_pushes hcalls ((DropQueue.contents_suffix _ _).subset hmem)

theorem failure_keeps_iff_full :
    let cb : CircularBuffer ℕ := ⟨1, 0, fun _ => none, 0, 0⟩
    let full := after cb [.push .ok (some 7)]
    ((call full (.push ⟨1, 0⟩ (some 8))).2.1.Fails → KeepsContents full (.push ⟨1, 0⟩ (some 8))) ↔
      ¬ (Call.push ⟨1, 0⟩ (some 8)).FailsLate full := by
  have hcreate : cbCreate 0 1 (fun _ => none) = some (⟨1, 0, fun _ => none, 0, 0⟩ : CircularBuffer ℕ) := rfl
  exact failure_keeps_iff hcreate (by simp [Call.NotNull]) _

/-- On a full buffer of length one: a push whose unlock fails returns `-1`, and yet it has released
the packet in the buffer and stored its own; a pull whose unlock fails loses the packet. -/
theorem failed_calls_change :
    let cb : CircularBuffer ℕ := ⟨1, 0, fun _ => none, 0, 0⟩
    let full := after cb [.push .ok (some 7)]
    cbCreate 0 1 (fun _ => none) = some cb ∧ full.unread = [some 7] ∧
      (cbPush ⟨0, 1⟩ full (some 8)).ret = -1 ∧ (cbPush ⟨0, 1⟩ full (some 8)).cb.unread = [some 8] ∧
      freed (cbPush ⟨0, 1⟩ full (some 8)).effects = [7] ∧
      (cbPull ⟨0, 1⟩ full).ret = none ∧ (cbPull ⟨0, 1⟩ full).cb.unread = [] :=
  ⟨rfl, by decide, by decide, by decide, by decide, by decide, by decide⟩

end runs

end OhMySockets
