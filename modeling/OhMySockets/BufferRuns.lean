import OhMySockets.CircularBuffer
import OhMySockets.DropQueue

/-! # Runs of the circular buffer

A run is a list of calls of `cb_push`, `cb_pull` and `cb_current_length`, each with the outcome of
its mutex calls, on a buffer from `cb_create`.  A call that gets the lock performs an operation of
the drop-oldest queue (`Call.ops`); whether the unlock succeeds only changes what is returned.

* `Layout.call`: one call, and the queue of unread pointers after it;
* `layout_run`: after every run the unread pointers are the contents of the drop-oldest queue;
* `Layout.call_ret`: what a call returns depends on the unread pointers and the length only;
* `Layout.freed_call`: what a call frees. -/

namespace OhMySockets

open DropQueue (Op)

variable {α : Type}

/-- The calls on a buffer. -/
inductive Call (α : Type) where
  | push (mutex : MutexCalls) (packet : Option α)
  | pull (mutex : MutexCalls)
  | currentLength (mutex : MutexCalls)

/-- What a call returns. -/
inductive Ret (α : Type) where
  | push (status : ℤ)
  | pull (packet : Option α)
  | currentLength (length : UInt32)
deriving DecidableEq

/-- One call on a buffer: the buffer after it, what it returns and its effects. -/
def call (cb : CircularBuffer α) : Call α → CircularBuffer α × Ret α × List (Effect α)
  | .push mutex packet =>
      let o := cbPush mutex cb packet
      (o.cb, .push o.ret, o.effects)
  | .pull mutex =>
      let o := cbPull mutex cb
      (o.cb, .pull o.ret, o.effects)
  | .currentLength mutex =>
      let o := cbCurrentLength mutex cb
      (o.cb, .currentLength o.ret, o.effects)

/-- The buffer after some calls. -/
def after (cb : CircularBuffer α) (calls : List (Call α)) : CircularBuffer α :=
  (Mealy.run call cb calls).1

/-- What the calls of a run return. -/
def returns (cb : CircularBuffer α) (calls : List (Call α)) : List (Ret α) :=
  (Mealy.run call cb calls).2.map Prod.fst

/-- The effects of a run, in order. -/
def effects (cb : CircularBuffer α) (calls : List (Call α)) : List (Effect α) :=
  (Mealy.run call cb calls).2.flatMap Prod.snd

/-- The queue operation that a call performs, if it gets the lock. -/
def Call.ops : Call α → List (Op (Option α))
  | .push mutex packet => if mutex.lock = 0 then [.push packet] else []
  | .pull mutex => if mutex.lock = 0 then [.pull] else []
  | .currentLength _ => []

/-- The queue operations of a run. -/
def queueOps (calls : List (Call α)) : List (Op (Option α)) := calls.flatMap Call.ops

theorem after_concat (cb : CircularBuffer α) (calls : List (Call α)) (c : Call α) :
    after cb (calls ++ [c]) = (call (after cb calls) c).1 := by
  unfold after
  rw [Mealy.run_concat]

theorem returns_concat (cb : CircularBuffer α) (calls : List (Call α)) (c : Call α) :
    returns cb (calls ++ [c]) = returns cb calls ++ [(call (after cb calls) c).2.1] := by
  unfold returns
  rw [Mealy.run_concat, List.map_append]
  rfl

theorem effects_concat (cb : CircularBuffer α) (calls : List (Call α)) (c : Call α) :
    effects cb (calls ++ [c]) = effects cb calls ++ (call (after cb calls) c).2.2 := by
  unfold effects
  rw [Mealy.run_concat, List.flatMap_append, List.flatMap_singleton]
  rfl

theorem queueOps_concat (calls : List (Call α)) (c : Call α) :
    queueOps (calls ++ [c]) = queueOps calls ++ c.ops := by
  unfold queueOps
  rw [List.flatMap_append, List.flatMap_singleton]

/-! ### What a call does to the buffer -/

theorem cbPush_cb (mutex : MutexCalls) (cb : CircularBuffer α) (packet : Option α) :
    (cbPush mutex cb packet).cb = if mutex.lock = 0 then (pushSection cb packet).cb else cb := by
  unfold cbPush
  split_ifs <;> first | rfl | contradiction

theorem cbPull_cb (mutex : MutexCalls) (cb : CircularBuffer α) :
    (cbPull mutex cb).cb = if mutex.lock = 0 then (pullSection cb).cb else cb := by
  unfold cbPull
  split_ifs <;> first | rfl | contradiction

@[simp] theorem cbCurrentLength_cb (mutex : MutexCalls) (cb : CircularBuffer α) :
    (cbCurrentLength mutex cb).cb = cb := by
  unfold cbCurrentLength
  split_ifs <;> rfl

theorem freed_cbPush (mutex : MutexCalls) (cb : CircularBuffer α) (packet : Option α) :
    freed (cbPush mutex cb packet).effects =
      if mutex.lock = 0 then freed (pushSection cb packet).effects else [] := by
  unfold cbPush
  split_ifs <;> first | rfl | contradiction

@[simp] theorem freed_cbPull (mutex : MutexCalls) (cb : CircularBuffer α) :
    freed (cbPull mutex cb).effects = [] := by
  unfold cbPull
  split_ifs
  · rfl
  · exact freed_pullSection cb
  · exact freed_pullSection cb

@[simp] theorem cbCurrentLength_effects (mutex : MutexCalls) (cb : CircularBuffer α) :
    (cbCurrentLength mutex cb).effects = [] := by
  unfold cbCurrentLength
  split_ifs <;> rfl

@[simp] theorem pullSection_length (cb : CircularBuffer α) : (pullSection cb).cb.length = cb.length := by
  unfold pullSection
  split_ifs <;> rfl

@[simp] theorem call_length (cb : CircularBuffer α) (c : Call α) : (call cb c).1.length = cb.length := by
  cases c with
  | push mutex packet =>
      show (cbPush mutex cb packet).cb.length = cb.length
      rw [cbPush_cb]
      split_ifs <;> rfl
  | pull mutex =>
      show (cbPull mutex cb).cb.length = cb.length
      rw [cbPull_cb]
      split_ifs
      · exact pullSection_length cb
      · rfl
  | currentLength mutex =>
      show (cbCurrentLength mutex cb).cb.length = cb.length
      rw [cbCurrentLength_cb]

@[simp] theorem after_length (cb : CircularBuffer α) (calls : List (Call α)) :
    (after cb calls).length = cb.length := by
  refine Mealy.run_invariant (I := fun s : CircularBuffer α => s.length = cb.length)
    (fun s c _ h => ?_) rfl
  rw [call_length, h]

/-! ### The simulation -/

namespace Layout

variable {content : ℕ → Option α} {a : ℕ} {q : List (Option α)} {cb : CircularBuffer α}

theorem exists_oldest (h : Layout content a q cb) (hfull : cb.length.toNat ≤ q.length) :
    ∃ oldest rest, q = oldest :: rest ∧ (oldest :: rest).length = cb.length.toNat := by
  cases q with
  | nil => exact absurd h.pos (Nat.not_lt.mpr hfull)
  | cons oldest rest => exact ⟨oldest, rest, rfl, Nat.le_antisymm h.bound hfull⟩

/-- `a + q.length` counts the pushes; a push increases it by one. -/
theorem push (h : Layout content a q cb) (x : Option α) : ∃ a',
    Layout content a' (DropQueue.push cb.length.toNat q x).1 (pushSection cb x).cb ∧
      a' + (DropQueue.push cb.length.toNat q x).1.length = a + q.length + 1 := by
  rcases Nat.lt_or_ge q.length cb.length.toNat with hroom | hle
  · rw [DropQueue.push_of_lt hroom]
    exact ⟨a, h.push_room hroom, by simp [Nat.add_assoc]⟩
  · rw [DropQueue.push_of_le hle]
    obtain ⟨p, rest, rfl, hfull⟩ := h.exists_oldest hle
    refine ⟨a + 1, h.push_full hfull, ?_⟩
    show a + 1 + (rest ++ [x]).length = a + (p :: rest).length + 1
    rw [List.length_append, List.length_singleton, List.length_cons]
    omega

theorem pull_tail (h : Layout content a q cb) : ∃ a', Layout content a' q.tail (pullSection cb).cb ∧
    a' + q.tail.length = a + q.length := by
  cases q with
  | nil =>
      rw [h.pull_empty]
      exact ⟨a, h, rfl⟩
  | cons p q =>
      refine ⟨a + 1, h.pull, ?_⟩
      simp only [List.tail_cons, List.length_cons]
      omega

theorem pull_ret (h : Layout content a q cb) : (pullSection cb).ret = q.head?.join := by
  cases q with
  | nil => rw [h.pull_empty]; rfl
  | cons p q => rw [h.pullSection_eq]; rfl

theorem call (h : Layout content a q cb) (c : Call α) : ∃ a',
    Layout content a' (Mealy.run (DropQueue.step cb.length.toNat) q c.ops).1 (call cb c).1 ∧
      a' + (Mealy.run (DropQueue.step cb.length.toNat) q c.ops).1.length =
        a + q.length + (DropQueue.pushes c.ops).length := by
  cases c with
  | push mutex x =>
      show ∃ a', Layout content a' _ (cbPush mutex cb x).cb ∧ _
      rw [cbPush_cb, Call.ops]
      split_ifs
      · exact h.push x
      · exact ⟨a, h, rfl⟩
  | pull mutex =>
      show ∃ a', Layout content a' _ (cbPull mutex cb).cb ∧ _
      rw [cbPull_cb, Call.ops]
      split_ifs
      · exact h.pull_tail
      · exact ⟨a, h, rfl⟩
  | currentLength mutex =>
      show ∃ a', Layout content a' q (cbCurrentLength mutex cb).cb ∧ _
      rw [cbCurrentLength_cb]
      exact ⟨a, h, rfl⟩

end Layout

/-- The value that a call returns when the unread pointers of a buffer of capacity `cap` are `q`. -/
def Call.ret (cap : ℕ) (q : List (Option α)) : Call α → Ret α
  | .push mutex _ => .push (if mutex = .ok then 0 else -1)
  | .pull mutex => .pull (if mutex = .ok then q.head?.join else none)
  | .currentLength mutex => .currentLength
      (if mutex = .ok then UInt32.ofNat (if q.length = cap then 1 else q.length) else -1)

/-- The pointers that a call frees when `q` are unread and `pushed` pushes came before it. -/
def Call.frees (cap : ℕ) (content : ℕ → Option α) (pushed : ℕ) (q : List (Option α)) : Call α → List α
  | .push mutex x =>
      if mutex.lock = 0 then
        if pushed < cap then (content pushed).toList else (DropQueue.push cap q x).2.join.toList
      else []
  | _ => []

theorem MutexCalls.eq_ok_iff (mutex : MutexCalls) : mutex = .ok ↔ mutex.lock = 0 ∧ mutex.unlock = 0 := by
  cases mutex
  simp [MutexCalls.ok]

namespace Layout

variable {content : ℕ → Option α} {a : ℕ} {q : List (Option α)} {cb : CircularBuffer α}

theorem call_ret (h : Layout content a q cb) (c : Call α) :
    (OhMySockets.call cb c).2.1 = c.ret cb.length.toNat q := by
  cases c with
  | push mutex x =>
      show Ret.push (cbPush mutex cb x).ret = .push _
      simp only [cbPush, mutex.eq_ok_iff]
      split_ifs <;> simp_all [pushSection]
  | pull mutex =>
      show Ret.pull (cbPull mutex cb).ret = .pull _
      simp only [cbPull, mutex.eq_ok_iff]
      split_ifs <;> simp_all [h.pull_ret]
  | currentLength mutex =>
      show Ret.currentLength (cbCurrentLength mutex cb).ret = .currentLength _
      simp only [cbCurrentLength, mutex.eq_ok_iff]
      rw [← h.lengthSection_toNat, UInt32.ofNat_toNat]
      split_ifs <;> simp_all

/-- **What a call frees**: in the first lap what `malloc` left, later the pointer that it drops. -/
theorem freed_call (h : Layout content a q cb) (c : Call α) :
    freed (OhMySockets.call cb c).2.2 = c.frees cb.length.toNat content (a + q.length) q := by
  cases c with
  | push mutex x =>
      show freed (cbPush mutex cb x).effects = _
      rw [freed_cbPush, Call.frees]
      split_ifs with hlock hfirst
      · rw [h.freed_push_room (by omega), if_pos hfirst]
      · rcases Nat.lt_or_ge q.length cb.length.toNat with hroom | hle
        · rw [h.freed_push_room hroom, if_neg hfirst, DropQueue.push_of_lt hroom]
          rfl
        · rw [DropQueue.push_of_le hle]
          obtain ⟨p, rest, rfl, hfull⟩ := h.exists_oldest hle
          exact h.freed_push_full hfull
      · rfl
  | pull mutex => exact freed_cbPull mutex cb
  | currentLength mutex =>
      show freed (cbCurrentLength mutex cb).effects = []
      rw [cbCurrentLength_effects]
      rfl

end Layout

section runs

variable {length : UInt32} {content : ℕ → Option α} {cb : CircularBuffer α}

/-- The buffers of a run: the unread pointers are those of the drop-oldest queue. -/
theorem layout_run {mutexInit : ℤ} (h : cbCreate mutexInit length content = some cb)
    (calls : List (Call α)) : ∃ a,
      Layout content a (DropQueue.contents length.toNat (queueOps calls)) (after cb calls) ∧
        a + (DropQueue.contents length.toNat (queueOps calls)).length =
          (DropQueue.pushes (queueOps calls)).length := by
  obtain ⟨hcreate, hlength⟩ := Layout.create h
  induction calls using List.reverseRecOn with
  | nil => exact ⟨0, hcreate, rfl⟩
  | append_singleton calls c ih =>
      obtain ⟨a, hlayout, hcount⟩ := ih
      obtain ⟨a', hlayout', hcount'⟩ := hlayout.call c
      rw [after_length, hlength] at hlayout' hcount'
      rw [after_concat, queueOps_concat, DropQueue.contents, Mealy.run_append, DropQueue.pushes_append,
        List.length_append]
      refine ⟨a', hlayout', ?_⟩
      rw [← hcount]
      exact hcount'

end runs

end OhMySockets
