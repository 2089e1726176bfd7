import Mathlib.Data.List.Induction
import Mathlib.Data.List.Nodup
import Mathlib.Algebra.Order.Group.Multiset
import Mathlib.Tactic.Abel
import OhMySockets.Mealy

/-! # A bounded queue that drops its oldest element

The abstract FIFO of capacity `cap`: `push` appends and, when the queue is full, drops the oldest
element; `pull` removes and returns the oldest element.  A run from the empty queue is a
`Mealy.run` of `step cap`.

* `contents_suffix`: the queue is always a suffix of what was pushed;
* `places_perm`: what was pushed is, up to order, what is in the queue, what was pulled and what
  was dropped;
* `pulled_append_contents_sublist`: the order is kept;
* `suffix_pulled_append_contents`: the newest `cap` elements are never lost;
* `mem_dropped_iff`: an element is dropped exactly when `cap` later elements are pushed before it
  is pulled. -/

namespace DropQueue

variable {α : Type*}

/-- The two operations. -/
inductive Op (α : Type*) where
  | push (a : α)
  | pull

/-- What an operation returns: the element dropped by a push, the element returned by a pull. -/
inductive Output (α : Type*) where
  | pushed (dropped : Option α)
  | pulled (result : Option α)

/-- Append `a`; a full queue drops its oldest element. -/
def push (cap : ℕ) (q : List α) (a : α) : List α × Option α :=
  if q.length < cap then (q ++ [a], none) else (q.tail ++ [a], q.head?)

/-- One operation on the queue. -/
def step (cap : ℕ) (q : List α) : Op α → List α × Output α
  | .push a => ((push cap q a).1, .pushed (push cap q a).2)
  | .pull => (q.tail, .pulled q.head?)

/-- The elements pushed by a list of operations, in order. -/
def pushes : List (Op α) → List α
  | [] => []
  | .push a :: ops => a :: pushes ops
  | .pull :: ops => pushes ops

@[simp] theorem pushes_nil : pushes ([] : List (Op α)) = [] := rfl
@[simp] theorem pushes_push (a : α) (ops : List (Op α)) : pushes (.push a :: ops) = a :: pushes ops := rfl
@[simp] theorem pushes_pull (ops : List (Op α)) : pushes (.pull :: ops) = pushes ops := rfl

@[simp] theorem pushes_append (ops ops' : List (Op α)) :
    pushes (ops ++ ops') = pushes ops ++ pushes ops' := by
  induction ops with
  | nil => rfl
  | cons op ops ih => cases op <;> simp [ih]

theorem mem_pushes {ops : List (Op α)} {p : α} : p ∈ pushes ops ↔ .push p ∈ ops := by
  induction ops with
  | nil => simp
  | cons op ops ih => cases op <;> simp [ih]

theorem exists_split_of_pushes {ops : List (Op α)} {xs : List α} {p : α} {ys : List α}
    (h : pushes ops = xs ++ p :: ys) :
    ∃ pre mid, ops = pre ++ .push p :: mid ∧ pushes pre = xs ∧ pushes mid = ys := by
  induction ops generalizing xs with
  | nil => simp at h
  | cons op ops ih =>
      cases op with
      | pull =>
          obtain ⟨pre, mid, rfl, hpre, hmid⟩ := ih h
          exact ⟨.pull :: pre, mid, rfl, hpre, hmid⟩
      | push a =>
          cases xs with
          | nil =>
              obtain ⟨rfl, hys⟩ := List.cons.inj h
              exact ⟨[], ops, rfl, rfl, hys⟩
          | cons x xs =>
              obtain ⟨rfl, hrest⟩ := List.cons.inj h
              obtain ⟨pre, mid, rfl, hpre, hmid⟩ := ih hrest
              exact ⟨.push a :: pre, mid, rfl, by simp [hpre], hmid⟩

/-! ### Runs -/

/-- The queue after a run from the empty queue. -/
def contents (cap : ℕ) (ops : List (Op α)) : List α := (Mealy.run (step cap) [] ops).1

/-- The outputs of a run from the empty queue. -/
def outputs (cap : ℕ) (ops : List (Op α)) : List (Output α) := (Mealy.run (step cap) [] ops).2

/-- The element returned, if the output is that of a pull. -/
def Output.result? : Output α → Option α
  | .pulled r => r
  | .pushed _ => none

/-- The element dropped, if the output is that of a push. -/
def Output.dropped? : Output α → Option α
  | .pushed d => d
  | .pulled _ => none

/-- The elements pulled in a run, in order. -/
def pulled (cap : ℕ) (ops : List (Op α)) : List α := (outputs cap ops).filterMap Output.result?

/-- The elements dropped in a run, in order. -/
def dropped (cap : ℕ) (ops : List (Op α)) : List α := (outputs cap ops).filterMap Output.dropped?

section runs

variable {cap : ℕ}

theorem contents_concat (ops : List (Op α)) (op : Op α) :
    contents cap (ops ++ [op]) = (step cap (contents cap ops) op).1 := by
  unfold contents
  rw [Mealy.run_concat]

theorem pulled_concat (ops : List (Op α)) (op : Op α) :
    pulled cap (ops ++ [op]) = pulled cap ops ++ (step cap (contents cap ops) op).2.result?.toList := by
  unfold pulled outputs
  rw [Mealy.run_concat, List.filterMap_append]
  rfl

theorem dropped_concat (ops : List (Op α)) (op : Op α) :
    dropped cap (ops ++ [op]) =
      dropped cap ops ++ (step cap (contents cap ops) op).2.dropped?.toList := by
  unfold dropped outputs
  rw [Mealy.run_concat, List.filterMap_append]
  rfl

theorem dropped_append (cap : ℕ) (ops ops' : List (Op α)) :
    ∃ xs, dropped cap (ops ++ ops') = dropped cap ops ++ xs := by
  refine ⟨(Mealy.run (step cap) (contents cap ops) ops').2.filterMap Output.dropped?, ?_⟩
  unfold dropped outputs
  rw [Mealy.run_append, List.filterMap_append]
  rfl

theorem push_map {β : Type*} (f : α → β) (q : List α) (a : α) :
    push cap (q.map f) (f a) = ((push cap q a).1.map f, (push cap q a).2.map f) := by
  unfold push
  rw [List.length_map]
  split_ifs <;> simp

theorem push_of_lt {q : List α} (h : q.length < cap) (a : α) : push cap q a = (q ++ [a], none) :=
  if_pos h

theorem push_of_le {q : List α} (h : cap ≤ q.length) (a : α) : push cap q a = (q.tail ++ [a], q.head?) :=
  if_neg (Nat.not_lt.mpr h)

theorem push_snd_of_lt {q : List α} (h : q.length < cap) (a : α) : (push cap q a).2 = none := by
  rw [push_of_lt h]

theorem mem_of_push_snd {q : List α} {a d : α} (h : (push cap q a).2 = some d) : d ∈ q := by
  unfold push at h
  split_ifs at h
  exact List.mem_of_head? h

theorem mem_push {q : List α} {a b : α} (h : b ∈ (push cap q a).1) : b ∈ q ∨ b = a := by
  unfold push at h
  split_ifs at h
  · simpa using h
  · rcases List.mem_append.mp h with h | h
    · exact Or.inl (List.mem_of_mem_tail h)
    · exact Or.inr (List.mem_singleton.mp h)

theorem length_push (hcap : 0 < cap) {q : List α} (hq : q.length ≤ cap) (a : α) :
    (push cap q a).1.length ≤ cap := by
  unfold push
  split_ifs with h
  · simpa using Nat.succ_le_of_lt h
  · simp only [List.length_append, List.length_tail, List.length_singleton]
    omega

theorem contents_length (hcap : 0 < cap) (ops : List (Op α)) : (contents cap ops).length ≤ cap := by
  refine Mealy.run_invariant (I := fun q : List α => q.length ≤ cap) (fun q op _ hq => ?_)
    (Nat.zero_le cap)
  cases op with
  | push a => exact length_push hcap hq a
  | pull => exact (List.tail_suffix q).length_le.trans hq

theorem suffix_concat {q l : List α} (h : q <:+ l) (a : α) : q ++ [a] <:+ l ++ [a] := by
  obtain ⟨t, rfl⟩ := h
  exact ⟨t, by rw [List.append_assoc]⟩

theorem contents_suffix (cap : ℕ) (ops : List (Op α)) : contents cap ops <:+ pushes ops := by
  induction ops using List.reverseRecOn with
  | nil => exact List.suffix_refl []
  | append_singleton ops op ih =>
      rw [contents_concat, pushes_append]
      cases op with
      | pull =>
          simp only [step, pushes_pull, pushes_nil, List.append_nil]
          exact (List.tail_suffix _).trans ih
      | push a =>
          simp only [step, push, pushes_push, pushes_nil]
          split_ifs
          · exact suffix_concat ih a
          · exact suffix_concat ((List.tail_suffix _).trans ih) a

theorem dropped_eq_nil {ops : List (Op α)} (h : (pushes ops).length ≤ cap) : dropped cap ops = [] := by
  induction ops using List.reverseRecOn with
  | nil => rfl
  | append_singleton ops op ih =>
      rw [pushes_append, List.length_append] at h
      rw [dropped_concat, ih (by omega), List.nil_append]
      cases op with
      | pull => rfl
      | push a =>
          have hle := (contents_suffix cap ops).length_le
          simp only [pushes_push, pushes_nil, List.length_singleton] at h
          simp only [step, push_snd_of_lt (show (contents cap ops).length < cap by omega)]
          rfl

theorem head?_toList_append_tail (q : List α) : q.head?.toList ++ q.tail = q := by
  cases q <;> rfl

theorem coe_contents_eq (q : List α) : (q : Multiset α) = q.head?.toList + q.tail := by
  rw [Multiset.coe_add, head?_toList_append_tail]

/-- Every pushed element is in exactly one place. -/
theorem places_perm (cap : ℕ) (ops : List (Op α)) :
    (contents cap ops ++ pulled cap ops ++ dropped cap ops).Perm (pushes ops) := by
  induction ops using List.reverseRecOn with
  | nil => exact List.Perm.refl _
  | append_singleton ops op ih =>
      rw [contents_concat, pulled_concat, dropped_concat, pushes_append]
      rw [← Multiset.coe_eq_coe] at ih ⊢
      simp only [← Multiset.coe_add] at ih ⊢
      rw [← ih]
      cases op with
      | pull =>
          rw [coe_contents_eq (contents cap ops)]
          simp only [step, Output.result?, Output.dropped?, Option.toList_none, pushes_pull, pushes_nil,
            Multiset.coe_nil]
          abel
      | push a =>
          simp only [step, push, Output.result?, Option.toList_none, pushes_push, pushes_nil,
            Multiset.coe_nil]
          split_ifs
          · simp only [Output.dropped?, Option.toList_none, Multiset.coe_nil, ← Multiset.coe_add]
            abel
          · rw [coe_contents_eq (contents cap ops)]
            simp only [Output.dropped?, ← Multiset.coe_add]
            abel

theorem pulled_append_contents_sublist (cap : ℕ) (ops : List (Op α)) :
    (pulled cap ops ++ contents cap ops).Sublist (pushes ops) := by
  induction ops using List.reverseRecOn with
  | nil => exact List.Sublist.refl []
  | append_singleton ops op ih =>
      rw [contents_concat, pulled_concat, pushes_append]
      cases op with
      | pull =>
          show (pulled cap ops ++ (contents cap ops).head?.toList ++ (contents cap ops).tail).Sublist (pushes ops ++ [])
          rwa [List.append_assoc, head?_toList_append_tail, List.append_nil]
      | push a =>
          show (pulled cap ops ++ [] ++ (push cap (contents cap ops) a).1).Sublist (pushes ops ++ [a])
          rw [List.append_nil]
          unfold push
          split_ifs
          · rw [← List.append_assoc]
            exact ih.append_right [a]
          · rw [← List.append_assoc]
            exact (((List.tail_sublist _).append_left _).trans ih).append_right [a]

/-- The newest `cap` elements are never lost. -/
theorem suffix_pulled_append_contents {ops : List (Op α)} {newest : List α} (h : newest <:+ pushes ops)
    (hlen : newest.length ≤ cap) : newest <:+ pulled cap ops ++ contents cap ops := by
  induction ops using List.reverseRecOn generalizing newest with
  | nil => exact h
  | append_singleton ops op ih =>
      rw [pushes_append] at h
      rw [contents_concat, pulled_concat]
      cases op with
      | pull =>
          show newest <:+ pulled cap ops ++ (contents cap ops).head?.toList ++ (contents cap ops).tail
          rw [pushes_pull, pushes_nil, List.append_nil] at h
          rw [List.append_assoc, head?_toList_append_tail]
          exact ih h hlen
      | push a =>
          show newest <:+ pulled cap ops ++ [] ++ (push cap (contents cap ops) a).1
          rw [List.append_nil]
          rcases List.suffix_concat_iff.mp h with rfl | ⟨before, rfl, hbefore⟩
          · exact List.nil_suffix
          · rw [List.length_append, List.length_singleton] at hlen
            unfold push
            split_ifs with hroom
            · rw [← List.append_assoc]
              exact suffix_concat (ih hbefore (by omega)) a
            · -- the elements before `a` are among those that stay in the queue
              have htail : (contents cap ops).tail <:+ pushes ops := (List.tail_suffix _).trans (contents_suffix cap ops)
              have hstay : before <:+ (contents cap ops).tail := by
                apply List.suffix_of_suffix_length_le hbefore htail
                rw [List.length_tail]
                omega
              exact (suffix_concat hstay a).trans (List.suffix_append _ _)

theorem places_nodup (cap : ℕ) {ops : List (Op α)} (h : (pushes ops).Nodup) :
    (contents cap ops ++ pulled cap ops ++ dropped cap ops).Nodup :=
  (places_perm cap ops).nodup_iff.mpr h

theorem not_mem_pulled {ops : List (Op α)} (h : (pushes ops).Nodup) {p : α}
    (hp : p ∈ dropped cap ops) : p ∉ pulled cap ops := by
  intro hq
  have hnd := places_nodup cap h
  rw [List.nodup_append] at hnd
  exact hnd.2.2 p (List.mem_append_right _ hq) p hp rfl

/-- When a full queue drops its oldest element `p`, at least `cap - 1` pushes followed that of `p`. -/
theorem split_of_head {ops : List (Op α)} {p : α} (h : (contents cap ops).head? = some p) :
    ∃ pre mid, ops = pre ++ .push p :: mid ∧ (pushes mid).length + 1 = (contents cap ops).length := by
  obtain ⟨xs, hxs⟩ := contents_suffix cap ops
  cases hq : contents cap ops with
  | nil => simp [hq] at h
  | cons a t =>
      rw [hq] at h hxs
      obtain rfl : a = p := by simpa using h
      obtain ⟨pre, mid, hops, _, hmid⟩ := exists_split_of_pushes hxs.symm
      exact ⟨pre, mid, hops, by rw [hmid, List.length_cons]⟩

theorem step_dropped {q : List α} {op : Op α} {p : α} (h : (step cap q op).2.dropped? = some p) :
    q.head? = some p ∧ cap ≤ q.length ∧ (pushes [op]).length = 1 := by
  cases op with
  | pull => simp [step, Output.dropped?] at h
  | push a =>
      simp only [step, push] at h
      split_ifs at h with hlt
      · simp [Output.dropped?] at h
      · exact ⟨by simpa [Output.dropped?] using h, Nat.not_lt.mp hlt, rfl⟩

theorem not_mem_contents (hcap : 0 < cap) {pre mid : List (Op α)} {p : α}
    (hnd : (pushes (pre ++ .push p :: mid)).Nodup) (hlen : cap ≤ (pushes mid).length) :
    p ∉ contents cap (pre ++ .push p :: mid) := by
  intro hin
  have hsuf := contents_suffix cap (pre ++ .push p :: mid)
  have hle := contents_length hcap (pre ++ .push p :: mid)
  rw [pushes_append, pushes_push] at hnd hsuf
  have hmid : pushes mid <:+ pushes pre ++ p :: pushes mid :=
    (List.suffix_cons p _).trans (List.suffix_append _ _)
  have hin' : p ∈ pushes mid := (List.suffix_of_suffix_length_le hsuf hmid (by omega)).subset hin
  exact (List.nodup_cons.mp hnd.of_append_right).1 hin'

/-- **An element is lost exactly when `cap` later elements are pushed before it is pulled.** -/
theorem mem_dropped_iff (hcap : 0 < cap) {ops : List (Op α)} (hnd : (pushes ops).Nodup) (p : α) :
    p ∈ dropped cap ops ↔ ∃ pre mid post, ops = pre ++ .push p :: mid ++ post ∧
      (pushes mid).length = cap ∧ p ∉ pulled cap (pre ++ .push p :: mid) := by
  constructor
  · intro hp
    induction ops using List.reverseRecOn with
    | nil => cases hp
    | append_singleton ops op ih =>
        have hnd' : (pushes ops).Nodup := by
          rw [pushes_append] at hnd
          exact hnd.of_append_left
        have hnot := not_mem_pulled hnd hp
        rw [dropped_concat] at hp
        rcases List.mem_append.mp hp with hp | hp
        · obtain ⟨pre, mid, post, rfl, hlen, hpull⟩ := ih hnd' hp
          exact ⟨pre, mid, post ++ [op], by simp, hlen, hpull⟩
        · -- the last operation drops `p`, the oldest of `cap` elements
          obtain ⟨hhead, hfull, hone⟩ := step_dropped (Option.mem_toList.mp hp)
          obtain ⟨pre, mid, hops, hlen⟩ := split_of_head hhead
          have hle := contents_length hcap ops
          refine ⟨pre, mid ++ [op], [], by simp [hops], ?_, ?_⟩
          · rw [pushes_append, List.length_append, hone]
            omega
          · rwa [← List.cons_append, ← List.append_assoc, ← hops]
  · rintro ⟨pre, mid, post, rfl, hlen, hpull⟩
    have hmem : p ∈ pushes (pre ++ .push p :: mid) := by simp
    rw [pushes_append] at hnd
    have hnotin := not_mem_contents hcap hnd.of_append_left hlen.ge
    have hplace := (places_perm cap (pre ++ .push p :: mid)).mem_iff.mpr hmem
    obtain ⟨xs, hxs⟩ := dropped_append cap (pre ++ .push p :: mid) post
    rw [hxs]
    simp only [List.mem_append] at hplace ⊢
    tauto

end runs

end DropQueue
