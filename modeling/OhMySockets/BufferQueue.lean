import OhMySockets.BufferRuns

/-! # The circular buffer as a queue

Runs of `cb_push` and `cb_pull` whose mutex calls succeed, on packets (non-`NULL` pointers).

* `buffer_refines_queue`: the buffer is a drop-oldest queue of capacity `length`; every pushed packet
  is unread, returned or released, exactly once, and it is lost exactly when `length` later packets
  are pushed before it is pulled;
* `current_length_iff`: `cb_current_length` counts the unread packets exactly when the buffer is
  not full, or its length is one. -/

namespace OhMySockets

open DropQueue (Op Output pushes)

variable {α : Type}

/-- A queue operation as a call whose mutex calls succeed. -/
def opCall : Op α → Call α
  | .push packet => .push .ok (some packet)
  | .pull => .pull .ok

/-- The packet that a call returns, if it is a pull that returns one. -/
def Ret.packet? : Ret α → Option α
  | .pull packet => packet
  | _ => none

/-- The packets that the pulls of a run return, in order. -/
def returned (cb : CircularBuffer α) (ops : List (Op α)) : List α :=
  (returns cb (ops.map opCall)).filterMap Ret.packet?

/-- The pointers that a run releases, in order. -/
def released (cb : CircularBuffer α) (ops : List (Op α)) : List α := freed (effects cb (ops.map opCall))

/-- The operation is a push that finds the buffer full. -/
def overwrites (cb : CircularBuffer α) : Op α → Bool
  | .push _ => decide cb.Overflow
  | .pull => false

/-- The number of pushes of a run that overwrite an unread packet. -/
def overwritten (cb : CircularBuffer α) (ops : List (Op α)) : ℕ :=
  (Mealy.run (fun cb op => ((call cb (opCall op)).1, overwrites cb op)) cb ops).2.count true

/-! ### One operation -/

/-- The buffer holds the packets `q`, the oldest first. -/
def Holds (length : UInt32) (content : ℕ → Option α) (cb : CircularBuffer α) (q : List α) : Prop :=
  (∃ a, Layout content a (q.map some) cb) ∧ cb.length = length

namespace Holds

variable {length : UInt32} {content : ℕ → Option α} {cb : CircularBuffer α} {q : List α}

theorem unread_eq (h : Holds length content cb q) : cb.unread = q.map some := by
  obtain ⟨⟨a, hlayout⟩, _⟩ := h
  exact hlayout.unread_eq

theorem overflow_iff (h : Holds length content cb q) : cb.Overflow ↔ q.length = length.toNat := by
  obtain ⟨⟨a, hlayout⟩, rfl⟩ := h
  rw [hlayout.overflow_iff, List.length_map]

theorem length_le (h : Holds length content cb q) : q.length ≤ length.toNat := by
  obtain ⟨⟨a, hlayout⟩, rfl⟩ := h
  simpa using hlayout.bound

theorem step_map (cap : ℕ) (q : List α) (op : Op α) :
    (Mealy.run (DropQueue.step cap) (q.map some) (opCall op).ops).1 =
      (DropQueue.step cap q op).1.map some := by
  cases op with
  | push p => exact congrArg Prod.fst (DropQueue.push_map some q p)
  | pull => exact List.map_tail.symm

theorem step (h : Holds length content cb q) (op : Op α) :
    Holds length content (call cb (opCall op)).1 (DropQueue.step length.toNat q op).1 := by
  obtain ⟨⟨a, hlayout⟩, rfl⟩ := h
  obtain ⟨a', hlayout', _⟩ := hlayout.call (opCall op)
  rw [step_map] at hlayout'
  exact ⟨⟨a', hlayout'⟩, call_length cb (opCall op)⟩

theorem push_ret (h : Holds length content cb q) (p : α) :
    (call cb (opCall (.push p))).2.1 = .push 0 := by
  obtain ⟨⟨a, hlayout⟩, rfl⟩ := h
  exact hlayout.call_ret (opCall (.push p))

theorem pull_ret (h : Holds length content cb q) :
    (call cb (opCall .pull)).2.1 = .pull q.head? := by
  obtain ⟨⟨a, hlayout⟩, rfl⟩ := h
  apply (hlayout.call_ret (opCall .pull)).trans
  show Ret.pull (q.map some).head?.join = .pull q.head?
  cases q <;> rfl

theorem push_room (h : Holds length content cb q) (hroom : ¬ cb.Overflow) (p : α) :
    Holds length content (pushSection cb (some p)).cb (q ++ [p]) := by
  have hlt := Nat.lt_of_le_of_ne h.length_le (mt h.overflow_iff.mpr hroom)
  have hstep := h.step (.push p)
  simp only [DropQueue.step, DropQueue.push_of_lt hlt] at hstep
  exact hstep

theorem push_overflow (h : Holds length content cb q) (hfull : cb.Overflow) (p : α) :
    ∃ oldest rest, q = oldest :: rest ∧ Holds length content (pushSection cb (some p)).cb (rest ++ [p]) ∧
      freed (pushSection cb (some p)).effects = [oldest] := by
  have hlen := h.overflow_iff.mp hfull
  have hstep := h.step (.push p)
  simp only [DropQueue.step, DropQueue.push_of_le hlen.ge] at hstep
  obtain ⟨⟨a, hlayout⟩, hlength⟩ := h
  cases q with
  | nil =>
      have hpos := hlayout.pos
      rw [hlength, ← hlen] at hpos
      exact absurd hpos (Nat.lt_irrefl 0)
  | cons oldest rest =>
      refine ⟨oldest, rest, rfl, hstep, ?_⟩
      exact hlayout.freed_push_full (by rw [hlength, ← hlen, ← List.map_cons, List.length_map])

/-- `cb_current_length` finds the buffer empty exactly when it is, also when it counts wrongly. -/
theorem lengthSection_eq_zero_iff (h : Holds length content cb q) : lengthSection cb = 0 ↔ q = [] := by
  obtain ⟨⟨a, hlayout⟩, _⟩ := h
  have hpos := hlayout.pos
  rw [← UInt32.toNat_inj, hlayout.lengthSection_toNat, List.length_map, ← List.length_eq_zero_iff]
  split_ifs with hfull
  · simp only [UInt32.toNat_zero]
    omega
  · simp

theorem overwrites_eq (h : Holds length content cb q) (op : Op α) :
    overwrites cb op = (DropQueue.step length.toNat q op).2.dropped?.isSome := by
  cases op with
  | pull => rfl
  | push p =>
      show decide cb.Overflow = (DropQueue.push length.toNat q p).2.isSome
      have hle := h.length_le
      obtain ⟨⟨a, hlayout⟩, hlen⟩ := h
      have hpos := hlayout.pos
      rw [hlen] at hpos
      unfold DropQueue.push
      simp only [overflow_iff ⟨⟨a, hlayout⟩, hlen⟩]
      split_ifs with hroom
      · simpa using Nat.ne_of_lt hroom
      · have hfull : q.length = length.toNat := Nat.le_antisymm hle (Nat.not_lt.mp hroom)
        have hne : q ≠ [] := List.ne_nil_of_length_pos (by omega)
        simp [hfull, List.head?_eq_some_head hne]

end Holds

/-! ### Runs -/

section runs

variable {length : UInt32} {content : ℕ → Option α} {cb : CircularBuffer α}

theorem holds_create (h : cbCreate 0 length content = some cb) : Holds length content cb [] := by
  obtain ⟨hlayout, hlen⟩ := Layout.create h
  exact ⟨⟨0, hlayout⟩, hlen⟩

/-- The buffer after a run holds the contents of the queue. -/
theorem holds_run (h : cbCreate 0 length content = some cb) (ops : List (Op α)) :
    Holds length content (after cb (ops.map opCall)) (DropQueue.contents length.toNat ops) := by
  unfold after
  rw [Mealy.run_map]
  exact (Mealy.run_simulation (A := fun _ _ => True) (R := Holds length content)
    (fun _ _ op _ hR => ⟨hR.step op, trivial⟩) (holds_create h)).1

theorem map_run_eq {ο κ : Type} (h : cbCreate 0 length content = some cb) (ops : List (Op α))
    {o : CircularBuffer α → Op α → ο} {f : ο → κ} {g : Output α → κ}
    (hout : ∀ cb q, ∀ op ∈ ops, Holds length content cb q → (∀ p ∈ q, p ∈ pushes ops) →
      f (o cb op) = g (DropQueue.step length.toNat q op).2) :
    (Mealy.run (fun cb op => ((call cb (opCall op)).1, o cb op)) cb ops).2.map f =
      (DropQueue.outputs length.toNat ops).map g := by
  refine Mealy.map_outputs_eq (R := fun cb q => Holds length content cb q ∧ ∀ p ∈ q, p ∈ pushes ops) ?_
    ⟨holds_create h, fun p hp => absurd hp List.not_mem_nil⟩
  intro cb q op hop hR
  refine ⟨⟨hR.1.step op, fun p hp => ?_⟩, hout cb q op hop hR.1 hR.2⟩
  cases op with
  | push x =>
      rcases DropQueue.mem_push hp with hp | rfl
      · exact hR.2 p hp
      · exact DropQueue.mem_pushes.mpr hop
  | pull => exact hR.2 p (List.mem_of_mem_tail hp)

theorem returned_eq (h : cbCreate 0 length content = some cb) (ops : List (Op α)) :
    returned cb ops = DropQueue.pulled length.toNat ops := by
  have hout := map_run_eq h ops (o := fun cb op => (call cb (opCall op)).2)
    (f := fun out => Ret.packet? out.1) (g := Output.result?) fun cb q op _ hR _ => by
      cases op with
      | push p => rw [hR.push_ret p]; rfl
      | pull => rw [hR.pull_ret]; rfl
  have hid := congrArg (List.filterMap id) hout
  rw [List.filterMap_map, List.filterMap_map] at hid
  unfold returned returns
  rw [Mealy.run_map, List.filterMap_map]
  exact hid

theorem overwritten_eq (h : cbCreate 0 length content = some cb) (ops : List (Op α)) :
    overwritten cb ops = (DropQueue.dropped length.toNat ops).length := by
  have hout := map_run_eq h ops (o := overwrites) (f := id) (g := fun o => o.dropped?.isSome)
    fun cb q op _ hR _ => hR.overwrites_eq op
  rw [List.map_id] at hout
  unfold overwritten
  rw [hout, DropQueue.dropped, List.length_filterMap_eq_countP, List.count, List.countP_map]
  congr 1
  funext o
  simp

end runs

/-! ### What is released -/

section released

variable [DecidableEq α] {length : UInt32} {content : ℕ → Option α} {cb : CircularBuffer α}

/-- Among the packets `mine`, a call releases what the queue drops, as long as the slots of the first
lap hold none of them. -/
theorem Holds.freed_step {q mine : List α} (h : Holds length content cb q) (hq : ∀ p ∈ q, p ∈ mine)
    (hfresh : ∀ i < length.toNat, ∀ p ∈ mine, content i ≠ some p) (op : Op α) :
    (freed (call cb (opCall op)).2.2).filter (· ∈ mine) =
      (DropQueue.step length.toNat q op).2.dropped?.toList := by
  obtain ⟨⟨a, hlayout⟩, rfl⟩ := h
  rw [hlayout.freed_call (opCall op)]
  cases op with
  | pull => rfl
  | push x =>
      show (if a + (q.map some).length < cb.length.toNat then (content (a + (q.map some).length)).toList
        else (DropQueue.push cb.length.toNat (q.map some) (some x)).2.join.toList).filter (· ∈ mine) =
          (DropQueue.push cb.length.toNat q x).2.toList
      rw [DropQueue.push_map, List.length_map]
      split_ifs with hfirst
      · rw [DropQueue.push_snd_of_lt (by omega), Option.toList_none, List.filter_eq_nil_iff]
        intro p hp hmem
        exact hfresh _ hfirst p (by simpa using hmem) (Option.mem_toList.mp hp)
      · cases hdrop : (DropQueue.push cb.length.toNat q x).2 with
        | none => rfl
        | some d =>
            have hmem := hq d (DropQueue.mem_of_push_snd hdrop)
            simp [hmem]

theorem filter_released_eq (h : cbCreate 0 length content = some cb) {ops : List (Op α)}
    (hfresh : ∀ i < length.toNat, ∀ p ∈ pushes ops, content i ≠ some p) :
    (released cb ops).filter (· ∈ pushes ops) = DropQueue.dropped length.toNat ops := by
  have hout := map_run_eq h ops (o := fun cb op => (call cb (opCall op)).2)
    (f := fun out => (freed out.2).filter (· ∈ pushes ops)) (g := fun o => o.dropped?.toList)
    fun cb q op _ hR hq => hR.freed_step hq hfresh op
  have hflat := congrArg List.flatten hout
  rw [← List.flatMap_def, ← List.flatMap_def] at hflat
  rw [released, effects, Mealy.run_map, freed, List.filterMap_flatMap, List.filter_flatMap,
    DropQueue.dropped, List.filterMap_eq_flatMap_toList]
  exact hflat

theorem count_released (h : cbCreate 0 length content = some cb) {ops : List (Op α)}
    (hfresh : ∀ i < length.toNat, ∀ p ∈ pushes ops, content i ≠ some p) {p : α} (hp : p ∈ pushes ops) :
    (released cb ops).count p = (DropQueue.dropped length.toNat ops).count p := by
  rw [← filter_released_eq h hfresh, List.count_filter (by simpa using hp)]

/-- What an observer of the packets `mine` sees of a call: its return value, and which of these
packets it releases. -/
def observe (mine : List α) (out : Ret α × List (Effect α)) : Ret α × List α :=
  (out.1, (freed out.2).filter (· ∈ mine))

/-- What the observer should see of an operation of the queue. -/
def expected : Output α → Ret α × List α
  | .pushed dropped => (.push 0, dropped.toList)
  | .pulled result => (.pull result, [])

/-- The run of `ops` on `cb` is that of a drop-oldest queue of capacity `length`. -/
structure RefinesQueue (length : UInt32) (cb : CircularBuffer α) (ops : List (Op α)) : Prop where
  observed : (Mealy.run call cb (ops.map opCall)).2.map (observe (pushes ops)) =
    (DropQueue.outputs length.toNat ops).map expected
  unread : (after cb (ops.map opCall)).unread = (DropQueue.contents length.toNat ops).map some
  push_index : (after cb (ops.map opCall)).pushIndex < length
  pull_index : (after cb (ops.map opCall)).pullIndex < length
  one_place : ∀ p ∈ pushes ops, (after cb (ops.map opCall)).unread.count (some p) +
    (returned cb ops).count p + (released cb ops).count p = 1
  lost_iff : ∀ p ∈ pushes ops, p ∈ released cb ops ↔ ∃ pre mid post,
    ops = pre ++ .push p :: mid ++ post ∧ (pushes mid).length = length.toNat ∧
      p ∉ returned cb (pre ++ .push p :: mid)

theorem observed_eq (h : cbCreate 0 length content = some cb) {ops : List (Op α)}
    (hfresh : ∀ i < length.toNat, ∀ p ∈ pushes ops, content i ≠ some p) :
    (Mealy.run call cb (ops.map opCall)).2.map (observe (pushes ops)) =
      (DropQueue.outputs length.toNat ops).map expected := by
  rw [Mealy.run_map]
  apply map_run_eq h ops (o := fun cb op => (call cb (opCall op)).2)
  intro cb q op _ hR hq
  have hfreed := hR.freed_step hq hfresh op
  cases op with
  | push p => exact Prod.ext (hR.push_ret p) hfreed
  | pull => exact Prod.ext hR.pull_ret hfreed

/-- **A buffer from `cb_create` is a drop-oldest queue of capacity `length`.** -/
theorem buffer_refines_queue {length : UInt32} {content : ℕ → Option α} {ops : List (Op α)}
    (hlength : 0 < length) (hdistinct : (pushes ops).Nodup)
    (hfresh : ∀ i < length.toNat, ∀ p ∈ pushes ops, content i ≠ some p) :
    ∃ cb, cbCreate 0 length content = some cb ∧ RefinesQueue length cb ops := by
  have hne : length ≠ 0 := fun h0 => absurd (h0 ▸ hlength) (UInt32.lt_irrefl 0)
  have hpos : 0 < length.toNat := UInt32.lt_iff_toNat_lt.mp hlength
  obtain ⟨cb, hcb⟩ : ∃ cb, cbCreate 0 length content = some cb := by
    refine ⟨⟨length, 0, content, 0, 0⟩, ?_⟩
    unfold cbCreate
    rw [if_neg hne, if_neg (by simp)]
  have hholds := holds_run hcb ops
  obtain ⟨⟨a, hlayout⟩, hlen⟩ := id hholds
  refine ⟨cb, hcb, ⟨observed_eq hcb hfresh, hholds.unread_eq, ?_, ?_, fun p hp => ?_, fun p hp => ?_⟩⟩
  · exact hlen ▸ hlayout.pushIndex_lt
  · exact hlen ▸ hlayout.pullIndex_lt
  · -- each pushed packet is in one place of the queue
    rw [hholds.unread_eq, List.count_map_of_injective _ _ (Option.some_injective α), returned_eq hcb,
      count_released hcb hfresh hp, ← List.count_append, ← List.count_append]
    exact ((DropQueue.places_perm length.toNat ops).count_eq p).trans
      (List.count_eq_one_of_mem hdistinct hp)
  · rw [← List.count_pos_iff, count_released hcb hfresh hp, List.count_pos_iff,
      DropQueue.mem_dropped_iff hpos hdistinct p]
    simp only [returned_eq hcb]

theorem buffer_refines_queue_overflow : ∃ cb, cbCreate 0 2 (fun _ => none) = some cb ∧
    RefinesQueue 2 cb [.push 7, .push 8, .push 9, .pull] :=
  buffer_refines_queue (by decide) (by decide) (fun _ _ _ _ => Option.some_ne_none _ ∘ Eq.symm)

end released

/-! ### The current length -/

/-- `n` consecutive pulls return a packet, the next one returns `NULL`. -/
inductive DrainsIn : CircularBuffer α → ℕ → Prop
  | done {cb} : (cbPull .ok cb).ret = none → DrainsIn cb 0
  | more {cb packet n} : (cbPull .ok cb).ret = some packet → DrainsIn (cbPull .ok cb).cb n →
      DrainsIn cb (n + 1)

theorem Holds.drainsIn {length : UInt32} {content : ℕ → Option α} {q : List α} {cb : CircularBuffer α}
    (h : Holds length content cb q) : DrainsIn cb q.length := by
  induction q generalizing cb with
  | nil => exact .done (Ret.pull.inj h.pull_ret)
  | cons p q ih => exact .more (Ret.pull.inj h.pull_ret) (ih (h.step .pull))

/-- **`cb_current_length` returns the number of unread packets exactly when the buffer is not full,
or has a single slot.** -/
theorem current_length_iff {length : UInt32} {content : ℕ → Option α} {cb : CircularBuffer α}
    {ops : List (Op α)} (hcreate : cbCreate 0 length content = some cb) : ∃ n,
      DrainsIn (after cb (ops.map opCall)) n ∧
      n + (returned cb ops).length + overwritten cb ops = (pushes ops).length ∧
      ((let o := cbCurrentLength .ok (after cb (ops.map opCall))
        o.ret.toNat = n ∧ o.cb = after cb (ops.map opCall) ∧ o.effects = []) ↔
          ¬ (after cb (ops.map opCall)).Overflow ∨ length = 1) := by
  have hholds := holds_run hcreate ops
  refine ⟨_, hholds.drainsIn, ?_, ?_⟩
  · rw [returned_eq hcreate, overwritten_eq hcreate, ← List.length_append, ← List.length_append]
    exact (DropQueue.places_perm length.toNat ops).length_eq
  · obtain ⟨⟨a, hlayout⟩, hlen⟩ := id hholds
    have hret : (cbCurrentLength .ok (after cb (ops.map opCall))).ret.toNat = _ :=
      hlayout.lengthSection_toNat
    rw [List.length_map, hlen] at hret
    simp only [cbCurrentLength_cb, cbCurrentLength_effects, and_true, hret, hholds.overflow_iff]
    have hone : length = 1 ↔ length.toNat = 1 := UInt32.toNat_inj.symm
    rw [hone]
    split_ifs <;> omega

/-- Three pushes into two slots, and a pull. -/
def overwriteAndPull : List (Op ℕ) := [.push 7, .push 8, .push 9, .pull]

theorem current_length_iff_overwriteAndPull :
    let cb : CircularBuffer ℕ := ⟨2, 0, fun _ => none, 0, 0⟩
    cbCreate 0 2 (fun _ => none) = some cb ∧ ∃ n, DrainsIn (after cb (overwriteAndPull.map opCall)) n ∧
      n + (returned cb overwriteAndPull).length + overwritten cb overwriteAndPull =
        (pushes overwriteAndPull).length ∧
      ((let o := cbCurrentLength .ok (after cb (overwriteAndPull.map opCall))
        o.ret.toNat = n ∧ o.cb = after cb (overwriteAndPull.map opCall) ∧ o.effects = []) ↔
          ¬ (after cb (overwriteAndPull.map opCall)).Overflow ∨ (2 : UInt32) = 1) :=
  ⟨rfl, current_length_iff rfl⟩

/-- A full buffer of two packets: two pulls return a packet, the current length is one. -/
theorem current_length_full :
    let cb : CircularBuffer ℕ := ⟨2, 0, fun _ => none, 0, 0⟩
    cbCreate 0 2 (fun _ => none) = some cb ∧ DrainsIn (after cb [.push .ok (some 7), .push .ok (some 8)]) 2 ∧
      (cbCurrentLength .ok (after cb [.push .ok (some 7), .push .ok (some 8)])).ret.toNat ≠ 2 :=
  ⟨rfl, .more rfl (.more rfl (.done rfl)), by decide⟩

end OhMySockets
