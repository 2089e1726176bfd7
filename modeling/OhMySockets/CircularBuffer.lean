import OhMySockets.Ring

/-! # The circular buffer

`server/circular_buffer.c`, generic over the pointers that it stores (`none` is `NULL`).  The
outcome of the `pthread_mutex_lock` and `pthread_mutex_unlock` calls is a parameter of every
operation.  Besides its return value and the new buffer an operation records its effects: the
slots that it reads and writes, and the packets that it frees.

`Layout content a q cb` is the invariant that explains the buffer: `q` are the unread pointers,
the oldest being item number `a` of the run, item `t` lies in slot `t % length`, and a slot that no
push has reached yet still has its initial `content`.  `Layout.pull`, `Layout.push_room` and
`Layout.push_full` say what the critical sections do; every later result is derived from these. -/

namespace OhMySockets

open Ring

variable {α β : Type}

/-- `struct circular_buffer`, without its mutex. -/
structure CircularBuffer (α : Type) where
  length : UInt32
  isDirty : UInt32
  data : ℕ → Option α
  pushIndex : UInt32
  pullIndex : UInt32

/-- What an operation does to memory: `data[i]` is read or written, a packet is freed. -/
inductive Effect (α : Type) where
  | slotRead (i : ℕ)
  | slotWrite (i : ℕ)
  | free (packet : α)
deriving DecidableEq

/-- The return value of an operation, the buffer after it and its effects in order. -/
structure Outcome (α β : Type) where
  ret : β
  cb : CircularBuffer α
  effects : List (Effect α)

/-- The results of the two mutex calls of an operation, `0` for success. -/
structure MutexCalls where
  lock : ℤ
  unlock : ℤ
deriving DecidableEq

/-- Both calls succeed. -/
def MutexCalls.ok : MutexCalls := ⟨0, 0⟩

/-- `cb_create`: `content` is what `malloc` leaves in the slots. -/
def cbCreate (mutexInit : ℤ) (length : UInt32) (content : ℕ → Option α) : Option (CircularBuffer α) :=
  if length = 0 then none
  else if mutexInit ≠ 0 then none
  else some ⟨length, 0, content, 0, 0⟩

/-- The critical section of `cb_pull`. -/
def pullSection (cb : CircularBuffer α) : Outcome α (Option α) :=
  if cb.isDirty = 0 ∧ cb.pushIndex = cb.pullIndex then ⟨none, cb, []⟩
  else
    let i := cb.pullIndex.toNat
    let packet := cb.data i
    let pullIndex := advance cb.length cb.pullIndex
    -- all data has been read
    let isDirty := if cb.pushIndex = pullIndex then 0 else cb.isDirty
    ⟨packet, { cb with data := Function.update cb.data i none, pullIndex, isDirty },
      [.slotRead i, .slotWrite i]⟩

/-- The critical section of `cb_push`. -/
def pushSection (cb : CircularBuffer α) (packet : Option α) : Outcome α ℤ :=
  -- overflow
  let pullIndex :=
    if cb.isDirty ≠ 0 ∧ cb.pushIndex = cb.pullIndex then advance cb.length cb.pullIndex
    else cb.pullIndex
  let i := cb.pushIndex.toNat
  -- freeing
  let freed := (cb.data i).toList.map Effect.free
  let pushIndex := advance cb.length cb.pushIndex
  let isDirty := if cb.isDirty = 0 then 1 else cb.isDirty
  ⟨0, { cb with data := Function.update cb.data i packet, pushIndex, pullIndex, isDirty },
    .slotRead i :: freed ++ [.slotWrite i]⟩

/-- The critical section of `cb_current_length`. -/
def lengthSection (cb : CircularBuffer α) : UInt32 :=
  if cb.pushIndex = cb.pullIndex then
    if cb.isDirty ≠ 0 then 1 else 0
  else if cb.pushIndex > cb.pullIndex then cb.pushIndex - cb.pullIndex
  else cb.length - (cb.pullIndex - cb.pushIndex)

/-- `cb_pull`. -/
def cbPull (mutex : MutexCalls) (cb : CircularBuffer α) : Outcome α (Option α) :=
  if mutex.lock ≠ 0 then ⟨none, cb, []⟩
  else if mutex.unlock ≠ 0 then { pullSection cb with ret := none }
  else pullSection cb

/-- `cb_push`. -/
def cbPush (mutex : MutexCalls) (cb : CircularBuffer α) (packet : Option α) : Outcome α ℤ :=
  if mutex.lock ≠ 0 then ⟨-1, cb, []⟩
  else if mutex.unlock ≠ 0 then { pushSection cb packet with ret := -1 }
  else pushSection cb packet

/-- `cb_current_length`; the failure value `-1` is converted to `unsigned int`. -/
def cbCurrentLength (mutex : MutexCalls) (cb : CircularBuffer α) : Outcome α UInt32 :=
  if mutex.lock ≠ 0 then ⟨-1, cb, []⟩
  else if mutex.unlock ≠ 0 then ⟨-1, cb, []⟩
  else ⟨lengthSection cb, cb, []⟩

/-- The test with which `cb_push` detects an overflow. -/
def CircularBuffer.Overflow (cb : CircularBuffer α) : Prop := cb.isDirty ≠ 0 ∧ cb.pushIndex = cb.pullIndex

instance (cb : CircularBuffer α) : Decidable cb.Overflow := inferInstanceAs (Decidable (_ ∧ _))

/-- The number of unread pointers, as the indices and the flag determine it. -/
def CircularBuffer.unreadCount (cb : CircularBuffer α) : ℕ :=
  if cb.Overflow then cb.length.toNat
  else if cb.pullIndex ≤ cb.pushIndex then cb.pushIndex.toNat - cb.pullIndex.toNat
  else cb.length.toNat - (cb.pullIndex.toNat - cb.pushIndex.toNat)

/-- The unread pointers, the oldest first. -/
def CircularBuffer.unread (cb : CircularBuffer α) : List (Option α) :=
  (List.range cb.unreadCount).map fun k => cb.data ((cb.pullIndex.toNat + k) % cb.length.toNat)

/-- The packets freed among some effects, in order. -/
def freed (effects : List (Effect α)) : List α :=
  effects.filterMap fun
    | .free packet => some packet
    | _ => none

@[simp] theorem freed_append (es fs : List (Effect α)) : freed (es ++ fs) = freed es ++ freed fs :=
  List.filterMap_append

theorem freed_pushSection (cb : CircularBuffer α) (packet : Option α) :
    freed (pushSection cb packet).effects = (cb.data cb.pushIndex.toNat).toList := by
  cases h : cb.data cb.pushIndex.toNat <;> simp [pushSection, freed, h]

theorem freed_pullSection (cb : CircularBuffer α) : freed (pullSection cb).effects = [] := by
  unfold pullSection
  split_ifs <;> rfl

/-! ### The layout of a buffer -/

/-- `q` are the unread pointers of `cb`, from item number `a` of the run on; slots that no push has
reached yet have their initial `content`. -/
structure Layout (content : ℕ → Option α) (a : ℕ) (q : List (Option α)) (cb : CircularBuffer α) :
    Prop where
  pos : 0 < cb.length.toNat
  bound : q.length ≤ cb.length.toNat
  push_index : cb.pushIndex.toNat = (a + q.length) % cb.length.toNat
  pull_index : cb.pullIndex.toNat = a % cb.length.toNat
  dirty : cb.isDirty ≠ 0 ↔ q ≠ []
  unread : ∀ k (h : k < q.length), cb.data ((a + k) % cb.length.toNat) = q[k]
  rest : ∀ i < cb.length.toNat, Outside cb.length.toNat a q.length i →
    cb.data i = if i < a + q.length then none else content i

namespace Layout

variable {content : ℕ → Option α} {a : ℕ} {q : List (Option α)} {cb : CircularBuffer α}

theorem create {mutexInit : ℤ} {length : UInt32} (h : cbCreate mutexInit length content = some cb) :
    Layout content 0 [] cb ∧ cb.length = length := by
  unfold cbCreate at h
  split_ifs at h with h0
  obtain rfl := Option.some.inj h
  have hpos : 0 < length.toNat := by
    have hne : length.toNat ≠ 0 := fun hz => h0 (UInt32.toNat_inj.mp (hz.trans rfl))
    omega
  exact ⟨⟨hpos, Nat.zero_le _, by simp, by simp, by simp, by simp, by simp⟩, rfl⟩

theorem pushIndex_lt (h : Layout content a q cb) : cb.pushIndex < cb.length := by
  rw [UInt32.lt_iff_toNat_lt, h.push_index]
  exact Nat.mod_lt _ h.pos

theorem pullIndex_lt (h : Layout content a q cb) : cb.pullIndex < cb.length := by
  rw [UInt32.lt_iff_toNat_lt, h.pull_index]
  exact Nat.mod_lt _ h.pos

theorem index_eq_iff (h : Layout content a q cb) :
    cb.pushIndex = cb.pullIndex ↔ q.length = 0 ∨ q.length = cb.length.toNat := by
  rw [← UInt32.toNat_inj, h.push_index, h.pull_index]
  constructor
  · intro he
    by_contra hne
    have hbound := h.bound
    have := slot_inj (by omega) (by omega) he.symm
    omega
  · rintro (h0 | hfull)
    · rw [h0, Nat.add_zero]
    · rw [hfull, Nat.add_mod_right]

theorem empty_iff (h : Layout content a q cb) :
    (cb.isDirty = 0 ∧ cb.pushIndex = cb.pullIndex) ↔ q = [] := by
  rw [h.index_eq_iff]
  have hdirty := h.dirty
  constructor
  · rintro ⟨h0, -⟩
    by_contra hne
    exact hdirty.mpr hne h0
  · rintro rfl
    refine ⟨?_, Or.inl rfl⟩
    by_contra hne
    exact hdirty.mp hne rfl

theorem full_iff (h : Layout content a q cb) :
    (cb.isDirty ≠ 0 ∧ cb.pushIndex = cb.pullIndex) ↔ q.length = cb.length.toNat := by
  rw [h.index_eq_iff, h.dirty]
  have hpos := h.pos
  constructor
  · rintro ⟨hne, h0 | hfull⟩
    · exact absurd (List.eq_nil_of_length_eq_zero h0) hne
    · exact hfull
  · intro hfull
    refine ⟨?_, Or.inr hfull⟩
    rintro rfl
    simp only [List.length_nil] at hfull
    omega

/-! ### The critical sections -/

theorem pull_empty (h : Layout content a [] cb) : pullSection cb = ⟨none, cb, []⟩ := by
  unfold pullSection
  rw [if_pos (h.empty_iff.mpr rfl)]

section pull

variable {p : Option α}

theorem data_oldest (h : Layout content a (p :: q) cb) : cb.data (a % cb.length.toNat) = p :=
  h.unread 0 (Nat.succ_pos q.length)

theorem pullSection_eq (h : Layout content a (p :: q) cb) :
    pullSection cb = ⟨p, { cb with
      data := Function.update cb.data (a % cb.length.toNat) none
      pullIndex := advance cb.length cb.pullIndex
      isDirty := if q = [] then 0 else cb.isDirty },
      [.slotRead (a % cb.length.toNat), .slotWrite (a % cb.length.toNat)]⟩ := by
  have hne : ¬ (cb.isDirty = 0 ∧ cb.pushIndex = cb.pullIndex) := fun he => by
    cases h.empty_iff.mp he
  have hbound := h.bound
  simp only [List.length_cons] at hbound
  -- the indices meet exactly when nothing is left
  have hmeet : cb.pushIndex = advance cb.length cb.pullIndex ↔ q = [] := by
    rw [← UInt32.toNat_inj, advance_toNat h.pos h.pull_index, h.push_index,
      ← List.length_eq_zero_iff, List.length_cons]
    constructor
    · intro he
      have := slot_inj (by omega) (by omega) he.symm
      omega
    · intro h0
      rw [h0]
  unfold pullSection
  rw [if_neg hne]
  simp only [h.pull_index, h.data_oldest, hmeet]

theorem pull (h : Layout content a (p :: q) cb) : Layout content (a + 1) q (pullSection cb).cb := by
  have hpos := h.pos
  have hbound := h.bound
  simp only [List.length_cons] at hbound
  rw [h.pullSection_eq]
  refine ⟨hpos, show q.length ≤ cb.length.toNat by omega, ?_, advance_toNat hpos h.pull_index, ?_,
    fun k hk => ?_, fun i hi hout => ?_⟩
  · show cb.pushIndex.toNat = (a + 1 + q.length) % cb.length.toNat
    rw [h.push_index, List.length_cons, Nat.add_right_comm, Nat.add_assoc]
  · have hdirty := h.dirty.mpr (List.cons_ne_nil p q)
    by_cases hq : q = [] <;> simp [hq, hdirty]
  · show Function.update cb.data (a % cb.length.toNat) none ((a + 1 + k) % cb.length.toNat) = q[k]
    have hne := succ_slot_ne (a := a) (show k + 1 < cb.length.toNat by omega)
    have hold := h.unread (k + 1) (by simpa using hk)
    rw [Nat.add_right_comm, Nat.add_assoc, Function.update_of_ne hne, hold]
    rfl
  · show Function.update cb.data (a % cb.length.toNat) none i =
      if i < a + 1 + q.length then none else content i
    by_cases hai : a % cb.length.toNat = i
    · -- the slot that the pull has cleared
      have hle : a % cb.length.toNat ≤ a := Nat.mod_le a _
      rw [hai, Function.update_self, if_pos (by omega)]
    · have hold := h.rest i hi (outside_succ_left.mpr ⟨hai, hout⟩)
      rw [Function.update_of_ne (Ne.symm hai), hold, List.length_cons, Nat.add_right_comm, Nat.add_assoc]

end pull

section push

variable {x : Option α}

/-- A push does to the indices, the slots and the flag what it does in either case: the new pointer
goes into the slot of item number `a + q.length`. -/
theorem pushSection_eq (h : Layout content a q cb) : (pushSection cb x).cb = { cb with
    data := Function.update cb.data ((a + q.length) % cb.length.toNat) x
    pushIndex := advance cb.length cb.pushIndex
    pullIndex := if q.length = cb.length.toNat then advance cb.length cb.pullIndex else cb.pullIndex
    isDirty := if cb.isDirty = 0 then 1 else cb.isDirty } := by
  unfold pushSection
  simp only [h.full_iff, h.push_index]

theorem freed_push (h : Layout content a q cb) :
    freed (pushSection cb x).effects = (cb.data ((a + q.length) % cb.length.toNat)).toList := by
  rw [freed_pushSection, h.push_index]

theorem dirty_push (isDirty : UInt32) : (if isDirty = 0 then 1 else isDirty) ≠ 0 := by
  split_ifs with h
  · decide
  · exact h

theorem push_room (h : Layout content a q cb) (hroom : q.length < cb.length.toNat) :
    Layout content a (q ++ [x]) (pushSection cb x).cb := by
  rw [h.pushSection_eq, if_neg (Nat.ne_of_lt hroom)]
  refine ⟨h.pos, ?_, ?_, h.pull_index, ?_, fun k hk => ?_, fun i hi hout => ?_⟩
  · simpa using Nat.succ_le_of_lt hroom
  · show (advance cb.length cb.pushIndex).toNat = (a + (q ++ [x]).length) % cb.length.toNat
    rw [advance_toNat h.pos h.push_index, List.length_append, List.length_singleton, Nat.add_assoc]
  · simp [dirty_push]
  · show Function.update cb.data ((a + q.length) % cb.length.toNat) x ((a + k) % cb.length.toNat) = _
    rcases Nat.lt_or_ge k q.length with hlt | hge
    · have hne := slot_ne (a := a) (by omega) hroom (Nat.ne_of_lt hlt)
      rw [Function.update_of_ne hne, h.unread k hlt, List.getElem_append_left hlt]
    · obtain rfl : k = q.length := by
        simp only [List.length_append, List.length_singleton] at hk
        omega
      rw [Function.update_self, List.getElem_concat_length rfl]
  · show Function.update cb.data ((a + q.length) % cb.length.toNat) x i =
      if i < a + (q ++ [x]).length then none else content i
    rw [List.length_append, List.length_singleton] at hout ⊢
    obtain ⟨hout, hne⟩ := outside_succ_right.mp hout
    rw [Function.update_of_ne (Ne.symm hne), h.rest i hi hout, ← Nat.add_assoc]
    -- slot `a + q.length` itself is not `i`
    have hself : i ≠ a + q.length := fun he => hne (by rw [← he, Nat.mod_eq_of_lt hi])
    by_cases hlt : i < a + q.length
    · rw [if_pos hlt, if_pos (by omega)]
    · rw [if_neg hlt, if_neg (by omega)]

/-- While there is room, a push frees what `malloc` left in a slot of the first lap. -/
theorem freed_push_room (h : Layout content a q cb) (hroom : q.length < cb.length.toNat) :
    freed (pushSection cb x).effects =
      if a + q.length < cb.length.toNat then (content (a + q.length)).toList else [] := by
  have hout : Outside cb.length.toNat a q.length ((a + q.length) % cb.length.toNat) :=
    fun k hk => slot_ne (by omega) hroom (Nat.ne_of_lt hk)
  rw [h.freed_push, h.rest _ (Nat.mod_lt _ h.pos) hout]
  split_ifs with h1 h2 h2
  · rw [Nat.mod_eq_of_lt h2] at h1
    omega
  · rfl
  · rw [Nat.mod_eq_of_lt h2]
  · have := Nat.mod_lt (a + q.length) h.pos
    omega

theorem push_full {p : Option α} (h : Layout content a (p :: q) cb)
    (hfull : (p :: q).length = cb.length.toNat) :
    Layout content (a + 1) (q ++ [x]) (pushSection cb x).cb := by
  have hpos := h.pos
  have hlen : q.length + 1 = cb.length.toNat := by simpa using hfull
  have hslot : (a + (p :: q).length) % cb.length.toNat = a % cb.length.toNat := by
    rw [hfull, Nat.add_mod_right]
  rw [h.pushSection_eq, if_pos hfull, hslot]
  refine ⟨hpos, ?_, ?_, advance_toNat hpos h.pull_index, ?_, fun k hk => ?_, fun i hi hout => ?_⟩
  · simp [hlen]
  · show (advance cb.length cb.pushIndex).toNat = (a + 1 + (q ++ [x]).length) % cb.length.toNat
    rw [advance_toNat hpos h.push_index, List.length_append, List.length_singleton, List.length_cons,
      Nat.add_right_comm]
  · simp [dirty_push]
  · show Function.update cb.data (a % cb.length.toNat) x ((a + 1 + k) % cb.length.toNat) = _
    rw [Nat.add_right_comm, Nat.add_assoc]
    rcases Nat.lt_or_ge k q.length with hlt | hge
    · have hne := succ_slot_ne (a := a) (show k + 1 < cb.length.toNat by omega)
      have hold := h.unread (k + 1) (by simpa using hlt)
      rw [Function.update_of_ne hne, hold, List.getElem_append_left hlt]
      rfl
    · -- the slot of the pointer just pushed
      obtain rfl : k = q.length := by
        simp only [List.length_append, List.length_singleton] at hk
        omega
      rw [hlen, Nat.add_mod_right, Function.update_self, List.getElem_concat_length rfl]
  · -- all slots are in use
    rw [List.length_append, List.length_singleton, hlen] at hout
    exact absurd hout (outside_full hpos hi (a + 1))

theorem freed_push_full {p : Option α} (h : Layout content a (p :: q) cb)
    (hfull : (p :: q).length = cb.length.toNat) : freed (pushSection cb x).effects = p.toList := by
  rw [h.freed_push, hfull, Nat.add_mod_right, h.data_oldest]

end push

/-! ### Counting -/

theorem overflow_iff (h : Layout content a q cb) : cb.Overflow ↔ q.length = cb.length.toNat :=
  h.full_iff

theorem push_index_eq (h : Layout content a q cb) (hlt : q.length < cb.length.toNat) :
    cb.pushIndex.toNat = if cb.pullIndex.toNat + q.length < cb.length.toNat
      then cb.pullIndex.toNat + q.length else cb.pullIndex.toNat + q.length - cb.length.toNat := by
  rw [h.push_index, h.pull_index, add_mod_eq hlt]

theorem unreadCount_eq (h : Layout content a q cb) : cb.unreadCount = q.length := by
  have hbound := h.bound
  have hpull := UInt32.lt_iff_toNat_lt.mp h.pullIndex_lt
  unfold CircularBuffer.unreadCount
  simp only [h.overflow_iff]
  split_ifs with hfull hle
  · exact hfull.symm
  · rw [UInt32.le_iff_toNat_le] at hle
    have hpush := h.push_index_eq (by omega)
    split_ifs at hpush <;> omega
  · rw [UInt32.le_iff_toNat_le] at hle
    have hpush := h.push_index_eq (by omega)
    split_ifs at hpush <;> omega

/-- **The slots between the indices hold the unread pointers.** -/
theorem unread_eq (h : Layout content a q cb) : cb.unread = q := by
  unfold CircularBuffer.unread
  rw [h.unreadCount_eq]
  apply List.ext_getElem (by simp)
  intro k hk hk'
  rw [List.getElem_map, List.getElem_range, h.pull_index, Nat.mod_add_mod, h.unread k hk']

/-- **What `cb_current_length` returns**: the number of unread pointers, except that a full buffer
counts as one. -/
theorem lengthSection_toNat (h : Layout content a q cb) :
    (lengthSection cb).toNat = if q.length = cb.length.toNat then 1 else q.length := by
  have hpos := h.pos
  have hbound := h.bound
  have hpull := UInt32.lt_iff_toNat_lt.mp h.pullIndex_lt
  unfold lengthSection
  by_cases heq : cb.pushIndex = cb.pullIndex
  · rw [if_pos heq]
    rcases h.index_eq_iff.mp heq with h0 | hfull
    · have hclean : ¬ cb.isDirty ≠ 0 := fun hd => h.dirty.mp hd (List.eq_nil_of_length_eq_zero h0)
      rw [if_neg hclean, h0, if_neg (Nat.ne_of_lt hpos)]
      rfl
    · rw [if_pos (h.full_iff.mpr hfull).1, if_pos hfull]
      rfl
  · have hne := mt h.index_eq_iff.mpr heq
    have hpush := h.push_index_eq (by omega)
    rw [if_neg heq, if_neg fun he => hne (Or.inr he)]
    by_cases hgt : cb.pushIndex > cb.pullIndex
    · -- the unread slots are contiguous
      rw [if_pos hgt, UInt32.toNat_sub_of_le _ _ (UInt32.le_of_lt hgt)]
      rw [gt_iff_lt, UInt32.lt_iff_toNat_lt] at hgt
      split_ifs at hpush <;> omega
    · -- the unread slots wrap around
      have hle : cb.pushIndex ≤ cb.pullIndex := UInt32.not_lt.mp hgt
      have hback : (cb.pullIndex - cb.pushIndex).toNat = cb.pullIndex.toNat - cb.pushIndex.toNat :=
        UInt32.toNat_sub_of_le _ _ hle
      have hfits : cb.pullIndex - cb.pushIndex ≤ cb.length := by
        rw [UInt32.le_iff_toNat_le, hback]
        omega
      rw [if_neg hgt, UInt32.toNat_sub_of_le _ _ hfits, hback]
      rw [UInt32.le_iff_toNat_le] at hle
      split_ifs at hpush <;> omega

end Layout

end OhMySockets
