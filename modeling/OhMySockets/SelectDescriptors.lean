import OhMySockets.SelectLoop

/-! # The descriptors of the select loop

The `for` loop goes through a copy of the active set while connections are accepted and closed
under descriptors that are used again.  The invariant (`DescriptorInv`) has two parts:

* `active_iff`, `bound`: the active set is the listening socket and the open connections;
* `PassInv`: in a pass, up to the position of the loop every ready descriptor has been handled
  once, and from there on the ready connections are those of the last `select`.

`descriptors_correct` is what follows for all runs. -/

namespace OhMySockets

open Transition

/-- The first descriptor that the pass has not handled. -/
def LoopPc.next : LoopPc → Option ℕ
  | .scan i => some i
  | .accept i | .read i _ | .push i => some (i + 1)
  | .select | .returned _ => none

/-- The connection that the pass is dealing with. -/
def LoopPc.current : LoopPc → Option ℕ
  | .read i _ | .push i => some i
  | _ => none

/-- A pass that has handled the ready descriptors below `n`. -/
structure PassInv (S : Setting) (s : Loop) (n : ℕ) : Prop where
  handled : s.handled = (List.range n).filter (· ∈ s.readFdSet)
  ready : ∀ fd ∈ s.readFdSet, fd ≤ s.maxfd ∧ (fd = S.socketfd ∨ ∃ c, s.atSelect fd = some c)
  ahead : ∀ fd ∈ s.readFdSet, n ≤ fd → s.connection fd = s.atSelect fd

/-- **The invariant of the descriptors.** -/
structure DescriptorInv (S : Setting) (s : Loop) : Prop where
  active_iff : ∀ fd, fd ∈ s.activeFdSet ↔ fd = S.socketfd ∨ ∃ c, s.connection fd = some c
  bound : ∀ fd ∈ s.activeFdSet, fd ≤ s.maxfd ∧ fd < fdSetSize
  socket : s.connection S.socketfd = none
  pass : ∀ n, s.pc.next = some n → PassInv S s n
  current : ∀ i, s.pc.current = some i →
    i ∈ s.readFdSet ∧ ∃ c, s.atSelect i = some c ∧ s.connection i = some c

variable {S : Setting} {s s' s₀ : Loop}

namespace PassInv

theorem skip {n : ℕ} (h : PassInv S s n) (hn : n ∉ s.readFdSet) : PassInv S s (n + 1) where
  handled := by
    rw [h.handled, List.range_succ, List.filter_append]
    simp [hn]
  ready := h.ready
  ahead := fun fd hfd hle => h.ahead fd hfd (Nat.le_of_succ_le hle)

theorem handle {n : ℕ} (h : PassInv S s n) (hn : n ∈ s.readFdSet) (pc : LoopPc) :
    PassInv S { s with pc, handled := s.handled ++ [n] } (n + 1) where
  handled := by
    show s.handled ++ [n] = (List.range (n + 1)).filter (· ∈ s.readFdSet)
    rw [h.handled, List.range_succ, List.filter_append]
    simp [hn]
  ready := h.ready
  ahead := fun fd hfd hle => h.ahead fd hfd (Nat.le_of_succ_le hle)

theorem of_eq {n : ℕ} (h : PassInv S s n) (hhandled : s'.handled = s.handled)
    (hready : s'.readFdSet = s.readFdSet) (hatSelect : s'.atSelect = s.atSelect) (hmaxfd : s.maxfd ≤ s'.maxfd)
    (hahead : ∀ fd ∈ s.readFdSet, n ≤ fd → s'.connection fd = s.connection fd) : PassInv S s' n where
  handled := by rw [hhandled, hready, h.handled]
  ready := fun fd hfd => by
    rw [hready] at hfd
    obtain ⟨hle, hopen⟩ := h.ready fd hfd
    exact ⟨Nat.le_trans hle hmaxfd, hatSelect ▸ hopen⟩
  ahead := fun fd hfd hle => by
    rw [hready] at hfd
    rw [hahead fd hfd hle, hatSelect]
    exact h.ahead fd hfd hle

end PassInv

namespace DescriptorInv

theorem quiet (h : DescriptorInv S s) (hactive : s'.activeFdSet = s.activeFdSet) (hmaxfd : s'.maxfd = s.maxfd)
    (hconnection : s'.connection = s.connection) (hpass : ∀ n, s'.pc.next = some n → PassInv S s' n)
    (hcurrent : ∀ i, s'.pc.current = some i →
      i ∈ s'.readFdSet ∧ ∃ c, s'.atSelect i = some c ∧ s'.connection i = some c) : DescriptorInv S s' where
  active_iff := by
    rw [hactive, hconnection]
    exact h.active_iff
  bound := by
    rw [hactive, hmaxfd]
    exact h.bound
  socket := by
    rw [hconnection]
    exact h.socket
  pass := hpass
  current := hcurrent

theorem pass_of_eq (h : DescriptorInv S s) {n : ℕ} (hpc : s.pc.next = some n) (hhandled : s'.handled = s.handled)
    (hready : s'.readFdSet = s.readFdSet) (hatSelect : s'.atSelect = s.atSelect) (hmaxfd : s'.maxfd = s.maxfd)
    (hconnection : s'.connection = s.connection) : PassInv S s' n :=
  (h.pass n hpc).of_eq hhandled hready hatSelect (Nat.le_of_eq hmaxfd.symm) fun fd _ _ => by rw [hconnection]

theorem select (h : DescriptorInv S s) {ready : Finset ℕ} (hready : ready ⊆ s.activeFdSet) :
    PassInv S { s with readFdSet := ready, pc := .scan 0, atSelect := s.connection, handled := [] } 0 where
  handled := rfl
  ready := fun fd hfd =>
    ⟨(h.bound fd (hready hfd)).1, (h.active_iff fd).mp (hready hfd)⟩
  ahead := fun _ _ _ => rfl

/-- A connection is accepted: its descriptor was closed, so it is none of the ready ones ahead. -/
theorem accept (h : DescriptorInv S s) {i fd : ℕ} (hpc : s.pc = .accept i) (hfd : fd ≠ S.socketfd)
    (hclosed : s.connection fd = none) (hlt : fd < fdSetSize) : DescriptorInv S { s with
      maxfd := max s.maxfd fd
      activeFdSet := insert fd s.activeFdSet
      connection := Function.update s.connection fd (some s.accepted)
      accepted := s.accepted + 1
      pc := .scan (i + 1) } := by
  have hpass := h.pass (i + 1) (by rw [hpc]; rfl)
  refine ⟨fun x => ?_, fun x hx => ?_, ?_, fun n hn => ?_, fun j hj => (nomatch hj)⟩
  · simp only [Finset.mem_insert, h.active_iff, Function.update_apply]
    split_ifs with hx
    · simp [hx]
    · simp [hx]
  · rcases Finset.mem_insert.mp hx with rfl | hx
    · exact ⟨Nat.le_max_right _ _, hlt⟩
    · obtain ⟨hle, hsize⟩ := h.bound x hx
      exact ⟨Nat.le_trans hle (Nat.le_max_left _ _), hsize⟩
  · show Function.update s.connection fd (some s.accepted) S.socketfd = none
    rw [Function.update_of_ne (Ne.symm hfd), h.socket]
  · obtain rfl := Option.some.inj hn
    refine hpass.of_eq rfl rfl rfl (Nat.le_max_left _ _) fun x hx hle => ?_
    have hne : x ≠ fd := by
      rintro rfl
      obtain ⟨-, hsocket | ⟨c, hc⟩⟩ := hpass.ready x hx
      · exact hfd hsocket
      · rw [← hpass.ahead x hx hle, hclosed] at hc
        cases hc
    exact Function.update_of_ne hne _ _

/-- A read fails: the current descriptor is closed, and none of those ahead. -/
theorem close (h : DescriptorInv S s) {i : ℕ} {total : UInt32} (hpc : s.pc = .read i total)
    (event : ReadEvent) : DescriptorInv S { s with
      reads := s.reads ++ [event]
      connection := Function.update s.connection i none
      activeFdSet := s.activeFdSet.erase i
      pc := .scan (i + 1) } := by
  have hpass := h.pass (i + 1) (by rw [hpc]; rfl)
  obtain ⟨-, c, -, hc⟩ := h.current i (by rw [hpc]; rfl)
  have hsocket : S.socketfd ≠ i := by
    rintro rfl
    rw [h.socket] at hc
    cases hc
  refine ⟨fun x => ?_, fun x hx => h.bound x (Finset.mem_of_mem_erase hx), ?_, fun n hn => ?_,
    fun j hj => (nomatch hj)⟩
  · simp only [Finset.mem_erase, h.active_iff, Function.update_apply]
    split_ifs with hx
    · simp [hx, Ne.symm hsocket]
    · simp [hx]
  · show Function.update s.connection i none S.socketfd = none
    rw [Function.update_of_ne hsocket, h.socket]
  · obtain rfl := Option.some.inj hn
    refine hpass.of_eq rfl rfl rfl (Nat.le_refl _) fun x _ hle => ?_
    have hne : x ≠ i := by
      rintro rfl
      exact Nat.not_succ_le_self x hle
    exact Function.update_of_ne hne _ _

theorem afterRead_delivered (s : Loop) (i : ℕ) (total : UInt32) {count : ℕ} (hcount : 1 ≤ count) :
    ∃ pc, afterRead s i (readStatus frameSize total count) = { s with pc } ∧ pc.next = some (i + 1) ∧
      pc.current = some i := by
  unfold readStatus
  rw [if_neg (by omega), if_neg (by omega)]
  dsimp only
  split_ifs
  · exact ⟨.read i _, rfl, rfl, rfl⟩
  · exact ⟨.push i, rfl, rfl, rfl⟩

/-- **Every step keeps the invariant.** -/
theorem step (h : DescriptorInv S s) {a : LoopAction} (hstep : loopStep S s a = some s') :
    DescriptorInv S s' := by
  cases loopStep_move hstep with
  | select _ hready =>
      refine h.quiet rfl rfl rfl (fun n hn => ?_) fun j hj => (nomatch hj)
      obtain rfl := Option.some.inj hn
      exact h.select hready
  | selectFails | acceptFails | passEnds =>
      exact h.quiet rfl rfl rfl (fun n hn => (nomatch hn)) fun j hj => (nomatch hj)
  | @listening i hpc _ hready _ =>
      refine h.quiet rfl rfl rfl (fun n hn => ?_) fun j hj => (nomatch hj)
      obtain rfl := Option.some.inj hn
      exact (h.pass i (by rw [hpc]; rfl)).handle hready _
  | @reading i hpc _ hready hne =>
      have hpass := h.pass i (by rw [hpc]; rfl)
      refine h.quiet rfl rfl rfl (fun n hn => ?_) fun j hj => ?_
      · obtain rfl := Option.some.inj hn
        exact hpass.handle hready _
      · obtain rfl := Option.some.inj hj
        obtain ⟨-, hsocket | ⟨c, hc⟩⟩ := hpass.ready i hready
        · exact absurd hsocket hne
        · exact ⟨hready, c, hc, (hpass.ahead i hready (Nat.le_refl i)).trans hc⟩
  | @notReady i hpc _ hready =>
      refine h.quiet rfl rfl rfl (fun n hn => ?_) fun j hj => (nomatch hj)
      obtain rfl := Option.some.inj hn
      exact ((h.pass i (by rw [hpc]; rfl)).skip hready).of_eq rfl rfl rfl (Nat.le_refl _) fun _ _ _ => rfl
  | accepted hpc hfd hclosed hlt => exact h.accept hpc hfd hclosed hlt
  | @delivered i c count total hpc hc hcount _ =>
      obtain ⟨pc, hafter, hnext, hcurrent⟩ := afterRead_delivered _ i total hcount
      rw [hafter]
      refine h.quiet rfl rfl rfl (fun n hn => ?_) fun j hj => ?_
      · obtain rfl : i + 1 = n := Option.some.inj (hnext.symm.trans hn)
        exact h.pass_of_eq (by rw [hpc]; rfl) rfl rfl rfl rfl rfl
      · obtain rfl : i = j := Option.some.inj (hcurrent.symm.trans hj)
        exact h.current i (by rw [hpc]; rfl)
  | closed hpc _ => exact h.close hpc _
  | @tooLarge i _ hpc | @pushed i _ _ _ hpc =>
      refine h.quiet rfl rfl rfl (fun n hn => ?_) fun j hj => (nomatch hj)
      obtain rfl := Option.some.inj hn
      exact h.pass_of_eq (by rw [hpc]; rfl) rfl rfl rfl rfl rfl

end DescriptorInv

/-! ### All runs -/

theorem LoopInitial.descriptors (h : LoopInitial S s) (hsocket : S.socketfd < fdSetSize) : DescriptorInv S s where
  active_iff := fun fd => by
    rw [h.activeFdSet, h.connection, Finset.mem_singleton]
    simp
  bound := fun fd hfd => by
    rw [h.activeFdSet, Finset.mem_singleton] at hfd
    rw [hfd, h.maxfd]
    exact ⟨Nat.le_refl _, hsocket⟩
  socket := h.connection _
  pass := fun n hn => by
    rw [h.pc] at hn
    cases hn
  current := fun i hi => by
    rw [h.pc] at hi
    cases hi

theorem descriptorInv (hsocket : S.socketfd < fdSetSize) (hinit : LoopInitial S s₀)
    (hrun : Reaches (loopStep S) s₀ s) : DescriptorInv S s :=
  Run.invariant (I := DescriptorInv S) hrun (hinit.descriptors hsocket) fun _ _ h hstep => h.step hstep

theorem removed_iff {a : LoopAction} (hstep : loopStep S s a = some s') {fd c : ℕ}
    (hc : s.connection fd = some c) :
    s'.connection fd ≠ some c ↔ ∃ result total, a = .readFails result ∧ s.pc = .read fd total := by
  cases loopStep_move hstep with
  | @closed i total result hpc _ =>
      by_cases hfd : fd = i
      · subst hfd
        simp [hpc]
      · have hkept : Function.update s.connection i none fd = some c := by
          rw [Function.update_of_ne hfd, hc]
        simp [hkept, hpc, Ne.symm hfd]
  | @accepted i fd' _ _ hclosed _ =>
      have hne : fd ≠ fd' := by
        rintro rfl
        rw [hclosed] at hc
        cases hc
      simp [Function.update_of_ne hne, hc]
  | @delivered i _ _ total _ _ hcount _ =>
      obtain ⟨pc, hafter, -, -⟩ := DescriptorInv.afterRead_delivered _ i total hcount
      rw [hafter]
      simp [hc]
  | _ => simp [hc]

/-- What holds of the descriptors in a state of the loop. -/
structure DescriptorsCorrect (S : Setting) (s : Loop) : Prop where
  /-- at `select` the active descriptors are the listening socket and the open connections -/
  active : s.pc = .select → ∀ fd, fd ∈ s.activeFdSet ↔ fd = S.socketfd ∨ ∃ c, s.connection fd = some c
  bound : s.pc = .select → ∀ fd ∈ s.activeFdSet, fd ≤ s.maxfd ∧ fd < fdSetSize
  /-- when a pass ends each ready descriptor has been handled exactly once -/
  handled : ∀ i, s.pc = .scan i → s.maxfd < i → s.handled.Nodup ∧ ∀ fd, fd ∈ s.handled ↔ fd ∈ s.readFdSet
  /-- a read is made on a connection that was open and reported at this pass's `select` -/
  read : ∀ i total, s.pc = .read i total →
    i ∈ s.readFdSet ∧ ∃ c, s.atSelect i = some c ∧ s.connection i = some c
  /-- a connection is removed by a failed read on it, and in no other way -/
  removed : ∀ a s', loopStep S s a = some s' → ∀ fd c, s.connection fd = some c →
    (s'.connection fd ≠ some c ↔ ∃ result total, a = .readFails result ∧ s.pc = .read fd total)
  /-- then its descriptor leaves the active set, and no other does -/
  erased : ∀ result s', loopStep S s (.readFails result) = some s' →
    ∃ i, (∃ total, s.pc = .read i total) ∧ i ∈ s.activeFdSet ∧ s'.connection i = none ∧
      s'.activeFdSet = s.activeFdSet.erase i

/-- **The descriptors are right in every run.** -/
theorem descriptors_correct (hsocket : S.socketfd < fdSetSize) (hinit : LoopInitial S s₀)
    (hrun : Reaches (loopStep S) s₀ s) : DescriptorsCorrect S s := by
  have h := descriptorInv hsocket hinit hrun
  refine ⟨fun _ => h.active_iff, fun _ => h.bound, fun i hpc hlt => ?_, fun i total hpc => ?_,
    fun a s' hstep fd c hc => removed_iff hstep hc, fun result s' hstep => ?_⟩
  · obtain ⟨hhandled, hready, -⟩ := h.pass i (by rw [hpc]; rfl)
    rw [hhandled]
    refine ⟨List.nodup_range.filter _, fun fd => ?_⟩
    rw [List.mem_filter, List.mem_range, decide_eq_true_eq, and_iff_right_iff_imp]
    intro hfd
    exact Nat.lt_of_le_of_lt (hready fd hfd).1 hlt
  · exact h.current i (by rw [hpc]; rfl)
  · cases loopStep_move hstep with
    | @closed i total _ hpc _ =>
        obtain ⟨-, c, -, hc⟩ := h.current i (by rw [hpc]; rfl)
        exact ⟨i, ⟨total, hpc⟩, (h.active_iff i).mpr (Or.inr ⟨c, hc⟩), Function.update_self .., rfl⟩

/-- A server with descriptor 3 as listening socket. -/
def listeningSetting : Setting := ⟨3, {0, 1, 2}, .big, firstSixteen, 0, fun _ _ => 0⟩

/-- A connection is accepted under descriptor 4, is ready in the next pass, and sends half a frame. -/
def acceptThenRead : List LoopAction := acceptPass 4 ++ scanToFour {4} ++ [.read 713]

/-- Then it ends, and its descriptor leaves the active set. -/
theorem descriptors_correct_ended : ∃ s s', runActions (loopStep listeningSetting) sampleLoop acceptThenRead = some s ∧
    s.activeFdSet = {3, 4} ∧ loopStep listeningSetting s (.readFails 0) = some s' ∧ s'.connection 4 = none ∧
    s'.activeFdSet = s.activeFdSet.erase 4 := by
  obtain ⟨s, s', hs, hpc, hactive, hends⟩ : ∃ s s',
      runActions (loopStep listeningSetting) sampleLoop acceptThenRead = some s ∧ s.pc = .read 4 713 ∧
      s.activeFdSet = {3, 4} ∧ loopStep listeningSetting s (.readFails 0) = some s' :=
    ⟨_, _, rfl, rfl, by decide, rfl⟩
  have hcorrect := descriptors_correct (by decide)
    ⟨rfl, rfl, rfl, fun _ => rfl, rfl, fun _ => rfl, rfl, rfl⟩ (run_of_runActions _ hs)
  obtain ⟨i, ⟨total, hi⟩, -, hclosed, herased⟩ := hcorrect.erased 0 s' hends
  obtain rfl : 4 = i := (LoopPc.read.inj (hpc.symm.trans hi)).1
  exact ⟨s, s', hs, hactive, hends, hclosed, herased⟩

end OhMySockets
