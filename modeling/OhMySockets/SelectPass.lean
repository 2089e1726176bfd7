import OhMySockets.SelectDescriptors
import OhMySockets.SelectFrames

/-! # A pass of the select loop

What happens between two calls of `select`.

* `loopStep_rank`: every step of a pass lowers `LoopPc.rank`, also the reads of a slow client, each of which
  delivers a byte or fails;
* `Serving`: a ready connection that the pass has dealt with has had one frame pushed or is closed;
* `pass_serves`: a pass ends after boundedly many calls; every ready connection has then been served once, and no
  other one. -/

namespace OhMySockets

open ByteMemory Transition

/-- The calls of a pass. -/
def LoopAction.InPass : LoopAction → Prop
  | .select _ | .selectFails => False
  | _ => True

/-- How many calls the rest of the pass can take: for a descriptor at most 1426 reads, a push and the test. -/
def LoopPc.rank : LoopPc → ℕ
  | .select | .returned _ => 0
  | .scan i => 1 + 1429 * (1024 - i)
  | .accept i | .push i => 2 + 1429 * (1023 - i)
  | .read i total => 2 + (1426 - total.toNat) + 1429 * (1023 - i)

/-- The pass has dealt with the descriptor. -/
def Loop.Dealt (s : Loop) (fd : ℕ) : Prop := fd ∈ s.handled ∧ s.pc.current ≠ some fd

/-- What the pass has pushed, when `base` packets had been pushed from each connection before it. -/
structure Serving (base : ℕ → ℕ) (s : Loop) : Prop where
  known : ∀ fd c, s.atSelect fd = some c → c < s.accepted
  distinct : ∀ fd fd' c, s.atSelect fd = some c → s.atSelect fd' = some c → fd = fd'
  ahead : ∀ fd c, s.atSelect fd = some c → ¬ s.Dealt fd → frames s c = base c
  dealt : ∀ fd c, s.atSelect fd = some c → s.Dealt fd →
    s.connection fd = some c ∧ frames s c = base c + 1 ∨ s.connection fd ≠ some c ∧ frames s c = base c
  others : ∀ c, (∀ fd, s.atSelect fd ≠ some c) → frames s c = base c

/-- What holds in the pass after `select` has reported `ready` in the state `before`; at its end all ready
descriptors have been handled. -/
structure Passing (S : Setting) (before : Loop) (ready : Finset ℕ) (s : Loop) : Prop where
  loop : LoopInv S s
  descriptors : DescriptorInv S s
  maxfd_lt : s.maxfd < fdSetSize
  reported : s.readFdSet = ready
  atSelect : s.atSelect = before.connection
  serving : Serving (frames before) s
  ended : s.pc = .select → ∀ fd, fd ∈ s.handled ↔ fd ∈ s.readFdSet

/-- Every ready connection has had one frame pushed or is closed, and no other one has had a frame pushed. -/
structure ClientsServed (before s : Loop) (ready : Finset ℕ) : Prop where
  once : ∀ fd ∈ ready, ∀ c, before.connection fd = some c →
    s.connection fd = some c ∧ frames s c = frames before c + 1 ∨
      s.connection fd ≠ some c ∧ frames s c = frames before c
  others : ∀ c, (∀ fd ∈ ready, before.connection fd ≠ some c) → frames s c = frames before c

variable {S : Setting} {base : ℕ → ℕ} {before s s' s₀ : Loop} {ready : Finset ℕ}

theorem frames_of_eq (h : s'.pushed = s.pushed) (c : ℕ) : frames s' c = frames s c := by
  rw [frames, frames, h]

/-! ### The rank -/

theorem loopStep_rank (hloop : LoopInv S s) (hmaxfd : s.maxfd < fdSetSize) {a : LoopAction} (ha : a.InPass)
    (hstep : loopStep S s a = some s') : s'.pc.rank < s.pc.rank := by
  have hmaxfd : s.maxfd < 1024 := hmaxfd
  cases loopStep_move hstep with
  | select | selectFails => exact ha.elim
  | listening hpc hle | notReady hpc hle | reading hpc hle =>
      simp only [hpc, LoopPc.rank, UInt32.toNat_zero]
      omega
  | acceptFails hpc | passEnds hpc | tooLarge hpc | accepted hpc | closed hpc | pushed hpc =>
      simp only [hpc, LoopPc.rank]
      omega
  | @delivered i c count total hpc hc hcount hchunk =>
      have htotal : total.toNat < 1426 := hloop.frames.total i total hpc
      have hfits : total.toNat + count ≤ 1426 :=
        Nat.le_trans (Nat.add_le_add_left hchunk _) (chunkSize_bounds htotal).2.2
      obtain ⟨t, ht, hstatus⟩ : ∃ t : UInt32, t.toNat = total.toNat + count ∧
          readStatus frameSize total count = if total.toNat + count = frameSize.toNat then .done 0 else .again t :=
        readStatus_of_pos hcount hfits
      rw [hstatus]
      split_ifs with hfull
      · show LoopPc.rank (.push i) < s.pc.rank
        simp only [hpc, LoopPc.rank]
        omega
      · simp only [afterRead, hpc, LoopPc.rank]
        omega

theorem loopStep_maxfd (hmaxfd : s.maxfd < fdSetSize) {a : LoopAction} (hstep : loopStep S s a = some s') :
    s'.maxfd < fdSetSize := by
  cases loopStep_move hstep with
  | accepted _ _ _ hlt => exact Nat.max_lt.mpr ⟨hmaxfd, hlt⟩
  | @delivered i c count total hpc hc hcount _ =>
      obtain ⟨pc, hafter, -, -⟩ := DescriptorInv.afterRead_delivered _ i total hcount
      rw [hafter]
      exact hmaxfd
  | _ => exact hmaxfd

theorem ready_step {a : LoopAction} (ha : a.InPass) (hstep : loopStep S s a = some s') :
    s'.readFdSet = s.readFdSet ∧ s'.atSelect = s.atSelect := by
  cases loopStep_move hstep with
  | select | selectFails => exact ha.elim
  | @delivered i c count total hpc hc hcount _ =>
      obtain ⟨pc, hafter, -, -⟩ := DescriptorInv.afterRead_delivered _ i total hcount
      rw [hafter]
      exact ⟨rfl, rfl⟩
  | _ => exact ⟨rfl, rfl⟩

/-- A pass can always go on. -/
theorem pass_not_stuck (hfinal : ∀ a : LoopAction, a.InPass → loopStep S s a = none) :
    s.pc = .select ∨ ∃ status, s.pc = .returned status := by
  cases hpc : s.pc with
  | select => exact Or.inl rfl
  | returned status => exact Or.inr ⟨status, rfl⟩
  | scan i =>
      have hscan := hfinal .scan trivial
      simp only [loopStep, scanStep, hpc] at hscan
      split_ifs at hscan
  | accept i =>
      have hfails := hfinal .acceptFails trivial
      simp [loopStep, failStep, hpc] at hfails
  | read i total =>
      have hfails := hfinal (.readFails 0) trivial
      simp [loopStep, readFailsStep, hpc] at hfails
  | push i =>
      have hpush := hfinal (.push (S.buffer + networkPacketTotalSize)) trivial
      simp only [loopStep, pushStep, hpc] at hpush
      have hapart : Apart (S.buffer + networkPacketTotalSize) sizeofPacket S.buffer networkPacketTotalSize :=
        Or.inr (Nat.le_refl _)
      rw [if_pos hapart] at hpush
      cases hpush

/-! ### The packets of a pass -/

namespace Serving

theorem move (h : Serving base s) (hpushed : s'.pushed = s.pushed) (hatSelect : s'.atSelect = s.atSelect)
    (haccepted : s.accepted ≤ s'.accepted)
    (hdealt : ∀ fd c, s.atSelect fd = some c → (s'.Dealt fd ↔ s.Dealt fd))
    (hconnection : ∀ fd c, s.atSelect fd = some c → (s'.connection fd = some c ↔ s.connection fd = some c)) :
    Serving base s' := by
  refine ⟨fun fd c hc => ?_, fun fd fd' c hc hc' => ?_, fun fd c hc hd => ?_, fun fd c hc hd => ?_, fun c hc => ?_⟩
  · exact Nat.lt_of_lt_of_le (h.known fd c (hatSelect ▸ hc)) haccepted
  · exact h.distinct fd fd' c (hatSelect ▸ hc) (hatSelect ▸ hc')
  · rw [hatSelect] at hc
    rw [frames_of_eq hpushed]
    exact h.ahead fd c hc fun hd' => hd ((hdealt fd c hc).mpr hd')
  · rw [hatSelect] at hc
    rw [frames_of_eq hpushed, ne_eq, hconnection fd c hc]
    exact h.dealt fd c hc ((hdealt fd c hc).mp hd)
  · rw [hatSelect] at hc
    rw [frames_of_eq hpushed]
    exact h.others c hc

theorem select (h : LoopInv S s) (ready : Finset ℕ) : Serving (frames s)
    { s with readFdSet := ready, pc := .scan 0, atSelect := s.connection, handled := [] } where
  known := h.numbered.lt_accepted
  distinct := h.numbered.distinct
  ahead := fun _ _ _ _ => rfl
  dealt := fun _ _ _ hd => (nomatch hd.1)
  others := fun _ _ => rfl

section finish

variable {i : ℕ} (hcurrent : s.pc.current = some i) (hi : i ∈ s.handled) (hpc : s'.pc = .scan (i + 1))
  (hhandled : s'.handled = s.handled) (hatSelect : s'.atSelect = s.atSelect) (haccepted : s'.accepted = s.accepted)

include hcurrent hpc hhandled in
theorem dealt_iff {fd : ℕ} (hne : fd ≠ i) : s'.Dealt fd ↔ s.Dealt fd := by
  unfold Loop.Dealt
  rw [hhandled, hcurrent, hpc]
  simp [LoopPc.current, Ne.symm hne]

include hi hpc hhandled in
theorem dealt_current : s'.Dealt i := by
  unfold Loop.Dealt
  rw [hhandled, hpc]
  exact ⟨hi, fun hx => (nomatch hx)⟩

include hcurrent hi hpc hhandled hatSelect haccepted

theorem close (h : Serving base s) (hpushed : s'.pushed = s.pushed)
    (hconnection : s'.connection = Function.update s.connection i none) : Serving base s' := by
  have hnot : ¬ s.Dealt i := fun hd => hd.2 hcurrent
  refine ⟨?_, ?_, fun fd c hc hd => ?_, fun fd c hc hd => ?_, fun c hc => ?_⟩
  · rw [hatSelect, haccepted]
    exact h.known
  · rw [hatSelect]
    exact h.distinct
  · rw [hatSelect] at hc
    rw [frames_of_eq hpushed]
    by_cases hfd : fd = i
    · exact absurd (hfd ▸ dealt_current hi hpc hhandled) hd
    · exact h.ahead fd c hc fun hd' => hd ((dealt_iff hcurrent hpc hhandled hfd).mpr hd')
  · rw [hatSelect] at hc
    rw [frames_of_eq hpushed, hconnection]
    by_cases hfd : fd = i
    · right
      rw [hfd, Function.update_self]
      exact ⟨nofun, h.ahead i c (hfd ▸ hc) hnot⟩
    · rw [Function.update_of_ne hfd]
      exact h.dealt fd c hc ((dealt_iff hcurrent hpc hhandled hfd).mp hd)
  · rw [hatSelect] at hc
    rw [frames_of_eq hpushed]
    exact h.others c hc

theorem push (h : Serving base s) {c₀ : ℕ} (hready : s.atSelect i = some c₀) (hc₀ : s.connection i = some c₀)
    {e : Pushed} (hpushed : s'.pushed = s.pushed ++ [e]) (he : e.connection = some c₀)
    (hconnection : s'.connection = s.connection) : Serving base s' := by
  have hnot : ¬ s.Dealt i := fun hd => hd.2 hcurrent
  have hframes : ∀ c, frames s' c = frames s c + if c = c₀ then 1 else 0 := fun c => by
    rw [frames_concat hpushed, he]
    simp only [Option.some.injEq, eq_comm]
  have hother : ∀ fd c, s.atSelect fd = some c → fd ≠ i → frames s' c = frames s c := fun fd c hc hfd => by
    have hne : c ≠ c₀ := fun he => hfd (h.distinct fd i c hc (he ▸ hready))
    rw [hframes, if_neg hne, Nat.add_zero]
  refine ⟨?_, ?_, fun fd c hc hd => ?_, fun fd c hc hd => ?_, fun c hc => ?_⟩
  · rw [hatSelect, haccepted]
    exact h.known
  · rw [hatSelect]
    exact h.distinct
  · rw [hatSelect] at hc
    by_cases hfd : fd = i
    · exact absurd (hfd ▸ dealt_current hi hpc hhandled) hd
    · rw [hother fd c hc hfd]
      exact h.ahead fd c hc fun hd' => hd ((dealt_iff hcurrent hpc hhandled hfd).mpr hd')
  · rw [hatSelect] at hc
    rw [hconnection]
    by_cases hfd : fd = i
    · subst hfd
      obtain rfl : c₀ = c := Option.some.inj (hready.symm.trans hc)
      left
      rw [hframes, if_pos rfl, h.ahead fd c₀ hc hnot]
      exact ⟨hc₀, rfl⟩
    · rw [hother fd c hc hfd]
      exact h.dealt fd c hc ((dealt_iff hcurrent hpc hhandled hfd).mp hd)
  · rw [hatSelect] at hc
    have hne : c ≠ c₀ := fun he => hc i (he ▸ hready)
    rw [hframes, if_neg hne, Nat.add_zero]
    exact h.others c hc

end finish

end Serving

namespace Passing

/-- The current descriptor is the last one that has been handled. -/
theorem current_handled (h : Passing S before ready s) {i : ℕ} (hnext : s.pc.next = some (i + 1))
    (hcurrent : s.pc.current = some i) : i ∈ s.handled := by
  rw [(h.descriptors.pass (i + 1) hnext).handled, List.mem_filter, List.mem_range, decide_eq_true_eq]
  exact ⟨Nat.lt_succ_self i, (h.descriptors.current i hcurrent).1⟩

theorem serving_step (h : Passing S before ready s) {a : LoopAction} (ha : a.InPass)
    (hstep : loopStep S s a = some s') : Serving (frames before) s' := by
  have hserving := h.serving
  cases loopStep_move hstep with
  | select | selectFails => exact ha.elim
  | acceptFails hpc | notReady hpc | passEnds hpc =>
      exact hserving.move rfl rfl (Nat.le_refl _) (fun fd c _ => by simp [Loop.Dealt, hpc, LoopPc.current])
        fun _ _ _ => Iff.rfl
  | tooLarge hpc =>
      exact hserving.move rfl rfl (Nat.le_succ _) (fun fd c _ => by simp [Loop.Dealt, hpc, LoopPc.current])
        fun _ _ _ => Iff.rfl
  | @listening i hpc _ hready hi =>
      have hnone : s.atSelect i = none := by
        rw [← (h.descriptors.pass i (by rw [hpc]; rfl)).ahead i hready (Nat.le_refl i), hi]
        exact h.descriptors.socket
      refine hserving.move rfl rfl (Nat.le_refl _) (fun fd c hc => ?_) fun _ _ _ => Iff.rfl
      have hne : fd ≠ i := fun he => by
        rw [he, hnone] at hc
        cases hc
      simp [Loop.Dealt, hpc, LoopPc.current, hne]
  | @reading i hpc _ hready _ =>
      have hnot : i ∉ s.handled := by
        rw [(h.descriptors.pass i (by rw [hpc]; rfl)).handled, List.mem_filter, List.mem_range]
        exact fun hx => Nat.lt_irrefl i hx.1
      refine hserving.move rfl rfl (Nat.le_refl _) (fun fd c _ => ?_) fun _ _ _ => Iff.rfl
      by_cases hfd : fd = i
      · simp [Loop.Dealt, hpc, LoopPc.current, hfd, hnot]
      · simp [Loop.Dealt, hpc, LoopPc.current, hfd, Ne.symm hfd]
  | @accepted i fd' hpc _ hclosed _ =>
      refine hserving.move rfl rfl (Nat.le_succ _) (fun fd c _ => by simp [Loop.Dealt, hpc, LoopPc.current])
        fun fd c hc => ?_
      show Function.update s.connection fd' (some s.accepted) fd = some c ↔ _
      by_cases hfd : fd = fd'
      · have hlt := hserving.known fd c hc
        rw [hfd, Function.update_self, hclosed]
        simp [Nat.ne_of_gt hlt]
      · rw [Function.update_of_ne hfd]
  | @delivered i c count total hpc hc hcount _ =>
      obtain ⟨pc, hafter, -, hcurrent⟩ := DescriptorInv.afterRead_delivered _ i total hcount
      rw [hafter]
      exact hserving.move rfl rfl (Nat.le_refl _) (fun fd c _ => by rw [Loop.Dealt, Loop.Dealt, hpc, hcurrent]; rfl)
        fun _ _ _ => Iff.rfl
  | @closed i total result hpc _ =>
      have hcurrent : s.pc.current = some i := by rw [hpc]; rfl
      exact hserving.close hcurrent (h.current_handled (by rw [hpc]; rfl) hcurrent) rfl rfl rfl rfl rfl rfl
  | @pushed i networkPacket mem isValid hpc _ _ =>
      have hcurrent : s.pc.current = some i := by rw [hpc]; rfl
      obtain ⟨-, c, hatSelect, hc⟩ := h.descriptors.current i hcurrent
      exact hserving.push hcurrent (h.current_handled (by rw [hpc]; rfl) hcurrent) rfl rfl rfl rfl hatSelect hc rfl hc
        rfl

theorem ended_step (h : Passing S before ready s) {a : LoopAction} (ha : a.InPass) (hstep : loopStep S s a = some s')
    (hpc' : s'.pc = .select) (fd : ℕ) : fd ∈ s'.handled ↔ fd ∈ s'.readFdSet := by
  cases loopStep_move hstep with
  | select | selectFails => exact ha.elim
  | @passEnds i hpc hlt =>
      obtain ⟨hhandled, hready, -⟩ := h.descriptors.pass i (by rw [hpc]; rfl)
      show fd ∈ s.handled ↔ fd ∈ s.readFdSet
      rw [hhandled, List.mem_filter, List.mem_range, decide_eq_true_eq, and_iff_right_iff_imp]
      exact fun hfd => Nat.lt_of_le_of_lt (hready fd hfd).1 hlt
  | @delivered i c count total hpc hc hcount _ =>
      obtain ⟨pc, hafter, hnext, -⟩ := DescriptorInv.afterRead_delivered _ i total hcount
      rw [hafter] at hpc'
      have hpc' : pc = .select := hpc'
      rw [hpc'] at hnext
      cases hnext
  | _ => cases hpc'

theorem step (h : Passing S before ready s) {a : LoopAction} (ha : a.InPass) (hstep : loopStep S s a = some s') :
    Passing S before ready s' ∧ s'.pc.rank < s.pc.rank := by
  obtain ⟨hreported, hatSelect⟩ := ready_step ha hstep
  refine ⟨?_, loopStep_rank h.loop h.maxfd_lt ha hstep⟩
  exact ⟨h.loop.step hstep, h.descriptors.step hstep, loopStep_maxfd h.maxfd_lt hstep, hreported.trans h.reported,
    hatSelect.trans h.atSelect, h.serving_step ha hstep, h.ended_step ha hstep⟩

/-- What the pass has done when it is at its end. -/
theorem served (h : Passing S before ready s) (hpc : s.pc = .select) : ClientsServed before s ready := by
  have hdealt : ∀ fd, s.Dealt fd ↔ fd ∈ ready := fun fd => by
    rw [← h.reported, ← h.ended hpc, Loop.Dealt, hpc]
    simp [LoopPc.current]
  have hopen : ∀ fd c, before.connection fd = some c → s.atSelect fd = some c := fun fd c hc => by
    rw [h.atSelect, hc]
  refine ⟨fun fd hfd c hc => h.serving.dealt fd c (hopen fd c hc) ((hdealt fd).mpr hfd), fun c hc => ?_⟩
  by_cases hex : ∃ fd, before.connection fd = some c
  · obtain ⟨fd, hfd⟩ := hex
    exact h.serving.ahead fd c (hopen fd c hfd) fun hd => hc fd ((hdealt fd).mp hd) hfd
  · exact h.serving.others c fun fd hfd => hex ⟨fd, by rwa [h.atSelect] at hfd⟩

end Passing

/-! ### All passes -/

theorem maxfd_lt (hsocket : S.socketfd < fdSetSize) (hinit : LoopInitial S s₀) (hrun : Reaches (loopStep S) s₀ s) :
    s.maxfd < fdSetSize :=
  Run.invariant (I := fun s => s.maxfd < fdSetSize) hrun (hinit.maxfd ▸ hsocket)
    fun _ _ hmaxfd hstep => loopStep_maxfd hmaxfd hstep

theorem passing_select (hsocket : S.socketfd < fdSetSize) (hinit : LoopInitial S s₀)
    (hrun : Reaches (loopStep S) s₀ s) (hselect : loopStep S s (.select ready) = some s') :
    Passing S s ready s' ∧ s'.pc.rank ≤ 1 + 1429 * 1024 := by
  have hloop := loopInv hinit hrun
  have hloop' := hloop.step hselect
  have hdescriptors' := (descriptorInv hsocket hinit hrun).step hselect
  have hmaxfd' := loopStep_maxfd (maxfd_lt hsocket hinit hrun) hselect
  cases loopStep_move hselect with
  | select hpc hready =>
      exact ⟨⟨hloop', hdescriptors', hmaxfd', rfl, rfl, Serving.select hloop ready, nofun⟩, Nat.le_refl _⟩

/-- A pass that starts in `s'`, after `select` has reported `ready` in `s`. -/
structure PassServes (S : Setting) (s s' : Loop) (ready : Finset ℕ) : Prop where
  bound : ∀ calls t, (∀ a ∈ calls, a.InPass) → runActions (loopStep S) s' calls = some t →
    calls.length ≤ 1 + 1429 * 1024
  possible : ∃ calls t, (∀ a ∈ calls, a.InPass) ∧ runActions (loopStep S) s' calls = some t ∧
    ∀ a : LoopAction, a.InPass → loopStep S t a = none
  served : ∀ calls t, (∀ a ∈ calls, a.InPass) → runActions (loopStep S) s' calls = some t →
    (∀ a : LoopAction, a.InPass → loopStep S t a = none) →
      (∃ status, t.pc = .returned status) ∨ t.pc = .select ∧ ClientsServed s t ready

/-- **Every pass ends and serves every ready client once**: one frame of it is pushed, or it is closed. -/
theorem pass_serves (hsocket : S.socketfd < fdSetSize) (hinit : LoopInitial S s₀)
    (hrun : Reaches (loopStep S) s₀ s) (hselect : loopStep S s (.select ready) = some s') :
    PassServes S s s' ready := by
  obtain ⟨hpassing, hrank⟩ := passing_select hsocket hinit hrun hselect
  have hstep : ∀ {t u : Loop} {a : LoopAction}, a.InPass → Passing S s ready t → loopStep S t a = some u →
      Passing S s ready u ∧ u.pc.rank < t.pc.rank := fun ha h hstep => h.step ha hstep
  refine ⟨fun calls t hcalls ht => ?_, exists_final_of_ranking (μ := fun t : Loop => t.pc.rank) hstep hpassing,
    fun calls t hcalls ht hfinal => ?_⟩
  · obtain ⟨-, hle⟩ := length_le_of_ranking (μ := fun t : Loop => t.pc.rank) hstep hpassing hcalls ht
    exact Nat.le_trans (Nat.le_trans (Nat.le_add_right _ _) hle) hrank
  · obtain ⟨hend, -⟩ := length_le_of_ranking (μ := fun t : Loop => t.pc.rank) hstep hpassing hcalls ht
    rcases pass_not_stuck hfinal with hpc | hreturned
    · exact Or.inr ⟨hpc, hend.served hpc⟩
    · exact Or.inl hreturned

/-- The first of two clients sends a frame, and the second one ends. -/
def frameAndEnd : List LoopAction :=
  List.replicate 5 .scan ++ [.read 1426, .push 5000, .scan, .readFails 0, .scan]

/-- The pass in which the server deals with both. -/
theorem pass_serves_two : ∃ s s' t, runActions (loopStep sampleSetting) sampleLoop twoAccepted = some s ∧
    loopStep sampleSetting s (.select {4, 5}) = some s' ∧ PassServes sampleSetting s s' {4, 5} ∧
    runActions (loopStep sampleSetting) s' frameAndEnd = some t ∧ t.pushed.length = 1 ∧ t.connection 5 = none ∧
    ClientsServed s t {4, 5} := by
  obtain ⟨s, s', t, hs, hselect, ht, hpc, hpushed, hclosed⟩ : ∃ s s' t,
      runActions (loopStep sampleSetting) sampleLoop twoAccepted = some s ∧
      loopStep sampleSetting s (.select {4, 5}) = some s' ∧
      runActions (loopStep sampleSetting) s' frameAndEnd = some t ∧ t.pc = .select ∧ t.pushed.length = 1 ∧
      t.connection 5 = none :=
    ⟨_, _, _, rfl, rfl, rfl, rfl, rfl, rfl⟩
  have hpass := pass_serves (by decide) sampleLoop_initial (run_of_runActions _ hs) hselect
  have hfinal : ∀ a : LoopAction, a.InPass → loopStep sampleSetting t a = none := by
    intro a ha
    cases a with
    | select | selectFails => exact ha.elim
    | _ => simp [loopStep, scanStep, acceptStep, failStep, readStep, readFailsStep, pushStep, hpc]
  refine ⟨s, s', t, hs, hselect, hpass, ht, hpushed, hclosed, ?_⟩
  rcases hpass.served _ t (by simp [frameAndEnd, LoopAction.InPass]) ht hfinal with ⟨status, hreturned⟩ | ⟨-, hserved⟩
  · cases hpc.symm.trans hreturned
  · exact hserved

end OhMySockets
