import OhMySockets.SelectPass
import OhMySockets.Server

/-! # The server process between two calls of `select`

* `process_pass`: a pass of the process ends after boundedly many steps of the loop and of both threads, in every
  order; unless `main` has returned, every ready client has then been served once, the worker waits on an empty
  buffer, and no block of the heap is in use. -/

namespace OhMySockets

open ByteOrder Transition

/-! ### A pass -/

/-- The steps of a pass: calls of the loop other than `select`, and the threads' own steps. -/
def ProcessAction.InPass : ProcessAction → Prop
  | .loop a => a.InPass
  | .push _ => True
  | .threads a => a.Own

/-- How far the process is from the end of the pass; a packet that is pushed costs the threads at most one run to
rest. -/
def Process.rank (length : UInt32) (s : Process) : ℕ :=
  (16 * length.toNat + 50) * s.loop.pc.rank + s.threads.rank

/-- What holds in the pass after `select` has reported `ready` in the state `before`. -/
structure ProcessPassing (S : Setting) (length : UInt32) (before : Loop) (ready : Finset ℕ) (s : Process) : Prop where
  loop : Passing S before ready s.loop
  threads : Live length (fun _ => none) s.threads

variable {S : Setting} {length : UInt32} {before : Loop} {ready : Finset ℕ} {s s' s₀ : Process}

namespace ProcessPassing

/-- **Every step of a pass lowers the rank.** -/
theorem step (h : ProcessPassing S length before ready s) {a : ProcessAction} (ha : a.InPass)
    (hstep : processStep S s a = some s') : ProcessPassing S length before ready s' ∧ s'.rank length < s.rank length := by
  have hweight : ∀ {r r' : ℕ}, r' < r →
      (16 * length.toNat + 50) * r' + (16 * length.toNat + 50) ≤ (16 * length.toNat + 50) * r := fun hlt => by
    rw [← Nat.mul_succ]
    exact Nat.mul_le_mul_left _ hlt
  cases processStep_move hstep with
  | loop _ _ hloop =>
      obtain ⟨hpassing, hlt⟩ := h.loop.step ha hloop
      have hle := hweight hlt
      refine ⟨⟨hpassing, h.threads⟩, ?_⟩
      simp only [Process.rank]
      omega
  | push hloop _ hthreads =>
      obtain ⟨hpassing, hlt⟩ := h.loop.step (a := .push _) trivial hloop
      have hle := hweight hlt
      have hlive := h.threads.step hthreads
      have hbound := hlive.rank_le
      refine ⟨⟨hpassing, hlive⟩, ?_⟩
      simp only [Process.rank]
      omega
  | threads _ _ hthreads =>
      obtain ⟨hlive, hlt⟩ := h.threads.own_step ha hthreads
      refine ⟨⟨h.loop, hlive⟩, ?_⟩
      simp only [Process.rank]
      omega

theorem threads_final (h : ProcessPassing S length before ready s) (hrunning : s.loop.pc.running = true)
    (hfinal : ∀ a : ProcessAction, a.InPass → processStep S s a = none) : s.threads.AtRest := by
  apply h.threads.atRest
  intro a ha
  have hnone := hfinal (.threads a) ha
  cases a with
  | receive | spurious => exact ha.elim
  | _ =>
      simp only [processStep, hrunning, if_true] at hnone
      exact Option.map_eq_none_iff.mp hnone

theorem loop_final (hrest : s.threads.AtRest) (hfinal : ∀ a : ProcessAction, a.InPass → processStep S s a = none) :
    s.loop.pc = .select ∨ ∃ status, s.loop.pc = .returned status := by
  obtain ⟨hselect, -, -⟩ := hrest
  refine pass_not_stuck (S := S) fun a ha => ?_
  by_contra hne
  obtain ⟨loop, hloop⟩ := Option.ne_none_iff_exists'.mp hne
  have hnone := hfinal (.loop a) ha
  cases a with
  | select | selectFails => exact ha.elim
  | push networkPacket =>
      have hnone := hfinal (.push networkPacket) trivial
      obtain ⟨e, hpushed⟩ := pushed_of_push hloop
      have hloop : pushStep S s.loop networkPacket = some loop := hloop
      simp [processStep, hloop, hpushed, receiveStep, hselect] at hnone
  | scan | accept | acceptFails | read | readFails =>
      simp only [processStep, inLoop_iff.mpr hselect, if_true, hloop] at hnone
      cases hnone

/-- When no step of the pass is possible, `main` has returned, or the loop is at `select` and the threads are at
rest. -/
theorem final (h : ProcessPassing S length before ready s)
    (hfinal : ∀ a : ProcessAction, a.InPass → processStep S s a = none) :
    (∃ status, s.loop.pc = .returned status) ∨ s.loop.pc = .select ∧ s.threads.AtRest := by
  cases hpc : s.loop.pc with
  | returned status => exact Or.inl ⟨status, rfl⟩
  | _ =>
      have hrest := h.threads_final (by rw [hpc]; rfl) hfinal
      rcases loop_final hrest hfinal with hselect | hreturned
      · exact Or.inr ⟨hpc.symm.trans hselect, hrest⟩
      · exact Or.inl (hpc ▸ hreturned)

end ProcessPassing

/-- A pass of the process that starts in `s'`, after `select` has reported `ready` in `s`. -/
structure ProcessPass (S : Setting) (length : UInt32) (s s' : Process) (ready : Finset ℕ) : Prop where
  bound : ∀ calls t, (∀ a ∈ calls, a.InPass) → runActions (processStep S) s' calls = some t →
    calls.length ≤ (16 * length.toNat + 50) * (1 + 1429 * 1024) + (16 * length.toNat + 49)
  possible : ∃ calls t, (∀ a ∈ calls, a.InPass) ∧ runActions (processStep S) s' calls = some t ∧
    ∀ a : ProcessAction, a.InPass → processStep S t a = none
  atEnd : ∀ calls t, (∀ a ∈ calls, a.InPass) → runActions (processStep S) s' calls = some t →
    (∀ a : ProcessAction, a.InPass → processStep S t a = none) →
      (∃ status, t.loop.pc = .returned status) ∨
        t.loop.pc = .select ∧ t.threads.AtRest ∧ (∀ x, t.threads.heap.isFree x) ∧ ClientsServed s.loop t.loop ready

theorem processPassing_select (hsocket : S.socketfd < fdSetSize) (hinit : ProcessInitial S length s₀)
    (hrun : Reaches (processStep S) s₀ s) (hselect : processStep S s (.loop (.select ready)) = some s') :
    ProcessPassing S length s.loop ready s' ∧ s'.loop.pc.rank ≤ 1 + 1429 * 1024 := by
  obtain ⟨actions, h⟩ := process_projects hrun
  have hlive := live hinit.threads (run_of_runActions _ h.threads)
  cases processStep_move hselect with
  | loop _ _ hloop =>
      obtain ⟨hpassing, hle⟩ := passing_select hsocket hinit.loop h.loop hloop
      exact ⟨⟨hpassing, hlive⟩, hle⟩

/-- **Every pass of the process ends**, whatever the clients send and in every order of the steps of the loop and
of the two threads: `main` has returned, or each ready client has been served once and the threads are at rest. -/
theorem process_pass (hsocket : S.socketfd < fdSetSize) (hinit : ProcessInitial S length s₀)
    (hrun : Reaches (processStep S) s₀ s) (hselect : processStep S s (.loop (.select ready)) = some s') :
    ProcessPass S length s s' ready := by
  obtain ⟨hpassing, hle⟩ := processPassing_select hsocket hinit hrun hselect
  have hstep : ∀ {t u : Process} {a : ProcessAction}, a.InPass → ProcessPassing S length s.loop ready t →
      processStep S t a = some u → ProcessPassing S length s.loop ready u ∧ u.rank length < t.rank length :=
    fun ha h hstep => h.step ha hstep
  refine ⟨fun calls t hcalls ht => ?_, exists_final_of_ranking hstep hpassing, fun calls t hcalls ht hfinal => ?_⟩
  · obtain ⟨-, hlength⟩ := length_le_of_ranking hstep hpassing hcalls ht
    have hthreads := hpassing.threads.rank_le
    have hloop : (16 * length.toNat + 50) * s'.loop.pc.rank ≤ (16 * length.toNat + 50) * (1 + 1429 * 1024) :=
      Nat.mul_le_mul_left _ hle
    unfold Process.rank at hlength
    omega
  · obtain ⟨hend, -⟩ := length_le_of_ranking hstep hpassing hcalls ht
    have hreach : Reaches (processStep S) s₀ t := .trans (.tail hrun trivial hselect) (run_of_runActions calls ht)
    obtain ⟨actions, hprojects⟩ := process_projects hreach
    rcases hend.final hfinal with hreturned | ⟨hpc, hrest⟩
    · exact Or.inl hreturned
    · have hfree := hrest.isFree hinit.threads (run_of_runActions _ hprojects.threads)
      exact Or.inr ⟨hpc, hrest, hfree, hend.loop.served hpc⟩

theorem final_of_rest (hpc : s.loop.pc = .select) (hrest : s.threads.AtRest) (a : ProcessAction) (ha : a.InPass) :
    processStep S s a = none := by
  obtain ⟨hmain, hworker, -⟩ := hrest
  cases a with
  | push => simp [processStep, pushStep, hpc]
  | loop a =>
      cases a with
      | select | selectFails => exact ha.elim
      | push => rfl
      | _ => simp [processStep, loopStep, scanStep, acceptStep, failStep, readStep, readFailsStep, hpc]
  | threads a =>
      cases a with
      | receive | spurious => exact ha.elim
      | malloc => simp [processStep, serverStep, mallocStep, hmain]
      | main => simp [processStep, serverStep, mainStep, hmain]
      | worker => simp [processStep, serverStep, workerStep, hworker]

/-- The worker begins to wait, and two clients connect. -/
def twoConnect : List ProcessAction := List.replicate 5 (.threads .worker) ++ twoAccepted.map .loop

/-- The first one sends a frame and the second one ends; then the worker processes the packet. -/
def frameAndClose : List ProcessAction :=
  List.replicate 5 (.loop .scan) ++ pushFrame 2000 1 2 ++ [.loop .scan, .loop (.readFails 0), .loop .scan] ++
    List.replicate 21 (.threads .worker)

/-- The pass that serves both. -/
theorem process_pass_two : ∃ s s' t, runActions (processStep sampleSetting) startedProcess twoConnect = some s ∧
    processStep sampleSetting s (.loop (.select {4, 5})) = some s' ∧ ProcessPass sampleSetting 2 s s' {4, 5} ∧
    runActions (processStep sampleSetting) s' frameAndClose = some t ∧ t.threads.printed.length = 2 ∧
    t.loop.connection 5 = none ∧ ClientsServed s.loop t.loop {4, 5} := by
  obtain ⟨s, s', t, hs, hselect, ht, hpc, hrest, hprinted, hclosed⟩ : ∃ s s' t,
      runActions (processStep sampleSetting) startedProcess twoConnect = some s ∧
      processStep sampleSetting s (.loop (.select {4, 5})) = some s' ∧
      runActions (processStep sampleSetting) s' frameAndClose = some t ∧ t.loop.pc = .select ∧ t.threads.AtRest ∧
      t.threads.printed.length = 2 ∧ t.loop.connection 5 = none :=
    ⟨_, _, _, rfl, rfl, rfl, rfl, ⟨rfl, rfl, rfl⟩, rfl, rfl⟩
  have hpass := process_pass (by decide) (startedProcess_initial rfl) (run_of_runActions _ hs) hselect
  refine ⟨s, s', t, hs, hselect, hpass, ht, hprinted, hclosed, ?_⟩
  rcases hpass.atEnd _ t (by simp [frameAndClose, pushFrame, ProcessAction.InPass, LoopAction.InPass, Action.Own]) ht
    (final_of_rest hpc hrest) with ⟨status, hreturned⟩ | ⟨-, -, -, hserved⟩
  · cases hpc.symm.trans hreturned
  · exact hserved

end OhMySockets
