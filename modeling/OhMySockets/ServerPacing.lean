import OhMySockets.Server

/-! # Runs that lose nothing

A push onto a full buffer drops the oldest unread packet.  In a pass at most one packet is pushed for each reported
descriptor, so a run loses nothing when `select` never reports more descriptors than there are free slots.

* `serverStep_backlog`: of the threads' steps only an arrival adds to the packets on their way to the worker;
* `Spare`: these packets and the descriptors that the pass has still to deal with have slots of their own;
* `paced_complete`: every packet that has been pushed has been processed, or is with the worker, in the buffer or
  with `main`, in this order;
* `file_to_lines`: from the client's file to the lines "Processed" of the server. -/

namespace OhMySockets

open ByteOrder Transition

/-! ### The backlog -/

section backlog

variable {length : UInt32} {content : ℕ → Option Addr} {q : List Addr} {s s' : State}

/-- The number of packets that have arrived and that the worker has not pulled. -/
def State.backlog (s : State) : ℕ := s.cb.unread.length + (s.main.pending s.heap).length

theorem mainStep_backlog (h : Unread length content q s) (hroom : s.backlog ≤ length.toNat)
    (hstep : mainStep s = some s') : s'.backlog ≤ s.backlog ∧ s.pushesFull .main = false := by
  unfold State.backlog at hroom ⊢
  cases mainStep_move hstep with
  | @pushBody p b hm =>
      have hlen := h.holds.length_unread
      have hpush : Holds length content (pushSection s.cb (some p)).cb (DropQueue.push length.toNat q p).1 :=
        h.holds.step (.push p)
      have hle := length_push_le length.toNat q p
      have hroom : s.cb.unread.length + 1 ≤ length.toNat := by simpa [hm, MainPc.pending] using hroom
      refine ⟨?_, ?_⟩
      · rw [hpush.length_unread, hlen, hm]
        exact hle
      · simp only [State.pushesFull, hm, decide_eq_false_iff_not, h.holds.overflow_iff]
        omega
  | decode hm | fill hm | lock hm | pushLock hm | pushUnlock hm | signal hm | unlock hm | readIsValid hm
  | printReceived hm =>
      simp [State.pushesFull, hm, MainPc.pending]

theorem workerStep_backlog (h : Unread length content q s) (hstep : workerStep s = some s') :
    s'.backlog ≤ s.backlog := by
  unfold State.backlog
  cases workerStep_move hstep with
  | pullBody hw =>
      have hpull : Holds length content (pullSection s.cb).cb q.tail := h.holds.step .pull
      rw [hpull.length_unread, h.holds.length_unread, List.length_tail]
      exact Nat.add_le_add_right (Nat.sub_le _ _) _
  | _ => exact Nat.le_refl _

/-- **Only an arrival adds to the backlog**, and while there is room for it no push drops a packet. -/
theorem serverStep_backlog (h : Unread length content q s) (hroom : s.backlog ≤ length.toNat) {a : Action}
    (ha : a.arrival? = none) (hstep : serverStep s a = some s') : s'.backlog ≤ s.backlog ∧ s.pushesFull a = false := by
  cases a with
  | main => exact mainStep_backlog h hroom hstep
  | worker => exact ⟨workerStep_backlog h hstep, rfl⟩
  | receive p isValid => cases ha
  | malloc a =>
      obtain ⟨-, m, rfl, hm⟩ := mallocStep_some hstep
      rcases hm with ⟨p, isValid, hm, rfl⟩ | ⟨b, isValid, hm, rfl⟩ <;>
        exact ⟨by rw [State.backlog, State.backlog, hm]; rfl, rfl⟩
  | spurious =>
      obtain ⟨-, rfl⟩ := spuriousStep_some hstep
      exact ⟨Nat.le_refl _, rfl⟩

theorem receiveStep_backlog {p : Packet} {isValid : Bool} (hstep : serverStep s (.receive p isValid) = some s') :
    s'.backlog = s.backlog + 1 := by
  obtain ⟨hm, rfl⟩ := receiveStep_some hstep
  rw [State.backlog, State.backlog, hm]
  rfl

end backlog

/-! ### Paced runs -/

/-- `select` reports no more descriptors than there are free slots. -/
def Paced (length : UInt32) (s : Process) (a : ProcessAction) : Prop :=
  ∀ ready, a = .loop (.select ready) → s.threads.cb.unread.length + ready.card ≤ length.toNat

instance (length : UInt32) (s : Process) : DecidablePred (Paced length s)
  | .loop (.select ready) =>
      decidable_of_iff (s.threads.cb.unread.length + ready.card ≤ length.toNat)
        ⟨fun h _ heq => by cases heq; exact h, fun h => h ready rfl⟩
  | .loop .selectFails | .loop .scan | .loop (.accept _) | .loop .acceptFails | .loop (.read _) | .loop (.readFails _)
  | .loop (.push _) | .push _ | .threads _ => isTrue nofun

/-- The descriptors that the pass has reached and not finished with. -/
def Loop.underWay (s : Loop) : ℕ := s.pc.current.toList.length

/-- **The invariant of a paced run.**  There is room for the backlog, and in a pass every packet of it was there
before the pass or belongs to a descriptor of its own. -/
structure Spare (length : UInt32) (s : Process) : Prop where
  backlog : s.threads.backlog ≤ length.toNat
  pass : ∀ n, s.loop.pc.next = some n → ∃ before, before + s.loop.readFdSet.card ≤ length.toNat ∧
    s.threads.backlog + s.loop.underWay ≤ before + s.loop.handled.length

variable {S : Setting} {length : UInt32} {content : ℕ → Option Addr} {q : List Addr} {s s' s₀ : Process}

theorem handled_length_le {l : Loop} {n : ℕ} (h : PassInv S l n) : l.handled.length ≤ l.readFdSet.card := by
  have hnodup : l.handled.Nodup := h.handled ▸ List.nodup_range.filter _
  rw [← List.toFinset_card_of_nodup hnodup]
  apply Finset.card_le_card
  intro fd hfd
  rw [List.mem_toFinset, h.handled, List.mem_filter, decide_eq_true_eq] at hfd
  exact hfd.2

namespace Spare

theorem initial (hinit : ProcessInitial S length s) : Spare length s where
  backlog := by
    have hunread := hinit.threads.unread
    rw [State.backlog, hunread.holds.length_unread, hinit.threads.main]
    exact Nat.zero_le _
  pass n hn := by
    rw [hinit.loop.pc] at hn
    cases hn

theorem loop_step (h : Spare length s) {a : LoopAction} {loop : Loop} (ha : ∀ networkPacket, a ≠ .push networkPacket)
    (hok : Paced length s (.loop a)) (hmain : s.threads.main = .select) (hstep : loopStep S s.loop a = some loop) :
    Spare length { s with loop := loop } := by
  refine ⟨h.backlog, fun n hn => ?_⟩
  cases loopStep_move hstep with
  | pushed => exact absurd rfl (ha _)
  | selectFails | acceptFails | passEnds => cases hn
  | select =>
      refine ⟨s.threads.cb.unread.length, hok _ rfl, ?_⟩
      rw [State.backlog, hmain]
      exact Nat.le_refl _
  | listening hpc | reading hpc | notReady hpc | tooLarge hpc | accepted hpc | closed hpc =>
      obtain ⟨before, hroom, hle⟩ := h.pass _ (by rw [hpc]; rfl)
      refine ⟨before, hroom, ?_⟩
      simp only [Loop.underWay, hpc, LoopPc.current, Option.toList_none, Option.toList_some, List.length_nil,
        List.length_singleton, List.length_append] at hle ⊢
      omega
  | @delivered i c count total hpc hc hcount _ =>
      obtain ⟨pc, hafter, -, hcurrent⟩ := DescriptorInv.afterRead_delivered _ i total hcount
      obtain ⟨before, hroom, hle⟩ := h.pass _ (by rw [hpc]; rfl)
      rw [hafter]
      refine ⟨before, hroom, ?_⟩
      simp only [Loop.underWay, hpc, hcurrent] at hle ⊢
      exact hle

/-- A frame is pushed: its packet takes the place of its descriptor. -/
theorem push_step (h : Spare length s) (hdescriptors : DescriptorInv S s.loop) {networkPacket : ℕ} {loop : Loop}
    {threads : State} (hstep : loopStep S s.loop (.push networkPacket) = some loop)
    (hbacklog : threads.backlog = s.threads.backlog + 1) : Spare length ⟨loop, threads⟩ := by
  cases loopStep_move hstep with
  | @pushed i _ mem isValid hpc =>
      have hnext : s.loop.pc.next = some (i + 1) := by rw [hpc]; rfl
      obtain ⟨before, hroom, hle⟩ := h.pass _ hnext
      have hhandled := handled_length_le (hdescriptors.pass _ hnext)
      simp only [Loop.underWay, hpc, LoopPc.current, Option.toList_some, List.length_singleton] at hle
      refine ⟨by rw [hbacklog]; omega, fun n _ => ⟨before, hroom, ?_⟩⟩
      rw [hbacklog]
      exact hle

theorem threads_step (h : Spare length s) {threads : State} (hbacklog : threads.backlog ≤ s.threads.backlog) :
    Spare length { s with threads := threads } := by
  refine ⟨Nat.le_trans hbacklog h.backlog, fun n hn => ?_⟩
  obtain ⟨before, hroom, hle⟩ := h.pass n hn
  exact ⟨before, hroom, Nat.le_trans (Nat.add_le_add_right hbacklog _) hle⟩

end Spare

/-- What holds of a paced run. -/
structure PacedRun (S : Setting) (length : UInt32) (s₀ s : Process) (actions : List Action) : Prop where
  projects : Projects S s₀ s actions
  lossless : overflows s₀.threads actions = 0
  spare : Spare length s

namespace PacedRun

variable {actions : List Action}

theorem step (hsocket : S.socketfd < fdSetSize) (hinit : ProcessInitial S length s₀)
    (h : PacedRun S length s₀ s actions) {a : ProcessAction} (hok : Paced length s a)
    (hstep : processStep S s a = some s') : ∃ actions', PacedRun S length s₀ s' actions' := by
  have hdescriptors := descriptorInv hsocket hinit.loop h.projects.loop
  obtain ⟨q, hunread⟩ := (live hinit.threads (run_of_runActions _ h.projects.threads)).unread
  cases processStep_move hstep with
  | loop ha hmain hloop =>
      exact ⟨actions, h.projects.loop_step hloop (pushed_of_ne_push hloop ha), h.lossless,
        h.spare.loop_step ha hok hmain hloop⟩
  | push hloop hpushed hthreads =>
      refine ⟨_, h.projects.push_step hloop hpushed hthreads, ?_, ?_⟩
      · rw [overflows_concat h.projects.threads, h.lossless]
        rfl
      · exact h.spare.push_step hdescriptors hloop (receiveStep_backlog hthreads)
  | threads ha _ hthreads =>
      obtain ⟨hbacklog, hfull⟩ := serverStep_backlog hunread h.spare.backlog ha hthreads
      refine ⟨_, h.projects.threads_step ha hthreads, ?_, h.spare.threads_step hbacklog⟩
      rw [overflows_concat h.projects.threads, h.lossless, hfull]
      rfl

end PacedRun

theorem pacedRun (hsocket : S.socketfd < fdSetSize) (hinit : ProcessInitial S length s₀)
    (hrun : Run (processStep S) (Paced length) s₀ s) : ∃ actions, PacedRun S length s₀ s actions := by
  refine Run.invariant (I := fun s => ∃ actions, PacedRun S length s₀ s actions) hrun ?_ fun _ hok h hstep => ?_
  · exact ⟨[], .refl s₀, rfl, .initial hinit⟩
  · obtain ⟨actions, h⟩ := h
    exact h.step hsocket hinit hok hstep

/-- Every pushed packet is somewhere. -/
structure Complete (s₀ s : Process) (lines : List Line) (q : List Addr) : Prop where
  printed : s.threads.printed = s₀.threads.printed ++ lines.map Line.text
  unread : s.threads.cb.unread = q.map some
  all : processed lines ++ s.threads.worker.inHand s.threads.heap ++ q.map s.threads.heap.arrival ++
    s.threads.main.pending s.threads.heap = s.loop.pushed.map Pushed.arrival

theorem PacedRun.complete {actions : List Action} (h : PacedRun S length s₀ s actions)
    (hinit : ProcessInitial S length s₀) : ∃ lines q, Complete s₀ s lines q := by
  obtain ⟨q, g, hholds, hlogged⟩ := serverLog hinit.threads h.projects.threads
  obtain ⟨hprinted, hunread, horder, hcount, -⟩ := hlogged.inOrder hholds
  rw [h.projects.arrivals_eq hinit.loop] at horder hcount
  rw [h.lossless] at hcount
  exact ⟨g.lines, q, hprinted, hunread, horder.eq_of_length hcount⟩

/-- **A paced run loses nothing**, in every order of the steps of the loop and of the two threads. -/
theorem paced_complete (hsocket : S.socketfd < fdSetSize) (hinit : ProcessInitial S length s₀)
    (hrun : Run (processStep S) (Paced length) s₀ s) : ∃ lines q, Complete s₀ s lines q := by
  obtain ⟨actions, h⟩ := pacedRun hsocket hinit hrun
  exact h.complete hinit

/-- Of two packets the first has been processed and the second is in the buffer. -/
theorem paced_complete_two : ∃ s, Run (processStep sampleSetting) (Paced 2) startedProcess s ∧
    s.loop.pushed.length = 2 ∧ s.threads.printed.length = 3 ∧ s.threads.cb.unread.length = 1 ∧
    ∃ lines q, Complete startedProcess s lines q := by
  obtain ⟨s₁, s₂, s₃, s, h₁, h₂, h₃, hs, hpushed, hprinted, hunread⟩ : ∃ s₁ s₂ s₃ s,
      runChecked (processStep sampleSetting) (Paced 2) startedProcess connects = some s₁ ∧
      runChecked (processStep sampleSetting) (Paced 2) s₁ (framePass 2000 1 2) = some s₂ ∧
      runChecked (processStep sampleSetting) (Paced 2) s₂ (framePass 4000 3 4) = some s₃ ∧
      runChecked (processStep sampleSetting) (Paced 2) s₃ (List.replicate 12 (.threads .worker)) = some s ∧
      s.loop.pushed.length = 2 ∧ s.threads.printed.length = 3 ∧ s.threads.cb.unread.length = 1 :=
    ⟨_, _, _, _, rfl, rfl, rfl, rfl, rfl, rfl, rfl⟩
  have hrun := (((run_of_runChecked _ h₁).trans (run_of_runChecked _ h₂)).trans (run_of_runChecked _ h₃)).trans
    (run_of_runChecked _ hs)
  exact ⟨s, hrun, hpushed, hprinted, hunread, paced_complete (by decide) (startedProcess_initial rfl) hrun⟩

/-! ### From the file to the lines -/

/-- Every packet of a client that has written the bytes `wire` is processed exactly once, in order: in a paced run of
a server that has got all of them, when it is back at `select` and its threads are at rest. -/
def ClientProcessed (C : ClientSetting) (v : List Int16) (n : ℕ) (wire : List UInt8) : Prop :=
  ∀ (S : Setting) (length : UInt32) (s₀ s : Process) (c : ℕ), S.md5 = mbedtlsMd5 → S.socketfd < fdSetSize →
    ProcessInitial S length s₀ → Run (processStep S) (Paced length) s₀ s →
      s.loop.pc = .select → s.threads.AtRest →
        Carries (S.stream c) (s.loop.consumed c) wire → s.loop.consumed c = wire.length →
          ∃ lines, s.threads.printed = s₀.threads.printed ++ lines.map Line.text ∧
            processed lines = s.loop.pushed.map Pushed.arrival ∧
            receivedFrom c s.loop.pushed =
              (clientPackets C (firstSamples v n)).map (expectedOf mbedtlsMd5 C.host S.host)

theorem Complete.processed_eq {lines : List Line} {q : List Addr} (h : Complete s₀ s lines q)
    (hrest : s.threads.AtRest) : processed lines = s.loop.pushed.map Pushed.arrival := by
  rw [← h.all, hrest.accounted_eq h.unread]

/-- **From the client's file to the lines of the server.**  The client returns after the packets `1, …, n`, all 200
exactly when it returns 0; and every server that has got them has processed each of them exactly once. -/
theorem file_to_lines {C : ClientSetting} {v : List Int16} {s₀ : Client} (hintact : Intact C)
    (htext : CsvText v C.csv.content) (hv : ∀ w ∈ v, -10000 < w.toInt)
    (hkernel : ∀ k, C.written k ≤ networkPacketTotalSize) (hinit : ClientInitial C s₀) :
    ∃ status s n, WhileLoop.Returns (fun fuel => clientMain C fuel s₀) (status, s) ∧ n ≤ batchLoops * batchSize ∧
      (status = 0 ↔ n = batchLoops * batchSize) ∧ ClientProcessed C v n s.wire := by
  obtain ⟨status, s, n, hreturns, hle, hstatus, rest, hrest, hwritten⟩ := hinit.writes hintact htext hv hkernel
  refine ⟨status, s, n, hreturns, hle, hstatus, ?_⟩
  intro S length p₀ p c hmd5 hsocket hinitS hrun hselect hatRest hcarries hall
  obtain ⟨actions, hpaced⟩ := pacedRun hsocket hinitS hrun
  obtain ⟨lines, q, hcomplete⟩ := hpaced.complete hinitS
  obtain ⟨-, hreceived⟩ := hwritten.delivered hmd5 hinitS.loop hpaced.projects.loop hrest hcarries
  exact ⟨lines, hcomplete.printed, hcomplete.processed_eq hatRest, hreceived hselect hall⟩

/-- Both packets of a client whose third `write` fails are processed. -/
theorem file_to_lines_two_packets : ∃ (sc : Client) (s : Process) (lines : List Line),
    WhileLoop.Returns (fun fuel => clientMain stoppedClient fuel startedClient) (1, sc) ∧
    Run (processStep md5Setting) (Paced 2) startedProcess s ∧
    s.threads.printed = startedProcess.threads.printed ++ lines.map Line.text ∧
    processed lines = s.loop.pushed.map Pushed.arrival ∧ s.loop.pushed.length = 2 ∧
    receivedFrom 0 s.loop.pushed =
      (clientPackets stoppedClient (firstSamples [7, -42] 2)).map (expectedOf mbedtlsMd5 .little .little) := by
  obtain ⟨status, sc, n, hreturns, -, -, hclient⟩ := file_to_lines stoppedClient_intact twoNumbers_text (by simp)
    stoppedClient_written stoppedClient_initial
  obtain ⟨sc', hreturns', -, hwire⟩ := stoppedClient_sends
  obtain ⟨rfl, rfl⟩ := Prod.mk.inj (hreturns.unique hreturns')
  obtain ⟨s₁, s₂, s₃, s, h₁, h₂, h₃, hs, hpc, hrest, hconsumed, hpushed, hcount⟩ : ∃ s₁ s₂ s₃ s,
      runChecked (processStep md5Setting) (Paced 2) startedProcess connects = some s₁ ∧
      runChecked (processStep md5Setting) (Paced 2) s₁ (framePass 2000 1 2) = some s₂ ∧
      runChecked (processStep md5Setting) (Paced 2) s₂ (framePass 4000 3 4) = some s₃ ∧
      runChecked (processStep md5Setting) (Paced 2) s₃ (List.replicate 28 (.threads .worker)) = some s ∧
      s.loop.pc = .select ∧ s.threads.AtRest ∧ s.loop.consumed 0 = 2852 ∧ s.loop.pushed.length = 2 ∧
      (receivedFrom 0 s.loop.pushed).length = 2 :=
    ⟨_, _, _, _, rfl, rfl, rfl, rfl, rfl, ⟨rfl, rfl, rfl⟩, rfl, rfl, rfl⟩
  have hrun := (((run_of_runChecked _ h₁).trans (run_of_runChecked _ h₂)).trans (run_of_runChecked _ h₃)).trans
    (run_of_runChecked _ hs)
  have hall : s.loop.consumed 0 = sc.wire.length := by rw [hwire, stoppedWire_length, hconsumed]
  have hcarries : Carries (md5Setting.stream 0) (s.loop.consumed 0) sc.wire := hwire ▸ stoppedWire_carried hconsumed
  obtain ⟨lines, hprinted, hprocessed, hreceived⟩ := hclient md5Setting 2 startedProcess s 0 rfl (by decide)
    (startedProcess_initial rfl) hrun hpc hrest hcarries hall
  have hn := congrArg List.length hreceived
  rw [hcount, List.length_map, clientPackets_length, firstSamples_length] at hn
  subst hn
  exact ⟨sc, s, lines, hreturns', hrun, hprinted, hprocessed, hpushed, hreceived⟩

end OhMySockets
