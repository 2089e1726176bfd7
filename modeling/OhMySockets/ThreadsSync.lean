import OhMySockets.Threads

/-! # Synchronisation of the two threads

The invariants of all runs, whatever the slots of the buffer held at the start:

* `Locks`: who holds the two mutexes at which program point;
* `Unread`: what the worker knows about the unread packets while it holds `mutex`, and that a
  waiting worker either has seen all of them or is about to be signalled;
* `Heap.Bounded`: `malloc` never runs out of addresses.

`server_synchronised` puts them together: no wake-up is lost, the two loops of the worker end as
they should, and the threads are never blocked on each other. -/

namespace OhMySockets

open Allocation Transition

/-- `main` holds `mutex`. -/
def MainPc.locked : MainPc → Bool
  | .pushLock .. | .pushBody .. | .pushUnlock .. | .signal .. | .unlock .. => true
  | _ => false

/-- `main` holds the mutex of the buffer. -/
def MainPc.inBuffer : MainPc → Bool
  | .pushBody .. | .pushUnlock .. => true
  | _ => false

/-- `main` has pushed its packet and not yet signalled. -/
def MainPc.pushed : MainPc → Bool
  | .pushUnlock .. | .signal .. => true
  | _ => false

/-- `worker` holds `mutex`. -/
def WorkerPc.locked : WorkerPc → Bool
  | .lock | .waiting | .reacquire => false
  | _ => true

/-- `worker` holds the mutex of the buffer. -/
def WorkerPc.inBuffer : WorkerPc → Bool
  | .lengthBody | .lengthUnlock _ | .pullBody _ | .pullUnlock .. => true
  | _ => false

/-- Who holds the mutexes. -/
structure Locks (s : State) : Prop where
  mutex_main : s.mutex = some .main ↔ s.main.locked = true
  mutex_worker : s.mutex = some .worker ↔ s.worker.locked = true
  cbMutex_main : s.cbMutex = some .main ↔ s.main.inBuffer = true
  cbMutex_worker : s.cbMutex = some .worker ↔ s.worker.inBuffer = true

variable {length : UInt32} {content : ℕ → Option Addr} {s s' : State}

/-! ### The mutexes -/

theorem Locks.main_step (h : Locks s) (hstep : mainStep s = some s') : Locks s' := by
  obtain ⟨h1, h2, h3, h4⟩ := h
  cases mainStep_move hstep with
  | signal hm =>
      -- the signal moves a waiting worker, which holds nothing before and after
      cases hw : s.worker <;> constructor <;>
        simp_all [MainPc.locked, MainPc.inBuffer, WorkerPc.locked, WorkerPc.inBuffer, WorkerPc.wake]
  | _ => constructor <;> simp_all [MainPc.locked, MainPc.inBuffer]

theorem Locks.worker_step (h : Locks s) (hstep : workerStep s = some s') : Locks s' := by
  obtain ⟨h1, h2, h3, h4⟩ := h
  cases workerStep_move hstep <;> constructor <;> simp_all [WorkerPc.locked, WorkerPc.inBuffer]

/-- Receiving, allocating and a spurious wake-up happen where no mutex is held. -/
theorem Locks.step (h : Locks s) {a : Action} (hstep : serverStep s a = some s') : Locks s' := by
  cases a with
  | main => exact h.main_step hstep
  | worker => exact h.worker_step hstep
  | receive p isValid =>
      obtain ⟨hm, rfl⟩ := receiveStep_some hstep
      obtain ⟨h1, h2, h3, h4⟩ := h
      constructor <;> simp_all [MainPc.locked, MainPc.inBuffer]
  | malloc a =>
      obtain ⟨-, m, rfl, hm⟩ := mallocStep_some hstep
      obtain ⟨h1, h2, h3, h4⟩ := h
      rcases hm with ⟨p, isValid, hm, rfl⟩ | ⟨b, isValid, hm, rfl⟩ <;> constructor <;>
        simp_all [MainPc.locked, MainPc.inBuffer]
  | spurious =>
      obtain ⟨hw, rfl⟩ := spuriousStep_some hstep
      obtain ⟨h1, h2, h3, h4⟩ := h
      constructor <;> simp_all [WorkerPc.locked, WorkerPc.inBuffer]

/-- A thread that holds `mutex` excludes the other one. -/
theorem Locks.worker_unlocked (h : Locks s) (hm : s.main.locked = true) : s.worker.locked = false := by
  have hmain := h.mutex_main.mpr hm
  by_contra hw
  have hworker := h.mutex_worker.mpr (by simpa using hw)
  rw [hmain] at hworker
  cases hworker

/-! ### The buffer -/

/-- What the worker knows about the unread packets `q`. -/
def WorkerPc.Knows (q : List Addr) : WorkerPc → Prop
  | .lengthUnlock length | .check length => length = 0 ↔ q = []
  | .pullLock first | .pullBody first => first = true → q ≠ []
  | .pullUnlock first packet => (first = true → packet ≠ none) ∧ (packet = none → q = [])
  | .unlock => q = []
  | _ => True

theorem WorkerPc.knows_of_unlocked {w : WorkerPc} (h : w.locked = false) (q : List Addr) : w.Knows q := by
  cases w with
  | lock | waiting | reacquire => trivial
  | _ => cases h

/-- `q` are the unread packets; a waiting worker has seen all of them, or will be signalled. -/
structure Unread (length : UInt32) (content : ℕ → Option Addr) (q : List Addr) (s : State) : Prop where
  holds : Holds length content s.cb q
  knows : s.worker.Knows q
  waiting : s.worker = .waiting → q = [] ∨ s.main.pushed = true

namespace Unread

variable {q : List Addr}

theorem of_eq (h : Unread length content q s) (hcb : s'.cb = s.cb) (hworker : s'.worker = s.worker)
    (hpushed : s.main.pushed = true → s'.main.pushed = true) : Unread length content q s' := by
  obtain ⟨hholds, hknows, hwaiting⟩ := h
  refine ⟨hcb ▸ hholds, hworker ▸ hknows, fun hw => ?_⟩
  exact (hwaiting (hworker ▸ hw)).imp_right hpushed

theorem main_step (hlocks : Locks s) (h : Unread length content q s) (hstep : mainStep s = some s') :
    ∃ q', Unread length content q' s' := by
  cases mainStep_move hstep with
  | @pushBody p b hm =>
      have hunlocked := hlocks.worker_unlocked (by simp [hm, MainPc.locked])
      exact ⟨_, h.holds.step (.push p), WorkerPc.knows_of_unlocked hunlocked _, fun _ => Or.inr rfl⟩
  | signal hm =>
      have hunlocked := hlocks.worker_unlocked (by simp [hm, MainPc.locked])
      refine ⟨q, h.holds, ?_, ?_⟩
      · cases hw : s.worker <;> simp_all [WorkerPc.locked, WorkerPc.Knows, WorkerPc.wake]
      · cases hw : s.worker <;> simp_all [WorkerPc.locked, WorkerPc.wake]
  | decode hm | fill hm | lock hm | pushLock hm | pushUnlock hm | unlock hm | readIsValid hm | printReceived hm =>
      exact ⟨q, h.of_eq rfl rfl (by simp [hm, MainPc.pushed])⟩

theorem worker_step (h : Unread length content q s) (hstep : workerStep s = some s') :
    ∃ q', Unread length content q' s' := by
  obtain ⟨hholds, hknows, -⟩ := h
  cases workerStep_move hstep with
  | lengthBody => exact ⟨q, hholds, hholds.lengthSection_eq_zero_iff, fun h => nomatch h⟩
  | lengthUnlock hw =>
      rw [hw] at hknows
      exact ⟨q, hholds, hknows, fun h => nomatch h⟩
  | wait hw hzero =>
      rw [hw] at hknows
      exact ⟨q, hholds, trivial, fun _ => Or.inl (hknows.mp hzero)⟩
  | goOn hw hzero =>
      rw [hw] at hknows
      exact ⟨q, hholds, fun _ hq => hzero (hknows.mpr hq), fun h => nomatch h⟩
  | pullLock hw =>
      rw [hw] at hknows
      exact ⟨q, hholds, hknows, fun h => nomatch h⟩
  | pullBody hw =>
      rw [hw] at hknows
      have hret : (pullSection s.cb).ret = q.head? := Ret.pull.inj hholds.pull_ret
      refine ⟨_, hholds.step .pull, ⟨fun hfirst hnone => ?_, fun hnone => ?_⟩, fun h => nomatch h⟩
      · exact hknows hfirst (List.head?_eq_none_iff.mp (hret ▸ hnone))
      · rw [hret, List.head?_eq_none_iff] at hnone
        rw [hnone]
        rfl
  | pulledNone hw =>
      rw [hw] at hknows
      exact ⟨q, hholds, hknows.2 rfl, fun h => nomatch h⟩
  | freeHeader => exact ⟨q, hholds, (fun h => nomatch h), fun h => nomatch h⟩
  | _ => exact ⟨q, hholds, trivial, fun h => nomatch h⟩

theorem step (hlocks : Locks s) (h : Unread length content q s) {a : Action}
    (hstep : serverStep s a = some s') : ∃ q', Unread length content q' s' := by
  cases a with
  | main => exact h.main_step hlocks hstep
  | worker => exact h.worker_step hstep
  | receive p isValid =>
      obtain ⟨hm, rfl⟩ := receiveStep_some hstep
      exact ⟨q, h.of_eq rfl rfl (by simp [hm, MainPc.pushed])⟩
  | malloc a =>
      obtain ⟨-, m, rfl, hm⟩ := mallocStep_some hstep
      refine ⟨q, h.of_eq rfl rfl ?_⟩
      rcases hm with ⟨p, isValid, hm, rfl⟩ | ⟨b, isValid, hm, rfl⟩ <;> simp [hm, MainPc.pushed]
  | spurious =>
      obtain ⟨hw, rfl⟩ := spuriousStep_some hstep
      exact ⟨q, h.holds, trivial, fun h => nomatch h⟩

end Unread

/-! ### All runs -/

theorem Initial.locks (h : Initial length content s) : Locks s := by
  constructor <;> simp [h.mutex, h.cbMutex, h.main, h.worker, MainPc.locked, MainPc.inBuffer,
    WorkerPc.locked, WorkerPc.inBuffer]

theorem Initial.unread (h : Initial length content s) : Unread length content [] s := by
  refine ⟨holds_create h.created, ?_, fun _ => Or.inl rfl⟩
  rw [h.worker]
  trivial

variable {s₀ : State}

/-- **The invariant of all runs.** -/
theorem sync (hinit : Initial length content s₀) (hrun : Reaches serverStep s₀ s) :
    Locks s ∧ ∃ q, Unread length content q s := by
  refine Run.invariant (I := fun s => Locks s ∧ ∃ q, Unread length content q s) hrun
    ⟨hinit.locks, [], hinit.unread⟩ fun _ _ h hstep => ?_
  obtain ⟨hlocks, q, hunread⟩ := h
  exact ⟨hlocks.step hstep, hunread.step hlocks hstep⟩

/-! ### Progress -/

theorem Locks.mutex_none (h : Locks s) (hm : s.main.locked = false) (hw : s.worker.locked = false) :
    s.mutex = none := by
  cases hmutex : s.mutex with
  | none => rfl
  | some t =>
      cases t with
      | main => rw [h.mutex_main.mp hmutex] at hm; cases hm
      | worker => rw [h.mutex_worker.mp hmutex] at hw; cases hw

theorem Locks.cbMutex_none (h : Locks s) (hm : s.main.inBuffer = false) (hw : s.worker.inBuffer = false) :
    s.cbMutex = none := by
  cases hmutex : s.cbMutex with
  | none => rfl
  | some t =>
      cases t with
      | main => rw [h.cbMutex_main.mp hmutex] at hm; cases hm
      | worker => rw [h.cbMutex_worker.mp hmutex] at hw; cases hw

/-- The mutex of the buffer is only taken by a thread that holds `mutex`. -/
theorem MainPc.inBuffer_eq_false {m : MainPc} (h : m.locked = false) : m.inBuffer = false := by
  cases m with
  | pushBody | pushUnlock => cases h
  | _ => rfl

theorem WorkerPc.inBuffer_eq_false {w : WorkerPc} (h : w.locked = false) : w.inBuffer = false := by
  cases w with
  | lengthBody | lengthUnlock | pullBody | pullUnlock => cases h
  | _ => rfl

/-- `malloc` always finds an address: the addresses in use are bounded. -/
def Heap.Bounded (heap : Heap) : Prop := ∃ n : ℕ, ∀ a : ℕ, n ≤ a → heap.isFree a

namespace Heap.Bounded

variable {heap : Heap}

theorem update (h : heap.Bounded) {heap' : Heap} {a : ℕ} {l : Life}
    (hlife : heap'.life = Function.update heap.life a l) : heap'.Bounded := by
  obtain ⟨n, hn⟩ := h
  refine ⟨max n (a + 1), fun x hx => ?_⟩
  have hne : x ≠ a := by omega
  unfold isFree
  rw [hlife, Function.update_of_ne hne]
  exact hn x (by omega)

theorem freeAll (h : heap.Bounded) (thread : Thread) (hs : List Addr) : (heap.freeAll thread hs).Bounded := by
  induction hs generalizing heap with
  | nil => exact h
  | cons a hs ih =>
      have hread : (heap.read thread a).Bounded := h
      exact ih ((hread.update rfl).update rfl)

theorem main_step (h : s.heap.Bounded) (hstep : mainStep s = some s') : s'.heap.Bounded := by
  cases mainStep_move hstep with
  | decode | fill => exact h.update rfl
  | pushBody => exact h.freeAll _ _
  | _ => exact h

theorem worker_step (h : s.heap.Bounded) (hstep : workerStep s = some s') : s'.heap.Bounded := by
  cases workerStep_move hstep with
  | freePacket | freeHeader => exact h.update rfl
  | _ => exact h

theorem step (h : s.heap.Bounded) {a : Action} (hstep : serverStep s a = some s') : s'.heap.Bounded := by
  cases a with
  | main => exact h.main_step hstep
  | worker => exact h.worker_step hstep
  | receive p isValid =>
      obtain ⟨-, rfl⟩ := receiveStep_some hstep
      exact h
  | malloc a =>
      obtain ⟨-, m, rfl, -⟩ := mallocStep_some hstep
      exact h.update rfl
  | spurious =>
      obtain ⟨-, rfl⟩ := spuriousStep_some hstep
      exact h

end Heap.Bounded

theorem Initial.bounded (h : Initial length content s) : s.heap.Bounded :=
  ⟨0, fun a _ => by simp [Heap.isFree, h.life a]⟩

/-- `main` can take a step other than receiving a frame. -/
def MainCanStep (s : State) : Prop := (∃ s', mainStep s = some s') ∨ ∃ a s', mallocStep s a = some s'

/-- `worker` can take a step. -/
def WorkerCanStep (s : State) : Prop := ∃ s', workerStep s = some s'

theorem Locks.main_can_step (h : Locks s) (hbounded : s.heap.Bounded) (hselect : s.main ≠ .select)
    (hfree : s.main.locked = true ∨ s.mutex = none) : MainCanStep s := by
  obtain ⟨n, hn⟩ := hbounded
  cases hm : s.main with
  | select => exact absurd hm hselect
  | mallocPacket | mallocHeader =>
      exact Or.inr ⟨n, _, by rw [mallocStep, hm]; exact if_pos (hn n (Nat.le_refl n))⟩
  | lock =>
      have hnone : s.mutex = none := hfree.resolve_left (by simp [hm, MainPc.locked])
      exact Or.inl ⟨_, by rw [mainStep, hm]; exact if_pos hnone⟩
  | pushLock =>
      have hunlocked := h.worker_unlocked (by rw [hm]; rfl)
      have hnone := h.cbMutex_none (by rw [hm]; rfl) (WorkerPc.inBuffer_eq_false hunlocked)
      exact Or.inl ⟨_, by rw [mainStep, hm]; exact if_pos hnone⟩
  | _ => exact Or.inl ⟨_, by rw [mainStep, hm]⟩

theorem Locks.worker_can_step (h : Locks s) (hwaiting : s.worker ≠ .waiting)
    (hfree : s.worker.locked = true ∨ s.mutex = none) : WorkerCanStep s := by
  cases hw : s.worker with
  | waiting => exact absurd hw hwaiting
  | lock | reacquire =>
      have hnone : s.mutex = none := hfree.resolve_left (by simp [hw, WorkerPc.locked])
      exact ⟨_, by rw [workerStep, hw]; exact if_pos hnone⟩
  | lengthLock | pullLock =>
      have hunlocked : s.main.locked = false := by
        by_contra hlocked
        have := h.worker_unlocked (by simpa using hlocked)
        rw [hw] at this
        cases this
      have hnone := h.cbMutex_none (MainPc.inBuffer_eq_false hunlocked) (by rw [hw]; rfl)
      exact ⟨_, by rw [workerStep, hw]; exact if_pos hnone⟩
  | check n =>
      by_cases hn : n ≤ 0
      · exact ⟨_, by rw [workerStep, hw]; exact if_pos hn⟩
      · exact ⟨_, by rw [workerStep, hw]; exact if_neg hn⟩
  | _ => exact ⟨_, by rw [workerStep, hw]⟩

/-- Unless `main` waits for a socket and `worker` for the condition, one of them can take a step. -/
theorem Locks.not_stuck (h : Locks s) (hbounded : s.heap.Bounded)
    (hone : s.main ≠ .select ∨ s.worker ≠ .waiting) : MainCanStep s ∨ WorkerCanStep s := by
  by_cases hm : s.main.locked = true
  · refine Or.inl (h.main_can_step hbounded (fun hselect => ?_) (Or.inl hm))
    rw [hselect] at hm
    cases hm
  by_cases hw : s.worker.locked = true
  · refine Or.inr (h.worker_can_step (fun hwaiting => ?_) (Or.inl hw))
    rw [hwaiting] at hw
    cases hw
  have hnone := h.mutex_none (by simpa using hm) (by simpa using hw)
  rcases hone with hselect | hwaiting
  · exact Or.inl (h.main_can_step hbounded hselect (Or.inr hnone))
  · exact Or.inr (h.worker_can_step hwaiting (Or.inr hnone))

/-! ### The results -/

/-- No wake-up is lost, the worker's loops end as they should, and the threads do not block each
other. -/
structure Synchronised (s : State) : Prop where
  no_lost_wakeup : s.worker = .waiting → s.main.locked = false → s.cb.unread = []
  wait_loop_left : s.worker = .pullLock true → (cbPull .ok s.cb).ret ≠ none
  first_pull : ∀ packet, s.worker = .pullUnlock true packet → packet ≠ none
  drain_loop_left : s.worker = .unlock → s.cb.unread = []
  not_stuck : s.main ≠ .select ∨ s.worker ≠ .waiting → MainCanStep s ∨ WorkerCanStep s

/-- **The threads are synchronised in every reachable state.** -/
theorem server_synchronised (hinit : Initial length content s₀) (hrun : Reaches serverStep s₀ s) :
    Synchronised s := by
  obtain ⟨hlocks, q, hholds, hknows, hwaiting⟩ := sync hinit hrun
  have hbounded : s.heap.Bounded := Run.invariant (I := fun s => s.heap.Bounded) hrun hinit.bounded
    fun _ _ h hstep => h.step hstep
  have hunread : q = [] → s.cb.unread = [] := fun hq => by rw [hholds.unread_eq, hq]; rfl
  refine ⟨fun hw hm => ?_, fun hw => ?_, fun packet hw => ?_, fun hw => ?_, hlocks.not_stuck hbounded⟩
  · rcases hwaiting hw with hq | hpushed
    · exact hunread hq
    · cases hmain : s.main <;> simp_all [MainPc.locked, MainPc.pushed]
  · rw [hw] at hknows
    have hret : (cbPull .ok s.cb).ret = q.head? := Ret.pull.inj hholds.pull_ret
    rw [hret]
    exact fun hnone => hknows rfl (List.head?_eq_none_iff.mp hnone)
  · rw [hw] at hknows
    exact hknows.1 rfl
  · rw [hw] at hknows
    exact hunread hknows

/-- The worker waits on an empty buffer; `main` pushes a packet and signals; the worker leaves its wait loop. -/
def wakeUp : List Action :=
  List.replicate 5 .worker ++
    [.receive (countedPacket countedDigest countedDigest_length) true, .malloc 1, .main, .malloc 2] ++
    List.replicate 7 .main ++ List.replicate 5 .worker

/-- It then processes the packet and leaves its drain loop. -/
theorem server_synchronised_woken : ∃ s t, runActions serverStep start wakeUp = some s ∧ s.worker = .pullLock true ∧
    Synchronised s ∧ runActions serverStep s (List.replicate 10 .worker) = some t ∧ t.worker = .unlock ∧
    t.printed.length = 1 ∧ Synchronised t := by
  obtain ⟨s, t, hs, hwait, ht, hdrain, hprinted⟩ : ∃ s t, runActions serverStep start wakeUp = some s ∧
      s.worker = .pullLock true ∧ runActions serverStep s (List.replicate 10 .worker) = some t ∧ t.worker = .unlock ∧
      t.printed.length = 1 :=
    ⟨_, _, rfl, rfl, rfl, rfl, rfl⟩
  have hrun := run_of_runActions _ hs
  exact ⟨s, t, hs, hwait, server_synchronised start_initial hrun, ht, hdrain, hprinted,
    server_synchronised start_initial (hrun.trans (run_of_runActions _ ht))⟩

end OhMySockets
