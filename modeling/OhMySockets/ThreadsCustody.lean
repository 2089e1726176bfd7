import OhMySockets.ThreadsOwnership

/-! # Every block is freed once

The runs of the server whose slots are `NULL` at the start, without any condition on the steps.  `main` may
print a packet that the worker has freed; apart from this line, `State.settled` forgets what `main` still
knows of a packet that it has pushed, and the settled state always satisfies `Ownership`.

* `settled_ownership`: the invariant;
* `Accounted`: every block that is not free is listed, so none is lost;
* `blocks_accounted`: nothing is freed twice, the worker reads live blocks only, and the blocks in use are those
  of the unread packets and at most two for each thread. -/

namespace OhMySockets

open Allocation Transition

/-- `main` without the packet that it has pushed. -/
def MainPc.settled : MainPc → MainPc
  | .pushUnlock .. | .signal .. | .unlock .. | .readIsValid .. | .printReceived .. => .select
  | m => m

/-- The heap without the reads so far. -/
def Heap.forget (heap : Heap) : Heap := { heap with accesses := [] }

/-- The state without the packet that `main` has pushed and without the reads so far. -/
def State.settled (s : State) : State := { s with main := s.main.settled, heap := s.heap.forget }

/-- The blocks that a step frees, in order. -/
def State.freedBy (s : State) : Action → List Addr
  | .main =>
      match s.main with
      | .pushBody h _ => (freed (pushSection s.cb (some h)).effects).flatMap fun p => [(s.heap.headers p).packet, p]
      | _ => []
  | .worker =>
      match s.worker with
      | .freePacket h => [(s.heap.headers h).packet]
      | .freeHeader h => [h]
      | _ => []
  | _ => []

/-- The blocks in use: those that are filled in, and the one that `main` is filling in. -/
def State.inUse (s : State) (q : List Addr) : List Addr := s.main.filling?.toList ++ s.blocks q

variable {length : UInt32} {content : ℕ → Option Addr} {q q' : List Addr} {s s' t : State}

/-! ### The settled state -/

theorem settled_blocks (m : MainPc) : m.settled.blocks = m.blocks := by
  cases m <;> rfl

theorem settled_filling? (m : MainPc) : m.settled.filling? = m.filling? := by
  cases m <;> rfl

theorem settled_pushed? (m : MainPc) : m.settled.pushed? = none := by
  cases m <;> rfl

theorem packet?_of_settled {m : MainPc} {x : Addr × Addr} (h : m.settled.packet? = some x) : m.packet? = some x := by
  cases m <;> first | exact h | cases h

theorem settled_settled (m : MainPc) : m.settled.settled = m.settled := by
  cases m <;> rfl

theorem forget_freeAll {heap heap' : Heap} (h : heap.forget = heap'.forget) (thread : Thread) (hs : List Addr) :
    (heap.freeAll thread hs).forget = (heap'.freeAll thread hs).forget := by
  induction hs generalizing heap heap' with
  | nil => exact h
  | cons p hs ih =>
      apply ih
      simp only [Heap.forget, Heap.mk.injEq, and_true] at h
      simp [Heap.forget, Heap.read, Heap.free, h]

/-- The condition on the slots holds of all runs when they were `NULL` at the start. -/
theorem Holds.slot_none (h : Holds length (fun _ => none) s.cb q) (hroom : ¬ s.cb.Overflow) :
    s.cb.data s.cb.pushIndex.toNat = none := by
  have hlt := Nat.lt_of_le_of_ne h.length_le (mt h.overflow_iff.mpr hroom)
  obtain ⟨⟨a, hlayout⟩, rfl⟩ := h
  have hfreed := hlayout.freed_push_room (x := none) (by rwa [List.length_map])
  rw [freed_pushSection] at hfreed
  split_ifs at hfreed <;> simpa using hfreed

namespace Ownership

theorem settle (h : Ownership length content q s) : Ownership length content q s.settled where
  holds := h.holds
  owned := by
    show Owned s.heap.life (s.main.settled.blocks ++ _ ++ _)
    rw [settled_blocks]
    exact h.owned
  filling := fun x hx => h.filling x (settled_filling? s.main ▸ hx)
  header := fun x y hx => h.header x y (packet?_of_settled hx)
  pushed := fun x hx => by
    rw [show s.settled.main.pushed? = none from settled_pushed? s.main] at hx
    cases hx
  reads := fun a ha => (nomatch ha)

theorem safe (h : Ownership length (fun _ => none) q s.settled) (a : Action) : Safe s.settled a := by
  cases a with
  | main =>
      intro x b _
      exact (em s.cb.Overflow).imp_right h.holds.slot_none
  | worker =>
      intro x _ hx
      rw [show s.settled.main.pushed? = none from settled_pushed? s.main] at hx
      cases hx
  | receive | malloc | spurious => trivial

end Ownership

/-- The worker does not see whether the state is settled. -/
theorem workerStep_settled (hstep : workerStep s = some s') : ∃ t, workerStep s.settled = some t ∧
    t.settled = s'.settled ∧ s'.heap.accesses = s.heap.accesses ++ t.heap.accesses := by
  cases workerStep_move hstep with
  | lock hw hfree | reacquire hw hfree | lengthLock hw hfree | pullLock hw hfree =>
      exact ⟨_, by simp only [workerStep, State.settled, hw, hfree, if_true]; rfl,
        by simp [State.settled, settled_settled, Heap.forget], by simp [Heap.forget]⟩
  | wait hw hzero =>
      subst hzero
      exact ⟨_, by simp only [workerStep, State.settled, hw]; rfl,
        by simp [State.settled, settled_settled, Heap.forget], by simp [Heap.forget]⟩
  | goOn hw hzero =>
      exact ⟨_, by simp only [workerStep, State.settled, hw, UInt32.le_zero_iff, if_neg hzero]; rfl,
        by simp [State.settled, settled_settled, Heap.forget], by simp [Heap.forget]⟩
  | lengthBody hw | lengthUnlock hw | pullBody hw | pulledNone hw | pulled hw | readIsValid hw | printProcessed hw hb
  | freePacket hw | freeHeader hw | unlock hw =>
      subst_vars
      exact ⟨_, by simp only [workerStep, State.settled, hw]; rfl,
        by simp [State.settled, settled_settled, Heap.read, Heap.free, Heap.forget],
        by simp [Heap.read, Heap.free, Heap.forget]⟩

namespace Ownership

theorem settled_of_eq (h : Ownership length content q s.settled) (hcb : s'.cb = s.cb)
    (hlife : s'.heap.life = s.heap.life) (hheaders : s'.heap.headers = s.heap.headers)
    (hmain : s'.main.settled = .select) (hold : s.main.settled = .select)
    (hworker : s'.worker = s.worker ∨ s'.worker = s.worker.wake) : Ownership length content q s'.settled := by
  have hblocks : s'.worker.blocks s.heap.headers = s.worker.blocks s.heap.headers := by
    rcases hworker with he | he
    · rw [he]
    · rw [he, wake_blocks]
  have hpacket : s'.worker.packet? = s.worker.packet? := by
    rcases hworker with he | he
    · rw [he]
    · rw [he, wake_packet?]
  have hsame : s'.settled.main = s.settled.main := hmain.trans hold.symm
  exact h.move hcb hlife hheaders (congrArg MainPc.blocks hsame) hblocks (fun x hx => hsame ▸ hx)
    (fun x hx => hsame ▸ hx) (fun x hx => hsame ▸ hx) hpacket fun a ha => (nomatch ha)

theorem settled_main_step (h : Ownership length (fun _ => none) q s.settled) (hstep : mainStep s = some s') :
    ∃ q', Ownership length (fun _ => none) q' s'.settled := by
  -- up to the push, the step of the settled state
  have hsame : ∀ t, mainStep s.settled = some t → t.settled = s'.settled →
      ∃ q', Ownership length (fun _ => none) q' s'.settled := fun t ht hsettled => by
    obtain ⟨q', hq'⟩ := h.main_step (h.safe .main) ht
    exact ⟨q', hsettled ▸ hq'.settle⟩
  cases mainStep_move hstep with
  | decode hm | fill hm =>
      exact hsame _ (by simp only [mainStep, State.settled, hm, MainPc.settled]; rfl)
        (by simp [State.settled, MainPc.settled, Heap.read, Heap.fillPacket, Heap.fillHeader, Heap.forget])
  | pushBody hm =>
      refine hsame _ (by simp only [mainStep, State.settled, hm, MainPc.settled]; rfl) ?_
      simp only [State.settled, MainPc.settled]
      have hforget : s.heap.forget.forget = s.heap.forget := rfl
      rw [forget_freeAll hforget]
  | lock hm hfree | pushLock hm hfree =>
      exact hsame _ (by simp only [mainStep, State.settled, hm, MainPc.settled, hfree, if_true]; rfl)
        (by simp [State.settled, MainPc.settled, Heap.forget])
  | pushUnlock hm | unlock hm | readIsValid hm | printReceived hm =>
      exact ⟨q, h.settled_of_eq rfl rfl rfl rfl (by rw [hm]; rfl) (Or.inl rfl)⟩
  | signal hm => exact ⟨q, h.settled_of_eq rfl rfl rfl rfl (by rw [hm]; rfl) (Or.inr rfl)⟩

theorem settled_step (h : Ownership length (fun _ => none) q s.settled) {a : Action}
    (hstep : serverStep s a = some s') : ∃ q', Ownership length (fun _ => none) q' s'.settled := by
  cases a with
  | main => exact h.settled_main_step hstep
  | worker =>
      obtain ⟨t, ht, hsettled, -⟩ := workerStep_settled hstep
      obtain ⟨q', hq'⟩ := h.worker_step (h.safe .worker) ht
      exact ⟨q', hsettled ▸ hq'.settle⟩
  | receive p isValid =>
      obtain ⟨hm, rfl⟩ := receiveStep_some hstep
      have hmoved : Ownership length (fun _ => none) q { s.settled with main := .mallocPacket p isValid } :=
        h.move rfl rfl rfl (by simp [State.settled, hm, MainPc.settled, MainPc.blocks]) rfl
          (fun x hx => (nomatch hx)) (fun x hx => (nomatch hx)) (fun x hx => (nomatch hx)) rfl h.reads
      exact ⟨q, hmoved⟩
  | malloc a =>
      obtain ⟨hfree, m, rfl, hm⟩ := mallocStep_some hstep
      rcases hm with ⟨p, isValid, hm, rfl⟩ | ⟨b, isValid, hm, rfl⟩
      · exact ⟨q, h.malloc_step (s := s.settled) hfree (by simp [State.settled, hm, MainPc.settled, MainPc.blocks])
          rfl rfl rfl⟩
      · exact ⟨q, h.malloc_step (s := s.settled) hfree (by simp [State.settled, hm, MainPc.settled, MainPc.blocks])
          rfl rfl rfl⟩
  | spurious =>
      obtain ⟨hw, rfl⟩ := spuriousStep_some hstep
      have hmoved : Ownership length (fun _ => none) q { s.settled with worker := .reacquire } :=
        h.move rfl rfl rfl rfl (by simp [State.settled, hw, WorkerPc.blocks, WorkerPc.packet?]) (fun x hx => hx)
          (fun x hx => hx) (fun x hx => hx) (by simp [State.settled, hw, WorkerPc.packet?]) h.reads
      exact ⟨q, hmoved⟩

end Ownership

variable {s₀ : State}

/-- **The invariant of all runs**: the settled state owns its blocks. -/
theorem settled_ownership (hinit : Initial length (fun _ => none) s₀) (hrun : Reaches serverStep s₀ s) :
    ∃ q, Ownership length (fun _ => none) q s.settled := by
  refine Run.invariant (I := fun s => ∃ q, Ownership length (fun _ => none) q s.settled) hrun
    ⟨[], hinit.ownership.settle⟩ fun _ _ h hstep => ?_
  obtain ⟨q, hown⟩ := h
  exact hown.settled_step hstep

/-! ### The reads of the worker -/

theorem accesses_freeAll (heap : Heap) (thread : Thread) (hs : List Addr) {x : Access}
    (hx : x ∈ (heap.freeAll thread hs).accesses) : x ∈ heap.accesses ∨ x.thread = thread := by
  induction hs generalizing heap with
  | nil => exact Or.inl hx
  | cons p hs ih =>
      rcases ih _ hx with hx | hx
      · rcases List.mem_append.mp hx with hx | hx
        · exact Or.inl hx
        · exact Or.inr (by rw [List.mem_singleton.mp hx])
      · exact Or.inr hx

theorem mainStep_accesses (hstep : mainStep s = some s') {x : Access} (hx : x ∈ s'.heap.accesses) :
    x ∈ s.heap.accesses ∨ x.thread = .main := by
  cases mainStep_move hstep with
  | pushBody => exact accesses_freeAll _ _ _ hx
  | decode | fill | readIsValid =>
      rcases List.mem_append.mp hx with hx | hx
      · exact Or.inl hx
      · exact Or.inr (by rw [List.mem_singleton.mp hx])
  | printReceived =>
      simp only [Heap.read, List.mem_append, List.mem_singleton] at hx
      rcases hx with (hx | hx) | hx
      · exact Or.inl hx
      · exact Or.inr (by rw [hx])
      · exact Or.inr (by rw [hx])
  | _ => exact Or.inl hx

/-- The reads of the worker so far hit live blocks. -/
def Heap.WorkerReadsLive (heap : Heap) : Prop := ∀ x ∈ heap.accesses, x.thread = .worker → x.life = .live

theorem Heap.WorkerReadsLive.step (hown : Ownership length (fun _ => none) q s.settled) (h : s.heap.WorkerReadsLive)
    {a : Action} (hstep : serverStep s a = some s') : s'.heap.WorkerReadsLive := by
  intro x hx hthread
  cases a with
  | main =>
      rcases mainStep_accesses hstep hx with hx | hx
      · exact h x hx hthread
      · rw [hx] at hthread
        cases hthread
  | worker =>
      obtain ⟨t, ht, -, haccesses⟩ := workerStep_settled hstep
      obtain ⟨q', hq'⟩ := hown.worker_step (hown.safe .worker) ht
      rw [haccesses] at hx
      rcases List.mem_append.mp hx with hx | hx
      · exact h x hx hthread
      · exact hq'.reads x hx
  | receive p isValid =>
      obtain ⟨-, rfl⟩ := receiveStep_some hstep
      exact h x hx hthread
  | malloc a =>
      obtain ⟨-, m, rfl, -⟩ := mallocStep_some hstep
      exact h x hx hthread
  | spurious =>
      obtain ⟨-, rfl⟩ := spuriousStep_some hstep
      exact h x hx hthread

/-! ### Nothing is lost -/

/-- Every block that is not free is listed, when `q` are the unread packets. -/
structure Accounted (length : UInt32) (content : ℕ → Option Addr) (q : List Addr) (s : State) : Prop where
  holds : Holds length content s.cb q
  covers : Covers s.heap.life (s.blocks q)
  allocated : ∀ x, s.heap.life x = .allocated → s.main.filling? = some x

namespace Accounted

theorem move (h : Accounted length content q s) (hholds : Holds length content s'.cb q')
    (hlife : s'.heap.life = s.heap.life) (hblocks : s.blocks q ⊆ s'.blocks q')
    (hfilling : s'.main.filling? = s.main.filling?) : Accounted length content q' s' where
  holds := hholds
  covers := hlife ▸ h.covers.mono hblocks
  allocated := fun x hx => hfilling ▸ h.allocated x (hlife ▸ hx)

theorem allocated_filled (h : Accounted length content q s) {y : Addr} (hy : s.main.filling? = some y) (x : Addr)
    (hx : Function.update s.heap.life y .live x = .allocated) : none = some x := by
  by_cases hxy : x = y
  · rw [hxy, Function.update_self] at hx
    cases hx
  · rw [Function.update_of_ne hxy] at hx
    have hsame := h.allocated x hx
    rw [hy] at hsame
    exact absurd (Option.some.inj hsame).symm hxy

theorem allocated_free {life : Addr → Life} {y x : Addr} (hx : Function.update life y .released x = .allocated) :
    life x = .allocated := by
  by_cases hxy : x = y
  · rw [hxy, Function.update_self] at hx
    cases hx
  · rwa [Function.update_of_ne hxy] at hx

theorem fill_step {p b : Addr} {isValid : Bool} (hown : Ownership length content q s.settled)
    (h : Accounted length content q s) (hm : s.main = .fill p b isValid) : Accounted length content q
      { s with heap := (s.heap.read .main b).fillHeader p b isValid, main := .lock p b } := by
  have hp : s.heap.life p = .allocated := hown.filling p (by simp [State.settled, hm, MainPc.settled, MainPc.filling?])
  have hne : ∀ x, x ∈ q ∨ s.worker.packet? = some x → x ≠ p := fun x hx he => by
    have hlive : s.heap.life x = .live := (hown.live_packet hx).1
    rw [he, hp] at hlive
    cases hlive
  have hblocks : q.flatMap (blocksOf (Function.update s.heap.headers p ⟨b, isValid⟩)) =
        q.flatMap (blocksOf s.heap.headers) ∧
      s.worker.blocks (Function.update s.heap.headers p ⟨b, isValid⟩) = s.worker.blocks s.heap.headers :=
    Ownership.blocks_update hne
  obtain ⟨hq, hw⟩ := hblocks
  refine ⟨h.holds, (h.covers.cons p).mono ?_, fun x hx => h.allocated_filled (by rw [hm]; rfl) x hx⟩
  show p :: (s.main.blocks ++ q.flatMap (blocksOf s.heap.headers) ++ s.worker.blocks s.heap.headers) ⊆
    [p, b] ++ q.flatMap (blocksOf (Function.update s.heap.headers p ⟨b, isValid⟩)) ++
      s.worker.blocks (Function.update s.heap.headers p ⟨b, isValid⟩)
  rw [hq, hw, hm]
  exact List.Subset.refl _

theorem push_step {p b : Addr} (hown : Ownership length (fun _ => none) q s.settled)
    (h : Accounted length (fun _ => none) q s) (hm : s.main = .pushBody p b) :
    ∃ q', Accounted length (fun _ => none) q' { s with
      cb := (pushSection s.cb (some p)).cb
      heap := s.heap.freeAll .main (freed (pushSection s.cb (some p)).effects)
      main := .pushUnlock p b } := by
  have hheader : (s.heap.headers p).packet = b :=
    hown.header p b (by simp [State.settled, hm, MainPc.settled, MainPc.packet?])
  have hcovers := h.covers
  unfold State.blocks at hcovers
  rw [hm] at hcovers
  by_cases hfull : s.cb.Overflow
  · obtain ⟨x, rest, rfl, hholds, hfreed⟩ := h.holds.push_overflow hfull p
    rw [hfreed]
    refine ⟨rest ++ [p], hholds, Covers.free (Covers.free (hcovers.mono ?_)), fun y hy => ?_⟩
    · show [p, b] ++ ([x, (s.heap.headers x).packet] ++ rest.flatMap (blocksOf s.heap.headers)) ++
          s.worker.blocks s.heap.headers ⊆ (s.heap.headers x).packet :: x ::
        ((rest ++ [p]).flatMap (blocksOf s.heap.headers) ++ s.worker.blocks s.heap.headers)
      rw [Ownership.flatMap_blocksOf_concat hheader]
      intro y
      simp only [List.mem_append, List.mem_cons, List.not_mem_nil, or_false]
      tauto
    · have hallocated := h.allocated y (allocated_free (allocated_free hy))
      rw [hm] at hallocated
      cases hallocated
  · have hfreed : freed (pushSection s.cb (some p)).effects = [] := by
      rw [freed_pushSection, h.holds.slot_none hfull]
      rfl
    rw [hfreed]
    refine ⟨q ++ [p], h.move (h.holds.push_room hfull p) rfl ?_ (by rw [hm]; rfl)⟩
    show s.main.blocks ++ q.flatMap (blocksOf s.heap.headers) ++ s.worker.blocks s.heap.headers ⊆
      (q ++ [p]).flatMap (blocksOf s.heap.headers) ++ s.worker.blocks s.heap.headers
    rw [Ownership.flatMap_blocksOf_concat hheader, hm]
    intro y
    simp only [List.mem_append, MainPc.blocks]
    tauto

theorem pull_step {first : Bool} (h : Accounted length content q s) (hw : s.worker = .pullBody first) :
    ∃ q', Accounted length content q' { s with
      cb := (pullSection s.cb).cb, worker := .pullUnlock first (pullSection s.cb).ret } := by
  have hret : (pullSection s.cb).ret = q.head? := Ret.pull.inj h.holds.pull_ret
  refine ⟨q.tail, h.move (h.holds.step .pull) rfl ?_ rfl⟩
  rw [hret]
  show s.main.blocks ++ q.flatMap (blocksOf s.heap.headers) ++ s.worker.blocks s.heap.headers ⊆
    s.main.blocks ++ q.tail.flatMap (blocksOf s.heap.headers) ++ q.head?.toList.flatMap (blocksOf s.heap.headers)
  rw [hw]
  intro y
  cases q <;> simp only [List.mem_append, List.flatMap_cons, List.flatMap_nil, List.not_mem_nil, WorkerPc.blocks,
    WorkerPc.packet?, Option.toList, List.head?_nil, List.head?_cons, List.tail_nil, List.tail_cons] <;> tauto

theorem main_step (hown : Ownership length (fun _ => none) q s.settled) (h : Accounted length (fun _ => none) q s)
    (hstep : mainStep s = some s') : ∃ q', Accounted length (fun _ => none) q' s' := by
  cases mainStep_move hstep with
  | @decode b p isValid hm =>
      refine ⟨q, h.holds, (h.covers.cons b).mono ?_, fun x hx => h.allocated_filled (by rw [hm]; rfl) x hx⟩
      unfold State.blocks
      rw [hm]
      exact List.Subset.refl _
  | fill hm => exact ⟨q, h.fill_step hown hm⟩
  | pushBody hm => exact h.push_step hown hm
  | signal hm =>
      refine ⟨q, h.move h.holds rfl ?_ (by rw [hm]; rfl)⟩
      unfold State.blocks
      rw [hm, wake_blocks]
      exact List.Subset.refl _
  | lock hm | pushLock hm | pushUnlock hm | unlock hm | readIsValid hm | printReceived hm =>
      refine ⟨q, h.move h.holds rfl ?_ (by rw [hm]; rfl)⟩
      unfold State.blocks
      rw [hm]
      exact List.Subset.refl _

theorem worker_step (h : Accounted length content q s) (hstep : workerStep s = some s') :
    ∃ q', Accounted length content q' s' := by
  cases workerStep_move hstep with
  | pullBody hw => exact h.pull_step hw
  | freePacket hw =>
      refine ⟨q, h.holds, Covers.free (h.covers.mono ?_), fun x hx => h.allocated x (allocated_free hx)⟩
      unfold State.blocks
      rw [hw]
      intro y
      simp only [List.mem_append, List.mem_cons, WorkerPc.blocks, WorkerPc.packet?, Option.toList, List.flatMap_cons,
        List.flatMap_nil, blocksOf, List.not_mem_nil]
      tauto
  | freeHeader hw =>
      refine ⟨q, h.holds, Covers.free (h.covers.mono ?_), fun x hx => h.allocated x (allocated_free hx)⟩
      unfold State.blocks
      rw [hw]
      intro y
      simp only [List.mem_append, List.mem_cons, WorkerPc.blocks, WorkerPc.packet?, Option.toList, List.flatMap_nil,
        List.not_mem_nil]
      tauto
  | lock hw | reacquire hw | lengthLock hw | lengthBody hw | lengthUnlock hw | wait hw | goOn hw | pullLock hw
  | pulledNone hw | pulled hw | readIsValid hw | printProcessed hw | unlock hw =>
      refine ⟨q, h.move h.holds rfl ?_ rfl⟩
      unfold State.blocks
      rw [hw]
      exact List.Subset.refl _

theorem step (hown : Ownership length (fun _ => none) q s.settled) (h : Accounted length (fun _ => none) q s)
    {a : Action} (hstep : serverStep s a = some s') : ∃ q', Accounted length (fun _ => none) q' s' := by
  cases a with
  | main => exact h.main_step hown hstep
  | worker => exact h.worker_step hstep
  | receive p isValid =>
      obtain ⟨hm, rfl⟩ := receiveStep_some hstep
      refine ⟨q, h.move h.holds rfl ?_ (by rw [hm]; rfl)⟩
      unfold State.blocks
      rw [hm]
      exact List.Subset.refl _
  | malloc a =>
      obtain ⟨-, m, rfl, hm⟩ := mallocStep_some hstep
      have hblocks : m.blocks = s.main.blocks := by
        rcases hm with ⟨p, isValid, hm, rfl⟩ | ⟨b, isValid, hm, rfl⟩ <;> rw [hm] <;> rfl
      have hfilling : m.filling? = some a ∧ s.main.filling? = none := by
        rcases hm with ⟨p, isValid, hm, rfl⟩ | ⟨b, isValid, hm, rfl⟩ <;> rw [hm] <;> exact ⟨rfl, rfl⟩
      refine ⟨q, h.holds, (h.covers.update a (by decide)).mono ?_, fun x hx => ?_⟩
      · unfold State.blocks
        rw [hblocks]
        exact List.Subset.refl _
      · by_cases hxa : x = a
        · rw [hxa]
          exact hfilling.1
        · have hsame := h.allocated x ((Function.update_of_ne hxa ..).symm.trans hx)
          rw [hfilling.2] at hsame
          cases hsame
  | spurious =>
      obtain ⟨hw, rfl⟩ := spuriousStep_some hstep
      refine ⟨q, h.move h.holds rfl ?_ rfl⟩
      unfold State.blocks
      rw [hw]
      exact List.Subset.refl _

end Accounted

/-! ### What a step frees -/

theorem freeAll_live (heap : Heap) (thread : Thread) (hs : List Addr) (x : Addr) :
    (heap.freeAll thread hs).life x = .live ↔
      heap.life x = .live ∧ x ∉ hs.flatMap fun p => [(heap.headers p).packet, p] := by
  induction hs generalizing heap with
  | nil => simp [Heap.freeAll]
  | cons p hs ih =>
      have hfree : ∀ (life : Addr → Life) (y : Addr),
          Function.update life y .released x = .live ↔ life x = .live ∧ x ≠ y := fun life y => by
        by_cases hxy : x = y
        · rw [hxy, Function.update_self]
          simp
        · rw [Function.update_of_ne hxy]
          simp [hxy]
      rw [Heap.freeAll, ih]
      simp only [Heap.free, Heap.read, hfree, List.flatMap_cons, List.mem_append, List.mem_cons, List.not_mem_nil,
        or_false, not_or, and_assoc]

/-- `freedBy` lists the live blocks that a step makes unusable. -/
theorem life_step {a : Action} (hstep : serverStep s a = some s') {x : Addr} (hx : s.heap.life x = .live) :
    s'.heap.life x = .live ↔ x ∉ s.freedBy a := by
  have hupdate : ∀ y, Function.update s.heap.life y .live x = .live := fun y => by
    by_cases hxy : x = y
    · rw [hxy, Function.update_self]
    · rwa [Function.update_of_ne hxy]
  have hrelease : ∀ y, Function.update s.heap.life y .released x = .live ↔ x ≠ y := fun y => by
    by_cases hxy : x = y
    · rw [hxy, Function.update_self]
      simp
    · rw [Function.update_of_ne hxy]
      simp [hx, hxy]
  cases a with
  | main =>
      cases mainStep_move hstep with
      | decode hm | fill hm =>
          simpa [State.freedBy, hm, Heap.read, Heap.fillPacket, Heap.fillHeader] using hupdate _
      | pushBody hm => simp [State.freedBy, hm, freeAll_live, hx]
      | lock hm | pushLock hm | pushUnlock hm | signal hm | unlock hm | readIsValid hm | printReceived hm =>
          simpa [State.freedBy, hm, Heap.read] using hx
  | worker =>
      cases workerStep_move hstep with
      | freePacket hw | freeHeader hw => simpa [State.freedBy, hw, Heap.read, Heap.free] using hrelease _
      | lock hw | reacquire hw | lengthLock hw | lengthBody hw | lengthUnlock hw | wait hw | goOn hw | pullLock hw
      | pullBody hw | pulledNone hw | pulled hw | readIsValid hw | printProcessed hw | unlock hw =>
          simpa [State.freedBy, hw, Heap.read] using hx
  | receive p isValid =>
      obtain ⟨-, rfl⟩ := receiveStep_some hstep
      simpa [State.freedBy] using hx
  | malloc a =>
      obtain ⟨hfree, m, rfl, -⟩ := mallocStep_some hstep
      have hne : x ≠ a := fun he => hfree.2 (he ▸ hx)
      simpa [State.freedBy, Heap.malloc, Function.update_of_ne hne] using hx
  | spurious =>
      obtain ⟨-, rfl⟩ := spuriousStep_some hstep
      simpa [State.freedBy] using hx

theorem Ownership.freedBy_owned (h : Ownership length (fun _ => none) q s.settled) (a : Action) :
    Owned s.heap.life (s.freedBy a) := by
  cases a with
  | main =>
      cases hm : s.main with
      | pushBody p b =>
          simp only [State.freedBy, hm]
          by_cases hfull : s.cb.Overflow
          · have hholds : Holds length (fun _ => none) s.cb q := h.holds
            obtain ⟨x, rest, rfl, -, hfreed⟩ := hholds.push_overflow hfull p
            have howned : Owned s.heap.life ([(s.heap.headers x).packet, x] ++
                (s.settled.main.blocks ++ rest.flatMap (blocksOf s.heap.headers) ++
                  s.settled.worker.blocks s.heap.headers)) := by
              refine h.owned.perm ?_
              show (s.settled.main.blocks ++ ([x, (s.heap.headers x).packet] ++
                rest.flatMap (blocksOf s.heap.headers)) ++ s.settled.worker.blocks s.heap.headers).Perm _
              refine (List.perm_append_comm_assoc _ _ _ |>.append_right _).trans ?_
              rw [List.append_assoc]
              exact (List.Perm.swap _ _ []).append_right _
            rw [hfreed]
            exact ⟨howned.nodup.of_append_left, fun y hy => howned.live y (List.mem_append_left _ hy)⟩
          · rw [freed_pushSection, h.holds.slot_none (s := s) hfull]
            exact Owned.nil
      | _ =>
          simp only [State.freedBy, hm]
          exact Owned.nil
  | worker =>
      cases hw : s.worker with
      | freePacket p =>
          simp only [State.freedBy, hw]
          have hlive := (h.live_packet (h := p) (Or.inr (by rw [State.settled, hw]; rfl))).2
          exact ⟨List.nodup_singleton _, fun y hy => List.mem_singleton.mp hy ▸ hlive⟩
      | freeHeader p =>
          simp only [State.freedBy, hw]
          have hlive := h.owned.live p (by simp [State.blocks, State.settled, hw, WorkerPc.blocks])
          exact ⟨List.nodup_singleton _, fun y hy => List.mem_singleton.mp hy ▸ hlive⟩
      | _ =>
          simp only [State.freedBy, hw]
          exact Owned.nil
  | receive | malloc | spurious => exact Owned.nil

/-! ### The results -/

theorem Holds.unique {α : Type} {content : ℕ → Option α} {cb : CircularBuffer α} {q q' : List α}
    (h : Holds length content cb q) (h' : Holds length content cb q') : q = q' :=
  List.map_injective_iff.mpr (Option.some_injective α) (h.unread_eq.symm.trans h'.unread_eq)

/-- **The invariants of all runs**: the listed blocks are owned, and they are all. -/
theorem accounted (hinit : Initial length (fun _ => none) s₀) (hrun : Reaches serverStep s₀ s) :
    ∃ q, Ownership length (fun _ => none) q s.settled ∧ Accounted length (fun _ => none) q s := by
  obtain ⟨q, hown⟩ := settled_ownership hinit hrun
  obtain ⟨q', haccounted⟩ : ∃ q, Accounted length (fun _ => none) q s := by
    refine Run.invariant (I := fun s => ∃ q, Accounted length (fun _ => none) q s) hrun ?_ fun hreach _ h hstep => ?_
    · refine ⟨[], hinit.ownership.holds, fun x hx => ?_, fun x hx => ?_⟩ <;> rw [hinit.life x] at hx <;> cases hx
    · obtain ⟨q, hown⟩ := settled_ownership hinit hreach
      obtain ⟨q', h⟩ := h
      exact Accounted.step (Holds.unique h.holds hown.holds ▸ hown) h hstep
  obtain rfl : q' = q := Holds.unique haccounted.holds hown.holds
  exact ⟨q', hown, haccounted⟩

theorem workerReadsLive (hinit : Initial length (fun _ => none) s₀) (hrun : Reaches serverStep s₀ s) :
    s.heap.WorkerReadsLive := by
  refine Run.invariant (I := fun s => s.heap.WorkerReadsLive) hrun (fun x hx => ?_) fun hreach _ h hstep => ?_
  · rw [hinit.accesses] at hx
    cases hx
  · obtain ⟨q, hown⟩ := settled_ownership hinit hreach
    exact h.step hown hstep

theorem Accounted.inUse (hown : Ownership length content q s.settled) (h : Accounted length content q s) :
    (s.inUse q).Nodup ∧ ∀ x, ¬ s.heap.isFree x ↔ x ∈ s.inUse q := by
  have howned : Owned s.heap.life (s.blocks q) := by
    have howned := hown.owned
    rwa [State.blocks, show s.settled.main.blocks = s.main.blocks from settled_blocks s.main] at howned
  have hfilling : ∀ x, s.main.filling? = some x ↔ s.heap.life x = .allocated := fun x =>
    ⟨fun hx => hown.filling x ((settled_filling? s.main).trans hx), h.allocated x⟩
  constructor
  · unfold State.inUse
    cases hx : s.main.filling? with
    | none => exact howned.nodup
    | some x =>
        refine List.nodup_cons.mpr ⟨fun hmem => ?_, howned.nodup⟩
        have hlive := howned.live x hmem
        rw [(hfilling x).mp hx] at hlive
        cases hlive
  · intro x
    have hfree : ¬ s.heap.isFree x ↔ s.heap.life x = .allocated ∨ s.heap.life x = .live := by
      unfold Heap.isFree
      tauto
    rw [hfree, ← hfilling, State.inUse, List.mem_append, Option.mem_toList]
    exact or_congr_right ⟨h.covers x, howned.live x⟩

theorem inUse_length (s : State) (q : List Addr) : (s.inUse q).length ≤ 2 * q.length + 4 := by
  have hq : (q.flatMap (blocksOf s.heap.headers)).length = 2 * q.length := by
    induction q with
    | nil => rfl
    | cons p q ih =>
        rw [List.flatMap_cons, List.length_append, ih, blocksOf, List.length_cons, List.length_cons, List.length_cons,
          List.length_nil]
        omega
  have hmain : (s.main.filling?.toList ++ s.main.blocks).length ≤ 2 := by
    cases s.main <;> simp [MainPc.filling?, MainPc.blocks]
  have hworker : (s.worker.blocks s.heap.headers).length ≤ 2 := by
    cases s.worker with
    | pullUnlock first packet => cases packet <;> simp [WorkerPc.blocks, WorkerPc.packet?, blocksOf]
    | _ => simp [WorkerPc.blocks, WorkerPc.packet?, blocksOf]
  unfold State.inUse State.blocks
  simp only [List.length_append] at hmain ⊢
  omega

/-- The heap is managed as it should be. -/
structure Custody (length : UInt32) (s : State) : Prop where
  freed_once : ∀ a s', serverStep s a = some s' → (s.freedBy a).Nodup ∧ (∀ x ∈ s.freedBy a, s.heap.life x = .live) ∧
    ∀ x, s.heap.life x = .live → (s'.heap.life x = .live ↔ x ∉ s.freedBy a)
  worker_reads : s.heap.WorkerReadsLive
  in_use : ∃ q, s.cb.unread = q.map some ∧ (s.inUse q).Nodup ∧ (∀ x, ¬ s.heap.isFree x ↔ x ∈ s.inUse q) ∧
    (s.inUse q).length ≤ 2 * length.toNat + 4

/-- **No block is lost, none is freed twice, and the worker reads live blocks only**, in every run of a server
whose slots are `NULL` at the start. -/
theorem blocks_accounted (hinit : Initial length (fun _ => none) s₀) (hrun : Reaches serverStep s₀ s) :
    Custody length s := by
  obtain ⟨q, hown, haccounted⟩ := accounted hinit hrun
  obtain ⟨hnodup, hinUse⟩ := haccounted.inUse hown
  have hle : q.length ≤ length.toNat := hown.holds.length_le
  have hlen := inUse_length s q
  refine ⟨fun a s' hstep => ?_, workerReadsLive hinit hrun, q, hown.holds.unread_eq, hnodup, hinUse, by omega⟩
  have hfreed := hown.freedBy_owned a
  exact ⟨hfreed.nodup, hfreed.live, fun x hx => life_step hstep hx⟩

/-- The worker has freed the packet whose line "Received" is still to be printed; one header is left. -/
theorem blocks_accounted_freed : ∃ s, runActions serverStep start (pushOne ++ List.replicate 11 .worker) = some s ∧
    s.freedBy .worker = [2] ∧ Custody 2 s :=
  ⟨_, rfl, rfl, blocks_accounted start_initial (run_of_runActions (pushOne ++ List.replicate 11 .worker) rfl)⟩

end OhMySockets
