import OhMySockets.Threads

/-! # Who may still read a packet

`Ownership` lists the heap blocks that somebody still uses: the packet that `main` is filling, the
packets in the buffer, and the packet that `worker` processes.  They are distinct and live, and a
packet that `main` has pushed but not yet printed is still in the buffer or with the worker.  The
invariant needs two things of every step (`Safe`): a push that is not an overflow finds `NULL` in
its slot, and the worker does not free a packet that `main` has still to print.

* `reads_live`: in a run of such steps every read of a field hits a live block;
* `received_line_reads_released`: the code does not guarantee the second condition. -/

namespace OhMySockets

open Allocation Transition

/-- The block that `main` has allocated and not yet filled in. -/
def MainPc.filling? : MainPc → Option Addr
  | .decode b _ _ => some b
  | .fill h _ _ => some h
  | _ => none

/-- The packet of `main`, once both structs are filled in. -/
def MainPc.packet? : MainPc → Option (Addr × Addr)
  | .lock h b | .pushLock h b | .pushBody h b | .pushUnlock h b | .signal h b | .unlock h b
  | .readIsValid h b | .printReceived h b _ => some (h, b)
  | _ => none

/-- The packet that `main` has pushed and not yet printed. -/
def MainPc.pushed? : MainPc → Option Addr
  | .pushUnlock h _ | .signal h _ | .unlock h _ | .readIsValid h _ | .printReceived h _ _ => some h
  | _ => none

/-- The packet that the worker has pulled. -/
def WorkerPc.packet? : WorkerPc → Option Addr
  | .pullUnlock _ packet => packet
  | .readIsValid h | .printProcessed h _ | .freePacket h => some h
  | _ => none

/-- **The condition on a step**: a push that is not an overflow finds `NULL` in its slot; the worker
frees no packet that `main` has pushed and not yet printed. -/
def Safe (s : State) : Action → Prop
  | .main => ∀ h b, s.main = .pushBody h b → s.cb.Overflow ∨ s.cb.data s.cb.pushIndex.toNat = none
  | .worker => ∀ h, s.worker = .freePacket h → s.main.pushed? ≠ some h
  | _ => True

instance (s : State) : DecidablePred (Safe s)
  | .main =>
      if hfull : s.cb.Overflow ∨ s.cb.data s.cb.pushIndex.toNat = none then isTrue fun _ _ _ => hfull
      else match hm : s.main with
        | .pushBody h b => isFalse fun hsafe => hfull (hsafe h b hm)
        | .select | .mallocPacket .. | .decode .. | .mallocHeader .. | .fill .. | .lock .. | .pushLock ..
        | .pushUnlock .. | .signal .. | .unlock .. | .readIsValid .. | .printReceived .. =>
            isTrue fun _ _ h => nomatch hm.symm.trans h
  | .worker => match hw : s.worker with
      | .freePacket h =>
          if hpushed : s.main.pushed? = some h then isFalse fun hsafe => hsafe h hw hpushed
          else isTrue fun h' hw' hpushed' => by
            cases hw.symm.trans hw'
            exact hpushed hpushed'
      | .lock | .lengthLock | .lengthBody | .lengthUnlock .. | .check .. | .waiting | .reacquire | .pullLock ..
      | .pullBody .. | .pullUnlock .. | .readIsValid .. | .printProcessed .. | .freeHeader .. | .unlock =>
          isTrue fun _ h => nomatch hw.symm.trans h
  | .receive .. | .malloc _ | .spurious => isTrue trivial

/-! ### The blocks in use -/

/-- The two blocks of a packet. -/
def blocksOf (headers : Addr → PacketWithValidation) (h : Addr) : List Addr := [h, (headers h).packet]

/-- The blocks of `main` that are filled in and not yet pushed. -/
def MainPc.blocks : MainPc → List Addr
  | .mallocHeader b _ | .fill _ b _ => [b]
  | .lock h b | .pushLock h b | .pushBody h b => [h, b]
  | _ => []

/-- The blocks of the worker. -/
def WorkerPc.blocks (headers : Addr → PacketWithValidation) : WorkerPc → List Addr
  | .freeHeader h => [h]
  | w => w.packet?.toList.flatMap (blocksOf headers)

theorem wake_packet? (w : WorkerPc) : w.wake.packet? = w.packet? := by
  cases w <;> rfl

theorem wake_blocks (headers : Addr → PacketWithValidation) (w : WorkerPc) :
    w.wake.blocks headers = w.blocks headers := by
  cases w <;> rfl

/-- All blocks in use when the packets `q` are unread. -/
def State.blocks (s : State) (q : List Addr) : List Addr :=
  s.main.blocks ++ q.flatMap (blocksOf s.heap.headers) ++ s.worker.blocks s.heap.headers

/-- All reads so far hit live blocks. -/
def Heap.ReadsLive (heap : Heap) : Prop := ∀ a ∈ heap.accesses, a.life = .live

theorem Heap.ReadsLive.read {heap : Heap} (h : heap.ReadsLive) {a : Addr} (ha : heap.life a = .live)
    (thread : Thread) : (heap.read thread a).ReadsLive := by
  intro x hx
  rcases List.mem_append.mp hx with hx | hx
  · exact h x hx
  · obtain rfl := List.mem_singleton.mp hx
    exact ha

/-- **The invariant.** -/
structure Ownership (length : UInt32) (content : ℕ → Option Addr) (q : List Addr) (s : State) : Prop where
  holds : Holds length content s.cb q
  owned : Owned s.heap.life (s.blocks q)
  filling : ∀ x, s.main.filling? = some x → s.heap.life x = .allocated
  header : ∀ h b, s.main.packet? = some (h, b) → (s.heap.headers h).packet = b
  pushed : ∀ h, s.main.pushed? = some h → h ∈ q ∨ s.worker.packet? = some h
  reads : s.heap.ReadsLive

namespace Ownership

variable {length : UInt32} {content : ℕ → Option Addr} {q : List Addr} {s s' : State}

theorem mem_blocks {h : Addr} (hin : h ∈ q ∨ s.worker.packet? = some h) :
    h ∈ s.blocks q ∧ (s.heap.headers h).packet ∈ s.blocks q := by
  unfold State.blocks
  rcases hin with hq | hw
  · constructor <;> refine List.mem_append_left _ (List.mem_append_right _ (List.mem_flatMap.mpr ⟨h, hq, ?_⟩)) <;>
      simp [blocksOf]
  · have hblocks : s.worker.blocks s.heap.headers = blocksOf s.heap.headers h := by
      cases hworker : s.worker <;> simp_all [WorkerPc.packet?, WorkerPc.blocks]
    rw [hblocks]
    constructor <;> exact List.mem_append_right _ (by simp [blocksOf])

theorem live_packet (hown : Ownership length content q s) {h : Addr}
    (hin : h ∈ q ∨ s.worker.packet? = some h) :
    s.heap.life h = .live ∧ s.heap.life (s.heap.headers h).packet = .live :=
  ⟨hown.owned.live _ (mem_blocks hin).1, hown.owned.live _ (mem_blocks hin).2⟩

theorem move (hown : Ownership length content q s) (hcb : s'.cb = s.cb)
    (hlife : s'.heap.life = s.heap.life) (hheaders : s'.heap.headers = s.heap.headers)
    (hmain : s'.main.blocks = s.main.blocks)
    (hworker : s'.worker.blocks s.heap.headers = s.worker.blocks s.heap.headers)
    (hfilling : ∀ x, s'.main.filling? = some x → s.main.filling? = some x)
    (hpacket : ∀ x, s'.main.packet? = some x → s.main.packet? = some x)
    (hpushed : ∀ x, s'.main.pushed? = some x → s.main.pushed? = some x)
    (hpulled : s'.worker.packet? = s.worker.packet?)
    (hreads : s'.heap.ReadsLive) : Ownership length content q s' where
  holds := hcb ▸ hown.holds
  owned := by
    rw [hlife, State.blocks, hheaders, hmain, hworker]
    exact hown.owned
  filling := fun x hx => hlife ▸ hown.filling x (hfilling x hx)
  header := fun h b hx => hheaders ▸ hown.header h b (hpacket _ hx)
  pushed := fun h hx => hpulled ▸ hown.pushed h (hpushed h hx)
  reads := hreads

theorem flatMap_blocksOf_concat {headers : Addr → PacketWithValidation} {h b : Addr}
    (hheader : (headers h).packet = b) :
    (q ++ [h]).flatMap (blocksOf headers) = q.flatMap (blocksOf headers) ++ [h, b] := by
  rw [List.flatMap_append, List.flatMap_singleton, blocksOf, hheader]

theorem blocks_update {headers : Addr → PacketWithValidation} {w : WorkerPc} {h : Addr}
    {x : PacketWithValidation} (hne : ∀ p, p ∈ q ∨ w.packet? = some p → p ≠ h) :
    q.flatMap (blocksOf (Function.update headers h x)) = q.flatMap (blocksOf headers) ∧
      w.blocks (Function.update headers h x) = w.blocks headers := by
  have hblocks : ∀ p, p ∈ q ∨ w.packet? = some p →
      blocksOf (Function.update headers h x) p = blocksOf headers p := fun p hp => by
    unfold blocksOf
    rw [Function.update_of_ne (hne p hp)]
  constructor
  · exact List.flatMap_congr fun p hp => hblocks p (Or.inl hp)
  · cases w with
    | pullUnlock first packet =>
        cases packet with
        | none => rfl
        | some p => exact congrArg (· ++ []) (hblocks p (Or.inr rfl))
    | readIsValid p | printProcessed p | freePacket p => exact congrArg (· ++ []) (hblocks p (Or.inr rfl))
    | _ => rfl

theorem fill_step {h b : Addr} {isValid : Bool} (hown : Ownership length content q s)
    (hm : s.main = .fill h b isValid) : Ownership length content q
      { s with heap := (s.heap.read .main b).fillHeader h b isValid, main := .lock h b } := by
  have hb : s.heap.life b = .live := hown.owned.live b (by simp [State.blocks, hm, MainPc.blocks])
  have hh : s.heap.life h ≠ .live := by rw [hown.filling h (by rw [hm]; rfl)]; decide
  have hcons := hown.owned.cons hh
  obtain ⟨hq, hw⟩ := blocks_update (h := h) (x := ⟨b, isValid⟩)
    fun p hp he => hh (he ▸ (hown.live_packet hp).1)
  refine ⟨hown.holds, ?_, fun x hx => (nomatch hx), fun x y hx => ?_, fun x hx => (nomatch hx),
    hown.reads.read hb .main⟩
  · unfold State.blocks at hcons
    rw [hm] at hcons
    show Owned _ ([h, b] ++ q.flatMap (blocksOf (Function.update s.heap.headers h ⟨b, isValid⟩)) ++
      s.worker.blocks (Function.update s.heap.headers h ⟨b, isValid⟩))
    rw [hq, hw]
    exact hcons
  · cases hx
    show (Function.update s.heap.headers h ⟨b, isValid⟩ h).packet = b
    rw [Function.update_self]

theorem push_step {h b : Addr} (hown : Ownership length content q s) (hm : s.main = .pushBody h b)
    (hsafe : s.cb.Overflow ∨ s.cb.data s.cb.pushIndex.toNat = none) :
    ∃ q', Ownership length content q' { s with
      cb := (pushSection s.cb (some h)).cb
      heap := s.heap.freeAll .main (freed (pushSection s.cb (some h)).effects)
      main := .pushUnlock h b } := by
  have hheader := hown.header h b (by rw [hm]; rfl)
  have howned := hown.owned
  unfold State.blocks at howned
  rw [hm] at howned
  by_cases hfull : s.cb.Overflow
  · obtain ⟨p, rest, rfl, hholds, hfreed⟩ := hown.holds.push_overflow hfull h
    have hp : s.heap.life p = .live := (hown.live_packet (Or.inl List.mem_cons_self)).1
    rw [hfreed]
    refine ⟨rest ++ [h], hholds, ?_, fun x hx => (nomatch hx), fun x y hx => ?_,
      fun x hx => Or.inl ?_, hown.reads.read hp .main⟩
    · refine Owned.free_both (howned.perm ?_)
      show ([h, b] ++ ([p, (s.heap.headers p).packet] ++ rest.flatMap (blocksOf s.heap.headers)) ++
          s.worker.blocks s.heap.headers).Perm
        ([p, (s.heap.headers p).packet] ++ ((rest ++ [h]).flatMap (blocksOf s.heap.headers) ++
          s.worker.blocks s.heap.headers))
      rw [flatMap_blocksOf_concat hheader]
      refine (List.perm_append_comm.append_right _).trans (.of_eq ?_)
      simp only [List.append_assoc]
    · cases hx
      exact hheader
    · cases hx
      simp
  · have hfreed : freed (pushSection s.cb (some h)).effects = [] := by
      rw [freed_pushSection, hsafe.resolve_left hfull]
      rfl
    rw [hfreed]
    refine ⟨q ++ [h], hown.holds.push_room hfull h, ?_, fun x hx => (nomatch hx), fun x y hx => ?_,
      fun x hx => Or.inl ?_, hown.reads⟩
    · apply howned.perm
      show ([h, b] ++ q.flatMap (blocksOf s.heap.headers) ++ s.worker.blocks s.heap.headers).Perm
        ((q ++ [h]).flatMap (blocksOf s.heap.headers) ++ s.worker.blocks s.heap.headers)
      rw [flatMap_blocksOf_concat hheader]
      exact List.perm_append_comm.append_right _
    · cases hx
      exact hheader
    · cases hx
      simp

theorem main_step (hown : Ownership length content q s) (hsafe : Safe s .main)
    (hstep : mainStep s = some s') : ∃ q', Ownership length content q' s' := by
  obtain ⟨hholds, howned, hfilling, hheader, hpushed, hreads⟩ := id hown
  cases mainStep_move hstep with
  | @decode b p isValid hm =>
      have hb : s.heap.life b ≠ .live := by rw [hfilling b (by rw [hm]; rfl)]; decide
      have hfilled : (s.heap.fillPacket b p).ReadsLive := hreads
      refine ⟨q, hholds, ?_, fun x h => (nomatch h), fun h b h => (nomatch h), fun h h => (nomatch h),
        hfilled.read (Function.update_self ..) .main⟩
      have hcons := howned.cons hb
      rwa [State.blocks, hm] at hcons
  | fill hm => exact ⟨q, hown.fill_step hm⟩
  | lock hm | pushLock hm =>
      exact ⟨q, hown.move rfl rfl rfl (hm ▸ rfl) rfl (fun x h => (nomatch h)) (fun x h => hm ▸ h)
        (fun x h => (nomatch h)) rfl hreads⟩
  | pushBody hm => exact hown.push_step hm (hsafe _ _ hm)
  | pushUnlock hm | unlock hm =>
      exact ⟨q, hown.move rfl rfl rfl (hm ▸ rfl) rfl (fun x h => (nomatch h)) (fun x h => hm ▸ h)
        (fun x h => hm ▸ h) rfl hreads⟩
  | signal hm =>
      exact ⟨q, hown.move rfl rfl rfl (hm ▸ rfl) (wake_blocks _ _) (fun x h => (nomatch h))
        (fun x h => hm ▸ h) (fun x h => hm ▸ h) (wake_packet? _) hreads⟩
  | readIsValid hm =>
      have hh := (hown.live_packet (hpushed _ (by rw [hm]; rfl))).1
      exact ⟨q, hown.move rfl rfl rfl (hm ▸ rfl) rfl (fun x h => (nomatch h)) (fun x h => hm ▸ h)
        (fun x h => hm ▸ h) rfl (hreads.read hh .main)⟩
  | @printReceived h b isValid hm =>
      have hb := (hown.live_packet (hpushed h (by rw [hm]; rfl))).2
      rw [hheader h b (by rw [hm]; rfl)] at hb
      exact ⟨q, hown.move rfl rfl rfl (hm ▸ rfl) rfl (fun x h => (nomatch h)) (fun x h => (nomatch h))
        (fun x h => (nomatch h)) rfl ((hreads.read hb .main).read hb .main)⟩

/-- Freeing a live block is not freeing what `main` is filling in. -/
theorem filling_free (hown : Ownership length content q s) {y : Addr} (hy : s.heap.life y = .live) (x : Addr)
    (hx : s.main.filling? = some x) : Function.update s.heap.life y .released x = .allocated := by
  have hallocated := hown.filling x hx
  have hne : x ≠ y := fun he => by
    rw [he, hy] at hallocated
    cases hallocated
  rw [Function.update_of_ne hne, hallocated]

theorem pull_step {first : Bool} (hown : Ownership length content q s) (hw : s.worker = .pullBody first) :
    ∃ q', Ownership length content q' { s with
      cb := (pullSection s.cb).cb, worker := .pullUnlock first (pullSection s.cb).ret } := by
  have hret : (pullSection s.cb).ret = q.head? := Ret.pull.inj hown.holds.pull_ret
  have hholds := hown.holds.step .pull
  have howned := hown.owned
  have hpushed := hown.pushed
  unfold State.blocks at howned
  rw [hw] at howned
  rw [hw] at hpushed
  rw [hret]
  cases q with
  | nil => exact ⟨[], hholds, howned, hown.filling, hown.header, hpushed, hown.reads⟩
  | cons p rest =>
      refine ⟨rest, hholds, howned.perm ?_, hown.filling, hown.header, fun h hh => ?_, hown.reads⟩
      · show (s.main.blocks ++ (blocksOf s.heap.headers p ++ rest.flatMap (blocksOf s.heap.headers)) ++ []).Perm
          (s.main.blocks ++ rest.flatMap (blocksOf s.heap.headers) ++ (blocksOf s.heap.headers p ++ []))
        rw [List.append_nil, List.append_nil, List.append_assoc]
        exact List.perm_append_comm.append_left _
      · rcases hpushed h hh with hin | hin
        · rcases List.mem_cons.mp hin with rfl | hin
          · exact Or.inr rfl
          · exact Or.inl hin
        · cases hin

/-- `free(packet->packet)`: `main` does not wait for this packet. -/
theorem freePacket_step {h : Addr} (hown : Ownership length content q s) (hw : s.worker = .freePacket h)
    (hsafe : s.main.pushed? ≠ some h) : Ownership length content q { s with
      heap := (s.heap.read .worker h).free (s.heap.headers h).packet, worker := .freeHeader h } := by
  obtain ⟨hh, hb⟩ := hown.live_packet (h := h) (Or.inr (by rw [hw]; rfl))
  have howned := hown.owned
  unfold State.blocks at howned
  rw [hw] at howned
  refine ⟨hown.holds, ?_, fun x hx => ?_, hown.header, fun x hx => ?_, hown.reads.read hh .worker⟩
  · refine Owned.free (howned.perm ?_)
    show (s.main.blocks ++ q.flatMap (blocksOf s.heap.headers) ++ [h, (s.heap.headers h).packet]).Perm
      ((s.heap.headers h).packet :: (s.main.blocks ++ q.flatMap (blocksOf s.heap.headers) ++ [h]))
    rw [List.append_cons]
    exact List.perm_append_comm
  · exact hown.filling_free hb x hx
  · apply (hown.pushed x hx).imp_right
    intro hin
    rw [hw] at hin
    exact absurd (hx.trans hin.symm) hsafe

theorem freeHeader_step {h : Addr} (hown : Ownership length content q s) (hw : s.worker = .freeHeader h) :
    Ownership length content q { s with heap := s.heap.free h, worker := .pullLock false } := by
  have howned := hown.owned
  unfold State.blocks at howned
  rw [hw] at howned
  have hh : s.heap.life h = .live := howned.live h (by simp [WorkerPc.blocks])
  refine ⟨hown.holds, Owned.free (howned.perm ?_), hown.filling_free hh, hown.header, fun x hx => ?_,
    hown.reads⟩
  · show (s.main.blocks ++ q.flatMap (blocksOf s.heap.headers) ++ [h]).Perm
      (h :: (s.main.blocks ++ q.flatMap (blocksOf s.heap.headers) ++ []))
    rw [List.append_nil]
    exact List.perm_append_comm
  · apply (hown.pushed x hx).imp_right
    intro hin
    rw [hw] at hin
    cases hin

theorem worker_step (hown : Ownership length content q s) (hsafe : Safe s .worker)
    (hstep : workerStep s = some s') : ∃ q', Ownership length content q' s' := by
  have hreads := hown.reads
  cases workerStep_move hstep with
  | pullBody hw => exact hown.pull_step hw
  | @readIsValid h hw =>
      have hh := (hown.live_packet (h := h) (Or.inr (by rw [hw]; rfl))).1
      exact ⟨q, hown.move rfl rfl rfl rfl (hw ▸ rfl) (fun x h => h) (fun x h => h) (fun x h => h)
        (hw ▸ rfl) (hreads.read hh .worker)⟩
  | @printProcessed h b isValid hw hpacket =>
      obtain ⟨hh, hb⟩ := hown.live_packet (h := h) (Or.inr (by rw [hw]; rfl))
      rw [← hpacket] at hb
      exact ⟨q, hown.move rfl rfl rfl rfl (hw ▸ rfl) (fun x h => h) (fun x h => h) (fun x h => h)
        (hw ▸ rfl) ((((hreads.read hh .worker).read hb .worker).read hh .worker).read hb .worker)⟩
  | freePacket hw => exact ⟨q, hown.freePacket_step hw (hsafe _ hw)⟩
  | freeHeader hw => exact ⟨q, hown.freeHeader_step hw⟩
  | lock hw | reacquire hw | lengthLock hw | lengthBody hw | lengthUnlock hw | wait hw | goOn hw | pullLock hw
  | pulledNone hw | pulled hw | unlock hw =>
      exact ⟨q, hown.move rfl rfl rfl rfl (hw ▸ rfl) (fun x h => h) (fun x h => h) (fun x h => h)
        (hw ▸ rfl) hreads⟩

theorem malloc_step {a : Addr} (hown : Ownership length content q s) (hfree : s.heap.isFree a) {m : MainPc}
    (hblocks : m.blocks = s.main.blocks) (hfilling : m.filling? = some a) (hpacket : m.packet? = none)
    (hpushed : m.pushed? = none) :
    Ownership length content q { s with heap := s.heap.malloc a, main := m } := by
  refine ⟨hown.holds, ?_, fun x hx => ?_, fun h b hx => ?_, fun x hx => ?_, hown.reads⟩
  · have howned := hown.owned.of_not_live hfree.2 .allocated
    rwa [State.blocks, ← hblocks] at howned
  · rw [hfilling] at hx
    cases hx
    exact Function.update_self ..
  · rw [hpacket] at hx
    cases hx
  · rw [hpushed] at hx
    cases hx

theorem step (hown : Ownership length content q s) {a : Action} (hsafe : Safe s a)
    (hstep : serverStep s a = some s') : ∃ q', Ownership length content q' s' := by
  cases a with
  | main => exact hown.main_step hsafe hstep
  | worker => exact hown.worker_step hsafe hstep
  | receive p isValid =>
      obtain ⟨hm, rfl⟩ := receiveStep_some hstep
      exact ⟨q, hown.move rfl rfl rfl (hm ▸ rfl) rfl (fun x h => (nomatch h)) (fun x h => (nomatch h))
        (fun x h => (nomatch h)) rfl hown.reads⟩
  | malloc a =>
      obtain ⟨hfree, m, rfl, hm⟩ := mallocStep_some hstep
      rcases hm with ⟨p, isValid, hm, rfl⟩ | ⟨b, isValid, hm, rfl⟩
      · exact ⟨q, hown.malloc_step hfree (hm ▸ rfl) rfl rfl rfl⟩
      · exact ⟨q, hown.malloc_step hfree (hm ▸ rfl) rfl rfl rfl⟩
  | spurious =>
      obtain ⟨hw, rfl⟩ := spuriousStep_some hstep
      exact ⟨q, hown.move rfl rfl rfl rfl (hw ▸ rfl) (fun x h => h) (fun x h => h) (fun x h => h)
        (hw ▸ rfl) hown.reads⟩

end Ownership

/-! ### All runs of safe steps -/

section runs

variable {length : UInt32} {content : ℕ → Option Addr} {s₀ s : State}

theorem Initial.ownership (h : Initial length content s) : Ownership length content [] s where
  holds := holds_create h.created
  owned := by
    unfold State.blocks
    rw [h.main, h.worker]
    exact Owned.nil
  filling := fun x hx => by rw [h.main] at hx; cases hx
  header := fun a b hx => by rw [h.main] at hx; cases hx
  pushed := fun x hx => by rw [h.main] at hx; cases hx
  reads := fun a ha => by rw [h.accesses] at ha; cases ha

/-- **In a run of safe steps every read of a field hits a live block.** -/
theorem reads_live (hinit : Initial length content s₀) (hrun : Run serverStep Safe s₀ s) :
    s.heap.ReadsLive := by
  obtain ⟨q, hown⟩ : ∃ q, Ownership length content q s := by
    refine Run.invariant (I := fun s => ∃ q, Ownership length content q s) hrun ⟨[], hinit.ownership⟩
      fun _ hsafe h hstep => ?_
    obtain ⟨q, hown⟩ := h
    exact hown.step hsafe hstep
  exact hown.reads

end runs

theorem zeroDigest_length : (List.replicate 16 (0 : UInt8)).length = networkPacketMd5Size := rfl

/-- `main` receives a packet, allocates the blocks 1 and 2 for it and pushes it. -/
def pushOne : List Action :=
  [.receive (zeroPacket (List.replicate 16 0) zeroDigest_length) true, .malloc 1, .main, .malloc 2] ++
    List.replicate 7 .main

/-- `main` prints the line "Received" before the worker prints the line "Processed" and frees the packet. -/
theorem reads_live_in_turn : ∃ s,
    runActions serverStep start (pushOne ++ List.replicate 2 .main ++ List.replicate 12 .worker) = some s ∧
      s.printed.length = 2 ∧ s.heap.accesses.length = 11 ∧ s.heap.life 1 = .released ∧ s.heap.life 2 = .released ∧
      s.heap.ReadsLive := by
  obtain ⟨s, hrun, hchecked, hprinted, hreads, hpacket, hheader⟩ : ∃ s,
      runActions serverStep start (pushOne ++ List.replicate 2 .main ++ List.replicate 12 .worker) = some s ∧
      runChecked serverStep Safe start (pushOne ++ List.replicate 2 .main ++ List.replicate 12 .worker) = some s ∧
      s.printed.length = 2 ∧ s.heap.accesses.length = 11 ∧ s.heap.life 1 = .released ∧ s.heap.life 2 = .released :=
    ⟨_, rfl, rfl, rfl, rfl, rfl, rfl⟩
  exact ⟨s, hrun, hprinted, hreads, hpacket, hheader, reads_live start_initial (run_of_runChecked _ hchecked)⟩

/-- The worker drains and frees the packet before `main` prints the line "Received", which then
reads a released block. -/
theorem received_line_reads_released : ∃ s, Reaches serverStep start s ∧
    ⟨.main, 2, .released⟩ ∈ s.heap.accesses ∧ ¬ s.heap.ReadsLive := by
  have hrun : ∃ s, runActions serverStep start (pushOne ++ List.replicate 12 .worker ++ [.main]) = some s ∧
      ⟨.main, 2, .released⟩ ∈ s.heap.accesses := ⟨_, rfl, by decide⟩
  obtain ⟨s, hs, hmem⟩ := hrun
  refine ⟨s, run_of_runActions _ hs, hmem, fun hlive => ?_⟩
  cases hlive _ hmem

end OhMySockets
