import OhMySockets.ThreadsCustody

/-! # What becomes of a received packet

The server as a whole is a drop-oldest queue.  `Logged` relates a run to a run of `DropQueue`: `main` pushes the
packets that it has received with their verdicts, in order, and the lines "Processed" are what the worker pulls.

* `serverLog`: the invariant of all runs;
* `processed_in_order`: the lines "Processed" tell of received packets, with their numbers, times and verdicts,
  in the order of arrival, each at most once; the packets that are not accounted for in this way are in the
  buffer, with a thread, or lost, and one is lost for each push onto a full buffer;
* `newest_kept`: a packet is lost only when as many others as there are slots have been pushed after it. -/

namespace OhMySockets

open Allocation Transition
open DropQueue (Op pushes pulled contents dropped)

/-- A received packet and its verdict. -/
abbrev Arrival := Packet × Bool

/-- The packet of a frame that `main` has received. -/
def Action.arrival? : Action → Option Arrival
  | .receive p isValid => some (p, isValid)
  | _ => none

/-- The packets that `main` has received, in order. -/
def arrivals (actions : List Action) : List Arrival := actions.filterMap Action.arrival?

/-- The step pushes onto a full buffer. -/
def State.pushesFull (s : State) : Action → Bool
  | .main =>
      match s.main with
      | .pushBody .. => decide s.cb.Overflow
      | _ => false
  | _ => false

/-- The number of pushes onto a full buffer. -/
def overflows (s : State) : List Action → ℕ
  | [] => 0
  | a :: actions => (s.pushesFull a).toNat +
      match serverStep s a with
      | some t => overflows t actions
      | none => 0

/-- A printed line. -/
inductive Line where
  | received (arrival : Arrival)
  | processed (arrival : Arrival)

/-- The text of a line. -/
def Line.text : Line → String
  | .received arrival => line "Received" arrival.1 arrival.2
  | .processed arrival => line "Processed" arrival.1 arrival.2

/-- What a line "Processed" tells of. -/
def Line.processed? : Line → Option Arrival
  | .received _ => none
  | .processed arrival => some arrival

/-- What the lines "Processed" tell of, in order. -/
def processed (lines : List Line) : List Arrival := lines.filterMap Line.processed?

/-- The packet in the buffer whose header is at `h`. -/
def Heap.arrival (heap : Heap) (h : Addr) : Arrival := (heap.packets (heap.headers h).packet, (heap.headers h).isValid)

/-- The packet that `main` has received and not yet pushed. -/
def MainPc.pending (heap : Heap) : MainPc → List Arrival
  | .mallocPacket p isValid | .decode _ p isValid => [(p, isValid)]
  | .mallocHeader b isValid | .fill _ b isValid => [(heap.packets b, isValid)]
  | .lock h _ | .pushLock h _ | .pushBody h _ => [heap.arrival h]
  | _ => []

/-- The packet that the worker has pulled and not yet printed. -/
def WorkerPc.inHand (heap : Heap) : WorkerPc → List Arrival
  | .pullUnlock _ packet => packet.toList.map heap.arrival
  | .readIsValid h => [heap.arrival h]
  | .printProcessed h isValid => [((heap.arrival h).1, isValid)]
  | _ => []

/-- The run of the queue, and the lines so far. -/
structure Log where
  ops : List (Op Arrival)
  lines : List Line

/-- The history of a run: the lines `before` it, what has arrived, the number of packets lost, the unread packets. -/
structure Logged (cap : ℕ) (before : List String) (arrived : List Arrival) (lost : ℕ) (q : List Addr) (g : Log)
    (s : State) : Prop where
  printed : s.printed = before ++ g.lines.map Line.text
  pushed : arrived = pushes g.ops ++ s.main.pending s.heap
  unread : contents cap g.ops = q.map s.heap.arrival
  pulled : pulled cap g.ops = processed g.lines ++ s.worker.inHand s.heap
  lost : (dropped cap g.ops).length = lost

variable {length : UInt32} {cap lost : ℕ} {before : List String} {arrived : List Arrival} {q : List Addr} {g : Log}
  {s s' : State} {actions : List Action}

/-! ### Lists of actions -/

theorem arrivals_concat (actions : List Action) (a : Action) :
    arrivals (actions ++ [a]) = arrivals actions ++ a.arrival?.toList := by
  unfold arrivals
  rw [List.filterMap_append]
  cases a <;> rfl

theorem overflows_concat {t : State} (h : runActions serverStep s actions = some t) (a : Action) :
    overflows s (actions ++ [a]) = overflows s actions + (t.pushesFull a).toNat := by
  induction actions generalizing s with
  | nil =>
      obtain rfl := Option.some.inj h
      show (s.pushesFull a).toNat + (match serverStep s a with | some u => overflows u [] | none => 0) = _
      cases serverStep s a <;> simp [overflows]
  | cons b actions ih =>
      obtain ⟨u, hu, ht⟩ := Option.bind_eq_some_iff.mp h
      have hlast := ih ht
      show (s.pushesFull b).toNat +
          (match serverStep s b with | some u => overflows u (actions ++ [a]) | none => 0) =
        (s.pushesFull b).toNat + (match serverStep s b with | some u => overflows u actions | none => 0) + _
      rw [hu]
      show _ + overflows u (actions ++ [a]) = _ + overflows u actions + _
      rw [hlast, Nat.add_assoc]

/-! ### Steps -/

theorem inHand_congr {w : WorkerPc} {heap heap' : Heap}
    (h : ∀ p, w.packet? = some p → heap'.arrival p = heap.arrival p) :
    w.inHand heap' = w.inHand heap := by
  cases w with
  | pullUnlock first packet =>
      cases packet with
      | none => rfl
      | some p => exact congrArg (fun x => [x]) (h p rfl)
  | readIsValid p => exact congrArg (fun x => [x]) (h p rfl)
  | printProcessed p isValid => exact congrArg (fun x : Arrival => [(x.1, isValid)]) (h p rfl)
  | _ => rfl

theorem arrival_freeAll (heap : Heap) (thread : Thread) (hs : List Addr) (p : Addr) :
    (heap.freeAll thread hs).arrival p = heap.arrival p := by
  induction hs generalizing heap with
  | nil => rfl
  | cons h hs ih => exact ih _

theorem wake_inHand (heap : Heap) (w : WorkerPc) : w.wake.inHand heap = w.inHand heap := by
  cases w <;> rfl

namespace Logged

theorem move (h : Logged cap before arrived lost q g s) (hprinted : s'.printed = s.printed)
    (hpending : s'.main.pending s'.heap = s.main.pending s.heap)
    (hunread : ∀ p ∈ q, s'.heap.arrival p = s.heap.arrival p)
    (hinHand : s'.worker.inHand s'.heap = s.worker.inHand s.heap) : Logged cap before arrived lost q g s' where
  printed := hprinted ▸ h.printed
  pushed := hpending ▸ h.pushed
  unread := h.unread.trans (List.map_congr_left hunread).symm
  pulled := hinHand ▸ h.pulled
  lost := h.lost

/-- What `main` fills in is no packet in the buffer or with the worker. -/
theorem fills (h : Logged cap before arrived lost q g s) {heap : Heap} {m : MainPc}
    (hkept : ∀ p, p ∈ q ∨ s.worker.packet? = some p → heap.arrival p = s.heap.arrival p)
    (hpending : m.pending heap = s.main.pending s.heap) :
    Logged cap before arrived lost q g { s with heap := heap, main := m } :=
  h.move rfl hpending (fun p hp => hkept p (Or.inl hp)) (inHand_congr fun p hp => hkept p (Or.inr hp))

theorem decode_step {b : Addr} {p : Packet} {isValid : Bool} (hown : Ownership length (fun _ => none) q s.settled)
    (h : Logged cap before arrived lost q g s) (hm : s.main = .decode b p isValid) : Logged cap before arrived lost q g
      { s with heap := (s.heap.fillPacket b p).read .main b, main := .mallocHeader b isValid } := by
  have hb : s.heap.life b = .allocated :=
    hown.filling b (by simp [State.settled, hm, MainPc.settled, MainPc.filling?])
  apply h.fills
  · intro x hx
    have hlive : s.heap.life (s.heap.headers x).packet = .live := (hown.live_packet hx).2
    have hne : (s.heap.headers x).packet ≠ b := fun he => by
      rw [he, hb] at hlive
      cases hlive
    show (Function.update s.heap.packets b p (s.heap.headers x).packet, _) = _
    rw [Function.update_of_ne hne]
    rfl
  · rw [hm]
    show [(Function.update s.heap.packets b p b, isValid)] = [(p, isValid)]
    rw [Function.update_self]

theorem fill_step {x b : Addr} {isValid : Bool} (hown : Ownership length (fun _ => none) q s.settled)
    (h : Logged cap before arrived lost q g s) (hm : s.main = .fill x b isValid) : Logged cap before arrived lost q g
      { s with heap := (s.heap.read .main b).fillHeader x b isValid, main := .lock x b } := by
  have hx : s.heap.life x = .allocated :=
    hown.filling x (by simp [State.settled, hm, MainPc.settled, MainPc.filling?])
  apply h.fills
  · intro p hp
    have hlive : s.heap.life p = .live := (hown.live_packet hp).1
    have hne : p ≠ x := fun he => by
      rw [he, hx] at hlive
      cases hlive
    show (s.heap.packets (Function.update s.heap.headers x ⟨b, isValid⟩ p).packet,
      (Function.update s.heap.headers x ⟨b, isValid⟩ p).isValid) = _
    rw [Function.update_of_ne hne]
    rfl
  · rw [hm]
    show [(s.heap.packets (Function.update s.heap.headers x ⟨b, isValid⟩ x).packet,
      (Function.update s.heap.headers x ⟨b, isValid⟩ x).isValid)] = [(s.heap.packets b, isValid)]
    rw [Function.update_self]

theorem push_step {x b : Addr} (hown : Ownership length (fun _ => none) q s.settled)
    (h : Logged length.toNat before arrived lost q g s) (hm : s.main = .pushBody x b) :
    ∃ g', Logged length.toNat before arrived (lost + (decide s.cb.Overflow).toNat)
      (DropQueue.push length.toNat q x).1 g' { s with
        cb := (pushSection s.cb (some x)).cb
        heap := s.heap.freeAll .main (freed (pushSection s.cb (some x)).effects)
        main := .pushUnlock x b } := by
  have hmap : DropQueue.push length.toNat (q.map s.heap.arrival) (s.heap.arrival x) =
      ((DropQueue.push length.toNat q x).1.map s.heap.arrival,
        (DropQueue.push length.toNat q x).2.map s.heap.arrival) :=
    DropQueue.push_map s.heap.arrival q x
  have harrival := arrival_freeAll s.heap .main (freed (pushSection s.cb (some x)).effects)
  have hinHand := inHand_congr (w := s.worker) fun p _ => harrival p
  refine ⟨⟨g.ops ++ [.push (s.heap.arrival x)], g.lines⟩, h.printed, ?_, ?_, ?_, ?_⟩
  · have hpushed := h.pushed
    rw [hm] at hpushed
    rw [DropQueue.pushes_append, hpushed]
    exact (List.append_nil _).symm
  · rw [DropQueue.contents_concat, h.unread, List.map_congr_left fun p _ => harrival p]
    exact congrArg Prod.fst hmap
  · rw [DropQueue.pulled_concat, hinHand, ← h.pulled]
    exact List.append_nil _
  · have hoverwrites : decide s.cb.Overflow = (DropQueue.push length.toNat q x).2.isSome :=
      hown.holds.overwrites_eq (.push x)
    rw [DropQueue.dropped_concat, List.length_append, h.lost, h.unread, hoverwrites]
    show lost + (DropQueue.push length.toNat (q.map s.heap.arrival) (s.heap.arrival x)).2.toList.length = _
    rw [hmap]
    cases (DropQueue.push length.toNat q x).2 <;> rfl

theorem pull_step {first : Bool} (hown : Ownership length (fun _ => none) q s.settled)
    (h : Logged length.toNat before arrived lost q g s) (hw : s.worker = .pullBody first) :
    ∃ g', Logged length.toNat before arrived lost q.tail g' { s with
      cb := (pullSection s.cb).cb, worker := .pullUnlock first (pullSection s.cb).ret } := by
  have hret : (pullSection s.cb).ret = q.head? := Ret.pull.inj hown.holds.pull_ret
  have hpulled := h.pulled
  rw [hw] at hpulled
  refine ⟨⟨g.ops ++ [.pull], g.lines⟩, h.printed, ?_, ?_, ?_, ?_⟩
  · rw [h.pushed, DropQueue.pushes_append]
    simp
  · rw [DropQueue.contents_concat, h.unread]
    exact List.map_tail.symm
  · rw [DropQueue.pulled_concat, hpulled, h.unread, hret]
    show processed g.lines ++ [] ++ (q.map s.heap.arrival).head?.toList =
      processed g.lines ++ q.head?.toList.map s.heap.arrival
    cases q <;> simp
  · rw [DropQueue.dropped_concat, List.length_append, h.lost]
    rfl

theorem main_step (hown : Ownership length (fun _ => none) q s.settled)
    (h : Logged length.toNat before arrived lost q g s) (hstep : mainStep s = some s') :
    ∃ q' g', Holds length (fun _ => none) s'.cb q' ∧
      Logged length.toNat before arrived (lost + (s.pushesFull .main).toNat) q' g' s' := by
  have hholds : Holds length (fun _ => none) s.cb q := hown.holds
  cases mainStep_move hstep with
  | decode hm => exact ⟨q, g, hholds, by simpa [State.pushesFull, hm] using h.decode_step hown hm⟩
  | fill hm => exact ⟨q, g, hholds, by simpa [State.pushesFull, hm] using h.fill_step hown hm⟩
  | @pushBody x b hm =>
      obtain ⟨g', hg'⟩ := h.push_step hown hm
      simp only [State.pushesFull, hm]
      exact ⟨_, g', hholds.step (.push x), hg'⟩
  | signal hm =>
      refine ⟨q, g, hholds, ?_⟩
      simp only [State.pushesFull, hm]
      exact h.move rfl (by rw [hm]; rfl) (fun _ _ => rfl) (wake_inHand _ _)
  | @printReceived x b isValid hm =>
      refine ⟨q, ⟨g.ops, g.lines ++ [.received (s.heap.packets b, isValid)]⟩, hholds, ?_⟩
      simp only [State.pushesFull, hm]
      refine ⟨?_, ?_, h.unread, ?_, h.lost⟩
      · show s.printed ++ _ = before ++ List.map Line.text (g.lines ++ [_])
        rw [h.printed, List.map_append, List.append_assoc]
        rfl
      · have hpushed := h.pushed
        rw [hm] at hpushed
        exact hpushed
      · rw [h.pulled]
        show _ = List.filterMap _ (g.lines ++ [_]) ++ _
        rw [List.filterMap_append]
        show _ = processed g.lines ++ [] ++ _
        rw [List.append_nil]
        rfl
  | lock hm | pushLock hm | pushUnlock hm | unlock hm | readIsValid hm =>
      refine ⟨q, g, hholds, ?_⟩
      simp only [State.pushesFull, hm]
      exact h.move rfl (by rw [hm]; rfl) (fun _ _ => rfl) rfl

theorem worker_step (hown : Ownership length (fun _ => none) q s.settled)
    (h : Logged length.toNat before arrived lost q g s) (hstep : workerStep s = some s') :
    ∃ q' g', Holds length (fun _ => none) s'.cb q' ∧ Logged length.toNat before arrived lost q' g' s' := by
  have hholds : Holds length (fun _ => none) s.cb q := hown.holds
  cases workerStep_move hstep with
  | pullBody hw =>
      obtain ⟨g', hg'⟩ := h.pull_step hown hw
      exact ⟨q.tail, g', hholds.step .pull, hg'⟩
  | @printProcessed x b isValid hw hb =>
      refine ⟨q, ⟨g.ops, g.lines ++ [.processed (s.heap.packets b, isValid)]⟩, hholds, ?_, h.pushed, h.unread, ?_,
        h.lost⟩
      · show s.printed ++ _ = before ++ List.map Line.text (g.lines ++ [_])
        rw [h.printed, List.map_append, List.append_assoc]
        rfl
      · have hpulled := h.pulled
        rw [hw] at hpulled
        rw [hpulled]
        show _ = List.filterMap _ (g.lines ++ [_]) ++ []
        rw [List.filterMap_append, List.append_nil, hb]
        rfl
  | lock hw | reacquire hw | lengthLock hw | lengthBody hw | lengthUnlock hw | wait hw | goOn hw | pullLock hw
  | pulledNone hw | pulled hw | readIsValid hw | freePacket hw | freeHeader hw | unlock hw =>
      exact ⟨q, g, hholds, h.move rfl rfl (fun _ _ => rfl) (by rw [hw]; rfl)⟩

theorem step (hown : Ownership length (fun _ => none) q s.settled)
    (h : Logged length.toNat before arrived lost q g s) {a : Action} (hstep : serverStep s a = some s') :
    ∃ q' g', Holds length (fun _ => none) s'.cb q' ∧
      Logged length.toNat before (arrived ++ a.arrival?.toList) (lost + (s.pushesFull a).toNat) q' g' s' := by
  have hholds : Holds length (fun _ => none) s.cb q := hown.holds
  have hnone : arrived ++ (none : Option Arrival).toList = arrived := List.append_nil arrived
  cases a with
  | main => exact hnone.symm ▸ h.main_step hown hstep
  | worker => exact hnone.symm ▸ h.worker_step hown hstep
  | receive p isValid =>
      obtain ⟨hm, rfl⟩ := receiveStep_some hstep
      refine ⟨q, g, hholds, h.printed, ?_, h.unread, h.pulled, h.lost⟩
      have hpushed := h.pushed
      rw [hm] at hpushed
      rw [hpushed, List.append_assoc]
      rfl
  | malloc a =>
      obtain ⟨-, m, rfl, hm⟩ := mallocStep_some hstep
      refine ⟨q, g, hholds, hnone.symm ▸ h.move rfl ?_ (fun _ _ => rfl) rfl⟩
      rcases hm with ⟨p, isValid, hm, rfl⟩ | ⟨b, isValid, hm, rfl⟩ <;> rw [hm] <;> rfl
  | spurious =>
      obtain ⟨hw, rfl⟩ := spuriousStep_some hstep
      exact ⟨q, g, hholds, hnone.symm ▸ h.move rfl rfl (fun _ _ => rfl) (by rw [hw]; rfl)⟩

end Logged

/-! ### All runs -/

/-- **The invariant**: what a run has received, printed and lost is that of a run of the queue. -/
theorem serverLog {s₀ : State} (hinit : Initial length (fun _ => none) s₀)
    (hrun : runActions serverStep s₀ actions = some s) : ∃ q g, Holds length (fun _ => none) s.cb q ∧
      Logged length.toNat s₀.printed (arrivals actions) (overflows s₀ actions) q g s := by
  refine runActions_invariant (I := fun actions s => ∃ q g, Holds length (fun _ => none) s.cb q ∧
    Logged length.toNat s₀.printed (arrivals actions) (overflows s₀ actions) q g s) hrun ?_ ?_
  · refine ⟨[], ⟨[], []⟩, hinit.ownership.holds, ?_, ?_, rfl, ?_, rfl⟩
    · exact (List.append_nil _).symm
    · rw [hinit.main]
      rfl
    · rw [hinit.worker]
      rfl
  · intro actions t u a ht ⟨q, g, hholds, h⟩ hstep
    obtain ⟨q', hown⟩ := settled_ownership hinit (run_of_runActions _ ht)
    obtain rfl : q' = q := Holds.unique hown.holds hholds
    rw [arrivals_concat, overflows_concat ht]
    exact h.step hown hstep

/-- What has become of the packets that a run has received. -/
structure InOrder (s₀ s : State) (actions : List Action) (length : UInt32) (lines : List Line) (q : List Addr) :
    Prop where
  printed : s.printed = s₀.printed ++ lines.map Line.text
  unread : s.cb.unread = q.map some
  order : (processed lines ++ s.worker.inHand s.heap ++ q.map s.heap.arrival ++ s.main.pending s.heap).Sublist
    (arrivals actions)
  count : (processed lines ++ s.worker.inHand s.heap ++ q.map s.heap.arrival ++ s.main.pending s.heap).length +
    overflows s₀ actions = (arrivals actions).length
  room : (arrivals actions).length ≤ length.toNat → overflows s₀ actions = 0

theorem Logged.inOrder {s₀ : State} (hholds : Holds length (fun _ => none) s.cb q)
    (h : Logged length.toNat s₀.printed (arrivals actions) (overflows s₀ actions) q g s) :
    InOrder s₀ s actions length g.lines q := by
  have hplaces := (DropQueue.places_perm length.toNat g.ops).length_eq
  have harrivals := congrArg List.length h.pushed
  refine ⟨h.printed, hholds.unread_eq, ?_, ?_, fun hroom => ?_⟩
  · rw [h.pushed, ← h.pulled, ← h.unread]
    exact (DropQueue.pulled_append_contents_sublist _ _).append_right _
  · rw [← h.pulled, ← h.unread, ← h.lost, harrivals]
    simp only [List.length_append] at hplaces ⊢
    omega
  · rw [← h.lost, DropQueue.dropped_eq_nil]
    · rfl
    · rw [harrivals, List.length_append] at hroom
      omega

/-- **The worker processes the packets in the order of their arrival**, each at most once, and no packet is lost
without a push onto a full buffer. -/
theorem processed_in_order {s₀ : State} (hinit : Initial length (fun _ => none) s₀)
    (hrun : runActions serverStep s₀ actions = some s) : ∃ lines q, InOrder s₀ s actions length lines q := by
  obtain ⟨q, g, hholds, h⟩ := serverLog hinit hrun
  exact ⟨g.lines, q, h.inOrder hholds⟩

/-- A packet with the number `n`. -/
def numbered (n : UInt16) : Packet := { countedPacket countedDigest countedDigest_length with number := n }

/-- `main` receives the packet `n`, allocates two blocks for it, pushes it, and prints its line. -/
def receiveNumbered (n : UInt16) (packet header : Addr) : List Action :=
  [.receive (numbered n) true, .malloc packet, .main, .malloc header] ++ List.replicate 9 .main

/-- Three packets for two slots; then the worker empties the buffer. -/
def threeReceived : List Action :=
  receiveNumbered 1 1 2 ++ receiveNumbered 2 3 4 ++ receiveNumbered 3 5 6 ++ List.replicate 22 .worker

/-- The first packet is lost, the others are processed in order. -/
theorem processed_in_order_three : ∃ s, runActions serverStep start threeReceived = some s ∧
    s.printed.drop 3 = [line "Processed" (numbered 2) true, line "Processed" (numbered 3) true] ∧
    overflows start threeReceived = 1 ∧ ∃ lines q, InOrder start s threeReceived 2 lines q :=
  ⟨_, rfl, rfl, rfl, processed_in_order start_initial rfl⟩

/-- The newest packets that `main` has pushed, as many as there are slots, are still there. -/
structure NewestKept (s₀ s : State) (actions : List Action) (length : UInt32) (lines : List Line) (q : List Addr) :
    Prop where
  printed : s.printed = s₀.printed ++ lines.map Line.text
  unread : s.cb.unread = q.map some
  kept : ∀ newest, newest ++ s.main.pending s.heap <:+ arrivals actions → newest.length ≤ length.toNat →
    newest <:+ processed lines ++ s.worker.inHand s.heap ++ q.map s.heap.arrival

/-- **Only old packets are lost**: a packet that is followed by fewer others than there are slots is processed, with
the worker, or in the buffer. -/
theorem newest_kept {s₀ : State} (hinit : Initial length (fun _ => none) s₀)
    (hrun : runActions serverStep s₀ actions = some s) : ∃ lines q, NewestKept s₀ s actions length lines q := by
  obtain ⟨q, g, hholds, h⟩ := serverLog hinit hrun
  refine ⟨g.lines, q, h.printed, hholds.unread_eq, fun newest hnewest hlen => ?_⟩
  have hpushes : newest <:+ pushes g.ops := by
    rw [h.pushed] at hnewest
    obtain ⟨old, hold⟩ := hnewest
    rw [← List.append_assoc] at hold
    exact ⟨old, List.append_cancel_right hold⟩
  rw [← h.pulled, ← h.unread]
  exact DropQueue.suffix_pulled_append_contents hpushes hlen

/-- The last two of three packets are kept. -/
theorem newest_kept_three : ∃ s lines q, runActions serverStep start threeReceived = some s ∧
    NewestKept start s threeReceived 2 lines q ∧ [(numbered 2, true), (numbered 3, true)] <:+
      processed lines ++ s.worker.inHand s.heap ++ q.map s.heap.arrival := by
  obtain ⟨s, hs, hpending⟩ : ∃ s, runActions serverStep start threeReceived = some s ∧ s.main.pending s.heap = [] :=
    ⟨_, rfl, rfl⟩
  obtain ⟨lines, q, h⟩ := newest_kept start_initial hs
  refine ⟨s, lines, q, hs, h, h.kept _ ?_ (by decide)⟩
  rw [hpending]
  exact ⟨[(numbered 1, true)], rfl⟩

end OhMySockets
