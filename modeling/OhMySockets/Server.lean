import OhMySockets.Delivery
import OhMySockets.SelectDescriptors
import OhMySockets.ThreadsProgress

/-! # The server process

The select loop and the worker together.  While `main` is in the loop the loop takes its steps; with a full frame
both models of `main` take a step, the loop its push and the threads the arrival of the packet, and the loop waits
until `main` has printed the line "Received".  The worker takes its steps at any time until `main` returns, which ends
the process.

* `processStep_move`: what a step of the process can be;
* `process_projects`: a run of the process is a run of the loop and a run of the threads, and the packets that
  arrive are those that the loop pushes;
* `clients_to_lines`: the lines "Processed" tell of packets of the clients, in the order in which each client has
  sent them; nothing is missing when the server is at rest and no push has found the buffer full. -/

namespace OhMySockets

open ByteOrder Transition

/-- The server process. -/
structure Process where
  loop : Loop
  threads : State

inductive ProcessAction where
  /-- a step of the select loop other than a push -/
  | loop (a : LoopAction)
  /-- a full frame: `malloc` returns `networkPacket`, the packet is decoded and checked -/
  | push (networkPacket : ℕ)
  /-- a step of `main` with this packet, or of the worker -/
  | threads (a : Action)

/-- `main` is in the select loop. -/
def State.inLoop (s : State) : Bool :=
  match s.main with
  | .select => true
  | _ => false

/-- `main` has not returned. -/
def LoopPc.running : LoopPc → Bool
  | .returned _ => false
  | _ => true

/-- **One step of the server process.** -/
def processStep (S : Setting) (s : Process) : ProcessAction → Option Process
  | .loop (.push _) => none
  | .loop a => if s.threads.inLoop then (loopStep S s.loop a).map fun loop => { s with loop } else none
  | .push networkPacket =>
      (pushStep S s.loop networkPacket).bind fun loop =>
        loop.pushed.getLast?.bind fun e =>
          (receiveStep s.threads e.packet e.isValid).map fun threads => { loop, threads }
  | .threads (.receive ..) => none
  | .threads a =>
      -- a return from `main` ends the worker too
      if s.loop.pc.running then (serverStep s.threads a).map fun threads => { s with threads } else none

/-- The process before its first step; the slots of the buffer are `NULL`. -/
structure ProcessInitial (S : Setting) (length : UInt32) (s : Process) : Prop where
  loop : LoopInitial S s.loop
  threads : Initial length (fun _ => none) s.threads

/-- A pushed packet, as it arrives in the buffer. -/
def Pushed.arrival (e : Pushed) : Arrival := (e.packet, e.isValid)

variable {S : Setting} {length : UInt32} {s s' s₀ : Process} {actions : List Action}

/-! ### What a step can do -/

/-- The steps of the process: of the loop, of both parts, and of the threads. -/
inductive ProcessMove (S : Setting) (s : Process) : ProcessAction → Process → Prop
  | loop {a : LoopAction} {loop : Loop} (ha : ∀ networkPacket, a ≠ .push networkPacket)
      (hmain : s.threads.main = .select) (hstep : loopStep S s.loop a = some loop) :
      ProcessMove S s (.loop a) { s with loop }
  | push {networkPacket : ℕ} {loop : Loop} {e : Pushed} {threads : State}
      (hstep : loopStep S s.loop (.push networkPacket) = some loop) (hpushed : loop.pushed = s.loop.pushed ++ [e])
      (hthreads : serverStep s.threads (.receive e.packet e.isValid) = some threads) :
      ProcessMove S s (.push networkPacket) { loop, threads }
  | threads {a : Action} {threads : State} (ha : a.arrival? = none) (hrunning : s.loop.pc.running = true)
      (hstep : serverStep s.threads a = some threads) : ProcessMove S s (.threads a) { s with threads }

theorem inLoop_iff {s : State} : s.inLoop = true ↔ s.main = .select := by
  unfold State.inLoop
  cases s.main <;> simp

theorem pushed_of_ne_push {l l' : Loop} {a : LoopAction} (hstep : loopStep S l a = some l')
    (ha : ∀ networkPacket, a ≠ .push networkPacket) : l'.pushed = l.pushed := by
  cases loopStep_move hstep with
  | pushed => exact absurd rfl (ha _)
  | @delivered i c count total hpc hc hcount _ =>
      obtain ⟨pc, hafter, -, -⟩ := DescriptorInv.afterRead_delivered _ i total hcount
      rw [hafter]
  | _ => rfl

theorem pushed_of_push {l l' : Loop} {networkPacket : ℕ} (hstep : loopStep S l (.push networkPacket) = some l') :
    ∃ e, l'.pushed = l.pushed ++ [e] := by
  cases loopStep_move hstep with
  | pushed => exact ⟨_, rfl⟩

theorem processStep_move {a : ProcessAction} (hstep : processStep S s a = some s') : ProcessMove S s a s' := by
  cases a with
  | loop a =>
      cases a with
      | push networkPacket => cases hstep
      | _ =>
          simp only [processStep] at hstep
          split_ifs at hstep with hin
          obtain ⟨loop, hloop, rfl⟩ := Option.map_eq_some_iff.mp hstep
          exact .loop nofun (inLoop_iff.mp hin) hloop
  | push networkPacket =>
      obtain ⟨loop, hloop, hstep⟩ := Option.bind_eq_some_iff.mp hstep
      obtain ⟨e, he, hstep⟩ := Option.bind_eq_some_iff.mp hstep
      obtain ⟨threads, hthreads, rfl⟩ := Option.map_eq_some_iff.mp hstep
      obtain ⟨e', hpushed⟩ := pushed_of_push hloop
      rw [hpushed, List.getLast?_concat] at he
      obtain rfl := Option.some.inj he
      exact .push hloop hpushed hthreads
  | threads a =>
      cases a with
      | receive p isValid => cases hstep
      | _ =>
          simp only [processStep] at hstep
          split_ifs at hstep with hrunning
          obtain ⟨threads, hthreads, rfl⟩ := Option.map_eq_some_iff.mp hstep
          exact .threads rfl hrunning hthreads

/-! ### The two parts -/

/-- What a run of the process is for its two parts. -/
structure Projects (S : Setting) (s₀ s : Process) (actions : List Action) : Prop where
  loop : Reaches (loopStep S) s₀.loop s.loop
  threads : runActions serverStep s₀.threads actions = some s.threads
  arrivals : s.loop.pushed.map Pushed.arrival = s₀.loop.pushed.map Pushed.arrival ++ arrivals actions

namespace Projects

theorem loop_step (h : Projects S s₀ s actions) {a : LoopAction} {loop : Loop} (hstep : loopStep S s.loop a = some loop)
    (hpushed : loop.pushed = s.loop.pushed) : Projects S s₀ { s with loop := loop } actions where
  loop := .tail h.loop trivial hstep
  threads := h.threads
  arrivals := by rw [hpushed, h.arrivals]

theorem push_step (h : Projects S s₀ s actions) {networkPacket : ℕ} {loop : Loop} {threads : State} {e : Pushed}
    (hloop : loopStep S s.loop (.push networkPacket) = some loop) (hpushed : loop.pushed = s.loop.pushed ++ [e])
    (hthreads : serverStep s.threads (.receive e.packet e.isValid) = some threads) :
    Projects S s₀ ⟨loop, threads⟩ (actions ++ [.receive e.packet e.isValid]) where
  loop := .tail h.loop trivial hloop
  threads := by
    rw [runActions_concat, h.threads]
    exact hthreads
  arrivals := by
    rw [arrivals_concat, hpushed, List.map_append, h.arrivals, List.append_assoc]
    rfl

theorem threads_step (h : Projects S s₀ s actions) {a : Action} {threads : State} (ha : a.arrival? = none)
    (hstep : serverStep s.threads a = some threads) : Projects S s₀ { s with threads := threads } (actions ++ [a]) where
  loop := h.loop
  threads := by
    rw [runActions_concat, h.threads]
    exact hstep
  arrivals := by
    rw [arrivals_concat, h.arrivals, ha]
    exact congrArg _ (List.append_nil _).symm

theorem refl (s : Process) : Projects S s s [] := ⟨.refl, rfl, (List.append_nil _).symm⟩

theorem arrivals_eq (h : Projects S s₀ s actions) (hinit : LoopInitial S s₀.loop) :
    OhMySockets.arrivals actions = s.loop.pushed.map Pushed.arrival := by
  rw [h.arrivals, hinit.pushed]
  rfl

end Projects

/-- **A run of the process is a run of each part**; what the loop pushes is what arrives. -/
theorem process_projects (hrun : Reaches (processStep S) s₀ s) : ∃ actions, Projects S s₀ s actions := by
  refine Run.invariant (I := fun s => ∃ actions, Projects S s₀ s actions) hrun ⟨[], .refl s₀⟩ fun _ _ h hstep => ?_
  obtain ⟨actions, h⟩ := h
  cases processStep_move hstep with
  | loop ha _ hloop => exact ⟨actions, h.loop_step hloop (pushed_of_ne_push hloop ha)⟩
  | push hloop hpushed hthreads => exact ⟨_, h.push_step hloop hpushed hthreads⟩
  | threads ha _ hthreads => exact ⟨_, h.threads_step ha hthreads⟩

/-! ### From the clients to the lines -/

/-- The packets `kept` are those of the lines "Processed" that the process has printed. -/
structure Printed (s₀ s : Process) (length : UInt32) (lines : List Line) (kept : List Pushed) : Prop where
  printed : s.threads.printed = s₀.threads.printed ++ lines.map Line.text
  processed : processed lines = kept.map Pushed.arrival
  order : kept.Sublist s.loop.pushed
  complete : s.threads.AtRest → s.loop.pushed.length ≤ length.toNat → kept = s.loop.pushed

theorem Projects.printed (hinit : ProcessInitial S length s₀) (h : Projects S s₀ s actions) :
    ∃ lines kept, Printed s₀ s length lines kept := by
  obtain ⟨q, g, hholds, hlogged⟩ := serverLog hinit.threads h.threads
  obtain ⟨hprinted, hunread, horder, hcount, hroom⟩ := hlogged.inOrder hholds
  rw [h.arrivals_eq hinit.loop] at horder hcount hroom
  have hsub : (processed g.lines).Sublist (s.loop.pushed.map Pushed.arrival) := by
    rw [List.append_assoc, List.append_assoc] at horder
    exact (List.sublist_append_left _ _).trans horder
  obtain ⟨kept, hkept, hprocessed⟩ := List.sublist_map_iff.mp hsub
  refine ⟨g.lines, kept, hprinted, hprocessed, hkept, fun hrest hle => hkept.eq_of_length ?_⟩
  rw [List.length_map] at hroom
  rw [hrest.accounted_eq hunread, hroom hle, hprocessed, List.length_map, List.length_map] at hcount
  exact hcount

/-- What the lines "Processed" tell of the packets of each client. -/
structure ServesClients (S : Setting) (s₀ s : Process) (length : UInt32) (lines : List Line) (kept : List Pushed) :
    Prop extends Printed s₀ s length lines kept where
  clients : ∀ (C : ClientSetting) (ds : List Samples) (rest : List UInt8) (sc : Client) (c : ℕ),
    Written C ds rest sc → rest.length < networkPacketTotalSize → Carries (S.stream c) (s.loop.consumed c) sc.wire →
      (receivedFrom c kept).Sublist ((clientPackets C ds).map (expectedOf mbedtlsMd5 C.host S.host))

/-- **From the clients to the lines of the server**, for any number of clients, any interleaving of their frames,
any cutting of their bytes and any schedule of the two threads. -/
theorem clients_to_lines (hmd5 : S.md5 = mbedtlsMd5) (hinit : ProcessInitial S length s₀)
    (hrun : Reaches (processStep S) s₀ s) : ∃ lines kept, ServesClients S s₀ s length lines kept := by
  obtain ⟨actions, h⟩ := process_projects hrun
  obtain ⟨lines, kept, hprinted⟩ := h.printed hinit
  refine ⟨lines, kept, hprinted, fun C ds rest sc c hwritten hrest hcarries => ?_⟩
  obtain ⟨hfirst, -⟩ := hwritten.delivered hmd5 hinit.loop h.loop hrest hcarries
  exact ((hprinted.order.filter _).map _).trans hfirst.sublist

/-- The process with an empty buffer of two slots. -/
def startedProcess : Process := ⟨sampleLoop, start⟩

theorem startedProcess_initial {S : Setting} (hsocket : S.socketfd = 3) : ProcessInitial S 2 startedProcess :=
  ⟨⟨by rw [hsocket]; rfl, hsocket.symm, rfl, fun _ => rfl, rfl, fun _ => rfl, rfl, rfl⟩, start_initial⟩

/-- The worker begins to wait, and a client connects. -/
def connects : List ProcessAction :=
  List.replicate 5 (.threads .worker) ++ (acceptPass 4).map .loop

/-- A frame is read and pushed, and `main` prints its line. -/
def pushFrame (networkPacket : ℕ) (packet header : Addr) : List ProcessAction :=
  [.loop (.read 1426), .push networkPacket, .threads (.malloc packet), .threads .main, .threads (.malloc header)] ++
    List.replicate 9 (.threads .main)

/-- A pass in which the client on descriptor 4 sends a frame. -/
def framePass (networkPacket : ℕ) (packet header : Addr) : List ProcessAction :=
  (scanToFour {4}).map .loop ++ pushFrame networkPacket packet header ++ [.loop .scan]

/-- Two packets of a client are processed. -/
theorem clients_to_lines_two_frames : ∃ (s : Process) (lines : List Line) (kept : List Pushed),
    Reaches (processStep md5Setting) startedProcess s ∧ ServesClients md5Setting startedProcess s 2 lines kept ∧
    s.threads.printed.length = 4 ∧ kept.length = 2 ∧ (receivedFrom 0 kept).Sublist
      ((clientPackets stoppedClient (firstSamples [7, -42] 2)).map (expectedOf mbedtlsMd5 .little .little)) := by
  obtain ⟨s₁, s₂, s₃, s, h₁, h₂, h₃, hs, hconsumed, hpushed, hprinted, hrest⟩ : ∃ s₁ s₂ s₃ s,
      runActions (processStep md5Setting) startedProcess connects = some s₁ ∧
      runActions (processStep md5Setting) s₁ (framePass 2000 1 2) = some s₂ ∧
      runActions (processStep md5Setting) s₂ (framePass 4000 3 4) = some s₃ ∧
      runActions (processStep md5Setting) s₃ (List.replicate 28 (.threads .worker)) = some s ∧
      s.loop.consumed 0 = 2852 ∧ s.loop.pushed.length = 2 ∧ s.threads.printed.length = 4 ∧ s.threads.AtRest :=
    ⟨_, _, _, _, rfl, rfl, rfl, rfl, rfl, rfl, rfl, rfl, rfl, rfl⟩
  have hrun := (((run_of_runActions _ h₁).trans (run_of_runActions _ h₂)).trans (run_of_runActions _ h₃)).trans
    (run_of_runActions _ hs)
  obtain ⟨lines, kept, hserves⟩ := clients_to_lines rfl (startedProcess_initial rfl) hrun
  obtain ⟨sc, -, hwritten, hwire⟩ := stoppedClient_sends
  have hcarries : Carries (md5Setting.stream 0) (s.loop.consumed 0) sc.wire := hwire ▸ stoppedWire_carried hconsumed
  refine ⟨s, lines, kept, hrun, hserves, hprinted, ?_, hserves.clients _ _ [] sc 0 hwritten (by decide) hcarries⟩
  rw [hserves.complete hrest (Nat.le_of_eq hpushed), hpushed]

end OhMySockets
