import OhMySockets.ServerPacing

/-! # Schedules that serve a client

Between two passes the server can take the next frame of any open connection and come back to rest, without losing a
packet.

* `run_loop`, `run_threads`: steps of one part of the process are steps of the process;
* `serve_frame`: one frame, in one pass;
* `serve_frames`: any number of frames. -/

namespace OhMySockets

open ByteMemory Transition

variable {S : Setting} {length : UInt32} {s s₀ : Process}

/-! ### Steps of one part -/

/-- A step of the loop that is neither `select` nor a push. -/
def LoopAction.Quiet : LoopAction → Prop
  | .select _ | .push _ => False
  | _ => True

theorem quiet_append {n : ℕ} {calls : List LoopAction} (h : ∀ a ∈ calls, a.Quiet) :
    ∀ a ∈ List.replicate n .scan ++ calls, a.Quiet := by
  intro a ha
  rcases List.mem_append.mp ha with ha | ha
  · rw [List.eq_of_mem_replicate ha]
    trivial
  · exact h a ha

theorem run_loop {l l' : Loop} {t : State} (hmain : t.main = .select) {calls : List LoopAction}
    (hcalls : ∀ a ∈ calls, a.Quiet) (h : runActions (loopStep S) l calls = some l') :
    Run (processStep S) (Paced length) ⟨l, t⟩ ⟨l', t⟩ := by
  induction calls generalizing l with
  | nil =>
      obtain rfl := Option.some.inj h
      exact .refl
  | cons a calls ih =>
      obtain ⟨u, hu, h⟩ := Option.bind_eq_some_iff.mp h
      have hquiet := hcalls a List.mem_cons_self
      have hstep : processStep S ⟨l, t⟩ (.loop a) = some ⟨u, t⟩ := by
        cases a with
        | push => exact hquiet.elim
        | _ => simp only [processStep, inLoop_iff.mpr hmain, if_true, hu, Option.map_some]
      have hpaced : Paced length ⟨l, t⟩ (.loop a) := by
        rintro ready ⟨⟩
        exact hquiet.elim
      exact Run.trans (.tail .refl hpaced hstep) (ih (fun b hb => hcalls b (List.mem_cons_of_mem a hb)) h)

theorem run_threads {l : Loop} (hrunning : l.pc.running = true) {t t' : State} {own : List Action}
    (hown : ∀ a ∈ own, a.Own) (h : runActions serverStep t own = some t') :
    Run (processStep S) (Paced length) ⟨l, t⟩ ⟨l, t'⟩ := by
  induction own generalizing t with
  | nil =>
      obtain rfl := Option.some.inj h
      exact .refl
  | cons a own ih =>
      obtain ⟨u, hu, h⟩ := Option.bind_eq_some_iff.mp h
      have hstep : processStep S ⟨l, t⟩ (.threads a) = some ⟨l, u⟩ := by
        cases a with
        | receive => exact (hown _ List.mem_cons_self).elim
        | _ => simp only [processStep, hrunning, if_true, hu, Option.map_some]
      have hpaced : Paced length ⟨l, t⟩ (.threads a) := by
        rintro ready ⟨⟩
      exact Run.trans (.tail .refl hpaced hstep) (ih (fun b hb => hown b (List.mem_cons_of_mem a hb)) h)

/-! ### A pass for one connection -/

theorem scan_past (l : Loop) {i n : ℕ} (hpc : l.pc = .scan i) (hle : i + n ≤ l.maxfd + 1)
    (hnot : ∀ fd, i ≤ fd → fd < i + n → fd ∉ l.readFdSet) :
    runActions (loopStep S) l (List.replicate n .scan) = some { l with pc := .scan (i + n) } := by
  induction n generalizing l i with
  | zero =>
      rw [Nat.add_zero, ← hpc]
      rfl
  | succ n ih =>
      have hstep : loopStep S l .scan = some { l with pc := .scan (i + 1) } := by
        simp only [loopStep, scanStep, hpc]
        rw [if_pos (by omega), if_neg (hnot i (Nat.le_refl i) (by omega))]
      rw [List.replicate_succ, runActions, hstep, Option.bind_some,
        ih { l with pc := .scan (i + 1) } rfl (show i + 1 + n ≤ l.maxfd + 1 by omega) fun fd hlo hhi =>
          hnot fd (by omega) (by omega), Nat.add_assoc, Nat.add_comm 1 n]

theorem scan_rest (l : Loop) {i : ℕ} (hpc : l.pc = .scan i) (hle : i ≤ l.maxfd + 1)
    (hnot : ∀ fd, i ≤ fd → fd ∉ l.readFdSet) :
    runActions (loopStep S) l (List.replicate (l.maxfd + 1 - i) .scan ++ [.scan]) = some { l with pc := .select } := by
  rw [runActions_concat, scan_past l hpc (by omega) fun fd hlo _ => hnot fd hlo, Option.bind_some]
  simp only [loopStep, scanStep]
  rw [if_neg (by omega)]

theorem read_frame (l : Loop) {fd c : ℕ} (hpc : l.pc = .scan 0) (hready : l.readFdSet = {fd}) (hle : fd ≤ l.maxfd)
    (hne : fd ≠ S.socketfd) (hc : l.connection fd = some c) :
    runActions (loopStep S) l (List.replicate fd .scan ++ [.scan, .read 1426]) = some { l with
      pc := .push fd
      handled := l.handled ++ [fd]
      mem := writeBytes l.mem S.buffer (bytesAt (S.stream c) (l.consumed c) 1426)
      consumed := Function.update l.consumed c (l.consumed c + 1426)
      reads := l.reads ++ [⟨fd, some c, 1426⟩] } := by
  have hpast := scan_past (S := S) l hpc (n := fd) (by omega) fun i _ hi => by
    rw [hready, Finset.mem_singleton]
    omega
  have hscan : loopStep S { l with pc := .scan (0 + fd) } .scan =
      some { l with pc := .read fd 0, handled := l.handled ++ [fd] } := by
    simp [loopStep, scanStep, hle, hready, hne]
  have hread : loopStep S { l with pc := .read fd 0, handled := l.handled ++ [fd] } (.read 1426) = some { l with
      pc := .push fd
      handled := l.handled ++ [fd]
      mem := writeBytes l.mem S.buffer (bytesAt (S.stream c) (l.consumed c) 1426)
      consumed := Function.update l.consumed c (l.consumed c + 1426)
      reads := l.reads ++ [⟨fd, some c, 1426⟩] } := by
    have hchunk : (chunkSize frameSize 0).toNat = 1426 := by decide
    have hdone : readStatus frameSize 0 ((1426 : ℕ) : ℤ) = .done 0 := by decide
    simp only [loopStep, readStep, hc, hchunk, hdone]
    rfl
  rw [runActions_append, hpast, Option.bind_some, runActions, hscan, Option.bind_some, runActions, hread]
  rfl

theorem push_frame {l : Loop} {t : State} {fd : ℕ} (hpc : l.pc = .push fd) (hmain : t.main = .select) :
    ∃ l' t', processStep S ⟨l, t⟩ (.push (S.buffer + networkPacketTotalSize)) = some ⟨l', t'⟩ ∧
      l'.pc = .scan (fd + 1) ∧ l'.maxfd = l.maxfd ∧ l'.readFdSet = l.readFdSet ∧ l'.connection = l.connection ∧
        l'.consumed = l.consumed := by
  have hapart : Apart (S.buffer + networkPacketTotalSize) sizeofPacket S.buffer networkPacketTotalSize :=
    Or.inr (Nat.le_refl _)
  let receive := serverReceive S.md5 S.host S.buffer (S.buffer + networkPacketTotalSize)
  let mem := (exec receive ⟨l.mem, [], []⟩).mem
  let e : Pushed := ⟨l.connection fd, packetAt S.host mem (S.buffer + networkPacketTotalSize),
    eval receive ⟨l.mem, [], []⟩⟩
  refine ⟨{ l with mem, pushed := l.pushed ++ [e], pc := .scan (fd + 1) },
    { t with main := .mallocPacket e.packet e.isValid }, ?_, rfl, rfl, rfl, rfl, rfl⟩
  simp only [processStep, pushStep, hpc, if_pos hapart, Option.bind_some, List.getLast?_concat, receiveStep, hmain,
    Option.map_some, e, mem, receive]

theorem Live.rest_run {t : State} (h : Live length (fun _ => none) t) :
    ∃ own t', (∀ a ∈ own, a.Own) ∧ runActions serverStep t own = some t' ∧ t'.AtRest := by
  have hstep : ∀ {t u : State} {a : Action}, a.Own → Live length (fun _ => none) t → serverStep t a = some u →
      Live length (fun _ => none) u ∧ u.rank < t.rank := fun ha h hstep => h.own_step ha hstep
  obtain ⟨own, t', hown, ht', hfinal⟩ := exists_final_of_ranking hstep h
  obtain ⟨hlive, -⟩ := length_le_of_ranking hstep h hown ht'
  exact ⟨own, t', hown, ht', hlive.atRest hfinal⟩

theorem Initial.length_pos {content : ℕ → Option Addr} {t : State} (h : Initial length content t) :
    0 < length.toNat := by
  have hcreated := h.created
  unfold cbCreate at hcreated
  split_ifs at hcreated with hzero
  exact Nat.pos_of_ne_zero fun hlen => hzero (by simpa using UInt32.toNat_inj.mp hlen)

/-- The process is between two passes, and its threads have nothing to do. -/
structure Process.Idle (s : Process) : Prop where
  select : s.loop.pc = .select
  rest : s.threads.AtRest

/-- `select` reports the connection, its frame is read and pushed, the threads come to rest, and the pass ends. -/
theorem serve_frame (hsocket : S.socketfd < fdSetSize) (hinit : ProcessInitial S length s₀)
    (hrun : Run (processStep S) (Paced length) s₀ s) (hidle : s.Idle) {fd c : ℕ}
    (hc : s.loop.connection fd = some c) :
    ∃ s', Run (processStep S) (Paced length) s s' ∧ s'.Idle ∧ s'.loop.connection = s.loop.connection ∧
      s'.loop.consumed = Function.update s.loop.consumed c (s.loop.consumed c + 1426) := by
  obtain ⟨actions, hpaced⟩ := pacedRun hsocket hinit hrun
  obtain ⟨l, t⟩ := s
  obtain ⟨hselect, hrest⟩ := hidle
  have hdescriptors : DescriptorInv S l := descriptorInv hsocket hinit.loop hpaced.projects.loop
  have hlive : Live length (fun _ => none) t := live hinit.threads (run_of_runActions _ hpaced.projects.threads)
  have hactive : fd ∈ l.activeFdSet := (hdescriptors.active_iff fd).mpr (Or.inr ⟨c, hc⟩)
  have hle : fd ≤ l.maxfd := (hdescriptors.bound fd hactive).1
  have hne : fd ≠ S.socketfd := fun he => by
    rw [he, hdescriptors.socket] at hc
    cases hc
  obtain ⟨hmain, -, hempty⟩ := hrest
  have hmain : t.main = .select := hmain
  -- `select` reports the connection, and its frame is read
  let reported : Loop := { l with readFdSet := {fd}, pc := .scan 0, atSelect := l.connection, handled := [] }
  have hreport : processStep S ⟨l, t⟩ (.loop (.select {fd})) = some ⟨reported, t⟩ := by
    have hpc : l.pc = .select := hselect
    simp [processStep, inLoop_iff.mpr hmain, loopStep, selectStep, hpc, hactive, reported]
  have hroom : Paced length ⟨l, t⟩ (.loop (.select {fd})) := by
    rintro ready ⟨⟩
    rw [hempty, Finset.card_singleton]
    exact hinit.threads.length_pos
  let framed : Loop := { reported with
    pc := .push fd
    handled := reported.handled ++ [fd]
    mem := writeBytes l.mem S.buffer (bytesAt (S.stream c) (l.consumed c) 1426)
    consumed := Function.update l.consumed c (l.consumed c + 1426)
    reads := l.reads ++ [⟨fd, some c, 1426⟩] }
  have hread : Run (processStep S) (Paced length) ⟨reported, t⟩ ⟨framed, t⟩ :=
    run_loop hmain (quiet_append (by simp [LoopAction.Quiet])) (read_frame reported rfl rfl hle hne hc)
  -- its packet is pushed, and the threads come to rest
  obtain ⟨l', t', hpush, hpc', hmaxfd', hready', hconnection', hconsumed'⟩ :=
    push_frame (S := S) (l := framed) rfl hmain
  have hlive' : Live length (fun _ => none) t' := by
    cases processStep_move hpush with
    | push _ _ hthreads => exact hlive.step hthreads
  obtain ⟨own, t'', hown, ht'', hrest''⟩ := hlive'.rest_run
  -- the pass ends
  have hends := scan_rest (S := S) l' hpc' (by rw [hmaxfd']; exact Nat.succ_le_succ hle) fun i hi => by
    rw [hready', Finset.mem_singleton]
    omega
  have hpushPaced : ∀ u, Paced length u (.push (S.buffer + networkPacketTotalSize)) := by
    rintro u ready ⟨⟩
  have hbefore := (Run.tail .refl hroom hreport).trans hread
  have hafter := (Run.tail hbefore (hpushPaced _) hpush).trans (run_threads (by rw [hpc']; rfl) hown ht'')
  have hpass := hafter.trans (run_loop hrest''.1 (quiet_append (by simp [LoopAction.Quiet])) hends)
  exact ⟨⟨{ l' with pc := .select }, t''⟩, hpass, ⟨rfl, hrest''⟩, hconnection', hconsumed'⟩

/-- **The server can always go on with a client**: it can take any number of frames of an open connection, one in a
pass, without losing a packet. -/
theorem serve_frames (hsocket : S.socketfd < fdSetSize) (hinit : ProcessInitial S length s₀)
    (hrun : Run (processStep S) (Paced length) s₀ s) (hidle : s.Idle) {fd c : ℕ}
    (hc : s.loop.connection fd = some c) (n : ℕ) :
    ∃ s', Run (processStep S) (Paced length) s s' ∧ s'.Idle ∧ s'.loop.connection = s.loop.connection ∧
      s'.loop.consumed = Function.update s.loop.consumed c (s.loop.consumed c + 1426 * n) := by
  induction n with
  | zero => exact ⟨s, .refl, hidle, rfl, (Function.update_eq_self c s.loop.consumed).symm⟩
  | succ n ih =>
      obtain ⟨s', hrun', hidle', hconnection, hconsumed⟩ := ih
      obtain ⟨s'', hrun'', hidle'', hconnection', hconsumed'⟩ :=
        serve_frame hsocket hinit (hrun.trans hrun') hidle' (hconnection ▸ hc)
      refine ⟨s'', hrun'.trans hrun'', hidle'', hconnection'.trans hconnection, ?_⟩
      rw [hconsumed', hconsumed, Function.update_self, Function.update_idem, Nat.mul_succ, Nat.add_assoc]

/-- Two hundred frames of the first client. -/
theorem serve_frames_first : ∃ s, Run (processStep sampleSetting) (Paced 2) startedProcess s ∧ s.Idle ∧
    s.loop.connection 4 = some 0 ∧ s.loop.consumed 0 = 1426 * 200 := by
  obtain ⟨s₁, h₁, hselect, hrest, hconnection, hconsumed⟩ : ∃ s₁,
      runChecked (processStep sampleSetting) (Paced 2) startedProcess connects = some s₁ ∧ s₁.loop.pc = .select ∧
      s₁.threads.AtRest ∧ s₁.loop.connection 4 = some 0 ∧ s₁.loop.consumed 0 = 0 :=
    ⟨_, rfl, rfl, ⟨rfl, rfl, rfl⟩, rfl, rfl⟩
  have hpaced := run_of_runChecked _ h₁
  obtain ⟨s, hrun, hidle, hconnection', hconsumed'⟩ :=
    serve_frames (by decide) (startedProcess_initial rfl) hpaced ⟨hselect, hrest⟩ hconnection 200
  refine ⟨s, hpaced.trans hrun, hidle, hconnection' ▸ hconnection, ?_⟩
  rw [hconsumed', Function.update_self, hconsumed]

end OhMySockets
