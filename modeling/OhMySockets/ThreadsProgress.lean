import OhMySockets.ThreadsLog
import OhMySockets.ThreadsSync

/-! # The server comes to rest

While no frame arrives and the worker is not woken up without a signal, every step of either thread lowers
`State.rank`, in every order of steps.

* `serverStep_rank`: the step;
* `server_comes_to_rest`: from every reachable state there are boundedly many such steps, and when none is possible
  `main` is in `select`, the worker waits, every packet that was not lost has been processed in the order of
  arrival, and all blocks have been freed. -/

namespace OhMySockets

open Allocation Transition

/-- The steps of the threads themselves. -/
def Action.Own : Action → Prop
  | .receive .. | .spurious => False
  | _ => True

/-- How far `main` is from `select`; a packet that it pushes costs the worker a wake-up and a turn. -/
def MainPc.rank : MainPc → ℕ
  | .select => 0
  | .mallocPacket .. => 34
  | .decode .. => 33
  | .mallocHeader .. => 32
  | .fill .. => 31
  | .lock .. => 30
  | .pushLock .. => 29
  | .pushBody .. => 28
  | .pushUnlock .. => 11
  | .signal .. => 10
  | .unlock .. => 3
  | .readIsValid .. => 2
  | .printReceived .. => 1

/-- How far the worker is from waiting, when the buffer is empty. -/
def WorkerPc.rank : WorkerPc → ℕ
  | .waiting => 0
  | .pullBody true => 0
  | .pullLock true => 1
  | .check _ => 2
  | .lengthUnlock _ => 3
  | .lengthBody => 4
  | .lengthLock => 5
  | .lock | .reacquire => 6
  | .unlock => 7
  | .pullUnlock _ none => 8
  | .pullBody false => 9
  | .pullLock false => 10
  | .freeHeader _ => 11
  | .freePacket _ => 12
  | .printProcessed .. => 13
  | .readIsValid _ => 14
  | .pullUnlock _ (some _) => 15

/-- How far the server is from rest; an unread packet costs the worker a turn of its loop. -/
def State.rank (s : State) : ℕ := 16 * s.cb.unread.length + s.main.rank + s.worker.rank

/-- The two threads have nothing to do. -/
def State.AtRest (s : State) : Prop := s.main = .select ∧ s.worker = .waiting ∧ s.cb.unread = []

/-- What holds of every reachable state. -/
structure Live (length : UInt32) (content : ℕ → Option Addr) (s : State) : Prop where
  locks : Locks s
  unread : ∃ q, Unread length content q s
  bounded : s.heap.Bounded

variable {length : UInt32} {content : ℕ → Option Addr} {q : List Addr} {s s' s₀ : State}

theorem Live.step (h : Live length content s) {a : Action} (hstep : serverStep s a = some s') :
    Live length content s' := by
  obtain ⟨q, hunread⟩ := h.unread
  exact ⟨h.locks.step hstep, hunread.step h.locks hstep, h.bounded.step hstep⟩

theorem live (hinit : Initial length content s₀) (hrun : Reaches serverStep s₀ s) : Live length content s :=
  Run.invariant (I := Live length content) hrun ⟨hinit.locks, ⟨[], hinit.unread⟩, hinit.bounded⟩
    fun _ _ h hstep => h.step hstep

/-! ### The rank of a step -/

theorem Holds.length_unread (h : Holds length content s.cb q) : s.cb.unread.length = q.length := by
  rw [h.unread_eq, List.length_map]

theorem length_push_le (cap : ℕ) (q : List Addr) (p : Addr) : (DropQueue.push cap q p).1.length ≤ q.length + 1 := by
  unfold DropQueue.push
  split_ifs <;> simp only [List.length_append, List.length_tail, List.length_singleton] <;> omega

theorem rank_wake (w : WorkerPc) : w.wake.rank ≤ w.rank + 6 := by
  cases w <;> simp [WorkerPc.wake, WorkerPc.rank]

theorem mainStep_rank (h : Unread length content q s) (hstep : mainStep s = some s') : s'.rank < s.rank := by
  unfold State.rank
  cases mainStep_move hstep with
  | @pushBody p b hm =>
      have hlen : (pushSection s.cb (some p)).cb.unread.length ≤ s.cb.unread.length + 1 := by
        have hpush : Holds length content (pushSection s.cb (some p)).cb (DropQueue.push length.toNat q p).1 :=
          h.holds.step (.push p)
        rw [hpush.unread_eq, h.holds.unread_eq, List.length_map, List.length_map]
        exact length_push_le _ _ _
      simp only [hm, MainPc.rank]
      omega
  | signal hm =>
      have hwake := rank_wake s.worker
      simp only [hm, MainPc.rank]
      omega
  | decode hm | fill hm | lock hm | pushLock hm | pushUnlock hm | unlock hm | readIsValid hm | printReceived hm =>
      simp only [hm, MainPc.rank]
      omega

theorem workerStep_rank (h : Unread length content q s) (hstep : workerStep s = some s') : s'.rank < s.rank := by
  unfold State.rank
  have hknows := h.knows
  cases workerStep_move hstep with
  | @pullBody first hw =>
      -- a turn of the drain loop, or its end
      have hret : (pullSection s.cb).ret = q.head? := Ret.pull.inj h.holds.pull_ret
      have hpull : Holds length content (pullSection s.cb).cb q.tail := h.holds.step .pull
      rw [hpull.unread_eq, h.holds.unread_eq, List.length_map, List.length_map, hret, hw]
      rw [hw] at hknows
      cases q with
      | nil =>
          have hfirst : first = false := by
            by_contra hne
            exact hknows (by simpa using hne) rfl
          rw [hfirst]
          simp [WorkerPc.rank]
      | cons p q =>
          simp only [List.head?_cons, List.tail_cons, List.length_cons, WorkerPc.rank]
          omega
  | @pullLock first hw hfree =>
      simp only [hw]
      cases first <;> simp only [WorkerPc.rank] <;> omega
  | lock hw | reacquire hw | lengthLock hw | lengthBody hw | lengthUnlock hw | wait hw | goOn hw | pulledNone hw
  | pulled hw | readIsValid hw | printProcessed hw | freePacket hw | freeHeader hw | unlock hw =>
      simp only [hw, WorkerPc.rank]
      omega

/-- **Every step of the threads themselves lowers the rank.** -/
theorem serverStep_rank (h : Unread length content q s) {a : Action} (ha : a.Own)
    (hstep : serverStep s a = some s') : s'.rank < s.rank := by
  cases a with
  | main => exact mainStep_rank h hstep
  | worker => exact workerStep_rank h hstep
  | receive | spurious => exact ha.elim
  | malloc a =>
      obtain ⟨-, m, rfl, hm⟩ := mallocStep_some hstep
      unfold State.rank
      rcases hm with ⟨p, isValid, hm, rfl⟩ | ⟨b, isValid, hm, rfl⟩ <;> simp only [hm, MainPc.rank] <;> omega

/-! ### Rest -/

theorem Live.own_step (h : Live length content s) {a : Action} (ha : a.Own) (hstep : serverStep s a = some s') :
    Live length content s' ∧ s'.rank < s.rank := by
  obtain ⟨q, hunread⟩ := h.unread
  exact ⟨h.step hstep, serverStep_rank hunread ha hstep⟩

/-- When the threads can do nothing of their own, they have nothing to do. -/
theorem Live.atRest (h : Live length content s) (hfinal : ∀ a : Action, a.Own → serverStep s a = none) : s.AtRest := by
  have hstuck : ¬ (MainCanStep s ∨ WorkerCanStep s) := by
    rintro ((⟨t, ht⟩ | ⟨a, t, ht⟩) | ⟨t, ht⟩)
    · exact Option.some_ne_none t (ht.symm.trans (hfinal .main trivial))
    · exact Option.some_ne_none t (ht.symm.trans (hfinal (.malloc a) trivial))
    · exact Option.some_ne_none t (ht.symm.trans (hfinal .worker trivial))
  have hselect : s.main = .select := by
    by_contra hne
    exact hstuck (h.locks.not_stuck h.bounded (Or.inl hne))
  have hwaiting : s.worker = .waiting := by
    by_contra hne
    exact hstuck (h.locks.not_stuck h.bounded (Or.inr hne))
  obtain ⟨q, hunread⟩ := h.unread
  refine ⟨hselect, hwaiting, ?_⟩
  rw [hunread.holds.unread_eq]
  rcases hunread.waiting hwaiting with rfl | hpushed
  · rfl
  · rw [hselect] at hpushed
    cases hpushed

theorem Live.rank_le (h : Live length content s) : s.rank ≤ 16 * length.toNat + 49 := by
  obtain ⟨q, hunread⟩ := h.unread
  have hlen := hunread.holds.length_unread
  have hle := hunread.holds.length_le
  have hmain : s.main.rank ≤ 34 := by cases s.main <;> simp [MainPc.rank]
  have hworker : s.worker.rank ≤ 15 := by
    cases s.worker with
    | pullLock first | pullBody first => cases first <;> simp [WorkerPc.rank]
    | pullUnlock first packet => cases packet <;> simp [WorkerPc.rank]
    | _ => simp [WorkerPc.rank]
  unfold State.rank
  omega

theorem arrivals_own {own : List Action} (hown : ∀ a ∈ own, a.Own) : arrivals own = [] := by
  apply List.filterMap_eq_nil_iff.mpr
  intro a ha
  cases a with
  | receive | spurious => exact (hown _ ha).elim
  | _ => rfl

/-- At rest every packet that has not been lost has been processed. -/
theorem State.AtRest.accounted_eq (h : s.AtRest) (hunread : s.cb.unread = q.map some) (arrived : List Arrival) :
    arrived ++ s.worker.inHand s.heap ++ q.map s.heap.arrival ++ s.main.pending s.heap = arrived := by
  obtain ⟨hselect, hwaiting, hempty⟩ := h
  obtain rfl : q = [] := List.map_eq_nil_iff.mp (hunread.symm.trans hempty)
  rw [hselect, hwaiting]
  simp [WorkerPc.inHand, MainPc.pending]

theorem State.AtRest.isFree (h : s.AtRest) (hinit : Initial length (fun _ => none) s₀)
    (hrun : Reaches serverStep s₀ s) (x : Addr) : s.heap.isFree x := by
  obtain ⟨hselect, hwaiting, hempty⟩ := h
  obtain ⟨q, hown, haccounted⟩ := accounted hinit hrun
  obtain rfl : q = [] := List.map_eq_nil_iff.mp (hown.holds.unread_eq.symm.trans hempty)
  obtain ⟨-, hinUse⟩ := haccounted.inUse hown
  by_contra hx
  have hmem := (hinUse x).mp hx
  unfold State.inUse State.blocks at hmem
  rw [hselect, hwaiting] at hmem
  cases hmem

/-- What a server that has come to rest has done with the packets that it had received. -/
structure Finished (s₀ t : State) (actions own : List Action) (length : UInt32) : Prop where
  atRest : t.AtRest
  freed : ∀ x, t.heap.isFree x
  processed : ∃ lines, t.printed = s₀.printed ++ lines.map Line.text ∧
    (processed lines).Sublist (arrivals actions) ∧
    (processed lines).length + overflows s₀ (actions ++ own) = (arrivals actions).length ∧
    ((arrivals actions).length ≤ length.toNat → processed lines = arrivals actions)

/-- The threads' own steps come to an end. -/
structure ComesToRest (s₀ s : State) (actions : List Action) (length : UInt32) : Prop where
  bound : ∀ own t, (∀ a ∈ own, a.Own) → runActions serverStep s own = some t → own.length ≤ 16 * length.toNat + 49
  possible : ∃ own t, (∀ a ∈ own, a.Own) ∧ runActions serverStep s own = some t ∧
    ∀ a : Action, a.Own → serverStep t a = none
  finished : ∀ own t, (∀ a ∈ own, a.Own) → runActions serverStep s own = some t →
    (∀ a : Action, a.Own → serverStep t a = none) → Finished s₀ t actions own length

/-- **The server comes to rest**, in every order of the threads' steps, and has then processed what it has not lost. -/
theorem server_comes_to_rest {actions : List Action} (hinit : Initial length (fun _ => none) s₀)
    (hrun : runActions serverStep s₀ actions = some s) : ComesToRest s₀ s actions length := by
  have hlive := live hinit (run_of_runActions _ hrun)
  have hrank : ∀ {t u : State} {a : Action}, a.Own → Live length (fun _ => none) t → serverStep t a = some u →
      Live length (fun _ => none) u ∧ u.rank < t.rank := fun ha h hstep => h.own_step ha hstep
  refine ⟨fun own t hown ht => ?_, exists_final_of_ranking hrank hlive, fun own t hown ht hfinal => ?_⟩
  · obtain ⟨-, hle⟩ := length_le_of_ranking hrank hlive hown ht
    have hbound := hlive.rank_le
    omega
  · have hall : runActions serverStep s₀ (actions ++ own) = some t := by
      rw [runActions_append, hrun]
      exact ht
    have harrivals : arrivals (actions ++ own) = arrivals actions := by
      unfold arrivals
      rw [List.filterMap_append]
      exact (congrArg (_ ++ ·) (arrivals_own hown)).trans (List.append_nil _)
    have hreach := run_of_runActions _ hall
    have hrest := (live hinit hreach).atRest hfinal
    obtain ⟨q, g, hholds, hlogged⟩ := serverLog hinit hall
    obtain ⟨hprinted, hunread, horder, hcount, hroom⟩ := hlogged.inOrder hholds
    rw [hrest.accounted_eq hunread, harrivals] at horder hcount
    rw [harrivals] at hroom
    refine ⟨hrest, hrest.isFree hinit hreach, g.lines, hprinted, horder, hcount, fun hle => ?_⟩
    have hzero := hroom hle
    exact horder.eq_of_length (by omega)

theorem server_comes_to_rest_pushed : ∃ s, runActions serverStep start pushOne = some s ∧
    ComesToRest start s pushOne 2 :=
  ⟨_, rfl, server_comes_to_rest start_initial rfl⟩

end OhMySockets
