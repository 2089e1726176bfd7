import Mathlib.Data.Nat.Notation

/-! # Loops that need not end

A loop is given by its turns: a turn goes on in a new state, or leaves the loop with a result.
`run turn fuel s` makes at most `fuel` turns; `Ends turn s t` says that the loop started in `s` is
left with the result `t` after some number of turns.

* `run_mono`, `Ends.unique`: more fuel does not change the result;
* `run_of_variant`: the rule of total correctness, with an invariant and a variant that bounds the
  number of turns;
* `ends_iff_of_again`: a turn that goes on leaves the result to the rest of the loop;
* `not_ends`: a loop that goes on from every state of an invariant never ends;
* `Reached turn s s'`: the loop started in `s` comes to a turn in `s'`; `Reached.ends_iff`: it ends
  as if started there;
* `Returns f a`: a computation with fuel gives `a` from some amount of fuel on; it composes
  (`Returns.bind`, `Returns.map`), and for a loop it means that the loop ends (`returns_run`). -/

namespace WhileLoop

/-- One turn of a loop. -/
inductive Turn (σ τ : Type*) where
  | again (s : σ)
  | leave (t : τ)

variable {σ τ : Type*}

/-- At most `fuel` turns; `none` if the loop has not been left by then. -/
def run (turn : σ → Turn σ τ) : ℕ → σ → Option τ
  | 0, _ => none
  | fuel + 1, s =>
      match turn s with
      | .again s' => run turn fuel s'
      | .leave t => some t

/-- The loop started in `s` is left with `t`. -/
def Ends (turn : σ → Turn σ τ) (s : σ) (t : τ) : Prop := ∃ fuel, run turn fuel s = some t

variable {turn : σ → Turn σ τ} {s s' : σ} {t t' : τ}

theorem run_succ_again (h : turn s = .again s') (fuel : ℕ) : run turn (fuel + 1) s = run turn fuel s' := by
  rw [run, h]

theorem run_succ_leave (h : turn s = .leave t) (fuel : ℕ) : run turn (fuel + 1) s = some t := by
  rw [run, h]

theorem run_mono {fuel fuel' : ℕ} (h : run turn fuel s = some t) (hle : fuel ≤ fuel') :
    run turn fuel' s = some t := by
  induction fuel generalizing s fuel' with
  | zero => cases h
  | succ fuel ih =>
      cases fuel' with
      | zero => exact absurd hle (Nat.not_succ_le_zero fuel)
      | succ fuel' =>
          cases hturn : turn s with
          | again s' =>
              rw [run_succ_again hturn] at h ⊢
              exact ih h (Nat.le_of_succ_le_succ hle)
          | leave t' =>
              rw [run_succ_leave hturn] at h ⊢
              exact h

theorem Ends.unique (h : Ends turn s t) (h' : Ends turn s t') : t = t' := by
  obtain ⟨fuel, hrun⟩ := h
  obtain ⟨fuel', hrun'⟩ := h'
  have hmax := run_mono hrun (Nat.le_max_left fuel fuel')
  rw [run_mono hrun' (Nat.le_max_right fuel fuel')] at hmax
  exact (Option.some.inj hmax).symm

theorem ends_of_leave (h : turn s = .leave t) : Ends turn s t := ⟨1, run_succ_leave h 0⟩

theorem ends_iff_of_again (h : turn s = .again s') : Ends turn s t ↔ Ends turn s' t := by
  constructor
  · rintro ⟨fuel, hrun⟩
    cases fuel with
    | zero => cases hrun
    | succ fuel => exact ⟨fuel, by rw [← run_succ_again h, hrun]⟩
  · rintro ⟨fuel, hrun⟩
    exact ⟨fuel + 1, by rw [run_succ_again h, hrun]⟩

/-- **Total correctness**: the turns keep the invariant and make the variant smaller. -/
theorem run_of_variant {I : σ → Prop} {Q : τ → Prop} (variant : σ → ℕ)
    (hagain : ∀ s s', I s → turn s = .again s' → I s' ∧ variant s' < variant s)
    (hleave : ∀ s t, I s → turn s = .leave t → Q t) {fuel : ℕ} (hs : I s) (hfuel : variant s < fuel) :
    ∃ t, run turn fuel s = some t ∧ Q t := by
  induction fuel generalizing s with
  | zero => exact absurd hfuel (Nat.not_lt_zero _)
  | succ fuel ih =>
      cases hturn : turn s with
      | again s' =>
          obtain ⟨hs', hlt⟩ := hagain s s' hs hturn
          rw [run_succ_again hturn]
          exact ih hs' (Nat.lt_of_lt_of_le hlt (Nat.le_of_lt_succ hfuel))
      | leave t => exact ⟨t, run_succ_leave hturn fuel, hleave s t hs hturn⟩

/-- **Divergence**: every turn goes on. -/
theorem not_ends {I : σ → Prop} (hagain : ∀ s, I s → ∃ s', turn s = .again s' ∧ I s') (hs : I s) (t : τ) :
    ¬ Ends turn s t := by
  rintro ⟨fuel, hrun⟩
  induction fuel generalizing s with
  | zero => cases hrun
  | succ fuel ih =>
      obtain ⟨s', hturn, hs'⟩ := hagain s hs
      rw [run_succ_again hturn] at hrun
      exact ih hs' hrun

/-- A fact about a start and a result holds when the last turn gives it and every other turn keeps it. -/
theorem Ends.induct {P : σ → τ → Prop} (hleave : ∀ s t, turn s = .leave t → P s t)
    (hagain : ∀ s s' t, turn s = .again s' → P s' t → P s t) (h : Ends turn s t) : P s t := by
  obtain ⟨fuel, hrun⟩ := h
  induction fuel generalizing s with
  | zero => cases hrun
  | succ fuel ih =>
      cases hturn : turn s with
      | again s' =>
          rw [run_succ_again hturn] at hrun
          exact hagain s s' t hturn (ih hrun)
      | leave t' =>
          rw [run_succ_leave hturn] at hrun
          exact hleave s t (by rw [hturn, Option.some.inj hrun])

/-! ### The states at the start of a turn -/

/-- The loop started in `s` comes to a turn in `s'`. -/
inductive Reached (turn : σ → Turn σ τ) (s : σ) : σ → Prop where
  | start : Reached turn s s
  | again {s' s'' : σ} (h : Reached turn s s') (hturn : turn s' = .again s'') : Reached turn s s''

theorem Reached.ends_iff (h : Reached turn s s') : Ends turn s t ↔ Ends turn s' t := by
  induction h with
  | start => exact Iff.rfl
  | again _ hturn ih => rw [ih, ends_iff_of_again hturn]

/-! ### Computations with fuel -/

variable {α β : Type*}

/-- A computation gives `a` from some amount of fuel on. -/
def Returns (f : ℕ → Option α) (a : α) : Prop := ∃ n, ∀ fuel, n ≤ fuel → f fuel = some a

theorem returns_const (a : α) : Returns (fun _ => some a) a := ⟨0, fun _ _ => rfl⟩

theorem Returns.unique {f : ℕ → Option α} {a a' : α} (h : Returns f a) (h' : Returns f a') : a = a' := by
  obtain ⟨n, hn⟩ := h
  obtain ⟨n', hn'⟩ := h'
  have heq := hn (max n n') (Nat.le_max_left n n')
  rw [hn' (max n n') (Nat.le_max_right n n')] at heq
  exact (Option.some.inj heq).symm

theorem Returns.bind {f : ℕ → Option α} {g : α → ℕ → Option β} {a : α} {b : β} (h : Returns f a)
    (h' : Returns (g a) b) : Returns (fun fuel => (f fuel).bind fun x => g x fuel) b := by
  obtain ⟨n, hn⟩ := h
  obtain ⟨n', hn'⟩ := h'
  refine ⟨max n n', fun fuel hfuel => ?_⟩
  dsimp only
  rw [hn fuel (Nat.le_trans (Nat.le_max_left n n') hfuel), Option.bind_some]
  exact hn' fuel (Nat.le_trans (Nat.le_max_right n n') hfuel)

theorem Returns.map {f : ℕ → Option α} {a : α} (g : α → β) (h : Returns f a) :
    Returns (fun fuel => (f fuel).map g) (g a) := by
  obtain ⟨n, hn⟩ := h
  refine ⟨n, fun fuel hfuel => ?_⟩
  dsimp only
  rw [hn fuel hfuel, Option.map_some]

theorem returns_run (h : Ends turn s t) : Returns (fun fuel => run turn fuel s) t := by
  obtain ⟨n, hn⟩ := h
  exact ⟨n, fun fuel hfuel => run_mono hn hfuel⟩

/-- What is computed from the result of a loop is returned only when the loop ends. -/
theorem ends_of_returns_map {g : τ → β} {b : β} (h : Returns (fun fuel => (run turn fuel s).map g) b) :
    ∃ t, Ends turn s t ∧ g t = b := by
  obtain ⟨n, hn⟩ := h
  obtain ⟨t, hrun, hb⟩ := Option.map_eq_some_iff.mp (hn n (Nat.le_refl n))
  exact ⟨t, ⟨n, hrun⟩, hb⟩

end WhileLoop
