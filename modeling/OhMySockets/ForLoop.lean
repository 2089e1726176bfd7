import OhMySockets.WhileLoop

/-! # Counting loops that can be left

`forLoop test next body fuel s` is the loop `for (; test; next) body` from the state `s`, with at most `fuel` tests.
The counter is a part of the state.  The body may go on, leave the loop with a result, or not return at all.

* `forLoop_returns`: the rule of total correctness, for an invariant that is indexed by the counter. -/

namespace WhileLoop

variable {σ τ : Type*}

/-- A turn that goes on satisfies `I`, one that leaves satisfies `Q`. -/
def Turn.Sat (I : σ → Prop) (Q : τ → Prop) : Turn σ τ → Prop
  | .again s => I s
  | .leave t => Q t

theorem Turn.Sat.mono {I I' : σ → Prop} {Q Q' : τ → Prop} {r : Turn σ τ} (h : r.Sat I Q)
    (hI : ∀ s, I s → I' s) (hQ : ∀ t, Q t → Q' t) : r.Sat I' Q' := by
  cases r with
  | again s => exact hI s h
  | leave t => exact hQ t h

/-- What follows a turn that goes on. -/
def Turn.andThen (next : σ → Option (Turn σ τ)) : Turn σ τ → Option (Turn σ τ)
  | .again s => next s
  | .leave t => some (.leave t)

/-- `for (; test; next) body`, with at most `fuel` tests. -/
def forLoop (test : σ → Bool) (next : σ → σ) (body : σ → Option (Turn σ τ)) : ℕ → σ → Option (Turn σ τ)
  | 0, _ => none
  | fuel + 1, s =>
      if test s then (body s).bind (Turn.andThen fun s' => forLoop test next body fuel (next s'))
      else some (.again s)

variable {test : σ → Bool} {next : σ → σ} {body : ℕ → σ → Option (Turn σ τ)} {I : ℕ → σ → Prop} {Q : τ → Prop} {n : ℕ}

/-- The rule with the fuel of the body apart from that of the loop: `d` turns are still to come. -/
theorem forLoop_turns (htest : ∀ k s, k ≤ n → I k s → (test s = true ↔ k < n))
    (hbody : ∀ k s, k < n → I k s →
      ∃ r, Returns (fun fuel => body fuel s) r ∧ r.Sat (fun s' => I (k + 1) (next s')) Q)
    {d i : ℕ} (hd : i + d = n) {s : σ} (hs : I i s) :
    ∃ r N, (∀ fuel turns, N ≤ fuel → d < turns → forLoop test next (body fuel) turns s = some r) ∧ r.Sat (I n) Q := by
  induction d generalizing i s with
  | zero =>
      obtain rfl : i = n := hd
      refine ⟨.again s, 0, fun fuel turns _ hturns => ?_, hs⟩
      obtain ⟨turns, rfl⟩ := Nat.exists_eq_add_one_of_ne_zero (Nat.ne_of_gt hturns)
      rw [forLoop, if_neg fun h => Nat.lt_irrefl _ ((htest i s (Nat.le_refl i) hs).mp h)]
  | succ d ih =>
      have hlt : i < n := by omega
      obtain ⟨r', ⟨N', hr'⟩, hsat⟩ := hbody i s hlt hs
      have hgoes : test s = true := (htest i s (Nat.le_of_lt hlt) hs).mpr hlt
      -- a test that succeeds leaves the result to the body and the rest of the loop
      have hturn (fuel turns : ℕ) (hfuel : N' ≤ fuel) : forLoop test next (body fuel) (turns + 1) s =
          r'.andThen fun s' => forLoop test next (body fuel) turns (next s') := by
        have hreturns : body fuel s = some r' := hr' fuel hfuel
        rw [forLoop, if_pos hgoes, hreturns, Option.bind_some]
      cases r' with
      | leave t =>
          refine ⟨.leave t, N', fun fuel turns hfuel hturns => ?_, hsat⟩
          obtain ⟨turns, rfl⟩ := Nat.exists_eq_add_one_of_ne_zero (Nat.ne_of_gt (Nat.zero_lt_of_lt hturns))
          exact hturn fuel turns hfuel
      | again s' =>
          obtain ⟨r, N, hr, hsat⟩ := ih (by omega) hsat
          refine ⟨r, max N N', fun fuel turns hfuel hturns => ?_, hsat⟩
          obtain ⟨turns, rfl⟩ := Nat.exists_eq_add_one_of_ne_zero (Nat.ne_of_gt (Nat.zero_lt_of_lt hturns))
          rw [hturn fuel turns (by omega)]
          exact hr fuel turns (by omega) (by omega)

/-- **The rule of total correctness.**  Every body that the invariant allows returns, and the test compares the
counter with `n`. -/
theorem forLoop_returns (htest : ∀ k s, k ≤ n → I k s → (test s = true ↔ k < n))
    (hbody : ∀ k s, k < n → I k s →
      ∃ r, Returns (fun fuel => body fuel s) r ∧ r.Sat (fun s' => I (k + 1) (next s')) Q)
    {s : σ} (hs : I 0 s) :
    ∃ r, Returns (fun fuel => forLoop test next (body fuel) fuel s) r ∧ r.Sat (I n) Q := by
  obtain ⟨r, N, hr, hsat⟩ := forLoop_turns htest hbody (Nat.zero_add n) hs
  exact ⟨r, ⟨max N (n + 1), fun fuel hfuel => hr fuel fuel (by omega) (by omega)⟩, hsat⟩

end WhileLoop
