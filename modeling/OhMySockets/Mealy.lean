import Mathlib.Data.List.Forall2
import Mathlib.Data.Nat.Notation

/-! # Deterministic machines with outputs

A machine is a function `step : σ → ι → σ × ο`; `run step s is` feeds it a list of inputs and
returns the final state and the outputs, one for each input.

* `run_append` splits a run;
* `run_invariant` is the induction rule for one machine;
* `run_simulation` is the rule for two machines that read the same inputs: a relation between
  their states that every step preserves, while the outputs of the step agree, makes the outputs
  of the runs agree one by one; `map_outputs_eq` is its form for equal readings of the outputs. -/

namespace Mealy

variable {σ τ ι ο ω : Type*}

/-- The final state and the outputs of a machine on a list of inputs. -/
def run (step : σ → ι → σ × ο) : σ → List ι → σ × List ο
  | s, [] => (s, [])
  | s, i :: is => ((run step (step s i).1 is).1, (step s i).2 :: (run step (step s i).1 is).2)

variable {step : σ → ι → σ × ο} {step' : τ → ι → τ × ω}

theorem run_cons (s : σ) (i : ι) (is : List ι) :
    run step s (i :: is) =
      ((run step (step s i).1 is).1, (step s i).2 :: (run step (step s i).1 is).2) := rfl

theorem run_append (s : σ) (is js : List ι) : run step s (is ++ js) =
    ((run step (run step s is).1 js).1, (run step s is).2 ++ (run step (run step s is).1 js).2) := by
  induction is generalizing s with
  | nil => rfl
  | cons i is ih => simp [run_cons, ih]

theorem run_concat (s : σ) (is : List ι) (i : ι) : run step s (is ++ [i]) =
    ((step (run step s is).1 i).1, (run step s is).2 ++ [(step (run step s is).1 i).2]) := by
  rw [run_append]
  rfl

theorem run_map {κ : Type*} (f : κ → ι) (s : σ) (ks : List κ) :
    run step s (ks.map f) = run (fun s k => step s (f k)) s ks := by
  induction ks generalizing s with
  | nil => rfl
  | cons k ks ih => simp [run_cons, ih]

theorem run_invariant {I : σ → Prop} {is : List ι} (hstep : ∀ s, ∀ i ∈ is, I s → I (step s i).1)
    {s : σ} (h : I s) : I (run step s is).1 := by
  induction is generalizing s with
  | nil => exact h
  | cons i is ih =>
      exact ih (fun s j hj => hstep s j (List.mem_cons_of_mem i hj)) (hstep s i (List.mem_cons_self) h)

/-- Related states stay related, and related runs have pairwise related outputs. -/
theorem run_simulation {R : σ → τ → Prop} {A : ο → ω → Prop} {is : List ι}
    (hstep : ∀ s t, ∀ i ∈ is, R s t → R (step s i).1 (step' t i).1 ∧ A (step s i).2 (step' t i).2)
    {s : σ} {t : τ} (h : R s t) :
    R (run step s is).1 (run step' t is).1 ∧ List.Forall₂ A (run step s is).2 (run step' t is).2 := by
  induction is generalizing s t with
  | nil => exact ⟨h, List.Forall₂.nil⟩
  | cons i is ih =>
      obtain ⟨hR, hA⟩ := hstep s t i List.mem_cons_self h
      obtain ⟨hR', hA'⟩ := ih (fun s t j hj => hstep s t j (List.mem_cons_of_mem i hj)) hR
      exact ⟨hR', List.Forall₂.cons hA hA'⟩

/-- Outputs that agree at every step under two readings are equal under these readings. -/
theorem map_outputs_eq {κ : Type*} {R : σ → τ → Prop} {f : ο → κ} {g : ω → κ} {is : List ι}
    (hstep : ∀ s t, ∀ i ∈ is, R s t → R (step s i).1 (step' t i).1 ∧ f (step s i).2 = g (step' t i).2)
    {s : σ} {t : τ} (h : R s t) : (run step s is).2.map f = (run step' t is).2.map g := by
  have hout := (run_simulation (A := fun o w => f o = g w) hstep h).2
  rwa [← List.forall₂_eq_eq_eq, List.forall₂_map_left_iff, List.forall₂_map_right_iff]

end Mealy
