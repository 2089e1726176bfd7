import Mathlib.Data.List.Induction

/-! # Transition systems

A system is a partial step function `step : σ → ι → Option σ` on states and actions; `none` means
that the action is not possible.  `Run step ok s t` says that `t` is reached from `s` by steps that
all meet the condition `ok` on the state before the step and the action; `ok` is trivial for the
runs of the whole system.

* `Run.invariant` is the induction rule: a property that every step preserves holds along a run;
* `run_of_runActions` turns a list of actions that can be executed into a run;
* `runActions_invariant` is the induction rule for properties of the state and the actions so far;
* `length_le_of_ranking`, `exists_final_of_ranking`: actions that lower a number come to an end. -/

namespace Transition

variable {σ ι : Type*}

/-- `t` is reached from `s` by steps that meet `ok`. -/
inductive Run (step : σ → ι → Option σ) (ok : σ → ι → Prop) (s : σ) : σ → Prop
  | refl : Run step ok s s
  | tail {t u : σ} {i : ι} : Run step ok s t → ok t i → step t i = some u → Run step ok s u

/-- The runs of the whole system. -/
abbrev Reaches (step : σ → ι → Option σ) : σ → σ → Prop := Run step fun _ _ => True

variable {step : σ → ι → Option σ} {ok ok' : σ → ι → Prop} {s t u : σ}

/-- **The invariant rule.** The step may use that its state is reached. -/
theorem Run.invariant {I : σ → Prop} (h : Run step ok s t) (hs : I s)
    (hstep : ∀ {t u i}, Run step ok s t → ok t i → I t → step t i = some u → I u) : I t := by
  induction h with
  | refl => exact hs
  | tail hrun hok hu ih => exact hstep hrun hok ih hu

theorem Run.trans (h : Run step ok s t) (h' : Run step ok t u) : Run step ok s u := by
  induction h' with
  | refl => exact h
  | tail _ hok hu ih => exact .tail ih hok hu

/-- Execute a list of actions. -/
def runActions (step : σ → ι → Option σ) (s : σ) : List ι → Option σ
  | [] => some s
  | i :: is => (step s i).bind fun t => runActions step t is

theorem run_of_runActions (is : List ι) (h : runActions step s is = some t) : Reaches step s t := by
  induction is generalizing s with
  | nil =>
      obtain rfl := Option.some.inj h
      exact .refl
  | cons i is ih =>
      obtain ⟨u, hu, ht⟩ := Option.bind_eq_some_iff.mp h
      exact Run.trans (.tail .refl trivial hu) (ih ht)

/-- Execute a list of actions as long as they meet the condition. -/
def runChecked (step : σ → ι → Option σ) (ok : σ → ι → Prop) [∀ s i, Decidable (ok s i)] (s : σ) : List ι → Option σ
  | [] => some s
  | i :: is => if ok s i then (step s i).bind fun t => runChecked step ok t is else none

theorem run_of_runChecked [∀ s i, Decidable (ok s i)] (is : List ι) (h : runChecked step ok s is = some t) :
    Run step ok s t := by
  induction is generalizing s with
  | nil =>
      obtain rfl := Option.some.inj h
      exact .refl
  | cons i is ih =>
      unfold runChecked at h
      split_ifs at h with hok
      obtain ⟨u, hu, ht⟩ := Option.bind_eq_some_iff.mp h
      exact Run.trans (.tail .refl hok hu) (ih ht)

theorem runActions_append (is js : List ι) :
    runActions step s (is ++ js) = (runActions step s is).bind fun t => runActions step t js := by
  induction is generalizing s with
  | nil => rfl
  | cons i is ih =>
      show (step s i).bind (fun t => runActions step t (is ++ js)) = _
      cases hi : step s i with
      | none => simp [runActions, hi]
      | some u => simp [runActions, hi, ih]

theorem runActions_concat (is : List ι) (i : ι) :
    runActions step s (is ++ [i]) = (runActions step s is).bind fun t => step t i := by
  rw [runActions_append]
  congr 1
  funext t
  show (step t i).bind some = step t i
  cases step t i <;> rfl

/-- The invariant rule for the executions of lists of actions: the property may depend on the actions so far. -/
theorem runActions_invariant {I : List ι → σ → Prop} {is : List ι} (h : runActions step s is = some t)
    (hs : I [] s) (hstep : ∀ {is t u i}, runActions step s is = some t → I is t → step t i = some u → I (is ++ [i]) u) :
    I is t := by
  induction is using List.reverseRecOn generalizing t with
  | nil =>
      obtain rfl := Option.some.inj h
      exact hs
  | append_singleton is i ih =>
      rw [runActions_concat] at h
      obtain ⟨u, hu, ht⟩ := Option.bind_eq_some_iff.mp h
      exact hstep hu (ih hu) ht

/-! ### Rankings -/

section ranking

variable {I : σ → Prop} {μ : σ → ℕ} {allowed : ι → Prop}

/-- **The ranking rule.** When every allowed action lowers `μ`, there are at most `μ s` of them in a row. -/
theorem length_le_of_ranking (hstep : ∀ {t u i}, allowed i → I t → step t i = some u → I u ∧ μ u < μ t) (hs : I s)
    {is : List ι} (his : ∀ i ∈ is, allowed i) (h : runActions step s is = some t) : I t ∧ is.length + μ t ≤ μ s := by
  induction is generalizing s with
  | nil =>
      obtain rfl := Option.some.inj h
      exact ⟨hs, Nat.le_of_eq (Nat.zero_add _)⟩
  | cons i is ih =>
      obtain ⟨u, hu, ht⟩ := Option.bind_eq_some_iff.mp h
      obtain ⟨hinv, hlt⟩ := hstep (his i List.mem_cons_self) hs hu
      obtain ⟨ht, hle⟩ := ih hinv (fun j hj => his j (List.mem_cons_of_mem i hj)) ht
      refine ⟨ht, ?_⟩
      rw [List.length_cons]
      omega

/-- Every state can go on, by allowed actions, to one in which none of them is possible. -/
theorem exists_final_of_ranking (hstep : ∀ {t u i}, allowed i → I t → step t i = some u → I u ∧ μ u < μ t)
    (hs : I s) : ∃ is t, (∀ i ∈ is, allowed i) ∧ runActions step s is = some t ∧ ∀ i, allowed i → step t i = none := by
  induction hn : μ s using Nat.strongRecOn generalizing s with
  | ind n ih =>
      by_cases hfinal : ∀ i, allowed i → step s i = none
      · exact ⟨[], s, by simp, rfl, hfinal⟩
      · obtain ⟨i, hi⟩ := not_forall.mp hfinal
        obtain ⟨hallowed, hi⟩ := Classical.not_imp.mp hi
        obtain ⟨u, hu⟩ := Option.ne_none_iff_exists'.mp hi
        obtain ⟨hinv, hlt⟩ := hstep hallowed hs hu
        obtain ⟨is, t, his, ht, hfinal⟩ := ih (μ u) (hn ▸ hlt) hinv rfl
        refine ⟨i :: is, t, fun j hj => ?_, ?_, hfinal⟩
        · rcases List.mem_cons.mp hj with rfl | hj
          · exact hallowed
          · exact his j hj
        · show (step s i).bind (fun u => runActions step u is) = some t
          rw [hu]
          exact ht

end ranking

end Transition
