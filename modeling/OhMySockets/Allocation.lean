import Mathlib.Data.List.Nodup
import Mathlib.Logic.Function.Basic

/-! # Heap blocks

The life of the blocks that `malloc` and `free` manage.  `Owned life blocks` says that the listed
blocks are distinct and live; it is the invariant of a program that always knows which blocks it
may still use.  The rules say how it moves: a new block is never one of the owned ones
(`Owned.of_not_live`), a block that becomes live joins them (`Owned.cons`), and a block that is
freed leaves them, while the others stay live (`Owned.free`).  `Covers life blocks` says the converse,
that every live block is listed: nothing is lost. -/

namespace Allocation

/-- The state of an address: never handed out, handed out but not filled in, in use, freed. -/
inductive Life where
  | unused
  | allocated
  | live
  | released
deriving DecidableEq

variable {Addr : Type*}

/-- The blocks are distinct, and all are live. -/
structure Owned (life : Addr → Life) (blocks : List Addr) : Prop where
  nodup : blocks.Nodup
  live : ∀ x ∈ blocks, life x = .live

variable {life : Addr → Life} {blocks blocks' : List Addr} {x : Addr}

theorem Owned.nil : Owned life [] := ⟨List.nodup_nil, fun _ h => absurd h List.not_mem_nil⟩

theorem Owned.perm (h : Owned life blocks) (hperm : blocks.Perm blocks') : Owned life blocks' :=
  ⟨hperm.nodup_iff.mp h.nodup, fun y hy => h.live y (hperm.mem_iff.mpr hy)⟩

theorem Owned.not_mem (h : Owned life blocks) (hx : life x ≠ .live) : x ∉ blocks :=
  fun hmem => hx (h.live x hmem)

variable [DecidableEq Addr]

/-- Whatever happens to a block that is not live does not concern the owned ones. -/
theorem Owned.of_not_live (h : Owned life blocks) (hx : life x ≠ .live) (l : Life) :
    Owned (Function.update life x l) blocks := by
  refine ⟨h.nodup, fun y hy => ?_⟩
  have hne : y ≠ x := fun he => h.not_mem hx (he ▸ hy)
  rw [Function.update_of_ne hne, h.live y hy]

theorem Owned.cons (h : Owned life blocks) (hx : life x ≠ .live) :
    Owned (Function.update life x .live) (x :: blocks) := by
  refine ⟨List.nodup_cons.mpr ⟨h.not_mem hx, h.nodup⟩, fun y hy => ?_⟩
  rcases List.mem_cons.mp hy with rfl | hy
  · exact Function.update_self ..
  · exact (h.of_not_live hx .live).live y hy

theorem Owned.free (h : Owned life (x :: blocks)) :
    Owned (Function.update life x .released) blocks := by
  obtain ⟨hx, hnd⟩ := List.nodup_cons.mp h.nodup
  refine ⟨hnd, fun y hy => ?_⟩
  have hne : y ≠ x := fun he => hx (he ▸ hy)
  rw [Function.update_of_ne hne, h.live y (List.mem_cons_of_mem x hy)]

/-- Two blocks that are freed, the second one first. -/
theorem Owned.free_both {y : Addr} (h : Owned life (x :: y :: blocks)) :
    Owned (Function.update (Function.update life y .released) x .released) blocks :=
  (h.perm (List.Perm.swap y x blocks)).free.free

/-! ### Nothing is lost -/

/-- Every live block is listed. -/
def Covers (life : Addr → Life) (blocks : List Addr) : Prop := ∀ x, life x = .live → x ∈ blocks

omit [DecidableEq Addr] in
theorem Covers.mono (h : Covers life blocks) (hsub : blocks ⊆ blocks') : Covers life blocks' :=
  fun y hy => hsub (h y hy)

theorem Covers.cons (h : Covers life blocks) (x : Addr) : Covers (Function.update life x .live) (x :: blocks) := by
  intro y hy
  by_cases hyx : y = x
  · rw [hyx]
    exact List.mem_cons_self
  · rw [Function.update_of_ne hyx] at hy
    exact List.mem_cons_of_mem x (h y hy)

theorem Covers.update (h : Covers life blocks) (x : Addr) {l : Life} (hl : l ≠ .live) :
    Covers (Function.update life x l) blocks := by
  intro y hy
  by_cases hyx : y = x
  · rw [hyx, Function.update_self] at hy
    exact absurd hy hl
  · rw [Function.update_of_ne hyx] at hy
    exact h y hy

theorem Covers.free (h : Covers life (x :: blocks)) : Covers (Function.update life x .released) blocks := by
  intro y hy
  by_cases hyx : y = x
  · rw [hyx, Function.update_self] at hy
    cases hy
  · rw [Function.update_of_ne hyx] at hy
    exact (List.mem_cons.mp (h y hy)).resolve_left hyx

end Allocation
