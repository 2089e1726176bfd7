import Mathlib.Data.List.Basic
import Mathlib.Tactic.Ring

/-! # Hashing by blocks

A hash function with a compression function `compress : σ → List β → σ` consumes a message in
blocks of `size` bytes.  `absorb iv msg` is the state after all full blocks of `msg` and
`residue msg` is what is left, less than one block.

* `absorb_append`, `residue_append`: a message can be consumed in pieces, if what is left of one
  piece is put in front of the next;
* `Absorbed iv msg s pending`: an implementation that keeps the state `s` and the bytes `pending` has
  consumed `msg`; it can store more bytes (`Absorbed.keep`) and complete a block (`Absorbed.fill`). -/

namespace BlockHash

variable {σ β : Type*} (size : ℕ) (compress : σ → List β → σ)

/-- The state after the first `n` blocks of a message. -/
def absorbBlocks : ℕ → σ → List β → σ
  | 0, s, _ => s
  | n + 1, s, msg => absorbBlocks n (compress s (msg.take size)) (msg.drop size)

/-- The state after the full blocks of a message. -/
def absorb (s : σ) (msg : List β) : σ := absorbBlocks size compress (msg.length / size) s msg

/-- What the full blocks of a message leave. -/
def residue (msg : List β) : List β := msg.drop (size * (msg.length / size))

variable {size : ℕ} {compress : σ → List β → σ}

theorem absorb_of_lt {s : σ} {msg : List β} (h : msg.length < size) : absorb size compress s msg = s := by
  unfold absorb
  rw [Nat.div_eq_of_lt h]
  rfl

theorem residue_of_lt {msg : List β} (h : msg.length < size) : residue size msg = msg := by
  unfold residue
  rw [Nat.div_eq_of_lt h, Nat.mul_zero, List.drop_zero]

theorem absorb_nil (hsize : 0 < size) (s : σ) : absorb size compress s [] = s := absorb_of_lt hsize

theorem residue_nil (hsize : 0 < size) : residue size ([] : List β) = [] := residue_of_lt hsize

theorem absorb_block (hsize : 0 < size) {s : σ} {block : List β} (h : block.length = size) (msg : List β) :
    absorb size compress s (block ++ msg) = absorb size compress (compress s block) msg := by
  have hdiv : (block ++ msg).length / size = msg.length / size + 1 := by
    rw [List.length_append, h, Nat.add_div_left _ hsize]
  unfold absorb
  rw [hdiv, absorbBlocks, List.take_left' h, List.drop_left' h]

theorem residue_block (hsize : 0 < size) {block : List β} (h : block.length = size) (msg : List β) :
    residue size (block ++ msg) = residue size msg := by
  have hdiv : (block ++ msg).length / size = msg.length / size + 1 := by
    rw [List.length_append, h, Nat.add_div_left _ hsize]
  unfold residue
  rw [hdiv, Nat.mul_succ, Nat.add_comm, ← List.drop_drop, List.drop_left' h]

theorem absorb_single (hsize : 0 < size) {s : σ} {block : List β} (h : block.length = size) :
    absorb size compress s block = compress s block := by
  have hall : absorb size compress s (block ++ []) = absorb size compress (compress s block) [] :=
    absorb_block hsize h []
  rwa [absorb_nil hsize, List.append_nil] at hall

theorem residue_single (hsize : 0 < size) {block : List β} (h : block.length = size) :
    residue size block = [] := by
  have hall := residue_block hsize h []
  rwa [residue_nil hsize, List.append_nil] at hall

theorem exists_block {msg : List β} (h : size ≤ msg.length) :
    ∃ block rest, msg = block ++ rest ∧ block.length = size :=
  ⟨msg.take size, msg.drop size, (List.take_append_drop size msg).symm,
    by rw [List.length_take, Nat.min_eq_left h]⟩

/-- **Consuming in two pieces.**  What is left of the first piece goes in front of the second. -/
theorem absorb_append (hsize : 0 < size) (s : σ) (msg rest : List β) :
    absorb size compress s (msg ++ rest) =
      absorb size compress (absorb size compress s msg) (residue size msg ++ rest) := by
  -- by induction on the length of the first piece, a block at a time
  induction hn : msg.length using Nat.strong_induction_on generalizing s msg with
  | _ n ih =>
      rcases Nat.lt_or_ge msg.length size with hlt | hge
      · rw [absorb_of_lt hlt, residue_of_lt hlt]
      · obtain ⟨block, msg, rfl, hblock⟩ := exists_block hge
        rw [List.append_assoc, absorb_block hsize hblock, absorb_block hsize hblock,
          residue_block hsize hblock]
        apply ih msg.length ?_ _ _ rfl
        rw [← hn, List.length_append]
        omega

theorem residue_append (hsize : 0 < size) (msg rest : List β) :
    residue size (msg ++ rest) = residue size (residue size msg ++ rest) := by
  induction hn : msg.length using Nat.strong_induction_on generalizing msg with
  | _ n ih =>
      rcases Nat.lt_or_ge msg.length size with hlt | hge
      · rw [residue_of_lt hlt]
      · obtain ⟨block, msg, rfl, hblock⟩ := exists_block hge
        rw [List.append_assoc, residue_block hsize hblock, residue_block hsize hblock]
        apply ih msg.length ?_ _ rfl
        rw [← hn, List.length_append]
        omega

/-! ### Implementations that keep a state and a partial block -/

/-- The state `s` and the bytes `pending` stand for the message `msg`. -/
structure Absorbed (size : ℕ) (compress : σ → List β → σ) (iv : σ) (msg : List β) (s : σ)
    (pending : List β) : Prop where
  state : s = absorb size compress iv msg
  pending : pending = residue size msg

namespace Absorbed

variable {iv s : σ} {msg pending : List β}

theorem start (hsize : 0 < size) (iv : σ) : Absorbed size compress iv [] iv [] where
  state := (absorb_nil hsize iv).symm
  pending := (residue_nil hsize).symm

theorem append (hsize : 0 < size) (h : Absorbed size compress iv msg s pending) (bs : List β) :
    Absorbed size compress iv (msg ++ bs) (absorb size compress s (pending ++ bs))
      (residue size (pending ++ bs)) where
  state := by rw [absorb_append hsize iv msg, ← h.state, ← h.pending]
  pending := by rw [residue_append hsize msg, ← h.pending]

theorem keep (hsize : 0 < size) (h : Absorbed size compress iv msg s pending) {bs : List β}
    (hlt : (pending ++ bs).length < size) : Absorbed size compress iv (msg ++ bs) s (pending ++ bs) := by
  have hall := h.append hsize bs
  rwa [absorb_of_lt hlt, residue_of_lt hlt] at hall

/-- Bytes that complete the block lead to one compression. -/
theorem fill (hsize : 0 < size) (h : Absorbed size compress iv msg s pending) {bs : List β}
    (heq : (pending ++ bs).length = size) :
    Absorbed size compress iv (msg ++ bs) (compress s (pending ++ bs)) [] := by
  have hall := h.append hsize bs
  rwa [absorb_single hsize heq, residue_single hsize heq] at hall

end Absorbed

end BlockHash
