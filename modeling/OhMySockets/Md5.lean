import OhMySockets.Memory
import OhMySockets.BlockHash
import OhMySockets.Md5Process

/-! # MD5 over a stream of chunks

The functions of `md5.c` on a context: `mbedtls_md5_init`, `mbedtls_md5_starts_ret`, `mbedtls_md5_update_ret`,
`mbedtls_md5_finish_ret` and `mbedtls_md5_ret`.  The input is read from memory and the digest is written to
it.  The array `ctx->buffer` is the last member of the context; its bytes from 64 on are what lies
behind the context.  `Rfc1321.md5` is the digest of a message that is there as a whole. -/

namespace OhMySockets

open ByteMemory BlockHash

/-- `mbedtls_md5_context`. -/
structure Md5Context where
  total0 : UInt32
  total1 : UInt32
  state : Registers
  buffer : Mem

/-- `mbedtls_md5_init`: `memset` over the whole context. -/
def mbedtlsMd5Init (ctx : Md5Context) : Md5Context :=
  ⟨0, 0, ⟨0, 0, 0, 0⟩, writeBytes ctx.buffer 0 (List.replicate 64 0)⟩

/-- `mbedtls_md5_starts_ret`. -/
def mbedtlsMd5StartsRet (ctx : Md5Context) : Md5Context :=
  { ctx with
    total0 := 0
    total1 := 0
    state := ⟨0x67452301, 0xEFCDAB89, 0x98BADCFE, 0x10325476⟩ }

/-- The loop `while (ilen >= 64)` of `mbedtls_md5_update_ret`; the result is `ctx->state`, `input` and `ilen`
behind it. -/
def updateBlocks (state : Registers) (input ilen : ℕ) : Cmd (Registers × ℕ × ℕ) :=
  if 64 ≤ ilen then do
    let data ← load input 64
    updateBlocks (mbedtlsInternalMd5Process state data) (input + 64) (ilen - 64)
  else
    pure (state, input, ilen)
termination_by ilen

/-- `mbedtls_md5_update_ret` from the loop on. -/
def updateRest (ctx : Md5Context) (left input ilen : ℕ) : Cmd Md5Context := do
  let (state, input, ilen) ← updateBlocks ctx.state input ilen
  if 0 < ilen then do
    let bs ← load input ilen
    pure { ctx with state := state, buffer := writeBytes ctx.buffer left bs }
  else
    pure { ctx with state := state }

/-- The two words of `ctx->total` with `ilen` added. -/
def addTotal (ctx : Md5Context) (ilen : ℕ) : Md5Context :=
  let total0 := (ctx.total0 + UInt32.ofNat ilen) &&& 0xFFFFFFFF
  { ctx with
    total0 := total0
    total1 := if total0 < UInt32.ofNat ilen then ctx.total1 + 1 else ctx.total1 }

/-- A full buffer: the bytes `bs` behind the first `left`, and one block. -/
def fillBuffer (ctx : Md5Context) (left : ℕ) (bs : List UInt8) : Md5Context :=
  let buffer := writeBytes ctx.buffer left bs
  { ctx with
    state := mbedtlsInternalMd5Process ctx.state (bytesAt buffer 0 64)
    buffer := buffer }

/-- `mbedtls_md5_update_ret`. -/
def mbedtlsMd5UpdateRet (ctx : Md5Context) (input ilen : ℕ) : Cmd Md5Context :=
  if ilen = 0 then
    pure ctx
  else
    let left := (ctx.total0 &&& 0x3F).toNat
    let fill := 64 - left
    let ctx := addTotal ctx ilen
    if left ≠ 0 ∧ fill ≤ ilen then do
      let bs ← load input fill
      updateRest (fillBuffer ctx left bs) 0 (input + fill) (ilen - fill)
    else
      updateRest ctx left input ilen

/-- The padding of `mbedtls_md5_finish_ret`: the context before the length is added. -/
def finishPadding (ctx : Md5Context) : Md5Context :=
  let used := (ctx.total0 &&& 0x3F).toNat
  let ctx := { ctx with buffer := writeBytes ctx.buffer used [0x80] }
  let used := used + 1
  if used ≤ 56 then
    { ctx with buffer := writeBytes ctx.buffer used (List.replicate (56 - used) 0) }
  else
    let ctx := fillBuffer ctx used (List.replicate (64 - used) 0)
    { ctx with buffer := writeBytes ctx.buffer 0 (List.replicate 56 0) }

/-- The message length and the last block of `mbedtls_md5_finish_ret`. -/
def finishLength (ctx : Md5Context) : Md5Context :=
  let high := (ctx.total0 >>> 29) ||| (ctx.total1 <<< 3)
  let low := ctx.total0 <<< 3
  let ctx := { ctx with buffer := writeBytes ctx.buffer 56 (putUint32Le low) }
  fillBuffer ctx 60 (putUint32Le high)

/-- `mbedtls_md5_finish_ret`. -/
def mbedtlsMd5FinishRet (ctx : Md5Context) (output : ℕ) : Cmd Md5Context := do
  let ctx := finishLength (finishPadding ctx)
  store output (putUint32Le ctx.state.a)
  store (output + 4) (putUint32Le ctx.state.b)
  store (output + 8) (putUint32Le ctx.state.c)
  store (output + 12) (putUint32Le ctx.state.d)
  pure ctx

/-- `mbedtls_md5_ret`; `ctx` is what the stack holds in the place of the context. -/
def mbedtlsMd5Ret (ctx : Md5Context) (input ilen output : ℕ) : Cmd ℤ := do
  let ctx := mbedtlsMd5StartsRet (mbedtlsMd5Init ctx)
  let ctx ← mbedtlsMd5UpdateRet ctx input ilen
  let _ ← mbedtlsMd5FinishRet ctx output
  pure 0

/-! ### The digest of a message -/

namespace Rfc1321

/-- The initial state. -/
def initial : Registers := ⟨0x67452301, 0xEFCDAB89, 0x98BADCFE, 0x10325476⟩

/-- A bit, zeros up to eight bytes short of a full block, and the length in bits. -/
def padding (length count : ℕ) : List UInt8 :=
  0x80 :: List.replicate ((119 - length % 64) % 64) 0 ++ ByteOrder.little.bytes 8 (8 * count)

/-- The bytes of the last state. -/
def output (r : Registers) : List UInt8 :=
  [r.a, r.b, r.c, r.d].flatMap fun w => ByteOrder.little.bytes 4 w.toNat

/-- The digest of a message with `count` in the place of its length. -/
def digest (msg : List UInt8) (count : ℕ) : List UInt8 :=
  output (absorb 64 compress initial (msg ++ padding msg.length count))

/-- The digest of a message. -/
def md5 (msg : List UInt8) : List UInt8 := digest msg msg.length

end Rfc1321

/-! ### What the functions access -/

theorem mem_eq_of_footprint {α : Type} {R : Set ℕ} {c : Cmd α} (h : Footprint R ∅ c) (m : Machine) :
    (exec c m).mem = m.mem :=
  funext fun x => h.frame m x (Set.notMem_empty x)

theorem updateBlocks_footprint (state : Registers) (input ilen : ℕ) :
    Footprint (Set.Ico input (input + ilen)) ∅ (updateBlocks state input ilen) := by
  induction ilen using Nat.strong_induction_on generalizing state input with
  | _ ilen ih =>
      unfold updateBlocks
      by_cases h : 64 ≤ ilen
      · rw [if_pos h]
        apply Footprint.bind
        · apply Footprint.load
          intro x hlo hhi
          exact ⟨hlo, by omega⟩
        · intro m
          apply (ih (ilen - 64) (by omega) _ (input + 64)).mono ?_ (Set.Subset.refl ∅)
          exact Set.Ico_subset_Ico (by omega) (by omega)
      · rw [if_neg h]
        exact Footprint.pure _

@[simp] theorem mem_updateBlocks (state : Registers) (input ilen : ℕ) (m : Machine) :
    (exec (updateBlocks state input ilen) m).mem = m.mem :=
  mem_eq_of_footprint (updateBlocks_footprint state input ilen) m

/-- **The loop.**  It consumes the full blocks of its input. -/
theorem updateBlocks_eq (state : Registers) (input ilen : ℕ) (m : Machine) :
    eval (updateBlocks state input ilen) m =
      (absorb 64 Rfc1321.compress state (bytesAt m.mem input ilen), input + 64 * (ilen / 64), ilen % 64) := by
  induction ilen using Nat.strong_induction_on generalizing state input m with
  | _ ilen ih =>
      unfold updateBlocks
      by_cases h : 64 ≤ ilen
      · have hsplit : bytesAt m.mem input ilen = bytesAt m.mem input 64 ++ bytesAt m.mem (input + 64) (ilen - 64) := by
          rw [← bytesAt_add, Nat.add_sub_cancel' h]
        have hdiv : ilen / 64 = (ilen - 64) / 64 + 1 := by omega
        rw [if_pos h, eval_bind, eval_load, ih (ilen - 64) (by omega), hsplit,
          absorb_block (by decide) (bytesAt_length _ _ _), mbedtlsInternalMd5Process_eq _ (bytesAt_length _ _ _)]
        refine Prod.ext rfl (Prod.ext ?_ ?_)
        · show input + 64 + 64 * ((ilen - 64) / 64) = input + 64 * (ilen / 64)
          omega
        · show (ilen - 64) % 64 = ilen % 64
          omega
      · rw [if_neg h, eval_pure, absorb_of_lt (by simpa using h), Nat.div_eq_of_lt (by omega),
          Nat.mod_eq_of_lt (by omega), Nat.mul_zero, Nat.add_zero]

theorem updateRest_footprint (ctx : Md5Context) (left input ilen : ℕ) :
    Footprint (Set.Ico input (input + ilen)) ∅ (updateRest ctx left input ilen) := by
  unfold updateRest
  apply (updateBlocks_footprint ctx.state input ilen).bind
  intro m
  rw [updateBlocks_eq]
  dsimp only
  split
  · apply Footprint.bind
    · apply Footprint.load
      intro x hlo hhi
      exact ⟨by omega, by omega⟩
    · intro m
      exact Footprint.pure _
  · exact Footprint.pure _

theorem mbedtlsMd5UpdateRet_footprint (ctx : Md5Context) (input ilen : ℕ) :
    Footprint (Set.Ico input (input + ilen)) ∅ (mbedtlsMd5UpdateRet ctx input ilen) := by
  unfold mbedtlsMd5UpdateRet
  split
  · exact Footprint.pure _
  · dsimp only
    split
    · apply Footprint.bind
      · apply Footprint.load
        intro x hlo hhi
        exact ⟨hlo, by omega⟩
      · intro m
        apply (updateRest_footprint _ 0 _ _).mono ?_ (Set.Subset.refl ∅)
        exact Set.Ico_subset_Ico (by omega) (by omega)
    · exact updateRest_footprint _ _ _ _

@[simp] theorem mem_mbedtlsMd5UpdateRet (ctx : Md5Context) (input ilen : ℕ) (m : Machine) :
    (exec (mbedtlsMd5UpdateRet ctx input ilen) m).mem = m.mem :=
  mem_eq_of_footprint (mbedtlsMd5UpdateRet_footprint ctx input ilen) m

theorem putUint32Le_length (n : UInt32) : (putUint32Le n).length = 4 := rfl

theorem mbedtlsMd5FinishRet_footprint (ctx : Md5Context) (output : ℕ) :
    Footprint ∅ (Set.Ico output (output + 16)) (mbedtlsMd5FinishRet ctx output) := by
  have hword (a : ℕ) (w : UInt32) (hlo : output ≤ a) (hhi : a + 4 ≤ output + 16) :
      Footprint ∅ (Set.Ico output (output + 16)) (store a (putUint32Le w)) := by
    apply Footprint.store
    intro x hx hx'
    rw [putUint32Le_length] at hx'
    exact ⟨by omega, by omega⟩
  unfold mbedtlsMd5FinishRet
  apply (hword output _ (by omega) (by omega)).bind
  intro _
  apply (hword (output + 4) _ (by omega) (by omega)).bind
  intro _
  apply (hword (output + 8) _ (by omega) (by omega)).bind
  intro _
  apply (hword (output + 12) _ (by omega) (by omega)).bind
  intro _
  exact Footprint.pure _

/-- **Accesses.**  The hash reads its input and writes the sixteen bytes of the digest. -/
theorem mbedtlsMd5Ret_footprint (ctx : Md5Context) (input ilen output : ℕ) :
    Footprint (Set.Ico input (input + ilen)) (Set.Ico output (output + 16))
      (mbedtlsMd5Ret ctx input ilen output) := by
  unfold mbedtlsMd5Ret
  apply Footprint.bind
  · exact (mbedtlsMd5UpdateRet_footprint _ input ilen).mono (Set.Subset.refl _) (Set.empty_subset _)
  · intro m
    apply Footprint.bind
    · exact (mbedtlsMd5FinishRet_footprint _ output).mono (Set.empty_subset _) (Set.Subset.refl _)
    · intro _
      exact Footprint.pure _

end OhMySockets
