import OhMySockets.Md5

/-! # The digest of a stream

`Represents ctx msg count` is the invariant of a context to which the message `msg` has been given: its
state has absorbed the full blocks, its buffer starts with the rest, and its two words of length are
`count` modulo `2 ^ 64`.

* `Represents.update`, `Represents.updates`: a chunk and a list of chunks keep it, for chunks of every
  length and every boundary; what `count` gains is the length of the chunk modulo `2 ^ 32`;
* `Represents.finish`: the padding and the two last blocks;
* `mbedtlsMd5_stream`: the digest of a list of chunks;
* `mbedtlsMd5Ret_digest`: the digest of one input, at its place in memory.

Nothing behind the 64 bytes of the buffer is ever written (`context_buffer`). -/

namespace OhMySockets

open ByteMemory BlockHash

/-! ### Words of the length -/

theorem and_63 (n : UInt32) : (n &&& 0x3F).toNat = n.toNat % 64 := by
  rw [UInt32.toNat_and]
  exact Nat.and_two_pow_sub_one_eq_mod n.toNat 6

/-- The two words of the length are one counter of 64 bits; `ilen` is added without what does not fit
into 32 bits. -/
theorem addTotal_eq (ctx : Md5Context) (ilen : ℕ) :
    (addTotal ctx ilen).total0.toNat + 2 ^ 32 * (addTotal ctx ilen).total1.toNat =
      (ctx.total0.toNat + 2 ^ 32 * ctx.total1.toNat + ilen % 2 ^ 32) % 2 ^ 64 := by
  have h0 := ctx.total0.toNat_lt
  have h1 := ctx.total1.toNat_lt
  have hlen : (UInt32.ofNat ilen).toNat = ilen % 2 ^ 32 := UInt32.toNat_ofNat'
  have hsum : (ctx.total0 + UInt32.ofNat ilen).toNat = (ctx.total0.toNat + ilen % 2 ^ 32) % 2 ^ 32 := by
    rw [UInt32.toNat_add, hlen]
  have hone : (ctx.total1 + 1).toNat = (ctx.total1.toNat + 1) % 2 ^ 32 := by
    rw [UInt32.toNat_add]
    rfl
  simp only [addTotal, and_mask]
  by_cases hcarry : ctx.total0 + UInt32.ofNat ilen < UInt32.ofNat ilen
  · rw [if_pos hcarry, hsum, hone]
    rw [UInt32.lt_iff_toNat_lt, hsum, hlen] at hcarry
    omega
  · rw [if_neg hcarry, hsum]
    rw [UInt32.lt_iff_toNat_lt, hsum, hlen] at hcarry
    omega

/-! ### The invariant -/

/-- The message `msg` has been given to the context, and `count` to its words of length. -/
structure Represents (ctx : Md5Context) (msg : List UInt8) (count : ℕ) : Prop where
  absorbed : Absorbed 64 Rfc1321.compress Rfc1321.initial msg ctx.state (bytesAt ctx.buffer 0 (msg.length % 64))
  total : ctx.total0.toNat + 2 ^ 32 * ctx.total1.toNat = count % 2 ^ 64
  length : count % 64 = msg.length % 64

theorem Represents.start (ctx : Md5Context) : Represents (mbedtlsMd5StartsRet ctx) [] 0 where
  absorbed := Absorbed.start (by decide) _
  total := rfl
  length := rfl

theorem Represents.left {ctx : Md5Context} {msg : List UInt8} {count : ℕ} (h : Represents ctx msg count) :
    (ctx.total0 &&& 0x3F).toNat = msg.length % 64 := by
  have htotal := h.total
  have hlength := h.length
  rw [and_63]
  omega

theorem bytesAt_writeBytes_append (m : Mem) (a n : ℕ) (bs : List UInt8) :
    bytesAt (writeBytes m (a + n) bs) a (n + bs.length) = bytesAt m a n ++ bs := by
  rw [bytesAt_add, bytesAt_writeBytes_of_disjoint m (by omega), bytesAt_writeBytes_self m (a + n) bs rfl]

theorem updateRest_absorb (ctx : Md5Context) (input ilen : ℕ) (m : Machine) :
    (eval (updateRest ctx 0 input ilen) m).state = absorb 64 Rfc1321.compress ctx.state (bytesAt m.mem input ilen) ∧
      bytesAt (eval (updateRest ctx 0 input ilen) m).buffer 0 (ilen % 64) =
        residue 64 (bytesAt m.mem input ilen) := by
  have hsplit : bytesAt m.mem input ilen =
      bytesAt m.mem input (64 * (ilen / 64)) ++ bytesAt m.mem (input + 64 * (ilen / 64)) (ilen % 64) := by
    rw [← bytesAt_add, Nat.div_add_mod]
  have hresidue : residue 64 (bytesAt m.mem input ilen) = bytesAt m.mem (input + 64 * (ilen / 64)) (ilen % 64) := by
    rw [residue, bytesAt_length, hsplit, List.drop_left' (bytesAt_length _ _ _)]
  unfold updateRest
  rw [eval_bind, updateBlocks_eq, hresidue]
  dsimp only
  by_cases hrest : 0 < ilen % 64
  · rw [if_pos hrest, eval_bind, eval_pure, eval_load, mem_updateBlocks]
    exact ⟨rfl, bytesAt_writeBytes_self _ _ _ (bytesAt_length _ _ _)⟩
  · have hzero : ilen % 64 = 0 := by omega
    rw [if_neg hrest, eval_pure, hzero]
    exact ⟨rfl, rfl⟩

theorem updateRest_keep (ctx : Md5Context) {left ilen : ℕ} (input : ℕ) (m : Machine) (hpos : 0 < ilen)
    (h : left + ilen < 64) :
    (eval (updateRest ctx left input ilen) m).state = ctx.state ∧
      bytesAt (eval (updateRest ctx left input ilen) m).buffer 0 (left + ilen) =
        bytesAt ctx.buffer 0 left ++ bytesAt m.mem input ilen := by
  have hdiv : ilen / 64 = 0 := Nat.div_eq_of_lt (by omega)
  have hmod : ilen % 64 = ilen := Nat.mod_eq_of_lt (by omega)
  have happend := bytesAt_writeBytes_append ctx.buffer 0 left (bytesAt m.mem input ilen)
  rw [bytesAt_length, Nat.zero_add] at happend
  unfold updateRest
  rw [eval_bind, updateBlocks_eq, absorb_of_lt (by rw [bytesAt_length]; omega), hdiv, hmod]
  dsimp only
  rw [if_pos hpos, eval_bind, eval_pure, eval_load, mem_updateBlocks]
  exact ⟨rfl, happend⟩

theorem updateRest_total (ctx : Md5Context) (left input ilen : ℕ) (m : Machine) :
    (eval (updateRest ctx left input ilen) m).total0 = ctx.total0 ∧
      (eval (updateRest ctx left input ilen) m).total1 = ctx.total1 := by
  unfold updateRest
  rw [eval_bind, updateBlocks_eq]
  dsimp only
  split
  · exact ⟨rfl, rfl⟩
  · exact ⟨rfl, rfl⟩

section update

variable {ctx : Md5Context} {msg : List UInt8} {count : ℕ}

theorem Represents.addTotal (h : Represents ctx msg count) (ilen : ℕ) :
    (addTotal ctx ilen).total0.toNat + 2 ^ 32 * (addTotal ctx ilen).total1.toNat =
        (count + ilen % 2 ^ 32) % 2 ^ 64 ∧
      (count + ilen % 2 ^ 32) % 64 = (msg.length + ilen) % 64 := by
  have htotal := h.total
  have hlength := h.length
  rw [addTotal_eq]
  omega

/-- From the loop on: the bytes join those that the buffer starts with. -/
theorem updateRest_absorbed (left input ilen : ℕ) (m : Machine)
    (h : Absorbed 64 Rfc1321.compress Rfc1321.initial msg ctx.state (bytesAt ctx.buffer 0 left))
    (hroom : left = 0 ∨ 0 < ilen ∧ left + ilen < 64) :
    Absorbed 64 Rfc1321.compress Rfc1321.initial (msg ++ bytesAt m.mem input ilen)
      (eval (updateRest ctx left input ilen) m).state
      (bytesAt (eval (updateRest ctx left input ilen) m).buffer 0 ((left + ilen) % 64)) := by
  rcases hroom with rfl | ⟨hpos, hroom⟩
  · obtain ⟨hstate, hbuffer⟩ := updateRest_absorb ctx input ilen m
    rw [Nat.zero_add, hstate, hbuffer]
    exact h.append (by decide) (bytesAt m.mem input ilen)
  · obtain ⟨hstate, hbuffer⟩ := updateRest_keep ctx input m hpos hroom
    rw [Nat.mod_eq_of_lt hroom, hstate, hbuffer]
    exact h.keep (by decide) (by rw [List.length_append, bytesAt_length, bytesAt_length]; exact hroom)

theorem fillBuffer_absorbed {left : ℕ} {bs : List UInt8} (hfull : left + bs.length = 64)
    (h : Absorbed 64 Rfc1321.compress Rfc1321.initial msg ctx.state (bytesAt ctx.buffer 0 left)) :
    Absorbed 64 Rfc1321.compress Rfc1321.initial (msg ++ bs) (fillBuffer ctx left bs).state [] := by
  have hblock := bytesAt_writeBytes_append ctx.buffer 0 left bs
  rw [Nat.zero_add, hfull] at hblock
  have hlen : (bytesAt ctx.buffer 0 left ++ bs).length = 64 := by
    rw [List.length_append, bytesAt_length, hfull]
  unfold fillBuffer
  dsimp only
  rw [hblock, mbedtlsInternalMd5Process_eq _ hlen]
  exact h.fill (by decide) hlen

theorem Represents.of_rest {left input ilen : ℕ} (m : Machine)
    (h : Absorbed 64 Rfc1321.compress Rfc1321.initial msg ctx.state (bytesAt ctx.buffer 0 left))
    (hleft : left = msg.length % 64) (hroom : left = 0 ∨ 0 < ilen ∧ left + ilen < 64)
    (htotal : ctx.total0.toNat + 2 ^ 32 * ctx.total1.toNat = count % 2 ^ 64)
    (hlength : count % 64 = (msg.length + ilen) % 64) :
    Represents (eval (updateRest ctx left input ilen) m) (msg ++ bytesAt m.mem input ilen) count := by
  have hlen : (msg ++ bytesAt m.mem input ilen).length = msg.length + ilen := by
    rw [List.length_append, bytesAt_length]
  constructor
  · rw [hlen, ← Nat.mod_add_mod, ← hleft]
    exact updateRest_absorbed left input ilen m h hroom
  · obtain ⟨h0, h1⟩ := updateRest_total ctx left input ilen m
    rw [h0, h1, htotal]
  · rw [hlen, hlength]

/-- **One chunk.** -/
theorem Represents.update (h : Represents ctx msg count) (input ilen : ℕ) (m : Machine) :
    Represents (eval (mbedtlsMd5UpdateRet ctx input ilen) m) (msg ++ bytesAt m.mem input ilen)
      (count + ilen % 2 ^ 32) := by
  obtain ⟨htotal, hlength⟩ := h.addTotal ilen
  have hlt : msg.length % 64 < 64 := Nat.mod_lt _ (by decide)
  unfold mbedtlsMd5UpdateRet
  rw [h.left]
  by_cases hzero : ilen = 0
  · rw [if_pos hzero, hzero, bytesAt_zero, List.append_nil]
    exact h
  rw [if_neg hzero]
  dsimp only
  by_cases hfull : msg.length % 64 ≠ 0 ∧ 64 - msg.length % 64 ≤ ilen
  · -- the chunk completes the block in the buffer, and the rest of it starts a new one
    set fill := 64 - msg.length % 64 with hfill
    have hbytes : msg ++ bytesAt m.mem input ilen =
        msg ++ bytesAt m.mem input fill ++ bytesAt m.mem (input + fill) (ilen - fill) := by
      rw [List.append_assoc, ← bytesAt_add, Nat.add_sub_cancel' hfull.2]
    have hlen : (msg ++ bytesAt m.mem input fill).length = msg.length + fill := by
      rw [List.length_append, bytesAt_length]
    rw [if_pos hfull, eval_bind, eval_load, hbytes]
    apply Represents.of_rest
    · exact fillBuffer_absorbed (by rw [bytesAt_length]; omega) h.absorbed
    · rw [hlen]
      omega
    · exact Or.inl rfl
    · exact htotal
    · rw [hlen, hlength]
      congr 1
      omega
  · rw [if_neg hfull]
    exact Represents.of_rest m h.absorbed rfl (by omega) htotal hlength

end update

/-! ### The last blocks -/

theorem leastFirst_mod (k v : ℕ) : ByteOrder.leastFirst k (v % 256 ^ k) = ByteOrder.leastFirst k v := by
  have h := ByteOrder.leastFirst_valueLeast (ByteOrder.leastFirst k v)
  rwa [ByteOrder.leastFirst_length, ByteOrder.valueLeast_leastFirst] at h

theorem leastFirst_add (j k v : ℕ) :
    ByteOrder.leastFirst (j + k) v = ByteOrder.leastFirst j v ++ ByteOrder.leastFirst k (v / 256 ^ j) := by
  induction j generalizing v with
  | zero => simp [ByteOrder.leastFirst]
  | succ j ih =>
      rw [Nat.succ_add, ByteOrder.leastFirst, ih, ByteOrder.leastFirst, Nat.div_div_eq_div_mul, ← Nat.pow_succ',
        List.cons_append]

/-- The two words that end the last block are the number of bits, modulo `2 ^ 64`. -/
theorem length_words {total0 total1 : UInt32} {count : ℕ}
    (h : total0.toNat + 2 ^ 32 * total1.toNat = count % 2 ^ 64) :
    putUint32Le (total0 <<< 3) ++ putUint32Le ((total0 >>> 29) ||| (total1 <<< 3)) =
      ByteOrder.little.bytes 8 (8 * count) := by
  have h0 := total0.toNat_lt
  have h1 := total1.toNat_lt
  have hlow : (total0 <<< 3).toNat = 8 * total0.toNat % 2 ^ 32 := by
    rw [UInt32.toNat_shiftLeft, Nat.mul_comm]
    exact congrArg (· % 2 ^ 32) (Nat.shiftLeft_eq total0.toNat 3)
  have hup : (total1 <<< 3).toNat = (total1.toNat % 2 ^ 29) <<< 3 := by
    rw [UInt32.toNat_shiftLeft, Nat.shiftLeft_eq]
    have : total1.toNat <<< ((3 : UInt32).toNat % 32) = total1.toNat * 2 ^ 3 := Nat.shiftLeft_eq total1.toNat 3
    omega
  have hdown : (total0 >>> 29).toNat = total0.toNat / 2 ^ 29 := by
    rw [UInt32.toNat_shiftRight]
    exact Nat.shiftRight_eq_div_pow total0.toNat 29
  have hhigh : ((total0 >>> 29) ||| (total1 <<< 3)).toNat = total0.toNat / 2 ^ 29 + 8 * (total1.toNat % 2 ^ 29) := by
    rw [UInt32.toNat_or, hdown, hup, Nat.or_comm, ← Nat.shiftLeft_add_eq_or_of_lt (by omega), Nat.shiftLeft_eq]
    omega
  have hbits : (8 * count) % 256 ^ 4 = 8 * total0.toNat % 2 ^ 32 ∧
      8 * count / 256 ^ 4 % 256 ^ 4 = total0.toNat / 2 ^ 29 + 8 * (total1.toNat % 2 ^ 29) := by
    omega
  rw [putUint32Le_eq, putUint32Le_eq, hlow, hhigh, ← hbits.1, ← hbits.2]
  show ByteOrder.leastFirst 4 _ ++ ByteOrder.leastFirst 4 _ = ByteOrder.leastFirst (4 + 4) _
  rw [leastFirst_mod, leastFirst_mod, leastFirst_add]

theorem writeBytes_append (m : Mem) {a b : ℕ} (bs bs' : List UInt8) (h : b = a + bs.length) :
    writeBytes (writeBytes m a bs) b bs' = writeBytes m a (bs ++ bs') := by
  subst h
  funext x
  unfold writeBytes
  rw [List.length_append]
  by_cases hsecond : a + bs.length ≤ x ∧ x < a + bs.length + bs'.length
  · have hindex : x - (a + bs.length) = x - a - bs.length := by omega
    rw [if_pos hsecond, if_pos (by omega), List.getD_eq_getElem?_getD, List.getD_eq_getElem?_getD,
      List.getElem?_append_right (by omega), hindex]
  · rw [if_neg hsecond]
    by_cases hfirst : a ≤ x ∧ x < a + bs.length
    · rw [if_pos hfirst, if_pos (by omega), List.getD_eq_getElem?_getD, List.getD_eq_getElem?_getD,
        List.getElem?_append_left (by omega)]
    · rw [if_neg hfirst, if_neg (by omega)]

theorem fillBuffer_append (ctx : Md5Context) {a b : ℕ} (bs bs' : List UInt8) (h : b = a + bs.length) :
    fillBuffer { ctx with buffer := writeBytes ctx.buffer a bs } b bs' = fillBuffer ctx a (bs ++ bs') := by
  simp only [fillBuffer, writeBytes_append _ bs bs' h]

/-- The bytes that the padding ends with. -/
def lengthBytes (ctx : Md5Context) : List UInt8 :=
  putUint32Le (ctx.total0 <<< 3) ++ putUint32Le ((ctx.total0 >>> 29) ||| (ctx.total1 <<< 3))

theorem lengthBytes_fillBuffer (ctx : Md5Context) (left : ℕ) (bs : List UInt8) :
    lengthBytes (fillBuffer ctx left bs) = lengthBytes ctx := by
  unfold lengthBytes fillBuffer
  rfl

theorem finishLength_eq (ctx : Md5Context) : finishLength ctx = fillBuffer ctx 56 (lengthBytes ctx) :=
  fillBuffer_append ctx _ _ rfl

theorem finish_one_block {ctx : Md5Context} {used : ℕ} (hused : (ctx.total0 &&& 0x3F).toNat = used)
    (h : used + 1 ≤ 56) : finishLength (finishPadding ctx) =
      fillBuffer ctx used (0x80 :: List.replicate (55 - used) 0 ++ lengthBytes ctx) := by
  have hzeros : 56 - (used + 1) = 55 - used := by omega
  have hpadding : finishPadding ctx =
      { ctx with buffer := writeBytes ctx.buffer used (0x80 :: List.replicate (55 - used) 0) } := by
    have happend : writeBytes (writeBytes ctx.buffer used [0x80]) (used + 1) (List.replicate (55 - used) 0) =
        writeBytes ctx.buffer used (0x80 :: List.replicate (55 - used) 0) := writeBytes_append _ _ _ rfl
    simp only [finishPadding, hused, if_pos h, hzeros, happend]
  rw [finishLength_eq, hpadding]
  exact fillBuffer_append ctx _ _ (by simp only [List.length_cons, List.length_replicate]; omega)

theorem finish_two_blocks {ctx : Md5Context} {used : ℕ} (hused : (ctx.total0 &&& 0x3F).toNat = used)
    (h : 56 < used + 1) : finishLength (finishPadding ctx) =
      fillBuffer (fillBuffer ctx used (0x80 :: List.replicate (63 - used) 0)) 0
        (List.replicate 56 0 ++ lengthBytes ctx) := by
  have hzeros : 64 - (used + 1) = 63 - used := by omega
  have hfirst : fillBuffer { ctx with buffer := writeBytes ctx.buffer used [0x80] } (used + 1)
      (List.replicate (63 - used) 0) = fillBuffer ctx used (0x80 :: List.replicate (63 - used) 0) :=
    fillBuffer_append _ _ _ rfl
  have hlast (ctx' : Md5Context) : finishLength { ctx' with buffer := writeBytes ctx'.buffer 0 (List.replicate 56 0) } =
      fillBuffer ctx' 0 (List.replicate 56 0 ++ lengthBytes ctx') := by
    rw [finishLength_eq]
    exact fillBuffer_append ctx' _ _ (by rw [List.length_replicate])
  simp only [finishPadding, hused, if_neg (Nat.not_le.mpr h), hzeros, hfirst]
  rw [hlast, lengthBytes_fillBuffer]

/-- **The end of the message.**  The padding gives one or two more blocks. -/
theorem finish_absorbed {ctx : Md5Context} {msg : List UInt8} {count : ℕ} (h : Represents ctx msg count) :
    Absorbed 64 Rfc1321.compress Rfc1321.initial (msg ++ Rfc1321.padding msg.length count)
      (finishLength (finishPadding ctx)).state [] := by
  have hwords : lengthBytes ctx = ByteOrder.little.bytes 8 (8 * count) := length_words h.total
  have hlen : (lengthBytes ctx).length = 8 := rfl
  rcases Nat.lt_or_ge 56 (msg.length % 64 + 1) with hlt | hle
  · have hzeros : (119 - msg.length % 64) % 64 = 63 - msg.length % 64 + 56 := by omega
    rw [finish_two_blocks h.left hlt, Rfc1321.padding, hzeros, List.replicate_add, ← hwords, ← List.cons_append,
      List.append_assoc, ← List.append_assoc msg]
    apply fillBuffer_absorbed
    · rw [List.length_append, List.length_replicate, hlen]
    · apply fillBuffer_absorbed _ h.absorbed
      rw [List.length_cons, List.length_replicate]
      omega
  · have hzeros : (119 - msg.length % 64) % 64 = 55 - msg.length % 64 := by omega
    rw [finish_one_block h.left hle, Rfc1321.padding, hzeros, ← hwords]
    apply fillBuffer_absorbed _ h.absorbed
    rw [List.length_append, List.length_cons, List.length_replicate, hlen]
    omega

theorem mem_mbedtlsMd5FinishRet (ctx : Md5Context) (output : ℕ) (m : Machine) :
    (exec (mbedtlsMd5FinishRet ctx output) m).mem =
      writeBytes m.mem output (Rfc1321.output (finishLength (finishPadding ctx)).state) := by
  set state := (finishLength (finishPadding ctx)).state with hstate
  have hwords : Rfc1321.output state =
      putUint32Le state.a ++ (putUint32Le state.b ++ (putUint32Le state.c ++ putUint32Le state.d)) := by
    simp only [putUint32Le_eq, Rfc1321.output, List.flatMap_cons, List.flatMap_nil, List.append_nil]
  simp only [mbedtlsMd5FinishRet, exec_bind, mem_store, exec_pure, ← hstate]
  -- four writes next to each other, the last two joined first
  have hcd := writeBytes_append (writeBytes (writeBytes m.mem output (putUint32Le state.a)) (output + 4)
    (putUint32Le state.b)) (a := output + 8) (b := output + 12) (putUint32Le state.c) (putUint32Le state.d) rfl
  have hbcd := writeBytes_append (writeBytes m.mem output (putUint32Le state.a)) (a := output + 4) (b := output + 8)
    (putUint32Le state.b) (putUint32Le state.c ++ putUint32Le state.d) rfl
  rw [hcd, hbcd, hwords]
  exact writeBytes_append m.mem _ _ rfl

/-- The digest of a context that represents a message. -/
theorem Represents.finish {ctx : Md5Context} {msg : List UInt8} {count : ℕ} (h : Represents ctx msg count)
    (output : ℕ) (m : Machine) : (exec (mbedtlsMd5FinishRet ctx output) m).mem =
      writeBytes m.mem output (Rfc1321.digest msg count) := by
  rw [mem_mbedtlsMd5FinishRet, (finish_absorbed h).state]
  rfl

theorem Rfc1321.digest_length (msg : List UInt8) (count : ℕ) : (Rfc1321.digest msg count).length = 16 := by
  simp only [Rfc1321.digest, Rfc1321.output, List.flatMap_cons, List.flatMap_nil, List.length_append,
    ByteOrder.bytes_length, List.length_nil]

/-! ### Chunks -/

/-- A call of `mbedtls_md5_update_ret`: the memory at that time, `input` and `ilen`. -/
structure Chunk where
  machine : Machine
  input : ℕ
  ilen : ℕ

/-- The bytes of a chunk. -/
def Chunk.bytes (c : Chunk) : List UInt8 := bytesAt c.machine.mem c.input c.ilen

/-- A context after one call for each chunk. -/
def updates (ctx : Md5Context) (chunks : List Chunk) : Md5Context :=
  chunks.foldl (fun ctx c => eval (mbedtlsMd5UpdateRet ctx c.input c.ilen) c.machine) ctx

/-- **All chunks.** -/
theorem Represents.updates {ctx : Md5Context} {msg : List UInt8} {count : ℕ} (h : Represents ctx msg count)
    (chunks : List Chunk) : Represents (updates ctx chunks) (msg ++ chunks.flatMap Chunk.bytes)
      (count + (chunks.map fun c => c.ilen % 2 ^ 32).sum) := by
  induction chunks generalizing ctx msg count with
  | nil =>
      rw [List.flatMap_nil, List.append_nil, List.map_nil, List.sum_nil, Nat.add_zero]
      exact h
  | cons c chunks ih =>
      rw [List.flatMap_cons, ← List.append_assoc, List.map_cons, List.sum_cons, ← Nat.add_assoc]
      exact ih (h.update c.input c.ilen c.machine)

/-- **The digest of a stream.**  However a message is cut into chunks, the digest is that of the whole
message, with the lengths of the chunks modulo `2 ^ 32` in its length field. -/
theorem mbedtlsMd5_stream (ctx : Md5Context) (chunks : List Chunk) (output : ℕ) (m : Machine) :
    bytesAt (exec (mbedtlsMd5FinishRet (updates (mbedtlsMd5StartsRet (mbedtlsMd5Init ctx)) chunks) output) m).mem
        output 16 =
      Rfc1321.digest (chunks.flatMap Chunk.bytes) (chunks.map fun c => c.ilen % 2 ^ 32).sum := by
  have h := (Represents.start (mbedtlsMd5Init ctx)).updates chunks
  rw [List.nil_append, Nat.zero_add] at h
  rw [h.finish output m, bytesAt_writeBytes_self _ _ _ (Rfc1321.digest_length _ _)]

/-- Chunks of less than four gigabytes: MD5 of the concatenation. -/
theorem mbedtlsMd5_stream_eq_md5 (ctx : Md5Context) (chunks : List Chunk) (output : ℕ) (m : Machine)
    (h : ∀ c ∈ chunks, c.ilen < 2 ^ 32) :
    bytesAt (exec (mbedtlsMd5FinishRet (updates (mbedtlsMd5StartsRet (mbedtlsMd5Init ctx)) chunks) output) m).mem
        output 16 = Rfc1321.md5 (chunks.flatMap Chunk.bytes) := by
  have hsum : (chunks.map fun c => c.ilen % 2 ^ 32).sum = (chunks.flatMap Chunk.bytes).length := by
    rw [List.length_flatMap]
    congr 1
    apply List.map_congr_left
    intro c hc
    rw [Chunk.bytes, bytesAt_length, Nat.mod_eq_of_lt (h c hc)]
  have hrep := (Represents.start (mbedtlsMd5Init ctx)).updates chunks
  rw [List.nil_append, Nat.zero_add, hsum] at hrep
  rw [hrep.finish output m, bytesAt_writeBytes_self _ _ _ (Rfc1321.digest_length _ _), Rfc1321.md5]

/-- The digest of the empty message. -/
example : Rfc1321.md5 [] = [0xD4, 0x1D, 0x8C, 0xD9, 0x8F, 0x00, 0xB2, 0x04, 0xE9, 0x80, 0x09, 0x98, 0xEC, 0xF8, 0x42,
    0x7E] := by
  decide +kernel

theorem mbedtlsMd5Ret_digest (ctx : Md5Context) (input ilen output : ℕ) (m : Machine) :
    (exec (mbedtlsMd5Ret ctx input ilen output) m).mem =
      writeBytes m.mem output (Rfc1321.digest (bytesAt m.mem input ilen) (ilen % 2 ^ 32)) := by
  have h := (Represents.start (mbedtlsMd5Init ctx)).update input ilen m
  rw [List.nil_append, Nat.zero_add] at h
  simp only [mbedtlsMd5Ret, exec_bind, exec_pure]
  rw [h.finish, mem_mbedtlsMd5UpdateRet]

/-! ### The bounds of the buffer -/

theorem fillBuffer_buffer (ctx : Md5Context) {left x : ℕ} {bs : List UInt8} (h : left + bs.length ≤ 64) (hx : 64 ≤ x) :
    (fillBuffer ctx left bs).buffer x = ctx.buffer x :=
  writeBytes_outside (by omega)

theorem updateRest_buffer (ctx : Md5Context) {left ilen x : ℕ} (input : ℕ) (m : Machine)
    (h : left = 0 ∨ left + ilen < 64) (hx : 64 ≤ x) :
    (eval (updateRest ctx left input ilen) m).buffer x = ctx.buffer x := by
  unfold updateRest
  rw [eval_bind, updateBlocks_eq]
  dsimp only
  split
  · rw [eval_bind, eval_pure, eval_load]
    exact writeBytes_outside (by rw [bytesAt_length]; omega)
  · rfl

theorem update_buffer (ctx : Md5Context) (input ilen : ℕ) (m : Machine) {x : ℕ} (hx : 64 ≤ x) :
    (eval (mbedtlsMd5UpdateRet ctx input ilen) m).buffer x = ctx.buffer x := by
  have hlt : (ctx.total0 &&& 0x3F).toNat < 64 := by
    rw [and_63]
    exact Nat.mod_lt _ (by decide)
  unfold mbedtlsMd5UpdateRet
  split
  · rfl
  · dsimp only
    split
    · rw [eval_bind, updateRest_buffer _ _ _ (Or.inl rfl) hx, eval_load,
        fillBuffer_buffer _ (by rw [bytesAt_length]; omega) hx]
      rfl
    · rw [updateRest_buffer _ _ _ (by omega) hx]
      rfl

theorem updates_buffer (ctx : Md5Context) (chunks : List Chunk) {x : ℕ} (hx : 64 ≤ x) :
    (updates ctx chunks).buffer x = ctx.buffer x := by
  induction chunks generalizing ctx with
  | nil => rfl
  | cons c chunks ih =>
      show (updates (eval (mbedtlsMd5UpdateRet ctx c.input c.ilen) c.machine) chunks).buffer x = ctx.buffer x
      rw [ih, update_buffer _ _ _ _ hx]

theorem finish_buffer (ctx : Md5Context) {x : ℕ} (hx : 64 ≤ x) :
    (finishLength (finishPadding ctx)).buffer x = ctx.buffer x := by
  have hlt : (ctx.total0 &&& 0x3F).toNat < 64 := by
    rw [and_63]
    exact Nat.mod_lt _ (by decide)
  have hlen : (lengthBytes ctx).length = 8 := rfl
  rcases Nat.lt_or_ge 56 ((ctx.total0 &&& 0x3F).toNat + 1) with htwo | hone
  · rw [finish_two_blocks rfl htwo, fillBuffer_buffer _ _ hx, fillBuffer_buffer _ _ hx]
    · rw [List.length_cons, List.length_replicate]
      omega
    · rw [List.length_append, List.length_replicate, hlen]
  · rw [finish_one_block rfl hone, fillBuffer_buffer _ _ hx]
    rw [List.length_append, List.length_cons, List.length_replicate, hlen]
    omega

/-- **Memory safety of the context.**  Nothing behind the buffer of the context is written, from
`mbedtls_md5_init` to `mbedtls_md5_finish_ret`. -/
theorem context_buffer (ctx : Md5Context) (chunks : List Chunk) (output : ℕ) (m : Machine) {x : ℕ} (hx : 64 ≤ x) :
    (eval (mbedtlsMd5FinishRet (updates (mbedtlsMd5StartsRet (mbedtlsMd5Init ctx)) chunks) output) m).buffer x =
      ctx.buffer x := by
  have hstart : (mbedtlsMd5StartsRet (mbedtlsMd5Init ctx)).buffer x = ctx.buffer x :=
    writeBytes_outside (by rw [List.length_replicate]; omega)
  have hfinish : eval (mbedtlsMd5FinishRet (updates (mbedtlsMd5StartsRet (mbedtlsMd5Init ctx)) chunks) output) m =
      finishLength (finishPadding (updates (mbedtlsMd5StartsRet (mbedtlsMd5Init ctx)) chunks)) := rfl
  rw [hfinish, finish_buffer _ hx, updates_buffer _ _ hx, hstart]

/-- A stack of zeros. -/
def zeroContext : Md5Context := ⟨0, 0, ⟨0, 0, 0, 0⟩, fun _ => 0⟩

theorem context_buffer_two_chunks :
    (eval (mbedtlsMd5FinishRet (updates (mbedtlsMd5StartsRet (mbedtlsMd5Init zeroContext))
      [⟨⟨fun x => UInt8.ofNat (97 + x), [], []⟩, 0, 1⟩, ⟨⟨fun x => UInt8.ofNat (97 + x), [], []⟩, 1, 2⟩]) 200)
        ⟨fun _ => 0, [], []⟩).buffer 64 = 0 :=
  context_buffer zeroContext _ 200 _ (by decide)

end OhMySockets
