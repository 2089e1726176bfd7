import OhMySockets.Md5Stream
import OhMySockets.Validation

/-! # Packets hashed with the vendored MD5

`Validation.lean` takes the hash as a parameter.  Here it is `mbedtls_md5_ret` itself, called by the client
on the samples in its struct (`clientSendMd5`) and by the server into an array of its own
(`serverReceiveMd5`).  Both are what `Validation.lean` says with `mbedtlsMd5` for the parameter
(`eval_clientSendMd5`, `eval_serverReceiveMd5`), and so is the verdict between two hosts
(`md5_end_to_end`). -/

namespace OhMySockets

open ByteMemory ByteOrder

/-- The hash that the repository comes with. -/
def mbedtlsMd5 : Md5 := ⟨Rfc1321.md5, fun bs => Rfc1321.digest_length bs bs.length⟩

theorem mem_mbedtlsMd5Ret (ctx : Md5Context) (input output : ℕ) (m : Machine) :
    (exec (mbedtlsMd5Ret ctx input networkPacketDataSize output) m).mem =
      writeBytes m.mem output (mbedtlsMd5.hash (bytesAt m.mem input networkPacketDataSize)) := by
  have hlen : networkPacketDataSize % 2 ^ 32 = (bytesAt m.mem input networkPacketDataSize).length := by
    rw [bytesAt_length]
    decide
  rw [mbedtlsMd5Ret_digest, hlen]
  rfl

/-- The client's loop body from `mbedtls_md5_ret` to `write`. -/
def clientSendMd5 (ctx : Md5Context) (host : ByteOrder) (networkPacket resultPacketBuffer : ℕ) :
    Cmd (List UInt8) := do
  let _ ← mbedtlsMd5Ret ctx (networkPacket + dataOffset) networkPacketDataSize (networkPacket + md5Offset)
  networkEncodePacket host networkPacket resultPacketBuffer
  load resultPacketBuffer networkPacketTotalSize

/-- The server's path from a full frame to `is_valid`, with the array `md5_generated`. -/
def serverReceiveMd5 (ctx : Md5Context) (host : ByteOrder) (buffer networkPacket md5Generated : ℕ) : Cmd Bool := do
  networkDecodePacket host buffer networkPacket
  let _ ← mbedtlsMd5Ret ctx (networkPacket + dataOffset) networkPacketDataSize md5Generated
  let md5 ← load (networkPacket + md5Offset) networkPacketMd5Size
  let generated ← load md5Generated networkPacketMd5Size
  pure (md5 == generated)

section ends

variable (ctx : Md5Context) (host : ByteOrder) (m : Machine)

theorem eval_clientSendMd5 {networkPacket resultPacketBuffer : ℕ}
    (hsep : Apart networkPacket sizeofPacket resultPacketBuffer networkPacketTotalSize) :
    eval (clientSendMd5 ctx host networkPacket resultPacketBuffer) m =
      wireFrame host (withDigest mbedtlsMd5 host (packetAt host m.mem networkPacket)) := by
  have hdata : bytesAt m.mem (networkPacket + dataOffset) networkPacketDataSize =
      host.wordBytes (packetAt host m.mem networkPacket).words := bytesAt_data host m.mem networkPacket
  simp only [clientSendMd5, eval_bind, eval_load]
  rw [← packetAt_store_md5 mbedtlsMd5 host m networkPacket (mbedtlsMd5.hash_length _), ← hdata, ← mem_mbedtlsMd5Ret ctx]
  exact encodedFrame_eq _ hsep

section server

variable {buffer networkPacket md5Generated : ℕ}

theorem mem_serverReceiveMd5 :
    (exec (serverReceiveMd5 ctx host buffer networkPacket md5Generated) m).mem =
      writeBytes (exec (networkDecodePacket host buffer networkPacket) m).mem md5Generated
        (mbedtlsMd5.hash (host.wordBytes (decodedPacket host buffer networkPacket m).words)) := by
  have hdata : bytesAt (exec (networkDecodePacket host buffer networkPacket) m).mem (networkPacket + dataOffset)
      networkPacketDataSize = host.wordBytes (decodedPacket host buffer networkPacket m).words :=
    bytesAt_data host _ networkPacket
  simp only [serverReceiveMd5, exec_bind, exec_pure, mem_load, mem_mbedtlsMd5Ret]
  rw [hdata]

/-- The array is not part of the packet, so hashing leaves the packet alone. -/
theorem packetAt_serverReceiveMd5
    (hsep : Apart networkPacket sizeofPacket md5Generated networkPacketMd5Size) :
    packetAt host (exec (serverReceiveMd5 ctx host buffer networkPacket md5Generated) m).mem networkPacket =
      decodedPacket host buffer networkPacket m := by
  have hlen : (mbedtlsMd5.hash (host.wordBytes (decodedPacket host buffer networkPacket m).words)).length = 16 :=
    mbedtlsMd5.hash_length _
  have hsep : networkPacket + 1432 ≤ md5Generated ∨ md5Generated + 16 ≤ networkPacket := hsep
  rw [mem_serverReceiveMd5]
  apply packetAt_eq_of_bytes
  · rw [bytesAt_writeBytes_of_disjoint _ (by omega), bytesAt_number host]
    rfl
  · rw [bytesAt_writeBytes_of_disjoint _ (by omega), bytesAt_microtime host]
    rfl
  · rw [bytesAt_writeBytes_of_disjoint _ (by omega), bytesAt_data host]
    rfl
  · rw [bytesAt_writeBytes_of_disjoint _ (by omega), bytesAt_md5 host]
    rfl

theorem eval_serverReceiveMd5
    (hsep : Apart networkPacket sizeofPacket md5Generated networkPacketMd5Size) :
    eval (serverReceiveMd5 ctx host buffer networkPacket md5Generated) m =
      eval (serverReceive mbedtlsMd5 host buffer networkPacket) m := by
  set got := decodedPacket host buffer networkPacket m with hgot
  have hlen := mbedtlsMd5.hash_length (host.wordBytes got.words)
  have hmem : (exec (mbedtlsMd5Ret ctx (networkPacket + dataOffset) networkPacketDataSize md5Generated)
      (exec (networkDecodePacket host buffer networkPacket) m)).mem =
        (exec (serverReceiveMd5 ctx host buffer networkPacket md5Generated) m).mem := rfl
  have hmd5 := bytesAt_md5 host (exec (serverReceiveMd5 ctx host buffer networkPacket md5Generated) m).mem
    networkPacket
  rw [packetAt_serverReceiveMd5 ctx host m hsep] at hmd5
  have hgenerated : bytesAt (exec (serverReceiveMd5 ctx host buffer networkPacket md5Generated) m).mem md5Generated
      networkPacketMd5Size = mbedtlsMd5.hash (host.wordBytes got.words) := by
    rw [mem_serverReceiveMd5]
    exact bytesAt_writeBytes_self _ _ _ hlen
  have hverdict : eval (serverReceiveMd5 ctx host buffer networkPacket md5Generated) m =
      (got.md5 == mbedtlsMd5.hash (host.wordBytes got.words)) := by
    rw [← hgenerated, hgot, ← hmd5, ← hmem]
    rfl
  rw [hverdict, Bool.eq_iff_iff, serverReceive_iff, beq_iff_eq]

end server

end ends

section between

variable (ctxC ctxS : Md5Context) (client server : ByteOrder) (mc ms : Machine)
  (networkPacket resultPacketBuffer buffer received md5Generated : ℕ)

/-- **From the client's struct to the server's verdict, with the vendored hash at both ends.**  The number,
the time and the samples arrive; the packet passes exactly between hosts of one byte order, or when the
digests of the two images of the samples are mirror images. -/
theorem md5_end_to_end
    (hsepC : Apart networkPacket sizeofPacket resultPacketBuffer networkPacketTotalSize)
    (hsepS : Apart received sizeofPacket buffer networkPacketTotalSize)
    (hsepM : Apart received sizeofPacket md5Generated networkPacketMd5Size)
    (hwire : bytesAt ms.mem buffer networkPacketTotalSize =
      eval (clientSendMd5 ctxC client networkPacket resultPacketBuffer) mc) :
    let sent := packetAt client mc.mem networkPacket
    let got := packetAt server (exec (serverReceiveMd5 ctxS server buffer received md5Generated) ms).mem received
    let isValid := eval (serverReceiveMd5 ctxS server buffer received md5Generated) ms
    got.number = sent.number ∧ got.microtime = sent.microtime ∧ got.data = sent.data ∧
      (isValid = true ↔ client = server ∨
        (Rfc1321.md5 (client.wordBytes sent.words)).reverse = Rfc1321.md5 (server.wordBytes sent.words)) := by
  intro sent got isValid
  rw [eval_clientSendMd5 ctxC client mc hsepC] at hwire
  have hgot : got = decodedPacket server buffer received ms := packetAt_serverReceiveMd5 ctxS server ms hsepM
  have hvalid : isValid = eval (serverReceive mbedtlsMd5 server buffer received) ms :=
    eval_serverReceiveMd5 ctxS server ms hsepM
  have hframe : wireFrame server got = wireFrame client (withDigest mbedtlsMd5 client sent) := by
    rw [hgot, wireFrame_decodedPacket ms hsepS, hwire]
  obtain ⟨hn, ht, hd, hm⟩ := received_iff mbedtlsMd5 hframe
  refine ⟨hn, ht, hd, ?_⟩
  rw [hvalid, serverReceive_iff, ← hgot]
  exact hm

end between

theorem md5_end_to_end_same_host :
    eval (serverReceiveMd5 zeroContext .little 0 2000 6000)
      (delivered (eval (clientSendMd5 zeroContext .little 0 2000) (packetMemory .little oneSample))) = true := by
  have hframe : bytesAt (delivered (eval (clientSendMd5 zeroContext .little 0 2000)
      (packetMemory .little oneSample))).mem 0 networkPacketTotalSize =
        eval (clientSendMd5 zeroContext .little 0 2000) (packetMemory .little oneSample) := by
    apply bytesAt_delivered
    rw [eval_clientSendMd5 _ _ _ (by decide)]
    exact wireFrame_length _ _
  have h := md5_end_to_end zeroContext zeroContext .little .little (packetMemory .little oneSample) _ 0 2000 0 2000 6000
    (by decide) (by decide) (by decide) hframe
  exact h.2.2.2.mpr (Or.inl rfl)

end OhMySockets
