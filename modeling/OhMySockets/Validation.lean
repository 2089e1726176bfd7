import OhMySockets.Codec

/-! # From the client's packet to the server's verdict

The two ends of one packet.  `clientSend` is the body of the client's loop from the filled struct
on (hash the sample bytes, encode, write the frame); `serverReceive` is the server's path from a
received frame to `is_valid` (decode, hash, compare).  MD5 is an arbitrary function from byte
sequences to sixteen bytes (`Md5`).

* `clientSend_eq`: the frame that is written, as a wire frame;
* `serverReceive_iff`: the verdict on a packet depends on its samples and digest only;
* `end_to_end`: the number, the time and the samples always arrive; the verdict is PASS exactly
  when the hosts have one byte order or the digests of the two images of the samples are mirror
  images of each other. -/

namespace OhMySockets

open ByteMemory ByteOrder

/-- MD5 as an arbitrary function to sixteen bytes. -/
structure Md5 where
  hash : List UInt8 → List UInt8
  hash_length : ∀ bs, (hash bs).length = networkPacketMd5Size

variable (H : Md5)

/-- The client's loop body from the filled struct on: `mbedtls_md5_ret` on the samples,
`network_encode_packet`, `write`.  The result is what is written to the socket. -/
def clientSend (host : ByteOrder) (networkPacket resultPacketBuffer : ℕ) : Cmd (List UInt8) := do
  let data ← load (networkPacket + dataOffset) networkPacketDataSize
  store (networkPacket + md5Offset) (H.hash data)
  networkEncodePacket host networkPacket resultPacketBuffer
  load resultPacketBuffer networkPacketTotalSize

/-- The server's path from a full frame to `is_valid`: `network_decode_packet`,
`mbedtls_md5_ret` on the decoded samples, `memcmp` of the digests. -/
def serverReceive (host : ByteOrder) (buffer networkPacket : ℕ) : Cmd Bool := do
  networkDecodePacket host buffer networkPacket
  let data ← load (networkPacket + dataOffset) networkPacketDataSize
  let md5Generated := H.hash data
  let md5 ← load (networkPacket + md5Offset) networkPacketMd5Size
  pure (md5 == md5Generated)

/-- `get_validation_message_by_validation_status`. -/
def getValidationMessageByValidationStatus (isValid : Bool) : String :=
  if isValid then "PASS" else "FAIL"

theorem message_pass_iff (isValid : Bool) :
    getValidationMessageByValidationStatus isValid = "PASS" ↔ isValid = true := by
  cases isValid <;> decide

/-- The packet that the client encodes: the samples with their digest filled in. -/
def withDigest (host : ByteOrder) (p : Packet) : Packet :=
  { p with md5 := H.hash (host.wordBytes p.words), md5_length := H.hash_length _ }

@[simp] theorem withDigest_number (host : ByteOrder) (p : Packet) :
    (withDigest H host p).number = p.number := rfl

@[simp] theorem withDigest_microtime (host : ByteOrder) (p : Packet) :
    (withDigest H host p).microtime = p.microtime := rfl

@[simp] theorem withDigest_data (host : ByteOrder) (p : Packet) :
    (withDigest H host p).data = p.data := rfl

@[simp] theorem withDigest_words (host : ByteOrder) (p : Packet) :
    (withDigest H host p).words = p.words := rfl

/-! ### The client -/

section client

variable (host : ByteOrder) (m : Machine) (networkPacket resultPacketBuffer : ℕ)

theorem packetAt_store_md5 (h : (H.hash (host.wordBytes (packetAt host m.mem networkPacket).words)).length = 16) :
    packetAt host (writeBytes m.mem (networkPacket + 1416)
      (H.hash (host.wordBytes (packetAt host m.mem networkPacket).words))) networkPacket =
      withDigest H host (packetAt host m.mem networkPacket) := by
  apply packetAt_eq_of_bytes
  · rw [bytesAt_writeBytes_of_disjoint _ (by omega), bytesAt_number host]
    rfl
  · rw [bytesAt_writeBytes_of_disjoint _ (by omega), bytesAt_microtime host]
    rfl
  · rw [bytesAt_writeBytes_of_disjoint _ (by omega), bytesAt_data host, withDigest_words]
  · exact bytesAt_writeBytes_self _ _ _ h

theorem clientSend_eq (hsep : Apart networkPacket sizeofPacket resultPacketBuffer networkPacketTotalSize) :
    eval (clientSend H host networkPacket resultPacketBuffer) m =
      wireFrame host (withDigest H host (packetAt host m.mem networkPacket)) := by
  have hdata : bytesAt m.mem (networkPacket + dataOffset) networkPacketDataSize =
      host.wordBytes (packetAt host m.mem networkPacket).words := bytesAt_data host m.mem networkPacket
  simp only [clientSend, eval_bind, eval_load]
  rw [hdata, ← packetAt_store_md5 H host m networkPacket (H.hash_length _)]
  exact encodedFrame_eq _ hsep

end client

/-! ### The server -/

section server

variable (host : ByteOrder) (m : Machine) (buffer networkPacket : ℕ)

theorem packetAt_serverReceive :
    packetAt host (exec (serverReceive H host buffer networkPacket) m).mem networkPacket =
      decodedPacket host buffer networkPacket m := rfl

theorem serverReceive_iff : eval (serverReceive H host buffer networkPacket) m = true ↔
    (decodedPacket host buffer networkPacket m).md5 =
      H.hash (host.wordBytes (decodedPacket host buffer networkPacket m).words) := by
  set mem := (exec (networkDecodePacket host buffer networkPacket) m).mem with hmem
  have hdata : bytesAt mem (networkPacket + dataOffset) networkPacketDataSize =
      host.wordBytes (packetAt host mem networkPacket).words := bytesAt_data host mem networkPacket
  have hverdict : eval (serverReceive H host buffer networkPacket) m =
      (bytesAt mem (networkPacket + md5Offset) networkPacketMd5Size ==
        H.hash (bytesAt mem (networkPacket + dataOffset) networkPacketDataSize)) := by
    simp only [serverReceive, eval_bind, eval_load, eval_pure, mem_load, hmem]
  rw [hverdict, beq_iff_eq, hdata]
  rfl

end server

/-! ### Both ends -/

/-- A frame made by a `client` host and read by a `server` host: the integers and the samples come
through, and the digest matches when the hosts agree or the two digests are mirror images. -/
theorem received_iff {client server : ByteOrder} {sent got : Packet}
    (h : wireFrame server got = wireFrame client (withDigest H client sent)) :
    got.number = sent.number ∧ got.microtime = sent.microtime ∧ got.data = sent.data ∧
      (got.md5 = H.hash (server.wordBytes got.words) ↔ client = server ∨
        (H.hash (client.wordBytes sent.words)).reverse = H.hash (server.wordBytes sent.words)) := by
  rw [wireFrame_eq_iff, withDigest_number, withDigest_microtime, withDigest_data] at h
  obtain ⟨hn, ht, hd, hm⟩ := h
  have hw : got.words = sent.words := by rw [Packet.words, Packet.words, hd]
  refine ⟨hn, ht, hd, ?_⟩
  rw [hw]
  -- the digest is mirrored by the little-endian end only
  cases client <;> cases server
  · have heq : got.md5 = H.hash (little.wordBytes sent.words) := List.reverse_injective hm
    simp [heq]
  · have heq : got.md5 = (H.hash (little.wordBytes sent.words)).reverse := hm
    simp [heq]
  · have heq : got.md5 = (H.hash (big.wordBytes sent.words)).reverse := by
      rw [← List.reverse_reverse got.md5]
      exact congrArg List.reverse hm
    simp [heq]
  · have heq : got.md5 = H.hash (big.wordBytes sent.words) := hm
    simp [heq]

section ends

variable (client server : ByteOrder) (mc ms : Machine)
  (networkPacket resultPacketBuffer buffer received : ℕ)

theorem received_wireFrame
    (hsepC : Apart networkPacket sizeofPacket resultPacketBuffer networkPacketTotalSize)
    (hsepS : Apart received sizeofPacket buffer networkPacketTotalSize)
    (hwire : bytesAt ms.mem buffer networkPacketTotalSize =
      eval (clientSend H client networkPacket resultPacketBuffer) mc) :
    wireFrame server (decodedPacket server buffer received ms) =
      wireFrame client (withDigest H client (packetAt client mc.mem networkPacket)) := by
  rw [wireFrame_decodedPacket ms hsepS, hwire, clientSend_eq H client mc networkPacket _ hsepC]

/-- **What arrives at the server**, for every byte order of the two hosts. -/
theorem end_to_end
    (hsepC : Apart networkPacket sizeofPacket resultPacketBuffer networkPacketTotalSize)
    (hsepS : Apart received sizeofPacket buffer networkPacketTotalSize)
    (hwire : bytesAt ms.mem buffer networkPacketTotalSize =
      eval (clientSend H client networkPacket resultPacketBuffer) mc) :
    let sent := packetAt client mc.mem networkPacket
    let got := packetAt server (exec (serverReceive H server buffer received) ms).mem received
    let isValid := eval (serverReceive H server buffer received) ms
    (got.number = sent.number ∧ got.microtime = sent.microtime ∧ got.data = sent.data ∧
      getValidationMessageByValidationStatus isValid = "PASS") ↔ client = server ∨
        (H.hash (client.wordBytes sent.words)).reverse = H.hash (server.wordBytes sent.words) := by
  intro sent got isValid
  obtain ⟨hn, ht, hd, hm⟩ := received_iff H
    (received_wireFrame H client server mc ms networkPacket _ buffer received hsepC hsepS hwire)
  rw [message_pass_iff, serverReceive_iff, hm]
  exact ⟨fun h => h.2.2.2, fun h => ⟨hn, ht, hd, h⟩⟩

end ends

/-- A server machine with a received frame in its buffer at address 0. -/
def delivered (frame : List UInt8) : Machine := ⟨writeBytes (fun _ => 0) 0 frame, [], []⟩

theorem bytesAt_delivered {frame : List UInt8} (h : frame.length = networkPacketTotalSize) :
    bytesAt (delivered frame).mem 0 networkPacketTotalSize = frame :=
  bytesAt_writeBytes_self _ _ _ h

/-- A stand-in for MD5: the first sixteen bytes. -/
def firstSixteen : Md5 := ⟨fun bs => (bs ++ List.replicate 16 0).take 16, fun bs => by simp⟩

/-- A packet whose first sample is 1, all others 0. -/
def oneSample : Packet where
  number := 1
  microtime := 0
  data := 1 :: List.replicate 699 0
  md5 := List.replicate 16 0
  data_length := by rw [List.length_cons, List.length_replicate]
  md5_length := List.length_replicate

/-- The frame that the client on a host of the given byte order sends for `oneSample`. -/
def oneSampleFrame (host : ByteOrder) : List UInt8 :=
  eval (clientSend firstSixteen host 0 2000) (packetMemory host oneSample)

theorem bytesAt_oneSampleFrame (host : ByteOrder) :
    bytesAt (delivered (oneSampleFrame host)).mem 0 networkPacketTotalSize = oneSampleFrame host := by
  apply bytesAt_delivered
  unfold oneSampleFrame
  rw [clientSend_eq _ _ _ _ _ (by decide)]
  exact wireFrame_length _ _

theorem end_to_end_same_host :
    getValidationMessageByValidationStatus
      (eval (serverReceive firstSixteen .little 0 2000) (delivered (oneSampleFrame .little))) = "PASS" :=
  ((end_to_end firstSixteen .little .little (packetMemory .little oneSample) _ 0 2000 0 2000
    (by decide) (by decide) (bytesAt_oneSampleFrame .little)).mpr (Or.inl rfl)).2.2.2

/-- From a little-endian client to a big-endian server the same packet fails. -/
theorem little_to_big_fails :
    getValidationMessageByValidationStatus
      (eval (serverReceive firstSixteen .big 0 2000) (delivered (oneSampleFrame .little))) = "FAIL" := by
  have hframe := received_wireFrame firstSixteen .little .big (packetMemory .little oneSample)
    _ 0 2000 0 2000 (by decide) (by decide) (bytesAt_oneSampleFrame .little)
  have hpacket : packetAt .little (packetMemory .little oneSample).mem 0 = oneSample :=
    packetAt_storePacket _ _ _ _
  have hne : ¬ (eval (serverReceive firstSixteen .big 0 2000) (delivered (oneSampleFrame .little)) = true) := by
    rw [serverReceive_iff, (received_iff firstSixteen hframe).2.2.2, hpacket]
    decide
  unfold getValidationMessageByValidationStatus
  rw [if_neg hne]

end OhMySockets
