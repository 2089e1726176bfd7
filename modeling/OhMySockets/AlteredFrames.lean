import OhMySockets.Validation

/-! # The verdicts on two frames

A frame is marked PASS when its md5 section is the digest of its data section, both as the server
decodes them.  The two sections of a frame (`dataSection`, `md5Section`) determine the decoded
samples and the decoded digest, and are determined by them; number and time play no part.

* `receivedStatus_pass_iff`: the verdict in terms of the decoded samples and digest;
* `altered_frames`: how the verdicts on two frames are related when one of them passes. -/

namespace OhMySockets

open ByteMemory ByteOrder

/-- The data section of a frame. -/
def dataSection (frame : List UInt8) : List UInt8 :=
  (frame.drop (networkPacketNumberSize + networkPacketMicrotimeSize)).take networkPacketDataSize

/-- The md5 section of a frame. -/
def md5Section (frame : List UInt8) : List UInt8 :=
  frame.drop (networkPacketNumberSize + networkPacketMicrotimeSize + networkPacketDataSize)

section append

variable {header data md5 : List UInt8}

theorem dataSection_append (hh : header.length = 10) (hd : data.length = 1400) :
    dataSection (header ++ data ++ md5) = data := by
  have hdrop : (header ++ data ++ md5).drop 10 = data ++ md5 := by
    rw [List.append_assoc, List.drop_left' hh]
  unfold dataSection
  exact (congrArg (List.take 1400) hdrop).trans (List.take_left' hd)

theorem md5Section_append (hh : header.length = 10) (hd : data.length = 1400) :
    md5Section (header ++ data ++ md5) = md5 := by
  have hlen : (header ++ data).length = 1410 := by rw [List.length_append, hh, hd]
  unfold md5Section
  exact List.drop_left' hlen

end append

theorem sections_bytesAt (m : Mem) (a : ℕ) : bytesAt m a networkPacketTotalSize =
    bytesAt m a 10 ++ bytesAt m (a + 10) 1400 ++ bytesAt m (a + 1410) 16 := by
  rw [show networkPacketTotalSize = 10 + 1400 + 16 from rfl, bytesAt_add, bytesAt_add]

theorem dataSection_bytesAt (m : Mem) (a : ℕ) :
    dataSection (bytesAt m a networkPacketTotalSize) = bytesAt m (a + 10) 1400 := by
  rw [sections_bytesAt]
  exact dataSection_append (bytesAt_length ..) (bytesAt_length ..)

theorem md5Section_bytesAt (m : Mem) (a : ℕ) :
    md5Section (bytesAt m a networkPacketTotalSize) = bytesAt m (a + 1410) 16 := by
  rw [sections_bytesAt]
  exact md5Section_append (bytesAt_length ..) (bytesAt_length ..)

/-! ### Sections and packets -/

section sections

variable (host : ByteOrder) (p q : Packet)

theorem wireFrame_header_length :
    (big.bytes 2 p.number.toNat ++ big.bytes 8 p.microtime.toNat).length = 10 := by simp

theorem words_bytes_length : (big.wordBytes p.words).length = 1400 := by
  rw [big.wordBytes_length, p.words_length]

theorem dataSection_wireFrame : dataSection (wireFrame host p) = big.wordBytes p.words := by
  unfold wireFrame
  exact dataSection_append (wireFrame_header_length p) (words_bytes_length p)

theorem md5Section_wireFrame : md5Section (wireFrame host p) = host.toNetwork p.md5 := by
  unfold wireFrame
  exact md5Section_append (wireFrame_header_length p) (words_bytes_length p)

variable {p q} in
theorem words_congr (h : p.data = q.data) : p.words = q.words := by
  unfold Packet.words
  rw [h]

theorem dataSection_eq_iff :
    dataSection (wireFrame host p) = dataSection (wireFrame host q) ↔ p.data = q.data := by
  rw [dataSection_wireFrame, dataSection_wireFrame]
  constructor
  · intro h
    exact words_inj (big.wordBytes_inj h)
  · intro h
    rw [words_congr h]

theorem md5Section_eq_iff :
    md5Section (wireFrame host p) = md5Section (wireFrame host q) ↔ p.md5 = q.md5 := by
  rw [md5Section_wireFrame, md5Section_wireFrame]
  constructor
  · intro h
    rw [← host.toNetwork_toNetwork p.md5, h, host.toNetwork_toNetwork]
  · intro h
    rw [h]

end sections

/-! ### The verdicts -/

variable (H : Md5) (host : ByteOrder)

/-- What the server prints about the frame at `buffer`. -/
def receivedStatus (buffer networkPacket : ℕ) (m : Machine) : String :=
  getValidationMessageByValidationStatus (eval (serverReceive H host buffer networkPacket) m)

theorem receivedStatus_pass_iff (buffer networkPacket : ℕ) (m : Machine) :
    receivedStatus H host buffer networkPacket m = "PASS" ↔
      (decodedPacket host buffer networkPacket m).md5 =
        H.hash (host.wordBytes (decodedPacket host buffer networkPacket m).words) := by
  unfold receivedStatus
  rw [message_pass_iff, serverReceive_iff]

theorem receivedStatus_fail_iff (buffer networkPacket : ℕ) (m : Machine) :
    receivedStatus H host buffer networkPacket m = "FAIL" ↔
      receivedStatus H host buffer networkPacket m ≠ "PASS" := by
  unfold receivedStatus
  cases eval (serverReceive H host buffer networkPacket) m <;> decide

/-- The sample bytes that the server hashes. -/
def hashedBytes (buffer networkPacket : ℕ) (m : Machine) : List UInt8 :=
  bytesAt (exec (networkDecodePacket host buffer networkPacket) m).mem (networkPacket + dataOffset)
    networkPacketDataSize

theorem hashedBytes_eq (buffer networkPacket : ℕ) (m : Machine) :
    hashedBytes host buffer networkPacket m =
      host.wordBytes (decodedPacket host buffer networkPacket m).words :=
  bytesAt_data host _ networkPacket

/-- How the samples and digests of two packets decide the verdict on `q` when `p` passes. -/
theorem altered_packets {p q : Packet} (hpass : p.md5 = H.hash (host.wordBytes p.words)) :
    (q.data = p.data → q.md5 ≠ p.md5 → q.md5 ≠ H.hash (host.wordBytes q.words)) ∧
    (q.md5 = p.md5 → (q.md5 = H.hash (host.wordBytes q.words) ↔
      H.hash (host.wordBytes q.words) = H.hash (host.wordBytes p.words))) ∧
    (q.data = p.data → q.md5 = p.md5 → q.md5 = H.hash (host.wordBytes q.words)) := by
  refine ⟨fun hdata hmd5 heq => ?_, fun hmd5 => ?_, fun hdata hmd5 => ?_⟩
  · apply hmd5
    rw [heq, words_congr hdata, hpass]
  · rw [hmd5, hpass]
    exact eq_comm
  · rw [hmd5, words_congr hdata, hpass]

/-- **The verdict on `g` when `f` passes.**  A change of the digest alone is noticed; a change of the
samples alone changes the decoded samples and is noticed unless the digests collide; a change of
number and time alone is not noticed. -/
theorem altered_frames {mf mg : Machine} {bufferF packetF bufferG packetG : ℕ}
    (hf : Apart packetF sizeofPacket bufferF networkPacketTotalSize)
    (hg : Apart packetG sizeofPacket bufferG networkPacketTotalSize)
    (hpass : receivedStatus H host bufferF packetF mf = "PASS") :
    let f := bytesAt mf.mem bufferF networkPacketTotalSize
    let g := bytesAt mg.mem bufferG networkPacketTotalSize
    (dataSection g = dataSection f → md5Section g ≠ md5Section f →
      receivedStatus H host bufferG packetG mg = "FAIL") ∧
    (md5Section g = md5Section f → dataSection g ≠ dataSection f →
      (receivedStatus H host bufferG packetG mg = "PASS" ↔
        H.hash (hashedBytes host bufferG packetG mg) = H.hash (hashedBytes host bufferF packetF mf)) ∧
      (decodedPacket host bufferG packetG mg).data ≠ (decodedPacket host bufferF packetF mf).data) ∧
    (dataSection g = dataSection f → md5Section g = md5Section f →
      receivedStatus H host bufferG packetG mg = "PASS") := by
  intro f g
  have hframeF : f = wireFrame host (decodedPacket host bufferF packetF mf) :=
    (wireFrame_decodedPacket mf hf).symm
  have hframeG : g = wireFrame host (decodedPacket host bufferG packetG mg) :=
    (wireFrame_decodedPacket mg hg).symm
  rw [receivedStatus_pass_iff] at hpass
  rw [hframeF, hframeG, receivedStatus_fail_iff, hashedBytes_eq, hashedBytes_eq]
  simp only [ne_eq, receivedStatus_pass_iff, dataSection_eq_iff, md5Section_eq_iff]
  obtain ⟨hdigest, hsamples, hboth⟩ := altered_packets H host (q := decodedPacket host bufferG packetG mg) hpass
  exact ⟨hdigest, fun hmd5 hdata => ⟨hsamples hmd5, hdata⟩, hboth⟩

/-- A stand-in for MD5 whose digests are all zero. -/
def zeroDigest : Md5 := ⟨fun _ => List.replicate 16 0, fun _ => List.length_replicate⟩

theorem zero_frame_passes : receivedStatus zeroDigest .big 0 2000 ⟨fun _ => 0, [], []⟩ = "PASS" := by
  rw [receivedStatus_pass_iff]
  have hmd5 := md5Section_wireFrame .big (decodedPacket .big 0 2000 ⟨fun _ => 0, [], []⟩)
  rw [wireFrame_decodedPacket _ (by decide), md5Section_bytesAt] at hmd5
  exact hmd5.symm

/-- One byte of the digest is changed. -/
theorem altered_frames_digest : receivedStatus zeroDigest .big 0 2000
    ⟨Function.update (fun _ => 0) 1410 1, [], []⟩ = "FAIL" := by
  have hapart : Apart 2000 sizeofPacket 0 networkPacketTotalSize := by decide
  refine (altered_frames zeroDigest .big hapart hapart zero_frame_passes).1 ?_ ?_
  · rw [dataSection_bytesAt, dataSection_bytesAt]
    apply bytesAt_congr
    intro i hi
    have hne : 0 + 10 + i ≠ 1410 := by omega
    show Function.update (fun _ => (0 : UInt8)) 1410 1 (0 + 10 + i) = 0
    rw [Function.update_of_ne hne]
  · rw [md5Section_bytesAt, md5Section_bytesAt]
    decide

end OhMySockets
