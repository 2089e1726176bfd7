import OhMySockets.NetworkEncode
import OhMySockets.NetworkDecode

/-! # The codec as a whole

What the two functions of `network.c` do together, for every placement of packet and buffer.

* **Frame.**  `codec_confined_iff`: the codec touches no memory but its output exactly when the
  host is big-endian, or when the byte swaps that the encoder does behind its buffer happen to
  change nothing.
* **Round trip.**  `codec_round_trip`: decoding undoes encoding, encoding undoes decoding, and
  every 1426-byte frame is the encoding of exactly one packet.
* **Wire format.**  `wire_format_eq_iff`: the frames of a little-endian and of a big-endian host
  for one packet agree exactly when the digest is a palindrome. -/

namespace OhMySockets

open ByteMemory ByteOrder

/-- The `n` bytes at `a` and the `k` bytes at `b` do not overlap. -/
def Apart (a n b k : ℕ) : Prop := a + n ≤ b ∨ b + k ≤ a

instance (a n b k : ℕ) : Decidable (Apart a n b k) := inferInstanceAs (Decidable (_ ∨ _))

/-- The frame in the 1426 bytes at `buffer` after encoding the packet at `packet`. -/
def encodedFrame (host : ByteOrder) (packet buffer : ℕ) (m : Machine) : List UInt8 :=
  bytesAt (exec (networkEncodePacket host packet buffer) m).mem buffer networkPacketTotalSize

/-- The packet at `packet` after decoding the frame at `buffer`. -/
def decodedPacket (host : ByteOrder) (buffer packet : ℕ) (m : Machine) : Packet :=
  packetAt host (exec (networkDecodePacket host buffer packet) m).mem packet

theorem encodedFrame_eq {host : ByteOrder} {packet buffer : ℕ} (m : Machine)
    (h : Apart packet sizeofPacket buffer networkPacketTotalSize) :
    encodedFrame host packet buffer m = wireFrame host (packetAt host m.mem packet) :=
  networkEncodePacket_bytesAt host packet buffer m h

theorem wireFrame_decodedPacket {host : ByteOrder} {buffer packet : ℕ} (m : Machine)
    (h : Apart packet sizeofPacket buffer networkPacketTotalSize) :
    wireFrame host (decodedPacket host buffer packet m) = bytesAt m.mem buffer networkPacketTotalSize :=
  networkDecodePacket_wireFrame host buffer packet m h

/-! ### Memory outside the output -/

/-- `network_encode_packet` leaves every byte outside its output buffer unchanged. -/
def EncodeConfined (host : ByteOrder) (m : Machine) (packet buffer : ℕ) : Prop :=
  ∀ x, x < buffer ∨ buffer + networkPacketTotalSize ≤ x →
    (exec (networkEncodePacket host packet buffer) m).mem x = m.mem x

/-- `network_decode_packet` reads the frame and its own packet only, what it stores depends on the
frame only, and every byte outside the packet is unchanged. -/
structure DecodeConfined (host : ByteOrder) (m : Machine) (buffer packet : ℕ) : Prop where
  reads : ∀ x ∈ (exec (networkDecodePacket host buffer packet) m).reads, x ∈ m.reads ∨
    (buffer ≤ x ∧ x < buffer + networkPacketTotalSize) ∨ (packet ≤ x ∧ x < packet + sizeofPacket)
  depends : ∀ m' : Machine, bytesAt m'.mem buffer networkPacketTotalSize =
    bytesAt m.mem buffer networkPacketTotalSize →
      decodedPacket host buffer packet m' = decodedPacket host buffer packet m
  frame : ∀ x, x < packet ∨ packet + sizeofPacket ≤ x →
    (exec (networkDecodePacket host buffer packet) m).mem x = m.mem x

theorem decodeConfined (host : ByteOrder) (m : Machine) {buffer packet : ℕ}
    (h : Apart packet sizeofPacket buffer networkPacketTotalSize) :
    DecodeConfined host m buffer packet where
  reads x hx := ((networkDecodePacket_footprint host buffer packet).reads m x hx).imp id fun hx => hx
  depends m' hm := by
    apply wireFrame_inj host
    rw [wireFrame_decodedPacket m' h, wireFrame_decodedPacket m h, hm]
  frame x hx := (networkDecodePacket_footprint host buffer packet).frame_Ico m hx

/-- The two bytes of each of the 692 words behind the buffer are equal. -/
def OverrunPaired (m : Mem) (buffer : ℕ) : Prop :=
  ∀ k < 692, m (buffer + networkPacketTotalSize + 2 * k) = m (buffer + networkPacketTotalSize + 2 * k + 1)

theorem OverrunPaired.swap {mem : Mem} {buffer x : ℕ} (h : OverrunPaired mem buffer)
    (hlo : buffer + 1426 ≤ x) (hhi : x < buffer + 2810) :
    (if (x - (buffer + 1426)) % 2 = 0 then mem (x + 1) else mem (x - 1)) = mem x := by
  have hpair : mem (buffer + 1426 + 2 * ((x - (buffer + 1426)) / 2)) =
      mem (buffer + 1426 + 2 * ((x - (buffer + 1426)) / 2) + 1) := h _ (by omega)
  split_ifs with heven
  · have hword : buffer + 1426 + 2 * ((x - (buffer + 1426)) / 2) = x := by omega
    rw [hword] at hpair
    exact hpair.symm
  · have hword : buffer + 1426 + 2 * ((x - (buffer + 1426)) / 2) = x - 1 := by omega
    rw [hword, Nat.sub_add_cancel (by omega)] at hpair
    exact hpair

theorem encodeConfined_iff (host : ByteOrder) (m : Machine) (packet buffer : ℕ) :
    EncodeConfined host m packet buffer ↔ host = .big ∨ OverrunPaired m.mem buffer := by
  unfold EncodeConfined OverrunPaired
  constructor
  · intro h
    cases host with
    | big => exact Or.inl rfl
    | little =>
        apply Or.inr
        intro k hk
        have hx := h (buffer + 1426 + 2 * k) (Or.inr (by show buffer + 1426 ≤ _; omega))
        rw [networkEncodePacket_outside _ _ _ _ _ (by omega), if_pos ⟨rfl, by omega, by omega⟩,
          if_pos (by omega)] at hx
        exact hx.symm
  · intro h x hx
    rw [networkEncodePacket_outside _ _ _ _ _ hx]
    by_cases hin : host = .little ∧ buffer + 1426 ≤ x ∧ x < buffer + 2810
    · obtain ⟨hlittle, hlo, hhi⟩ := hin
      have hpaired : OverrunPaired m.mem buffer := h.resolve_left (by rw [hlittle]; decide)
      rw [if_pos ⟨hlittle, hlo, hhi⟩, hpaired.swap hlo hhi]
    · rw [if_neg hin]

/-- The codec is confined to its output: the encoder run on the packet at `packet`, and the
decoder wherever its frame and its packet lie apart. -/
def CodecConfined (host : ByteOrder) (m : Machine) (packet buffer : ℕ) : Prop :=
  EncodeConfined host m packet buffer ∧ ∀ (m' : Machine) (buffer' packet' : ℕ),
    Apart packet' sizeofPacket buffer' networkPacketTotalSize → DecodeConfined host m' buffer' packet'

/-- **When the codec changes no memory but its output.** -/
theorem codec_confined_iff (host : ByteOrder) (m : Machine) (packet buffer : ℕ) :
    CodecConfined host m packet buffer ↔ host = .big ∨ OverrunPaired m.mem buffer := by
  rw [← encodeConfined_iff host m packet buffer]
  exact ⟨fun h => h.1, fun h => ⟨h, fun m' _ _ h' => decodeConfined host m' h'⟩⟩

/-- A little-endian host with a 1 directly behind the buffer: the encoder moves it one byte up. -/
theorem overrun_changes_memory :
    ¬ CodecConfined .little ⟨fun x => if x = 1426 then 1 else 0, [], []⟩ 4000 0 := by
  intro h
  have hpair := ((encodeConfined_iff _ _ _ _).mp h.1).resolve_left (by decide) 0 (by decide)
  exact absurd hpair (by decide)

/-! ### Round trip -/

/-- The encoder writes the frame `b` for the packet `p`, wherever packet and buffer lie. -/
def Encodes (host : ByteOrder) (p : Packet) (b : List UInt8) : Prop :=
  ∀ (m : Machine) (packet buffer : ℕ), Apart packet sizeofPacket buffer networkPacketTotalSize →
    packetAt host m.mem packet = p → encodedFrame host packet buffer m = b

theorem encodes_iff {host : ByteOrder} {p : Packet} {b : List UInt8} :
    Encodes host p b ↔ wireFrame host p = b := by
  constructor
  · intro h
    have hp := packetAt_storePacket host (fun _ => 0) 0 p
    rw [← h ⟨storePacket host (fun _ => 0) 0 p, [], []⟩ 0 1432 (by decide) hp, encodedFrame_eq _ (by decide)]
    rw [hp]
  · rintro h m packet buffer hsep rfl
    rw [encodedFrame_eq m hsep, h]

/-- Every frame is the wire frame of some packet: the one the decoder makes of it. -/
theorem exists_wireFrame (host : ByteOrder) {b : List UInt8} (hb : b.length = networkPacketTotalSize) :
    ∃ p, wireFrame host p = b := by
  refine ⟨decodedPacket host 0 1426 ⟨writeBytes (fun _ => 0) 0 b, [], []⟩, ?_⟩
  rw [wireFrame_decodedPacket _ (by decide)]
  exact bytesAt_writeBytes_self _ _ _ hb

/-- **Decoding undoes encoding, encoding undoes decoding, and every frame has one packet.** -/
theorem codec_round_trip (host : ByteOrder) :
    (∀ (m m' : Machine) (packet buffer buffer' packet' : ℕ),
      Apart packet sizeofPacket buffer networkPacketTotalSize →
      Apart packet' sizeofPacket buffer' networkPacketTotalSize →
      bytesAt m'.mem buffer' networkPacketTotalSize = encodedFrame host packet buffer m →
      decodedPacket host buffer' packet' m' = packetAt host m.mem packet) ∧
    (∀ (m : Machine) (buffer packet buffer' : ℕ),
      Apart packet sizeofPacket buffer networkPacketTotalSize →
      Apart packet sizeofPacket buffer' networkPacketTotalSize →
      encodedFrame host packet buffer' (exec (networkDecodePacket host buffer packet) m) =
        bytesAt m.mem buffer networkPacketTotalSize) ∧
    (∀ (p : Packet) (a : ℕ) (m : Mem), packetAt host (storePacket host m a p) a = p) ∧
    (∀ p q b, Encodes host p b → Encodes host q b → p = q) ∧
    ∀ b : List UInt8, b.length = networkPacketTotalSize → ∃! p, Encodes host p b := by
  refine ⟨?_, ?_, ?_, ?_, ?_⟩
  · intro m m' packet buffer buffer' packet' hsep hsep' hframe
    apply wireFrame_inj host
    rw [wireFrame_decodedPacket m' hsep', hframe, encodedFrame_eq m hsep]
  · intro m buffer packet buffer' hsep hsep'
    rw [encodedFrame_eq _ hsep', ← wireFrame_decodedPacket m hsep]
    rfl
  · exact fun p a m => packetAt_storePacket host m a p
  · intro p q b hp hq
    exact wireFrame_inj host ((encodes_iff.mp hp).trans (encodes_iff.mp hq).symm)
  · intro b hb
    obtain ⟨p, hp⟩ := exists_wireFrame host hb
    refine ⟨p, encodes_iff.mpr hp, fun q hq => ?_⟩
    exact wireFrame_inj host ((encodes_iff.mp hq).trans hp.symm)

/-- A packet of zeros with the given digest. -/
def zeroPacket (md5 : List UInt8) (h : md5.length = networkPacketMd5Size) : Packet :=
  ⟨0, 0, List.replicate networkPacketDataInt16WordsCount 0, md5, List.length_replicate, h⟩

/-- A memory of a host that holds only the packet, at address 0. -/
def packetMemory (host : ByteOrder) (p : Packet) : Machine :=
  ⟨storePacket host (fun _ => 0) 0 p, [], []⟩

/-- A packet of different bytes. -/
def countedPacket (md5 : List UInt8) (h : md5.length = networkPacketMd5Size) : Packet :=
  ⟨513, 66051, (List.range 700).map Int16.ofNat, md5, by simp, h⟩

/-- Sixteen different bytes. -/
def countedDigest : List UInt8 := (List.range 16).map UInt8.ofNat

theorem countedDigest_length : countedDigest.length = networkPacketMd5Size := rfl

/-- It comes back from the frame that the encoder left in the same memory. -/
theorem codec_round_trip_counted :
    decodedPacket .little 2000 6000 (exec (networkEncodePacket .little 0 2000)
      (packetMemory .little (countedPacket countedDigest countedDigest_length))) =
      countedPacket countedDigest countedDigest_length := by
  rw [(codec_round_trip .little).1 _ _ 0 2000 2000 6000 (by decide) (by decide) rfl]
  exact packetAt_storePacket _ _ _ _

/-! ### The wire format of two hosts -/

theorem wireFrame_swap_iff (p : Packet) :
    wireFrame .little p = wireFrame .big p ↔ p.md5.reverse = p.md5 := by
  rw [wireFrame_eq_iff]
  exact ⟨fun h => h.2.2.2, fun h => ⟨rfl, rfl, rfl, h⟩⟩

/-- **When the two kinds of hosts send the same frame for one packet.** -/
theorem wire_format_eq_iff (p : Packet) (ml mb : Machine) (packetL bufferL packetB bufferB : ℕ)
    (hsepL : Apart packetL sizeofPacket bufferL networkPacketTotalSize)
    (hsepB : Apart packetB sizeofPacket bufferB networkPacketTotalSize)
    (hl : packetAt .little ml.mem packetL = p) (hb : packetAt .big mb.mem packetB = p) :
    encodedFrame .little packetL bufferL ml = encodedFrame .big packetB bufferB mb ↔
      p.md5.reverse = p.md5 := by
  rw [encodedFrame_eq ml hsepL, encodedFrame_eq mb hsepB, hl, hb, wireFrame_swap_iff]

theorem wire_format_eq_palindrome : let p := countedPacket ([1, 2, 3, 4, 5, 6, 7, 8] ++ [8, 7, 6, 5, 4, 3, 2, 1]) rfl
    encodedFrame .little 0 2000 (packetMemory .little p) = encodedFrame .big 0 2000 (packetMemory .big p) :=
  (wire_format_eq_iff _ _ _ 0 2000 0 2000 (by decide) (by decide)
    (packetAt_storePacket _ _ _ _) (packetAt_storePacket _ _ _ _)).mpr rfl

/-- They differ on a packet whose digest starts with a 1 and goes on with zeros. -/
theorem wire_format_differs :
    encodedFrame .little 0 2000 (packetMemory .little (zeroPacket (1 :: List.replicate 15 0) rfl)) ≠
      encodedFrame .big 0 2000 (packetMemory .big (zeroPacket (1 :: List.replicate 15 0) rfl)) := by
  intro h
  rw [encodedFrame_eq _ (by decide), encodedFrame_eq _ (by decide)] at h
  simp only [packetMemory, packetAt_storePacket] at h
  exact absurd ((wireFrame_swap_iff _).mp h) (by decide)

end OhMySockets
