import OhMySockets.Memory

/-! # Packets and wire frames

`common/network/network.h`: `struct packet`, its layout in the memory of a host, and the
1426-byte frame in which it travels.

* `Packet` is the value of the struct; `packetAt host m a` reads it from the memory `m` at the
  address `a`, with the padding that aligns `microtime` to eight bytes.
* `wireFrame host p` is the frame that a host of the given byte order sends for `p`, section by
  section.  It is the abstract meaning of the codec of `Network.lean`: the integers travel in
  network order, the digest travels as `toNetwork` leaves it.
* `wireFrame_eq_iff` compares the frames of two hosts; `wireFrame_inj`: the frame determines the
  packet. -/

namespace OhMySockets

open ByteMemory ByteOrder

/-- `NETWORK_PACKET_NUMBER_SIZE`. -/
abbrev networkPacketNumberSize : ℕ := 2
/-- `NETWORK_PACKET_MICROTIME_SIZE`. -/
abbrev networkPacketMicrotimeSize : ℕ := 8
/-- `NETWORK_PACKET_DATA_INT16_WORDS_COUNT`. -/
abbrev networkPacketDataInt16WordsCount : ℕ := 700
/-- `NETWORK_PACKET_DATA_SIZE`, in bytes. -/
abbrev networkPacketDataSize : ℕ := networkPacketDataInt16WordsCount * 2
/-- `NETWORK_PACKET_MD5_SIZE`. -/
abbrev networkPacketMd5Size : ℕ := 16
/-- `NETWORK_PACKET_TOTAL_SIZE`. -/
abbrev networkPacketTotalSize : ℕ :=
  networkPacketNumberSize + networkPacketMicrotimeSize + networkPacketDataSize + networkPacketMd5Size

/-- `struct packet`. -/
@[ext] structure Packet where
  number : UInt16
  microtime : UInt64
  data : List Int16
  md5 : List UInt8
  data_length : data.length = networkPacketDataInt16WordsCount
  md5_length : md5.length = networkPacketMd5Size
deriving DecidableEq

/-- Offset of `microtime` in `struct packet`, after six bytes of padding. -/
abbrev microtimeOffset : ℕ := 8
/-- Offset of `data` in `struct packet`. -/
abbrev dataOffset : ℕ := 16
/-- Offset of `md5` in `struct packet`. -/
abbrev md5Offset : ℕ := 1416
/-- `sizeof(struct packet)`. -/
abbrev sizeofPacket : ℕ := 1432

/-- The 16-bit patterns of the samples. -/
def Packet.words (p : Packet) : List UInt16 := p.data.map Int16.toUInt16

theorem Packet.words_length (p : Packet) : p.words.length = 700 := by
  unfold Packet.words
  rw [List.length_map, p.data_length]

theorem map_toInt16_toUInt16 (ws : List UInt16) :
    (ws.map UInt16.toInt16).map Int16.toUInt16 = ws := by
  induction ws with
  | nil => rfl
  | cons w ws ih => rw [List.map_cons, List.map_cons, ih, UInt16.toUInt16_toInt16]

/-- The packet stored at address `a` in the memory of a host. -/
def packetAt (host : ByteOrder) (m : Mem) (a : ℕ) : Packet where
  number := UInt16.ofNat (host.value (bytesAt m a 2))
  microtime := UInt64.ofNat (host.value (bytesAt m (a + microtimeOffset) 8))
  data := (host.bytesWords (bytesAt m (a + dataOffset) 1400)).map UInt16.toInt16
  md5 := bytesAt m (a + md5Offset) 16
  data_length := by
    have hlen : (bytesAt m (a + dataOffset) 1400).length = 2 * 700 := by simp
    rw [List.length_map, host.bytesWords_length hlen]
  md5_length := by simp

/-! ### The bytes of a stored packet -/

section stored

variable (host : ByteOrder) (m : Mem) (a : ℕ)

theorem bytesAt_number : bytesAt m a 2 = host.bytes 2 (packetAt host m a).number.toNat := by
  unfold packetAt
  rw [ofNat16_toNat host (by simp), host.bytes_value (by simp)]

theorem bytesAt_microtime :
    bytesAt m (a + 8) 8 = host.bytes 8 (packetAt host m a).microtime.toNat := by
  unfold packetAt
  rw [ofNat64_toNat host (by simp), host.bytes_value (by simp)]

theorem bytesAt_data :
    bytesAt m (a + 16) 1400 = host.wordBytes (packetAt host m a).words := by
  have hlen : (bytesAt m (a + 16) 1400).length = 2 * 700 := by simp
  simp only [packetAt, Packet.words]
  rw [map_toInt16_toUInt16, host.wordBytes_bytesWords hlen]

theorem bytesAt_md5 : bytesAt m (a + 1416) 16 = (packetAt host m a).md5 := rfl

variable {m m' : Mem} {a}

theorem packetAt_number_congr (h : ∀ x, a ≤ x → x < a + 2 → m x = m' x) :
    (packetAt host m a).number = (packetAt host m' a).number := by
  simp only [packetAt]
  rw [bytesAt_congr fun i hi => h (a + i) (by omega) (by omega)]

theorem packetAt_microtime_congr (h : ∀ x, a + 8 ≤ x → x < a + 16 → m x = m' x) :
    (packetAt host m a).microtime = (packetAt host m' a).microtime := by
  simp only [packetAt]
  rw [bytesAt_congr fun i hi => h (a + 8 + i) (by omega) (by omega)]

theorem packetAt_words_congr (h : ∀ x, a + 16 ≤ x → x < a + 1416 → m x = m' x) :
    (packetAt host m a).words = (packetAt host m' a).words := by
  simp only [packetAt, Packet.words]
  rw [bytesAt_congr fun i hi => h (a + 16 + i) (by omega) (by omega)]

theorem packetAt_md5_congr (h : ∀ x, a + 1416 ≤ x → x < a + 1432 → m x = m' x) :
    (packetAt host m a).md5 = (packetAt host m' a).md5 :=
  bytesAt_congr fun i hi => h (a + 1416 + i) (by omega) (by omega)

end stored

theorem toUInt16_inj {a b : Int16} (h : a.toUInt16 = b.toUInt16) : a = b := by
  rw [← a.toInt16_toUInt16, ← b.toInt16_toUInt16, h]

theorem words_inj {xs ys : List Int16} (h : xs.map Int16.toUInt16 = ys.map Int16.toUInt16) :
    xs = ys :=
  List.map_injective_iff.mpr (fun _ _ => toUInt16_inj) h

/-- The packet at `a` is determined by the bytes of its fields. -/
theorem packetAt_eq_of_bytes {host : ByteOrder} {m : Mem} {a : ℕ} {p : Packet}
    (hn : bytesAt m a 2 = host.bytes 2 p.number.toNat)
    (ht : bytesAt m (a + 8) 8 = host.bytes 8 p.microtime.toNat)
    (hd : bytesAt m (a + 16) 1400 = host.wordBytes p.words)
    (hm : bytesAt m (a + 1416) 16 = p.md5) : packetAt host m a = p := by
  apply Packet.ext
  · have hlt : p.number.toNat < 256 ^ 2 := toNat_lt_pow _
    simp only [packetAt]
    rw [hn, host.value_bytes hlt, UInt16.ofNat_toNat]
  · have hlt : p.microtime.toNat < 256 ^ 8 := by simpa using p.microtime.toNat_lt
    simp only [packetAt]
    rw [ht, host.value_bytes hlt, UInt64.ofNat_toNat]
  · apply words_inj
    simp only [packetAt]
    rw [hd, host.bytesWords_wordBytes, map_toInt16_toUInt16]
    rfl
  · exact hm

/-- The memory `m` with the fields of `p` written at address `a` (the padding is left alone). -/
def storePacket (host : ByteOrder) (m : Mem) (a : ℕ) (p : Packet) : Mem :=
  writeBytes (writeBytes (writeBytes (writeBytes m a (host.bytes 2 p.number.toNat))
    (a + microtimeOffset) (host.bytes 8 p.microtime.toNat))
    (a + dataOffset) (host.wordBytes p.words)) (a + md5Offset) p.md5

theorem packetAt_storePacket (host : ByteOrder) (m : Mem) (a : ℕ) (p : Packet) :
    packetAt host (storePacket host m a p) a = p := by
  have hd : (host.wordBytes p.words).length = 1400 := by
    rw [host.wordBytes_length, p.words_length]
  have hm : p.md5.length = 16 := p.md5_length
  have h8 := host.bytes_length 8 p.microtime.toNat
  simp only [storePacket, microtimeOffset, dataOffset, md5Offset]
  refine packetAt_eq_of_bytes ?_ ?_ ?_ (bytesAt_writeBytes_self _ _ _ hm)
  · rw [bytesAt_writeBytes_of_disjoint _ (by omega), bytesAt_writeBytes_of_disjoint _ (by omega),
      bytesAt_writeBytes_of_disjoint _ (by omega)]
    exact bytesAt_writeBytes_self _ _ _ (by simp)
  · rw [bytesAt_writeBytes_of_disjoint _ (by omega), bytesAt_writeBytes_of_disjoint _ (by omega)]
    exact bytesAt_writeBytes_self _ _ _ h8
  · rw [bytesAt_writeBytes_of_disjoint _ (by omega)]
    exact bytesAt_writeBytes_self _ _ _ hd

/-! ### Wire frames -/

/-- The frame that a host of the given byte order sends for a packet. -/
def wireFrame (host : ByteOrder) (p : Packet) : List UInt8 :=
  big.bytes 2 p.number.toNat ++ big.bytes 8 p.microtime.toNat ++ big.wordBytes p.words ++
    host.toNetwork p.md5

theorem wireFrame_length (host : ByteOrder) (p : Packet) :
    (wireFrame host p).length = 1426 := by
  have hm : p.md5.length = 16 := p.md5_length
  simp [wireFrame, p.words_length, hm]

theorem bytesAt_eq_wireFrame {host : ByteOrder} {m : Mem} {a : ℕ} {p : Packet}
    (hn : bytesAt m a 2 = big.bytes 2 p.number.toNat)
    (ht : bytesAt m (a + 2) 8 = big.bytes 8 p.microtime.toNat)
    (hd : bytesAt m (a + 10) 1400 = big.wordBytes p.words)
    (hm : bytesAt m (a + 1410) 16 = host.toNetwork p.md5) :
    bytesAt m a 1426 = wireFrame host p := by
  show bytesAt m a (2 + 8 + 1400 + 16) = _
  rw [bytesAt_add, bytesAt_add, bytesAt_add, wireFrame, ← hn, ← ht, ← hd, ← hm]

/-- Two frames, of hosts of any byte orders, agree when the sections do. -/
theorem wireFrame_eq_iff {e f : ByteOrder} {p q : Packet} : wireFrame e p = wireFrame f q ↔
    p.number = q.number ∧ p.microtime = q.microtime ∧ p.data = q.data ∧
      e.toNetwork p.md5 = f.toNetwork q.md5 := by
  constructor
  · intro h
    have hw : (big.wordBytes p.words).length = (big.wordBytes q.words).length := by
      simp [p.words_length, q.words_length]
    unfold wireFrame at h
    obtain ⟨h, hm⟩ := List.append_inj h (by simp [hw])
    obtain ⟨h, hd⟩ := List.append_inj h (by simp)
    obtain ⟨hn, ht⟩ := List.append_inj h (by simp)
    have hlt : ∀ t : UInt64, t.toNat < 256 ^ 8 := fun t => by simpa using t.toNat_lt
    refine ⟨?_, ?_, words_inj (big.wordBytes_inj hd), hm⟩
    · exact UInt16.toNat_inj.mp (big.bytes_inj (toNat_lt_pow _) (toNat_lt_pow _) hn)
    · exact UInt64.toNat_inj.mp (big.bytes_inj (hlt _) (hlt _) ht)
  · rintro ⟨hn, ht, hd, hm⟩
    have hw : p.words = q.words := by rw [Packet.words, Packet.words, hd]
    unfold wireFrame
    rw [hn, ht, hw, hm]

theorem wireFrame_inj (host : ByteOrder) {p q : Packet} (h : wireFrame host p = wireFrame host q) :
    p = q := by
  obtain ⟨hn, ht, hd, hm⟩ := wireFrame_eq_iff.mp h
  apply Packet.ext hn ht hd
  rw [← host.toNetwork_toNetwork p.md5, hm, host.toNetwork_toNetwork]

end OhMySockets
