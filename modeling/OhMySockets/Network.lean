import OhMySockets.Helper
import OhMySockets.Packet

/-! # The packet codec

`common/network/network.c`: `network_encode_packet` and `network_decode_packet`, section by
section, as commands on a byte memory.  `host` is the byte order of the machine that runs them;
pointers are addresses.

The file has the two functions and what their sections share: the byte swap of one word
(`bytes_htons`), the loop over words (`htonsLoop_mem`, `htonsLoop_wordBytes`) and the copy that
is reversed unless the host is big-endian (`flipUnlessBig_bytesAt`).  The functions themselves
are proved in `NetworkEncode.lean` and `NetworkDecode.lean`. -/

namespace OhMySockets

open ByteMemory ByteOrder

/-- `htons`: exchange the two bytes on a little-endian host. -/
def htons (host : ByteOrder) (w : UInt16) : UInt16 :=
  match host with
  | .little => UInt16.ofNat (w.toNat % 256 * 256 + w.toNat / 256)
  | .big => w

/-- `ntohs`. -/
def ntohs (host : ByteOrder) (w : UInt16) : UInt16 := htons host w

/-- `if (helper_get_system_endian() != BIG_ENDIAN) helper_flip_bytes(p, length)`, as both
directions do it for `microtime` and for `md5`. -/
def flipUnlessBig (host : ByteOrder) (p : ℕ) (length : UInt32) : Cmd Unit :=
  if helperGetSystemEndian host ≠ .big then helperFlipBytes p length else pure ()

/-! ### The encoder -/

/-- Section "packet number" of `network_encode_packet`. -/
def encodeNumber (host : ByteOrder) (packet packetNumberPtr : ℕ) : Cmd Unit := do
  let number ← load16 host packet
  store16 host packetNumberPtr (htons host number)

/-- Section "microtime". -/
def encodeMicrotime (host : ByteOrder) (packet microtimePtr : ℕ) : Cmd Unit := do
  let microtime ← load64 host (packet + microtimeOffset)
  store64 host microtimePtr microtime
  flipUnlessBig host microtimePtr 8

/-- `data_ptr[i] = htons(data_ptr[i])` for `i < n`; the casts between `int16_t` and `uint16_t`
keep the bits. -/
def htonsLoop (host : ByteOrder) (dataPtr n : ℕ) : Cmd Unit :=
  forUpTo n fun i => do
    let word ← load16 host (dataPtr + 2 * i)
    store16 host (dataPtr + 2 * i) (htons host word)

/-- Section "data": the bound of the loop is the number of bytes, not of words. -/
def encodeData (host : ByteOrder) (packet dataPtr : ℕ) : Cmd Unit := do
  memcpy dataPtr (packet + dataOffset) networkPacketDataSize
  if helperGetSystemEndian host ≠ .big then htonsLoop host dataPtr networkPacketDataSize else pure ()

/-- Section "md5". -/
def encodeMd5 (host : ByteOrder) (packet md5Ptr : ℕ) : Cmd Unit := do
  memcpy md5Ptr (packet + md5Offset) networkPacketMd5Size
  flipUnlessBig host md5Ptr 16

/-- `network_encode_packet`. -/
def networkEncodePacket (host : ByteOrder) (packet buffer : ℕ) : Cmd Unit := do
  let packetNumberPtr := buffer
  encodeNumber host packet packetNumberPtr
  let microtimePtr := packetNumberPtr + networkPacketNumberSize
  encodeMicrotime host packet microtimePtr
  let dataPtr := microtimePtr + networkPacketMicrotimeSize
  encodeData host packet dataPtr
  let md5Ptr := dataPtr + networkPacketDataSize
  encodeMd5 host packet md5Ptr

/-! ### The decoder -/

/-- Section "packet number" of `network_decode_packet`. -/
def decodeNumber (host : ByteOrder) (packetNumberPtr packet : ℕ) : Cmd Unit := do
  let number ← load16 host packetNumberPtr
  store16 host packet (htons host number)

/-- Section "microtime". -/
def decodeMicrotime (host : ByteOrder) (microtimePtr packet : ℕ) : Cmd Unit := do
  let microtime ← load64 host microtimePtr
  store64 host (packet + microtimeOffset) microtime
  flipUnlessBig host (packet + microtimeOffset) 8

/-- `packet->data[i] = ntohs(packet->data[i])` for `i < n`. -/
def ntohsLoop (host : ByteOrder) (data n : ℕ) : Cmd Unit :=
  forUpTo n fun i => do
    let word ← load16 host (data + 2 * i)
    store16 host (data + 2 * i) (ntohs host word)

/-- Section "data": here the bound is the number of words. -/
def decodeData (host : ByteOrder) (dataPtr packet : ℕ) : Cmd Unit := do
  memcpy (packet + dataOffset) dataPtr networkPacketDataSize
  if helperGetSystemEndian host ≠ .big then
    ntohsLoop host (packet + dataOffset) networkPacketDataInt16WordsCount
  else pure ()

/-- Section "md5". -/
def decodeMd5 (host : ByteOrder) (md5Ptr packet : ℕ) : Cmd Unit := do
  memcpy (packet + md5Offset) md5Ptr networkPacketMd5Size
  flipUnlessBig host (packet + md5Offset) 16

/-- `network_decode_packet`. -/
def networkDecodePacket (host : ByteOrder) (buffer packet : ℕ) : Cmd Unit := do
  let packetNumberPtr := buffer
  decodeNumber host packetNumberPtr packet
  let microtimePtr := packetNumberPtr + networkPacketNumberSize
  decodeMicrotime host microtimePtr packet
  let dataPtr := microtimePtr + networkPacketMicrotimeSize
  decodeData host dataPtr packet
  let md5Ptr := dataPtr + networkPacketDataSize
  decodeMd5 host md5Ptr packet

/-! ### One word -/

theorem bytes_htons (host : ByteOrder) (w : UInt16) :
    host.bytes 2 (htons host w).toNat = big.bytes 2 w.toNat := by
  cases host with
  | big => rfl
  | little =>
      have hw := w.toNat_lt
      have hlo : UInt8.ofNat (w.toNat % 256 * 256 + w.toNat / 256) = UInt8.ofNat (w.toNat / 256) := by
        apply UInt8.toNat_inj.mp
        simp only [UInt8.toNat_ofNat']
        omega
      have hhi : (w.toNat % 256 * 256 + w.toNat / 256) / 256 = w.toNat % 256 := by omega
      have hmod : UInt8.ofNat (w.toNat % 256) = UInt8.ofNat w.toNat := by
        apply UInt8.toNat_inj.mp
        simp only [UInt8.toNat_ofNat']
        omega
      have hn : (htons little w).toNat = w.toNat % 256 * 256 + w.toNat / 256 := by
        unfold htons
        rw [UInt16.toNat_ofNat']
        omega
      rw [hn]
      simp [bytes, leastFirst, hlo, hhi, hmod]

/-- The network order of a byte-swapped word is what the host stores for the word itself. -/
theorem big_bytes_htons (host : ByteOrder) (w : UInt16) :
    big.bytes 2 (htons host w).toNat = host.bytes 2 w.toNat := by
  cases host with
  | big => rfl
  | little =>
      have h := congrArg List.reverse (bytes_htons little w)
      rwa [bytes_reverse, bytes_reverse] at h

theorem bytes_htons_loaded (m : Mem) (a : ℕ) :
    little.bytes 2 (htons little (UInt16.ofNat (little.value (bytesAt m a 2)))).toNat =
      [m (a + 1), m a] := by
  rw [bytes_htons, ofNat16_toNat _ (by simp), ← toNetwork_bytes little, little.bytes_value (by simp)]
  rfl

/-! ### The loops over words -/

theorem htonsLoop_footprint (host : ByteOrder) (a n : ℕ) {R W : Set ℕ}
    (hR : ∀ x, a ≤ x → x < a + 2 * n → x ∈ R) (hW : ∀ x, a ≤ x → x < a + 2 * n → x ∈ W) :
    Footprint R W (htonsLoop host a n) := by
  apply Footprint.forUpTo
  intro i hi
  apply (Footprint.load16 fun x h1 h2 => hR x (by omega) (by omega)).bind
  intro w
  exact Footprint.store16 fun x h1 h2 => hW x (by omega) (by omega)

theorem htonsLoop_mem (a n : ℕ) (m : Machine) (x : ℕ) :
    (exec (htonsLoop .little a n) m).mem x =
      if a ≤ x ∧ x < a + 2 * n then (if (x - a) % 2 = 0 then m.mem (x + 1) else m.mem (x - 1))
      else m.mem x := by
  revert x
  refine exec_forUpTo (fun k m' => ∀ x, m'.mem x =
    if a ≤ x ∧ x < a + 2 * k then (if (x - a) % 2 = 0 then m.mem (x + 1) else m.mem (x - 1))
    else m.mem x) ?_ ?_
  · intro x
    rw [if_neg (by omega)]
  · intro i _ m' ih x
    simp only [exec_bind, mem_store16, mem_load16, eval_load16]
    rw [bytes_htons_loaded, ih, ih]
    unfold writeBytes
    simp only [List.length_cons, List.length_nil]
    by_cases h0 : x = a + 2 * i
    · subst h0
      simp
    · by_cases h1 : x = a + 2 * i + 1
      · subst h1
        grind
      · rw [if_neg (by omega), ih]
        grind

theorem ntohsLoop_eq (host : ByteOrder) (a n : ℕ) : ntohsLoop host a n = htonsLoop host a n := rfl

/-- The loop on a little-endian host turns the words at `a` into the other byte order. -/
theorem htonsLoop_wordBytes {a n k : ℕ} {m : Machine} {ws : List UInt16} (e : ByteOrder)
    (hk : 2 * ws.length = k) (hn : ws.length ≤ n) (h : bytesAt m.mem a k = e.wordBytes ws) :
    bytesAt (exec (htonsLoop .little a n) m).mem a k = e.swap.wordBytes ws := by
  subst hk
  apply swapPairs_wordBytes h
  intro i hi
  rw [htonsLoop_mem, htonsLoop_mem, if_pos (by omega), if_pos (by omega), if_pos (by omega),
    if_neg (by omega)]
  exact ⟨rfl, by congr 1⟩

/-! ### Copy and flip -/

theorem flipUnlessBig_footprint (host : ByteOrder) (p : ℕ) (length : UInt32) {n : ℕ} {R W : Set ℕ}
    (hn : length.toNat = n) (hR : ∀ x, p ≤ x → x < p + n → x ∈ R)
    (hW : ∀ x, p ≤ x → x < p + n → x ∈ W) : Footprint R W (flipUnlessBig host p length) := by
  subst hn
  cases host with
  | big => exact Footprint.pure ()
  | little =>
      exact (helperFlipBytes_footprint p length).mono (fun x hx => hR x hx.1 hx.2)
        (fun x hx => hW x hx.1 hx.2)

theorem flipUnlessBig_bytesAt (host : ByteOrder) (p : ℕ) (length : UInt32) (m : Machine) {n : ℕ}
    (hn : length.toNat = n) : bytesAt (exec (flipUnlessBig host p length) m).mem p n =
      host.toNetwork (bytesAt m.mem p n) := by
  cases host with
  | big => rfl
  | little => exact helperFlipBytes_bytesAt p length m hn

/-- Storing a loaded 64-bit word copies its eight bytes. -/
theorem store64_load64 (host : ByteOrder) (dst src : ℕ) (m : Machine) :
    writeBytes m.mem dst (host.bytes 8 (eval (load64 host src) m).toNat) =
      writeBytes m.mem dst (bytesAt m.mem src 8) := by
  rw [eval_load64_toNat, host.bytes_value (by simp)]

end OhMySockets
