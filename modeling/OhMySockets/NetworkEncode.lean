import OhMySockets.Network

/-! # What the encoder writes

* `networkEncodePacket_bytesAt`: the 1426 bytes of the buffer are the `wireFrame` of the packet,
  wherever the packet lies outside the buffer.
* `networkEncodePacket_outside`: the exact effect outside the buffer.  On a little-endian host
  the loop of the data section runs over 1400 words instead of 700 and exchanges the bytes of
  the 692 words behind the buffer.
* `networkEncodePacket_footprint` bounds the accesses. -/

namespace OhMySockets

open ByteMemory ByteOrder

/-! ### The sections of the encoder -/

section encoder

variable (host : ByteOrder) (packet p : ℕ) (m : Machine) {R W : Set ℕ}

theorem encodeNumber_bytesAt : bytesAt (exec (encodeNumber host packet p) m).mem p 2 =
    big.bytes 2 (packetAt host m.mem packet).number.toNat := by
  simp only [encodeNumber, exec_bind, mem_store16, mem_load16, eval_load16]
  rw [bytesAt_writeBytes_self _ _ _ (by simp), bytes_htons]
  rfl

theorem encodeNumber_footprint (hR : ∀ x, packet ≤ x → x < packet + 2 → x ∈ R)
    (hW : ∀ x, p ≤ x → x < p + 2 → x ∈ W) : Footprint R W (encodeNumber host packet p) :=
  (Footprint.load16 hR).bind fun _ => Footprint.store16 hW

theorem encodeNumber_frame {x : ℕ} (hx : x < p ∨ p + 2 ≤ x) :
    (exec (encodeNumber host packet p) m).mem x = m.mem x :=
  (encodeNumber_footprint host packet p (fun y _ _ => Set.mem_univ y)
    fun _ h1 h2 => Set.mem_Ico.mpr ⟨h1, h2⟩).frame_Ico m hx

theorem encodeMicrotime_bytesAt : bytesAt (exec (encodeMicrotime host packet p) m).mem p 8 =
    big.bytes 8 (packetAt host m.mem packet).microtime.toNat := by
  simp only [encodeMicrotime, exec_bind]
  rw [flipUnlessBig_bytesAt _ _ _ _ (by decide), mem_store64, mem_load64, store64_load64,
    bytesAt_writeBytes_self _ _ _ (by simp), bytesAt_microtime host, host.toNetwork_bytes]

theorem encodeMicrotime_footprint (hR : ∀ x, packet + 8 ≤ x → x < packet + 16 → x ∈ R)
    (hR' : ∀ x, p ≤ x → x < p + 8 → x ∈ R) (hW : ∀ x, p ≤ x → x < p + 8 → x ∈ W) :
    Footprint R W (encodeMicrotime host packet p) :=
  (Footprint.load64 fun x h1 h2 => hR x h1 (by omega)).bind fun _ => (Footprint.store64 hW).bind
    fun _ => flipUnlessBig_footprint host p 8 (by decide) hR' hW

theorem encodeMicrotime_frame {x : ℕ} (hx : x < p ∨ p + 8 ≤ x) :
    (exec (encodeMicrotime host packet p) m).mem x = m.mem x :=
  (encodeMicrotime_footprint host packet p (fun y _ _ => Set.mem_univ y) (fun y _ _ => Set.mem_univ y)
    fun _ h1 h2 => Set.mem_Ico.mpr ⟨h1, h2⟩).frame_Ico m hx

theorem exec_encodeData_little : exec (encodeData .little packet p) m =
    exec (htonsLoop .little p 1400) (exec (memcpy p (packet + 16) 1400) m) := by
  simp [encodeData, networkPacketDataSize, networkPacketDataInt16WordsCount, dataOffset]

theorem encodeData_bytesAt (m : Machine) : bytesAt (exec (encodeData host packet p) m).mem p 1400 =
    big.wordBytes (packetAt host m.mem packet).words := by
  have hcopy : bytesAt (exec (memcpy p (packet + 16) 1400) m).mem p 1400 =
      host.wordBytes (packetAt host m.mem packet).words := by
    rw [mem_memcpy, bytesAt_writeBytes_self _ _ _ (by simp), bytesAt_data]
  have hlen := (packetAt host m.mem packet).words_length
  cases host with
  | big => exact hcopy
  | little =>
      have hle : (packetAt little m.mem packet).words.length ≤ 1400 := by omega
      rw [exec_encodeData_little]
      exact htonsLoop_wordBytes little (by omega) hle hcopy

/-- Bytes that the data section touches, from the start of the section on. -/
def dataSpan (host : ByteOrder) : ℕ :=
  match host with
  | .little => 2800
  | .big => 1400

theorem encodeData_footprint (hR : ∀ x, packet + 16 ≤ x → x < packet + 1416 → x ∈ R)
    (hR' : ∀ x, p ≤ x → x < p + dataSpan host → x ∈ R)
    (hW : ∀ x, p ≤ x → x < p + dataSpan host → x ∈ W) :
    Footprint R W (encodeData host packet p) := by
  have hspan : 1400 ≤ dataSpan host := by cases host <;> decide
  have hcopy : Footprint R W (memcpy p (packet + 16) 1400) :=
    Footprint.memcpy (fun x h1 h2 => hR x h1 (by omega)) (fun x h1 h2 => hW x h1 (by omega))
  apply hcopy.bind
  intro _
  cases host with
  | big => exact Footprint.pure ()
  | little => exact htonsLoop_footprint little p 1400 hR' hW

theorem encodeData_frame {x : ℕ} (hx : x < p ∨ p + dataSpan host ≤ x) :
    (exec (encodeData host packet p) m).mem x = m.mem x :=
  (encodeData_footprint host packet p (fun y _ _ => Set.mem_univ y) (fun y _ _ => Set.mem_univ y)
    fun _ h1 h2 => Set.mem_Ico.mpr ⟨h1, h2⟩).frame_Ico m hx

theorem encodeMd5_bytesAt : bytesAt (exec (encodeMd5 host packet p) m).mem p 16 =
    host.toNetwork (packetAt host m.mem packet).md5 := by
  simp only [encodeMd5, exec_bind]
  rw [flipUnlessBig_bytesAt _ _ _ _ (by decide), mem_memcpy,
    bytesAt_writeBytes_self _ _ _ (by simp), bytesAt_md5 host]

theorem encodeMd5_footprint (hR : ∀ x, packet + 1416 ≤ x → x < packet + 1432 → x ∈ R)
    (hR' : ∀ x, p ≤ x → x < p + 16 → x ∈ R) (hW : ∀ x, p ≤ x → x < p + 16 → x ∈ W) :
    Footprint R W (encodeMd5 host packet p) :=
  (Footprint.memcpy (fun x h1 h2 => hR x h1 (by omega)) hW).bind fun _ =>
    flipUnlessBig_footprint host p 16 (by decide) hR' hW

theorem encodeMd5_frame {x : ℕ} (hx : x < p ∨ p + 16 ≤ x) :
    (exec (encodeMd5 host packet p) m).mem x = m.mem x :=
  (encodeMd5_footprint host packet p (fun y _ _ => Set.mem_univ y) (fun y _ _ => Set.mem_univ y)
    fun _ h1 h2 => Set.mem_Ico.mpr ⟨h1, h2⟩).frame_Ico m hx

end encoder

/-! ### The encoder -/

section encodePacket

variable (host : ByteOrder) (packet buffer : ℕ) (m : Machine)

theorem networkEncodePacket_eq : networkEncodePacket host packet buffer = (do
    encodeNumber host packet buffer
    encodeMicrotime host packet (buffer + 2)
    encodeData host packet (buffer + 10)
    encodeMd5 host packet (buffer + 1410)) := by
  simp only [networkEncodePacket, networkPacketNumberSize, networkPacketMicrotimeSize,
    networkPacketDataSize, networkPacketDataInt16WordsCount, Nat.reduceMul, Nat.add_assoc,
    Nat.reduceAdd]

/-- Bytes that the encoder touches from the start of its buffer on. -/
def encodeSpan (host : ByteOrder) : ℕ :=
  match host with
  | .little => 2810
  | .big => 1426

theorem encodeSpan_bounds (host : ByteOrder) :
    1426 ≤ encodeSpan host ∧ encodeSpan host ≤ 2810 ∧ 10 + dataSpan host ≤ encodeSpan host := by
  cases host <;> decide

theorem networkEncodePacket_footprint :
    Footprint (Set.Ico packet (packet + 1432) ∪ Set.Ico buffer (buffer + encodeSpan host))
      (Set.Ico buffer (buffer + encodeSpan host)) (networkEncodePacket host packet buffer) := by
  obtain ⟨hmin, _, hspan⟩ := encodeSpan_bounds host
  have hp : ∀ x, packet ≤ x → x < packet + 1432 →
      x ∈ Set.Ico packet (packet + 1432) ∪ Set.Ico buffer (buffer + encodeSpan host) :=
    fun x h1 h2 => Or.inl ⟨h1, h2⟩
  have hb : ∀ x, buffer ≤ x → x < buffer + encodeSpan host →
      x ∈ Set.Ico buffer (buffer + encodeSpan host) := fun x h1 h2 => ⟨h1, h2⟩
  have hr := fun x h1 h2 => Set.mem_union_right (Set.Ico packet (packet + 1432)) (hb x h1 h2)
  rw [networkEncodePacket_eq]
  refine (encodeNumber_footprint host packet buffer ?_ ?_).bind fun _ =>
    (encodeMicrotime_footprint host packet (buffer + 2) ?_ ?_ ?_).bind fun _ =>
      (encodeData_footprint host packet (buffer + 10) ?_ ?_ ?_).bind fun _ =>
        encodeMd5_footprint host packet (buffer + 1410) ?_ ?_ ?_
  · exact fun x h1 h2 => hp x (by omega) (by omega)
  · exact fun x h1 h2 => hb x (by omega) (by omega)
  · exact fun x h1 h2 => hp x (by omega) (by omega)
  · exact fun x h1 h2 => hr x (by omega) (by omega)
  · exact fun x h1 h2 => hb x (by omega) (by omega)
  · exact fun x h1 h2 => hp x (by omega) (by omega)
  · exact fun x h1 h2 => hr x (by omega) (by omega)
  · exact fun x h1 h2 => hb x (by omega) (by omega)
  · exact fun x h1 h2 => hp x (by omega) (by omega)
  · exact fun x h1 h2 => hr x (by omega) (by omega)
  · exact fun x h1 h2 => hb x (by omega) (by omega)

theorem dataSpan_le (host : ByteOrder) : 1400 ≤ dataSpan host ∧ dataSpan host ≤ 2800 := by
  cases host <;> decide

/-- **The encoder writes the wire frame of its packet**, wherever the packet lies outside the
buffer. -/
theorem networkEncodePacket_bytesAt (hsep : packet + 1432 ≤ buffer ∨ buffer + 1426 ≤ packet) :
    bytesAt (exec (networkEncodePacket host packet buffer) m).mem buffer 1426 =
      wireFrame host (packetAt host m.mem packet) := by
  have hspan := dataSpan_le host
  rw [networkEncodePacket_eq]
  simp only [exec_bind]
  set m₁ := exec (encodeNumber host packet buffer) m with hm₁
  set m₂ := exec (encodeMicrotime host packet (buffer + 2)) m₁ with hm₂
  set m₃ := exec (encodeData host packet (buffer + 10)) m₂ with hm₃
  have f₁ : ∀ x, x < buffer ∨ buffer + 2 ≤ x → m₁.mem x = m.mem x :=
    fun x hx => encodeNumber_frame host packet buffer m hx
  have f₂ : ∀ x, x < buffer + 2 ∨ buffer + 10 ≤ x → m₂.mem x = m₁.mem x :=
    fun x hx => encodeMicrotime_frame host packet (buffer + 2) m₁ hx
  have f₃ : ∀ x, x < buffer + 10 ∨ buffer + 10 + dataSpan host ≤ x → m₃.mem x = m₂.mem x :=
    fun x hx => encodeData_frame host packet (buffer + 10) m₂ hx
  have f₄ : ∀ x, x < buffer + 1410 ∨ buffer + 1426 ≤ x →
      (exec (encodeMd5 host packet (buffer + 1410)) m₃).mem x = m₃.mem x :=
    fun x hx => encodeMd5_frame host packet (buffer + 1410) m₃ hx
  apply bytesAt_eq_wireFrame
  · rw [← encodeNumber_bytesAt host packet buffer m]
    apply bytesAt_congr
    intro i hi
    rw [f₄ _ (by omega), f₃ _ (by omega), f₂ _ (by omega)]
  · have hsrc : (packetAt host m₁.mem packet).microtime = (packetAt host m.mem packet).microtime := by
      apply packetAt_microtime_congr
      intro x h1 h2
      rw [f₁ x (by omega)]
    rw [← hsrc, ← encodeMicrotime_bytesAt host packet (buffer + 2) m₁]
    apply bytesAt_congr
    intro i hi
    rw [f₄ _ (by omega), f₃ _ (by omega)]
  · have hsrc : (packetAt host m₂.mem packet).words = (packetAt host m.mem packet).words := by
      apply packetAt_words_congr
      intro x h1 h2
      rw [f₂ x (by omega), f₁ x (by omega)]
    rw [← hsrc, ← encodeData_bytesAt host packet (buffer + 10) m₂]
    apply bytesAt_congr
    intro i hi
    rw [f₄ _ (by omega)]
  · -- the loop of the data section runs past the buffer but stops short of the packet's digest
    have hsrc : (packetAt host m₃.mem packet).md5 = (packetAt host m.mem packet).md5 := by
      apply packetAt_md5_congr
      intro x h1 h2
      rw [f₃ x (by omega), f₂ x (by omega), f₁ x (by omega)]
    rw [← hsrc, ← encodeMd5_bytesAt host packet (buffer + 1410) m₃]

/-- The exact effect outside the buffer: on a little-endian host the 692 words behind it are
byte-swapped, and nothing else changes. -/
theorem networkEncodePacket_outside (x : ℕ) (hx : x < buffer ∨ buffer + 1426 ≤ x) :
    (exec (networkEncodePacket host packet buffer) m).mem x =
      if host = .little ∧ buffer + 1426 ≤ x ∧ x < buffer + 2810 then
        (if (x - (buffer + 1426)) % 2 = 0 then m.mem (x + 1) else m.mem (x - 1))
      else m.mem x := by
  rw [networkEncodePacket_eq]
  simp only [exec_bind]
  rw [encodeMd5_frame _ _ _ _ (by omega)]
  set m₁ := exec (encodeNumber host packet buffer) m with hm₁
  set m₂ := exec (encodeMicrotime host packet (buffer + 2)) m₁ with hm₂
  have f₁₂ : ∀ y, y < buffer ∨ buffer + 10 ≤ y → m₂.mem y = m.mem y := by
    intro y hy
    rw [hm₂, encodeMicrotime_frame _ _ _ _ (by omega), hm₁, encodeNumber_frame _ _ _ _ (by omega)]
  by_cases h : host = .little ∧ buffer + 1426 ≤ x ∧ x < buffer + 2810
  · obtain ⟨rfl, h1, h2⟩ := h
    have hcopy : ∀ y, buffer + 1410 ≤ y →
        (exec (memcpy (buffer + 10) (packet + 16) 1400) m₂).mem y = m₂.mem y := by
      intro y hy
      rw [mem_memcpy, writeBytes_outside (by rw [bytesAt_length]; omega)]
    rw [if_pos ⟨rfl, h1, h2⟩, exec_encodeData_little, htonsLoop_mem, if_pos (by omega),
      hcopy _ (by omega), hcopy _ (by omega), f₁₂ _ (by omega), f₁₂ _ (by omega)]
    have hpar : (x - (buffer + 10)) % 2 = (x - (buffer + 1426)) % 2 := by omega
    rw [hpar]
  · have hspan : x < buffer + 10 ∨ buffer + 10 + dataSpan host ≤ x := by
      cases host with
      | little => simp only [true_and] at h; show _ ∨ buffer + 10 + 2800 ≤ x; omega
      | big => show _ ∨ buffer + 10 + 1400 ≤ x; omega
    rw [if_neg h, encodeData_frame _ _ _ _ hspan, f₁₂ _ (by omega)]

end encodePacket

end OhMySockets
