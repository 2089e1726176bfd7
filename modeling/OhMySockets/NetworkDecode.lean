import OhMySockets.Network

/-! # What the decoder stores

* `networkDecodePacket_footprint`: the decoder reads the 1426 bytes of the frame and its packet,
  and writes its packet only.
* `networkDecodePacket_wireFrame`: the packet it stores is the one whose `wireFrame` was read. -/

namespace OhMySockets

open ByteMemory ByteOrder

section decoder

variable (host : ByteOrder) (buffer packet : ℕ) (m : Machine) {R W : Set ℕ}

/-! ### The sections of the decoder -/

theorem decodeNumber_bytesAt :
    big.bytes 2 (packetAt host (exec (decodeNumber host buffer packet) m).mem packet).number.toNat =
      bytesAt m.mem buffer 2 := by
  simp only [decodeNumber, exec_bind, mem_store16, mem_load16, eval_load16, packetAt]
  rw [bytesAt_writeBytes_self _ _ _ (by simp), host.value_bytes (toNat_lt_pow _), UInt16.ofNat_toNat,
    big_bytes_htons, ofNat16_toNat host (by simp), host.bytes_value (by simp)]

theorem decodeNumber_footprint (hR : ∀ x, buffer ≤ x → x < buffer + 2 → x ∈ R)
    (hW : ∀ x, packet ≤ x → x < packet + 2 → x ∈ W) : Footprint R W (decodeNumber host buffer packet) :=
  (Footprint.load16 hR).bind fun _ => Footprint.store16 hW

theorem decodeNumber_frame {x : ℕ} (hx : x < packet ∨ packet + 2 ≤ x) :
    (exec (decodeNumber host buffer packet) m).mem x = m.mem x :=
  (decodeNumber_footprint host buffer packet (fun y _ _ => Set.mem_univ y)
    fun _ h1 h2 => Set.mem_Ico.mpr ⟨h1, h2⟩).frame_Ico m hx

theorem decodeMicrotime_bytesAt :
    big.bytes 8 (packetAt host (exec (decodeMicrotime host buffer packet) m).mem packet).microtime.toNat =
      bytesAt m.mem buffer 8 := by
  rw [← host.toNetwork_bytes, ← bytesAt_microtime]
  simp only [decodeMicrotime, exec_bind]
  rw [flipUnlessBig_bytesAt _ _ _ _ (by decide), mem_store64, mem_load64, store64_load64,
    bytesAt_writeBytes_self _ _ _ (by simp), host.toNetwork_toNetwork]

theorem decodeMicrotime_footprint (hR : ∀ x, buffer ≤ x → x < buffer + 8 → x ∈ R)
    (hR' : ∀ x, packet + 8 ≤ x → x < packet + 16 → x ∈ R)
    (hW : ∀ x, packet + 8 ≤ x → x < packet + 16 → x ∈ W) :
    Footprint R W (decodeMicrotime host buffer packet) :=
  (Footprint.load64 hR).bind fun _ => (Footprint.store64 hW).bind fun _ =>
    flipUnlessBig_footprint (n := 8) host (packet + 8) 8 (by decide) hR' hW

theorem decodeMicrotime_frame {x : ℕ} (hx : x < packet + 8 ∨ packet + 16 ≤ x) :
    (exec (decodeMicrotime host buffer packet) m).mem x = m.mem x :=
  (decodeMicrotime_footprint host buffer packet (fun y _ _ => Set.mem_univ y) (fun y _ _ => Set.mem_univ y)
    fun _ h1 h2 => Set.mem_Ico.mpr ⟨h1, h2⟩).frame_Ico m hx

theorem exec_decodeData_little : exec (decodeData .little buffer packet) m =
    exec (htonsLoop .little (packet + 16) 700) (exec (memcpy (packet + 16) buffer 1400) m) := by
  simp [decodeData, ntohsLoop_eq, networkPacketDataSize, networkPacketDataInt16WordsCount, dataOffset]

theorem decodeData_bytesAt (m : Machine) :
    big.wordBytes (packetAt host (exec (decodeData host buffer packet) m).mem packet).words =
      bytesAt m.mem buffer 1400 := by
  have hcopy : bytesAt (exec (memcpy (packet + 16) buffer 1400) m).mem (packet + 16) 1400 =
      bytesAt m.mem buffer 1400 := by
    rw [mem_memcpy, bytesAt_writeBytes_self _ _ _ (by simp)]
  cases host with
  | big => rw [← bytesAt_data]; exact hcopy
  | little =>
      -- the frame holds the words `ws` in network order; the loop stores them in host order
      have hlen : (bytesAt m.mem buffer 1400).length = 2 * 700 := by simp
      set ws := big.bytesWords (bytesAt m.mem buffer 1400) with hws
      have hwl : ws.length = 700 := big.bytesWords_length hlen
      have hframe : bytesAt m.mem buffer 1400 = big.wordBytes ws :=
        (big.wordBytes_bytesWords hlen).symm
      have hloop := htonsLoop_wordBytes (n := 700) big (by omega) hwl.le (hcopy.trans hframe)
      rw [exec_decodeData_little]
      rw [bytesAt_data little] at hloop
      rw [little.wordBytes_inj hloop, hframe]

theorem decodeData_footprint (hR : ∀ x, buffer ≤ x → x < buffer + 1400 → x ∈ R)
    (hR' : ∀ x, packet + 16 ≤ x → x < packet + 1416 → x ∈ R)
    (hW : ∀ x, packet + 16 ≤ x → x < packet + 1416 → x ∈ W) :
    Footprint R W (decodeData host buffer packet) := by
  have hcopy : Footprint R W (memcpy (packet + 16) buffer 1400) :=
    Footprint.memcpy hR fun x h1 h2 => hW x h1 (by omega)
  apply hcopy.bind
  intro _
  cases host with
  | big => exact Footprint.pure ()
  | little =>
      exact htonsLoop_footprint little (packet + 16) 700 (fun x h1 h2 => hR' x h1 (by omega))
        fun x h1 h2 => hW x h1 (by omega)

theorem decodeData_frame {x : ℕ} (hx : x < packet + 16 ∨ packet + 1416 ≤ x) :
    (exec (decodeData host buffer packet) m).mem x = m.mem x :=
  (decodeData_footprint host buffer packet (fun y _ _ => Set.mem_univ y) (fun y _ _ => Set.mem_univ y)
    fun _ h1 h2 => Set.mem_Ico.mpr ⟨h1, h2⟩).frame_Ico m hx

theorem decodeMd5_bytesAt :
    host.toNetwork (packetAt host (exec (decodeMd5 host buffer packet) m).mem packet).md5 =
      bytesAt m.mem buffer 16 := by
  rw [← bytesAt_md5]
  simp only [decodeMd5, exec_bind]
  rw [flipUnlessBig_bytesAt _ _ _ _ (by decide), mem_memcpy,
    bytesAt_writeBytes_self _ _ _ (by simp), host.toNetwork_toNetwork]

theorem decodeMd5_footprint (hR : ∀ x, buffer ≤ x → x < buffer + 16 → x ∈ R)
    (hR' : ∀ x, packet + 1416 ≤ x → x < packet + 1432 → x ∈ R)
    (hW : ∀ x, packet + 1416 ≤ x → x < packet + 1432 → x ∈ W) :
    Footprint R W (decodeMd5 host buffer packet) :=
  (Footprint.memcpy hR fun x h1 h2 => hW x h1 (by omega)).bind fun _ =>
    flipUnlessBig_footprint (n := 16) host (packet + 1416) 16 (by decide) hR' hW

theorem decodeMd5_frame {x : ℕ} (hx : x < packet + 1416 ∨ packet + 1432 ≤ x) :
    (exec (decodeMd5 host buffer packet) m).mem x = m.mem x :=
  (decodeMd5_footprint host buffer packet (fun y _ _ => Set.mem_univ y) (fun y _ _ => Set.mem_univ y)
    fun _ h1 h2 => Set.mem_Ico.mpr ⟨h1, h2⟩).frame_Ico m hx

/-! ### The decoder -/

theorem networkDecodePacket_eq : networkDecodePacket host buffer packet = (do
    decodeNumber host buffer packet
    decodeMicrotime host (buffer + 2) packet
    decodeData host (buffer + 10) packet
    decodeMd5 host (buffer + 1410) packet) := by
  simp only [networkDecodePacket, networkPacketNumberSize, networkPacketMicrotimeSize,
    networkPacketDataSize, networkPacketDataInt16WordsCount, Nat.reduceMul, Nat.add_assoc,
    Nat.reduceAdd]

theorem networkDecodePacket_footprint :
    Footprint (Set.Ico buffer (buffer + 1426) ∪ Set.Ico packet (packet + 1432))
      (Set.Ico packet (packet + 1432)) (networkDecodePacket host buffer packet) := by
  have hb : ∀ x, buffer ≤ x → x < buffer + 1426 →
      x ∈ Set.Ico buffer (buffer + 1426) ∪ Set.Ico packet (packet + 1432) :=
    fun x h1 h2 => Or.inl ⟨h1, h2⟩
  have hp : ∀ x, packet ≤ x → x < packet + 1432 → x ∈ Set.Ico packet (packet + 1432) :=
    fun x h1 h2 => ⟨h1, h2⟩
  have hr := fun x h1 h2 => Set.mem_union_right (Set.Ico buffer (buffer + 1426)) (hp x h1 h2)
  rw [networkDecodePacket_eq]
  refine (decodeNumber_footprint host buffer packet ?_ ?_).bind fun _ =>
    (decodeMicrotime_footprint host (buffer + 2) packet ?_ ?_ ?_).bind fun _ =>
      (decodeData_footprint host (buffer + 10) packet ?_ ?_ ?_).bind fun _ =>
        decodeMd5_footprint host (buffer + 1410) packet ?_ ?_ ?_
  · exact fun x h1 h2 => hb x (by omega) (by omega)
  · exact fun x h1 h2 => hp x (by omega) (by omega)
  · exact fun x h1 h2 => hb x (by omega) (by omega)
  · exact fun x h1 h2 => hr x (by omega) (by omega)
  · exact fun x h1 h2 => hp x (by omega) (by omega)
  · exact fun x h1 h2 => hb x (by omega) (by omega)
  · exact fun x h1 h2 => hr x (by omega) (by omega)
  · exact fun x h1 h2 => hp x (by omega) (by omega)
  · exact fun x h1 h2 => hb x (by omega) (by omega)
  · exact fun x h1 h2 => hr x (by omega) (by omega)
  · exact fun x h1 h2 => hp x (by omega) (by omega)

/-- **The decoder stores the packet whose wire frame it reads.** -/
theorem networkDecodePacket_wireFrame (hsep : packet + 1432 ≤ buffer ∨ buffer + 1426 ≤ packet) :
    wireFrame host (packetAt host (exec (networkDecodePacket host buffer packet) m).mem packet) =
      bytesAt m.mem buffer 1426 := by
  rw [networkDecodePacket_eq]
  simp only [exec_bind]
  set m₁ := exec (decodeNumber host buffer packet) m with hm₁
  set m₂ := exec (decodeMicrotime host (buffer + 2) packet) m₁ with hm₂
  set m₃ := exec (decodeData host (buffer + 10) packet) m₂ with hm₃
  set m₄ := exec (decodeMd5 host (buffer + 1410) packet) m₃ with hm₄
  have f₁ : ∀ x, x < packet ∨ packet + 2 ≤ x → m₁.mem x = m.mem x :=
    fun x hx => decodeNumber_frame host buffer packet m hx
  have f₂ : ∀ x, x < packet + 8 ∨ packet + 16 ≤ x → m₂.mem x = m₁.mem x :=
    fun x hx => decodeMicrotime_frame host (buffer + 2) packet m₁ hx
  have f₃ : ∀ x, x < packet + 16 ∨ packet + 1416 ≤ x → m₃.mem x = m₂.mem x :=
    fun x hx => decodeData_frame host (buffer + 10) packet m₂ hx
  have f₄ : ∀ x, x < packet + 1416 ∨ packet + 1432 ≤ x → m₄.mem x = m₃.mem x :=
    fun x hx => decodeMd5_frame host (buffer + 1410) packet m₃ hx
  refine (bytesAt_eq_wireFrame ?_ ?_ ?_ ?_).symm
  · have hn : (packetAt host m₄.mem packet).number = (packetAt host m₁.mem packet).number := by
      apply packetAt_number_congr
      intro x h1 h2
      rw [f₄ x (by omega), f₃ x (by omega), f₂ x (by omega)]
    rw [hn, decodeNumber_bytesAt]
  · have ht : (packetAt host m₄.mem packet).microtime = (packetAt host m₂.mem packet).microtime := by
      apply packetAt_microtime_congr
      intro x h1 h2
      rw [f₄ x (by omega), f₃ x (by omega)]
    rw [ht, decodeMicrotime_bytesAt]
    exact bytesAt_congr fun i hi => (f₁ _ (by omega)).symm
  · have hd : (packetAt host m₄.mem packet).words = (packetAt host m₃.mem packet).words := by
      apply packetAt_words_congr
      intro x h1 h2
      rw [f₄ x (by omega)]
    rw [hd, decodeData_bytesAt]
    exact bytesAt_congr fun i hi => ((f₂ _ (by omega)).trans (f₁ _ (by omega))).symm
  · rw [decodeMd5_bytesAt]
    exact bytesAt_congr fun i hi =>
      ((f₃ _ (by omega)).trans ((f₂ _ (by omega)).trans (f₁ _ (by omega)))).symm

end decoder

end OhMySockets
