import OhMySockets.ClientLoops

/-! # What the client sends of a printed file

With a file that is the printed form of a list of numbers greater than -10000, the client always
returns.  The samples of its packets are the list over and over, 700 numbers to a packet, and the only
thing that stops it is `write` (`client_sends`). -/

namespace OhMySockets

open ByteMemory WhileLoop

/-- The samples of the packet after `k` others. -/
def cyclicSamples (v : List Int16) (k : ℕ) : Samples :=
  ⟨(List.range' (700 * k) 700).map (cyclic v), by rw [List.length_map, List.length_range']⟩

/-- The samples of the first `n` packets. -/
def firstSamples (v : List Int16) (n : ℕ) : List Samples := (List.range n).map (cyclicSamples v)

theorem firstSamples_length (v : List Int16) (n : ℕ) : (firstSamples v n).length = n := by
  rw [firstSamples, List.length_map, List.length_range]

theorem firstSamples_succ (v : List Int16) (n : ℕ) :
    firstSamples v (n + 1) = firstSamples v n ++ [cyclicSamples v n] := by
  rw [firstSamples, List.range_succ, List.map_append]
  rfl

section stream

variable {C : ClientSetting} {v : List Int16}

/-- The samples are those of the first packets, and the file stands at the next number. -/
structure Cyclic (C : ClientSetting) (v : List Int16) (ds : List Samples) (file : FileState) : Prop where
  samples : ds = firstSamples v ds.length
  ready : Ready v C.csv (700 * ds.length) file

/-- The write of packet `n` has failed. -/
structure Stopped (C : ClientSetting) (v : List Int16) (n : ℕ) (s : Client) : Prop where
  result : C.written n ≠ networkPacketTotalSize
  written : Written C (firstSamples v n)
    ((wireFrame C.host (clientPacket C n (cyclicSamples v n))).take (C.written n).toNat) s

theorem cyclic_lt (hne : v ≠ []) (hv : ∀ w ∈ v, -10000 < w.toInt) (k : ℕ) : -10000 < (cyclic v k).toInt := by
  have hlt : k % v.length < v.length := Nat.mod_lt _ (List.length_pos_iff.mpr hne)
  rw [← cyclic_eq hlt]
  exact hv _ (List.getElem_mem hlt)

/-- **The reads of a printed file** give the list over and over, and none of them fails. -/
theorem reads_printed (htext : CsvText v C.csv.content) (hv : ∀ w ∈ v, -10000 < w.toInt) :
    Reads C (Cyclic C v) False := by
  rintro ds file ⟨hsamples, hready⟩
  have hlt := cyclic_lt htext.ne_nil hv
  obtain ⟨file', hread, hready'⟩ : ∃ file', Returns (fun fuel => readElements C.csv fuel 700 file)
      ⟨0, (List.range' (700 * ds.length) 700).map fun i => storedFor (C.csv.behind i) (cyclic v i), file'⟩ ∧
      Ready v C.csv (700 * ds.length + 700) file' :=
    hready.readElements htext fun i _ _ => (storedFor_of_lt (hlt i) _).1
  refine ⟨_, returns_cycle hread, Or.inr ⟨rfl, fun d hd => ?_⟩⟩
  have hd : d = cyclicSamples v ds.length := by
    apply Subtype.ext
    rw [hd]
    exact List.map_congr_left fun i _ => (storedFor_of_lt (hlt i) _).2
  have hlen : (ds ++ [d]).length = ds.length + 1 := by rw [List.length_append, List.length_singleton]
  refine ⟨?_, ?_⟩
  · rw [hlen, firstSamples_succ, ← hsamples, hd]
  · rw [hlen]
    exact hready'

theorem cyclic_start (htext : CsvText v C.csv.content) : Cyclic C v [] ⟨0, 0, 0⟩ := ⟨rfl, Ready.start htext⟩

theorem Fails.stopped {t : ℤ × Client} (h : Fails C (Cyclic C v) False t) :
    ∃ n s, t = (1, s) ∧ n < batchLoops * batchSize ∧ Stopped C v n s := by
  cases h with
  | read _ hread => exact hread.elim
  | @write ds d file s hlt hfile hresult h =>
      have hsamples := hfile.samples
      rw [List.length_append, List.length_singleton, firstSamples_succ] at hsamples
      obtain ⟨hds, hd⟩ := List.append_inj hsamples (firstSamples_length v _).symm
      obtain rfl := List.singleton_inj.mp hd
      rw [hds] at h
      rw [firstSamples_length] at h
      exact ⟨ds.length, s, rfl, hlt, hresult, h⟩

/-- **The client with a printed file.**  It returns; all 200 frames have been written, with the list over and
over for samples, or `write` has failed for some packet and all frames before it have been written. -/
theorem client_sends (hintact : Intact C) (htext : CsvText v C.csv.content) (hv : ∀ w ∈ v, -10000 < w.toInt)
    {s₀ : Client} (hinit : ClientInitial C s₀) :
    ∃ status s, Returns (fun fuel => clientMain C fuel s₀) (status, s) ∧
      ((status = 0 ∧ Written C (firstSamples v (batchLoops * batchSize)) [] s) ∨
        (status = 1 ∧ ∃ n < batchLoops * batchSize, Stopped C v n s)) := by
  obtain ⟨t, hreturns, ⟨ds, s, rfl, hlen, hs⟩ | hfails⟩ :=
    client_returns hintact (reads_printed htext hv) hinit (cyclic_start htext)
  · refine ⟨0, s, hreturns, Or.inl ⟨rfl, ?_⟩⟩
    rw [← hlen, ← hs.file.samples]
    exact hs.toWritten
  · obtain ⟨n, s, rfl, hn, hstopped⟩ := hfails.stopped
    exact ⟨1, s, hreturns, Or.inr ⟨rfl, n, hn, hstopped⟩⟩

theorem twoNumbers_text : CsvText [7, -42] twoNumbers.csv.content := by
  have hseps : ∀ b ∈ [(44 : UInt8)], isSeparator b = true := by simp [isSeparator]
  exact CsvText.cons 7 (List.cons_ne_nil _ _) hseps (CsvText.lastNewline (-42))

/-- Where every `write` succeeds, all frames are sent. -/
theorem client_sends_two_numbers : ∃ s, Returns (fun fuel => clientMain twoNumbers fuel startedClient) (0, s) ∧
    s.wire = (clientPackets twoNumbers (firstSamples [7, -42] 200)).flatMap (wireFrame .little) := by
  obtain ⟨status, s, hreturns, ⟨rfl, hs⟩ | ⟨-, n, -, hstopped⟩⟩ :=
    client_sends twoNumbers_intact twoNumbers_text (by simp) startedClient_initial
  · refine ⟨s, hreturns, ?_⟩
    have hwire := hs.wire
    rwa [List.append_nil] at hwire
  · exact absurd rfl hstopped.result

end stream

end OhMySockets
