import OhMySockets.Client
import OhMySockets.CsvScan

/-! # The loops of the client

* `client_returns`: the loops return, and have sent what the reader of the file has given;
* `client_wire`: whatever numbers the file holds, what has been written is a row of frames of packets with the
  numbers 1, 2, … and with digests of their own samples, and perhaps the beginning of one more; the program returns
  0 exactly when all frames have been written.  The lines `Sent` name these packets, if the struct does not lie where
  the encoder overruns its buffer (`Written.lines`). -/

namespace OhMySockets

open ByteMemory ByteOrder WhileLoop

/-! ### The loops -/

section loops

variable {C : ClientSetting} {P : List Samples → FileState → Prop} {R : Prop}

/-- The packets with the samples `ds` have been written, and after them the bytes `rest`. -/
structure Written (C : ClientSetting) (ds : List Samples) (rest : List UInt8) (s : Client) : Prop where
  wire : s.wire = (clientPackets C ds).flatMap (wireFrame C.host) ++ rest
  written : ∀ k < ds.length, C.written k = networkPacketTotalSize
  lines : Undisturbed C → s.lines = (clientPackets C ds).map fun p => (p.number, p.microtime)

/-- The packets with the samples `ds` have been sent, and `P` holds of the samples and the file. -/
structure Sent (C : ClientSetting) (P : List Samples → FileState → Prop) (ds : List Samples) (s : Client) : Prop
    extends Written C ds [] s where
  count : s.lines.length = ds.length
  file : P ds s.file

/-- The reads of the file return; they keep `P`, and they fail only if `R`. -/
def Reads (C : ClientSetting) (P : List Samples → FileState → Prop) (R : Prop) : Prop :=
  ∀ ds file, P ds file → ∃ c, Returns (fun fuel => helperCycleReadFromCsvFile C.csv 1400 fuel file) c ∧
    (c.status ≠ 0 ∧ R ∨ c.status = 0 ∧ ∀ d : Samples, d.val = c.stored → P (ds ++ [d]) c.state)

/-- The program returns 1 after the packets with the samples `ds`. -/
inductive Fails (C : ClientSetting) (P : List Samples → FileState → Prop) (R : Prop) : ℤ × Client → Prop
  /-- the file could not be read -/
  | read {ds : List Samples} {s : Client} (hlt : ds.length < batchLoops * batchSize) (hread : R)
      (h : Written C ds [] s) : Fails C P R (1, s)
  /-- the frame of the next packet was not written as a whole -/
  | write {ds : List Samples} {d : Samples} {file : FileState} {s : Client} (hlt : ds.length < batchLoops * batchSize)
      (hfile : P (ds ++ [d]) file) (hresult : C.written ds.length ≠ networkPacketTotalSize)
      (h : Written C ds ((wireFrame C.host (clientPacket C ds.length d)).take (C.written ds.length).toNat) s) :
      Fails C P R (1, s)

section body

variable {i j : ℕ} {ds : List Samples} {s : Client} {r : CycleResult} {d : Samples}

theorem Variables.filled (h : Variables C i j s.mem) (hintact : Intact C) {stored : List Int16}
    (hlen : stored.length ≤ 700) : Variables C i j (s.filled C stored).mem :=
  h.of_frame fun _ hv => (bytesAt_storeData hintact hv hlen).trans (bytesAt_fillHeader hintact hv)

theorem Variables.afterWrite (h : Variables C i j s.mem) (hintact : Intact C) (hlen : r.stored.length ≤ 700) :
    Variables C i j (afterWrite C s r).mem :=
  (h.filled hintact hlen).of_frame fun _ hv => bytesAt_send hintact hv _

theorem wire_afterWrite (hintact : Intact C) (h : Variables C i j s.mem) (hk : i * batchSize + j = s.lines.length)
    (hd : d.val = r.stored) : (afterWrite C s r).wire = s.wire ++
      (wireFrame C.host (clientPacket C s.lines.length d)).take (C.written s.lines.length).toNat := by
  unfold afterWrite Client.filled
  dsimp only
  rw [← hd, eval_send hintact h hk]

theorem printSent_afterWrite (hintact : Intact C) (hfar : Undisturbed C) (h : Variables C i j s.mem)
    (hk : i * batchSize + j = s.lines.length) (hd : d.val = r.stored) :
    eval (printSent C) ⟨(afterWrite C s r).mem, [], []⟩ =
      ((clientPacket C s.lines.length d).number, (clientPacket C s.lines.length d).microtime) := by
  unfold afterWrite Client.filled
  dsimp only
  rw [eval_printSent hintact hfar, ← hd, packetAt_filled h hk]

theorem sendRead_sat (hintact : Intact C) (hlen : ds.length = i * batchSize + j)
    (hlt : ds.length < batchLoops * batchSize) (hs : Sent C P ds s) (hvars : Variables C i j s.mem)
    (hstatus : r.status = 0) (hd : d.val = r.stored) (hfile : P (ds ++ [d]) r.state) : ∃ t, sendRead C s r = some t ∧
      t.Sat (fun s' => Sent C P (ds ++ [d]) s' ∧ Variables C i j s'.mem)
        (fun t => Fails C P R t ∧ Kept C t.2.mem) := by
  have hcount := hs.count
  have hk : i * batchSize + j = s.lines.length := by rw [hcount, hlen]
  have hvars' := hvars.afterWrite hintact (Nat.le_of_eq (hd ▸ d.property))
  have hsocket : (afterWrite C s r).word C C.socketfd = C.socket := word_eq hvars'.socketfd
  have hwire := wire_afterWrite hintact hvars hk hd
  have hbefore := hs.wire
  rw [List.append_nil] at hbefore
  rw [hbefore, hcount] at hwire
  unfold sendRead
  dsimp only
  rw [if_neg (not_not.mpr hstatus), if_neg (not_not.mpr hsocket), hcount]
  by_cases hresult : C.written ds.length = networkPacketTotalSize
  · rw [if_neg (not_not.mpr hresult)]
    refine ⟨_, rfl, ⟨⟨?_, ?_, ?_⟩, ?_, hfile⟩, hvars'⟩
    · have hfits : (wireFrame C.host (clientPacket C ds.length d)).length ≤ networkPacketTotalSize :=
        Nat.le_of_eq (wireFrame_length C.host _)
      show (afterWrite C s r).wire = _
      rw [hwire, hresult, Int.toNat_natCast, List.take_of_length_le hfits, clientPackets_concat, List.flatMap_append,
        List.flatMap_singleton, List.append_nil]
    · intro k hk
      rw [List.length_append, List.length_singleton] at hk
      rcases Nat.lt_succ_iff_lt_or_eq.mp hk with hlt | rfl
      · exact hs.written k hlt
      · exact hresult
    · intro hfar
      show s.lines ++ _ = _
      rw [printSent_afterWrite hintact hfar hvars hk hd, clientPackets_concat, List.map_append, hcount, hs.lines hfar]
      rfl
    · show (s.lines ++ _).length = _
      rw [List.length_append, List.length_append, hcount]
      rfl
  · rw [if_pos hresult]
    exact ⟨_, rfl, .write hlt hfile hresult ⟨hwire, hs.written, hs.lines⟩, hvars'.toKept⟩

/-- **One packet.**  The body returns. -/
theorem sendPacket_returns (hintact : Intact C) (hreads : Reads C P R) (hlen : ds.length = i * batchSize + j)
    (hlt : ds.length < batchLoops * batchSize) (hs : Sent C P ds s) (hvars : Variables C i j s.mem) :
    ∃ t, Returns (fun fuel => sendPacket C fuel s) t ∧
      t.Sat (fun s' => (∃ d, Sent C P (ds ++ [d]) s') ∧ Variables C i j s'.mem)
        (fun t => Fails C P R t ∧ Kept C t.2.mem) := by
  obtain ⟨r, hread, hcases⟩ := hreads ds s.file hs.file
  obtain ⟨hle, heq⟩ : r.stored.length ≤ 700 ∧ (r.status = 0 → r.stored.length = 700) := by
    obtain ⟨n, hn⟩ := hread
    have hn := hn n (Nat.le_refl n)
    dsimp only at hn
    rw [helperCycleReadFromCsvFile_even (by decide)] at hn
    exact readElements_length hn
  have hheader : Variables C i j (exec (fillHeader C s.lines.length) ⟨s.mem, [], []⟩).mem :=
    hvars.of_frame fun _ hv => bytesAt_fillHeader hintact hv
  have hcsvfd : eval (load64 C.host C.csvfd) (exec (fillHeader C s.lines.length) ⟨s.mem, [], []⟩) = C.file :=
    eval_load64_of_bytes hheader.csvfd
  have hreturns {t : Turn Client (ℤ × Client)} (ht : sendRead C s r = some t) :
      Returns (fun fuel => sendPacket C fuel s) t := by
    unfold sendPacket
    simp only [hcsvfd, ne_eq, not_true_eq_false, if_false]
    exact hread.bind (ht ▸ returns_const t)
  rcases hcases with ⟨hstatus, hR⟩ | ⟨hstatus, hfile⟩
  · have hunread : sendRead C s r = some (.leave (1, { s with mem := (s.filled C r.stored).mem, file := r.state })) :=
      if_pos hstatus
    have hkept := (hvars.filled hintact hle).toKept
    exact ⟨_, hreturns hunread, .read hlt hR ⟨hs.wire, hs.written, hs.lines⟩, hkept⟩
  · obtain ⟨t, ht, hsat⟩ := sendRead_sat (R := R) hintact hlen hlt hs hvars hstatus (d := ⟨r.stored, heq hstatus⟩) rfl
      (hfile _ rfl)
    exact ⟨t, hreturns ht, hsat.mono (fun s' h => ⟨⟨_, h.1⟩, h.2⟩) fun t h => h⟩

end body

/-- After `k` packets. -/
def SentSome (C : ClientSetting) (P : List Samples → FileState → Prop) (k : ℕ) (s : Client) : Prop :=
  ∃ ds, ds.length = k ∧ Sent C P ds s

theorem SentSome.assign {k : ℕ} {s : Client} (h : SentSome C P k s) (a : ℕ) (v : UInt32) :
    SentSome C P k (s.assign C a v) := by
  obtain ⟨ds, hlen, ⟨hwire, hwritten, hlines⟩, hcount, hfile⟩ := h
  exact ⟨ds, hlen, ⟨hwire, hwritten, hlines⟩, hcount, hfile⟩

theorem sendBatch_returns (hintact : Intact C) (hreads : Reads C P R) {i : ℕ} (hi : i < batchLoops) {s : Client}
    (hs : SentSome C P (i * batchSize) s) (hkept : Kept C s.mem) (hcounts : Counts C C.i (UInt32.ofNat i) s.mem) :
    ∃ t, Returns (fun fuel => sendBatch C fuel s) t ∧
      t.Sat (fun s' => (SentSome C P ((i + 1) * batchSize) s' ∧ Kept C s'.mem) ∧ Counts C C.i (UInt32.ofNat i) s'.mem)
        (fun t => Fails C P R t ∧ Kept C t.2.mem) := by
  have hrule : ∃ t, Returns (fun fuel => countTo C C.j batchSize (sendPacket C fuel) fuel s) t ∧
      t.Sat (fun s' => SentSome C P (i * batchSize + batchSize) s' ∧ Kept C s'.mem ∧
        Counts C C.i (UInt32.ofNat i) s'.mem) (fun t => Fails C P R t ∧ Kept C t.2.mem) := by
    refine countTo_returns (by decide) (I := fun j s => SentSome C P (i * batchSize + j) s ∧ Kept C s.mem ∧
      Counts C C.i (UInt32.ofNat i) s.mem) ?_ ?_ ⟨hs, hkept, hcounts⟩
    · rintro j s v ⟨hs, hkept, hcounts⟩
      exact ⟨hs.assign _ _, hkept.assign hintact (Or.inr rfl) v, hcounts.assign_j hintact v⟩
    · rintro j s hj ⟨⟨ds, hlen, hs⟩, hkept, hcounts⟩ hcounts'
      have hlt : ds.length < batchLoops * batchSize := by
        have hi : i < 2 := hi
        have hj : j < 100 := hj
        rw [hlen]
        show i * 100 + j < 2 * 100
        omega
      obtain ⟨t, hreturns, hsat⟩ := sendPacket_returns hintact hreads hlen hlt hs ⟨hkept, hcounts, hcounts'⟩
      refine ⟨t, hreturns, hsat.mono ?_ fun t h => h⟩
      rintro s' ⟨⟨d, hs'⟩, hvars⟩
      exact ⟨⟨⟨_, by rw [List.length_append, hlen]; rfl, hs'⟩, hvars.toKept, hvars.i⟩, hvars.j⟩
  obtain ⟨t, hreturns, hsat⟩ := hrule
  refine ⟨t, hreturns, hsat.mono ?_ fun t h => h⟩
  rintro s' ⟨hs', hkept', hcounts'⟩
  rw [Nat.succ_mul]
  exact ⟨⟨hs', hkept'⟩, hcounts'⟩

/-- **The client returns**, and has sent what the reader of the file has given. -/
theorem client_returns (hintact : Intact C) (hreads : Reads C P R) {s₀ : Client} (hinit : ClientInitial C s₀)
    (hfile : P [] ⟨0, 0, 0⟩) : ∃ t, Returns (fun fuel => clientMain C fuel s₀) t ∧
      ((∃ ds s, t = (0, s) ∧ ds.length = batchLoops * batchSize ∧ Sent C P ds s) ∨ Fails C P R t) := by
  have hstart : SentSome C P (0 * batchSize) s₀ := by
    refine ⟨[], rfl, ⟨hinit.wire, fun k hk => absurd hk (Nat.not_lt_zero k), fun _ => hinit.lines⟩, ?_, ?_⟩
    · rw [hinit.lines]
      rfl
    · rw [hinit.file]
      exact hfile
  obtain ⟨r, hreturns, hsat⟩ : ∃ r, Returns (fun fuel => countTo C C.i batchLoops (sendBatch C fuel) fuel s₀) r ∧
      r.Sat (fun s => SentSome C P (batchLoops * batchSize) s ∧ Kept C s.mem)
        (fun t => Fails C P R t ∧ Kept C t.2.mem) := by
    refine countTo_returns (by decide) (I := fun i s => SentSome C P (i * batchSize) s ∧ Kept C s.mem) ?_ ?_
      ⟨hstart, hinit.kept⟩
    · exact fun i s v h => ⟨h.1.assign _ _, h.2.assign hintact (Or.inl rfl) v⟩
    · exact fun i s hi h hcounts => sendBatch_returns hintact hreads hi h.1 h.2 hcounts
  have hmain {t : ℤ × Client} (ht : clientStatus r = t) (hkept : Kept C t.2.mem) :
      Returns (fun fuel => clientMain C fuel s₀) t := by
    have hback : returnToCaller C (clientStatus r) = some t := ht ▸ if_pos (ht ▸ hkept.saved)
    exact hreturns.bind (g := fun r _ => returnToCaller C (clientStatus r)) (hback ▸ returns_const t)
  cases r with
  | again s =>
      obtain ⟨⟨ds, hlen, hs⟩, hkept⟩ := hsat
      exact ⟨(0, s), hmain rfl hkept, Or.inl ⟨ds, s, rfl, hlen, hs⟩⟩
  | leave t => exact ⟨t, hmain rfl hsat.2, Or.inr hsat.1⟩

end loops

/-! ### Any file -/

section wire

variable {C : ClientSetting}

/-- The reader can find a number of six bytes, which leaves no room for a terminator in its array. -/
def LongNumber (C : ClientSetting) : Prop :=
  ∃ pos found, nextNumber C.csv.content pos = some found ∧ found.1.length = maxAsciiCharsCountInInt32Value

/-- What the program has done when it returns 1 after the packets with the samples `ds`. -/
inductive Failed (C : ClientSetting) (ds : List Samples) (s : Client) : Prop
  /-- the file could not be read -/
  | read (hlong : LongNumber C) (h : Written C ds [] s)
  /-- the frame of the next packet was not written as a whole -/
  | write {d : Samples} (hresult : C.written ds.length ≠ networkPacketTotalSize)
      (h : Written C ds ((wireFrame C.host (clientPacket C ds.length d)).take (C.written ds.length).toNat) s)

theorem readElements_accepts {F : CsvFile}
    (hshort : ∀ pos, ∃ tok rest, nextNumber F.content pos = some (tok, rest) ∧ tok.length ≤ 5) (count : ℕ)
    {s : FileState} (herrno : errnoFails s.errno = false) : ∃ r, Returns (fun fuel => readElements F fuel count s) r ∧
      r.status = 0 ∧ errnoFails r.state.errno = false := by
  induction count generalizing s with
  | zero => exact ⟨_, returns_const _, rfl, herrno⟩
  | succ count ih =>
      obtain ⟨tok, rest, hnext, hlen⟩ := hshort s.pos
      have hread := read_accepts herrno hlen hnext
      obtain ⟨r, hr, hstatus, herrno'⟩ := ih (s := ⟨posAfter F.content rest, s.errno, s.calls + 1⟩) herrno
      exact ⟨_, readElements_succ hread rfl hr, hstatus, herrno'⟩

theorem returns_cycle {F : CsvFile} {s : FileState} {c : CycleResult}
    (h : Returns (fun fuel => readElements F fuel 700 s) c) :
    Returns (fun fuel => helperCycleReadFromCsvFile F 1400 fuel s) c := by
  obtain ⟨n, hn⟩ := h
  refine ⟨n, fun fuel hfuel => ?_⟩
  dsimp only
  rw [helperCycleReadFromCsvFile_even (by decide)]
  exact hn fuel hfuel

theorem reads_short (hfound : ∃ b ∈ C.csv.content, isNumberByte 0 b = true)
    (hshort : ∀ pos, ∀ found ∈ nextNumber C.csv.content pos, found.1.length ≤ maxAsciiCharsCountInInt32Value) :
    Reads C (fun _ file => errnoFails file.errno = false ∨ LongNumber C) (LongNumber C) := by
  intro ds file hfile
  by_cases hlong : LongNumber C
  · obtain ⟨c, hc⟩ := cycle_returns_of_some hfound 1400 file
    refine ⟨c, hc, ?_⟩
    by_cases hstatus : c.status = 0
    · exact Or.inr ⟨hstatus, fun _ _ => Or.inr hlong⟩
    · exact Or.inl ⟨hstatus, hlong⟩
  · have hfive : ∀ pos, ∃ tok rest, nextNumber C.csv.content pos = some (tok, rest) ∧ tok.length ≤ 5 := by
      intro pos
      obtain ⟨found, hnext⟩ := nextNumber_of_some hfound pos
      have hle : found.1.length ≤ 6 := hshort pos found hnext
      have hne : found.1.length ≠ 6 := fun hsix => hlong ⟨pos, found, hnext, hsix⟩
      exact ⟨found.1, found.2, hnext, by omega⟩
    obtain ⟨c, hc, hstatus, herrno⟩ := readElements_accepts hfive 700 (hfile.resolve_right hlong)
    exact ⟨c, returns_cycle hc, Or.inr ⟨hstatus, fun _ _ => Or.inl herrno⟩⟩

/-- **What the client writes**, whatever numbers the file holds and however the calls of `write` end: 200 frames, or
the frames of fewer packets and perhaps the beginning of one more. -/
theorem client_wire (hintact : Intact C) (hfound : ∃ b ∈ C.csv.content, isNumberByte 0 b = true)
    (hshort : ∀ pos, ∀ found ∈ nextNumber C.csv.content pos, found.1.length ≤ maxAsciiCharsCountInInt32Value)
    {s₀ : Client} (hinit : ClientInitial C s₀) :
    ∃ status s, Returns (fun fuel => clientMain C fuel s₀) (status, s) ∧
      ((status = 0 ∧ ∃ ds, ds.length = batchLoops * batchSize ∧ Written C ds [] s) ∨
        (status = 1 ∧ ∃ ds, ds.length < batchLoops * batchSize ∧ Failed C ds s)) := by
  obtain ⟨t, hreturns, ⟨ds, s, rfl, hlen, hs⟩ | hfails⟩ :=
    client_returns hintact (reads_short hfound hshort) hinit (Or.inl rfl)
  · exact ⟨0, s, hreturns, Or.inl ⟨rfl, ds, hlen, hs.toWritten⟩⟩
  · cases hfails with
    | read hlt hlong h => exact ⟨1, _, hreturns, Or.inr ⟨rfl, _, hlt, .read hlong h⟩⟩
    | write hlt _ hresult h => exact ⟨1, _, hreturns, Or.inr ⟨rfl, _, hlt, .write hresult h⟩⟩

/-- A client on a little-endian host with the file `7,-42` and a newline; its variables lie out of the encoder's
reach. -/
def twoNumbers : ClientSetting where
  host := .little
  csv := ⟨[55, 44, 45, 52, 50, 10], fun _ => []⟩
  networkPacket := 0
  resultPacketBuffer := 2000
  csvfd := 5000
  socketfd := 5008
  i := 5012
  j := 5016
  saved := 5020
  savedBytes := [1, 2, 3, 4, 5, 6, 7, 8]
  file := 4096
  socket := 3
  context := fun _ => zeroContext
  clock := fun k => (k, 0)
  written := fun _ => 1426

theorem twoNumbers_intact : Intact twoNumbers := ⟨by decide, Or.inr (by decide)⟩

/-- A client before its first packet. -/
def startedClient : Client :=
  ⟨writeBytes (writeBytes (writeBytes (fun _ => 0) 5000 (little.bytes 8 4096)) 5008 (little.bytes 4 3)) 5020
    [1, 2, 3, 4, 5, 6, 7, 8], ⟨0, 0, 0⟩, [], []⟩

theorem startedClient_initial : ClientInitial twoNumbers startedClient :=
  ⟨⟨by decide, by decide, by decide⟩, rfl, rfl, rfl⟩

/-- The same with the file `7,-42`, where the third `write` takes a hundred bytes. -/
def thirdCut : ClientSetting :=
  { twoNumbers with csv := ⟨[55, 44, 45, 52, 50], fun _ => []⟩, written := fun k => if k = 2 then 100 else 1426 }

/-- Two frames and a hundred bytes of the third are written. -/
theorem client_wire_third_cut : ∃ s, Returns (fun fuel => clientMain thirdCut fuel startedClient) (1, s) ∧
    s.wire.length = 2 * 1426 + 100 := by
  have hlen : ∀ pos, ∀ found ∈ nextNumber thirdCut.csv.content pos, found.1.length ≤ 5 := by
    rintro pos ⟨tok, rest⟩ hnext
    obtain ⟨skipped, hcontent⟩ := nextNumber_append hnext
    have hcontent := congrArg List.length hcontent
    simp only [thirdCut, List.length_append, List.length_cons, List.length_nil] at hcontent
    show tok.length ≤ 5
    omega
  obtain ⟨status, s, hreturns, ⟨-, ds, hds, hs⟩ | ⟨rfl, ds, -, hfailed⟩⟩ :=
    client_wire (C := thirdCut) ⟨by decide, Or.inr (by decide)⟩ ⟨55, by decide, rfl⟩
      (fun pos found hfound => Nat.le_succ_of_le (hlen pos found hfound))
      (show ClientInitial thirdCut startedClient from ⟨⟨by decide, by decide, by decide⟩, rfl, rfl, rfl⟩)
  · exact absurd (hs.written 2 (by rw [hds]; decide)) (by decide)
  · refine ⟨s, hreturns, ?_⟩
    cases hfailed with
    | read hlong =>
        obtain ⟨pos, found, hnext, hsix⟩ := hlong
        have hfive := hlen pos found hnext
        rw [hsix] at hfive
        exact absurd hfive (by decide)
    | write hresult h =>
        have htwo : ds.length = 2 := by
          by_contra hne
          exact hresult (if_neg hne)
        have hframe := wireFrame_length thirdCut.host
        rw [h.wire, List.length_append, frames_length, List.length_take, hframe, clientPackets_length, htwo]
        rfl

end wire

end OhMySockets
