import OhMySockets.CsvRoundTrip
import OhMySockets.ForLoop
import OhMySockets.Md5Packets

/-! # The client

The loops of `main` in `client/main.c`, from the connected socket on: two batches of a hundred packets, each
with its number, the time, 700 numbers of the file and their digest, encoded and written to the socket.
The clock and the results of `write` are given; `write` takes as many bytes of the frame as it
returns.

The variables of `main` are memory, and so is what its caller has saved: on a little-endian host the encoder goes on
behind its buffer and changes what lies there.  Where it has changed the file pointer, the socket or the return
address, the client has no result.

* `Intact C`: no variable of `main` lies there;
* `countTo_returns`: the rule for the loops, whose counters lie in memory;
* `eval_send`, `bytesAt_send`: the frame of one packet, and what making it leaves alone. -/

namespace OhMySockets

open ByteMemory ByteOrder WhileLoop

/-- `BATCH_LOOPS`. -/
abbrev batchLoops : ℕ := 2
/-- `BATCH_SIZE`. -/
abbrev batchSize : ℕ := 100

/-- What does not depend on the client's state; the functions take the number of packets before. -/
structure ClientSetting where
  host : ByteOrder
  csv : CsvFile
  /-- the addresses of the variables of `main` -/
  networkPacket : ℕ
  resultPacketBuffer : ℕ
  csvfd : ℕ
  socketfd : ℕ
  i : ℕ
  j : ℕ
  /-- the address of the saved registers and the return address, and their bytes -/
  saved : ℕ
  savedBytes : List UInt8
  /-- the results of `fopen` and `socket` -/
  file : UInt64
  socket : UInt32
  /-- what the stack holds in the place of the context of `mbedtls_md5_ret` -/
  context : ℕ → Md5Context
  /-- `tv_sec` and `tv_usec` -/
  clock : ℕ → ℤ × ℤ
  /-- the results of `write` -/
  written : ℕ → ℤ

/-- The client's memory and its place in the file; what the socket has taken, and the lines `Sent`. -/
structure Client where
  mem : Mem
  file : FileState
  wire : List UInt8
  lines : List (UInt16 × UInt64)

/-- `helper_get_current_time_in_microseconds`. -/
def helperGetCurrentTimeInMicroseconds (tv : ℤ × ℤ) : UInt64 := UInt64.ofInt (1000000 * tv.1 + tv.2)

/-- The number of the packet in turn `j` of batch `i`. -/
def packetNumber (i j : UInt32) : UInt16 := (i * UInt32.ofNat batchSize + (j + 1)).toUInt16

/-- `number` and `microtime` are set, after `k` packets. -/
def fillHeader (C : ClientSetting) (k : ℕ) : Cmd Unit := do
  let i ← load32 C.host C.i
  let j ← load32 C.host C.j
  store16 C.host C.networkPacket (packetNumber i j)
  store64 C.host (C.networkPacket + microtimeOffset) (helperGetCurrentTimeInMicroseconds (C.clock k))

/-- `helper_cycle_read_from_csv_file` stores the numbers that it reads. -/
def storeData (C : ClientSetting) (stored : List Int16) : Cmd Unit :=
  store (C.networkPacket + dataOffset) (C.host.wordBytes (stored.map Int16.toUInt16))

/-- The struct as it is when the line `Sent` is printed. -/
def printSent (C : ClientSetting) : Cmd (UInt16 × UInt64) := do
  let number ← load16 C.host C.networkPacket
  let microtime ← load64 C.host (C.networkPacket + microtimeOffset)
  pure (number, microtime)

/-- The 32-bit variable at the address `a`. -/
def Client.word (C : ClientSetting) (a : ℕ) (s : Client) : UInt32 := eval (load32 C.host a) ⟨s.mem, [], []⟩

/-- An assignment to the 32-bit variable at the address `a`. -/
def Client.assign (C : ClientSetting) (a : ℕ) (v : UInt32) (s : Client) : Client :=
  { s with mem := (exec (store32 C.host a v) ⟨s.mem, [], []⟩).mem }

/-- The client's machine when `stored` has been read from the file. -/
def Client.filled (C : ClientSetting) (s : Client) (stored : List Int16) : Machine :=
  exec (storeData C stored) (exec (fillHeader C s.lines.length) ⟨s.mem, [], []⟩)

/-- The client after `write`. -/
def afterWrite (C : ClientSetting) (s : Client) (r : CycleResult) : Client :=
  let k := s.lines.length
  let send := clientSendMd5 (C.context k) C.host C.networkPacket C.resultPacketBuffer
  { s with
    mem := (exec send (s.filled C r.stored)).mem
    file := r.state
    wire := s.wire ++ (eval send (s.filled C r.stored)).take (C.written k).toNat }

/-- The body of the inner loop from the return of `helper_cycle_read_from_csv_file` on. -/
def sendRead (C : ClientSetting) (s : Client) (r : CycleResult) : Option (Turn Client (ℤ × Client)) :=
  if r.status ≠ 0 then some (.leave (1, { s with mem := (s.filled C r.stored).mem, file := r.state }))
  else
    let s' := afterWrite C s r
    -- what `write` does with another descriptor is not modelled
    if s'.word C C.socketfd ≠ C.socket then none
    else if C.written s.lines.length ≠ networkPacketTotalSize then some (.leave (1, s'))
    else some (.again { s' with lines := s.lines ++ [eval (printSent C) ⟨s'.mem, [], []⟩] })

/-- The body of the inner loop, with fuel for the reader of the file. -/
def sendPacket (C : ClientSetting) (fuel : ℕ) (s : Client) : Option (Turn Client (ℤ × Client)) :=
  -- what the reader does with another pointer is not modelled
  if eval (load64 C.host C.csvfd) (exec (fillHeader C s.lines.length) ⟨s.mem, [], []⟩) ≠ C.file then none
  else (helperCycleReadFromCsvFile C.csv 1400 fuel s.file).bind (sendRead C s)

/-- `for (unsigned int x = 0; x < n; x++) body`, with `x` at the address `a`. -/
def countTo (C : ClientSetting) (a n : ℕ) (body : Client → Option (Turn Client (ℤ × Client))) (fuel : ℕ) (s : Client) :
    Option (Turn Client (ℤ × Client)) :=
  forLoop (fun s => s.word C a < UInt32.ofNat n) (fun s => s.assign C a (s.word C a + 1)) body fuel
    (s.assign C a 0)

/-- The loop over `j`. -/
def sendBatch (C : ClientSetting) (fuel : ℕ) : Client → Option (Turn Client (ℤ × Client)) :=
  countTo C C.j batchSize (sendPacket C fuel) fuel

/-- The status that `main` returns behind the loops. -/
def clientStatus : Turn Client (ℤ × Client) → ℤ × Client
  | .again s => (0, s)
  | .leave t => t

/-- The return to the caller of `main`; without its return address there is none. -/
def returnToCaller (C : ClientSetting) (t : ℤ × Client) : Option (ℤ × Client) :=
  if bytesAt t.2.mem C.saved C.savedBytes.length = C.savedBytes then some t else none

/-- The loop over `i`, and the end of `main`. -/
def clientMain (C : ClientSetting) (fuel : ℕ) (s : Client) : Option (ℤ × Client) :=
  (countTo C C.i batchLoops (sendBatch C fuel) fuel s).bind fun r => returnToCaller C (clientStatus r)

/-- `csvfd`, `socketfd` and what the caller has saved are in their places. -/
structure Kept (C : ClientSetting) (mem : Mem) : Prop where
  csvfd : bytesAt mem C.csvfd 8 = C.host.bytes 8 C.file.toNat
  socketfd : bytesAt mem C.socketfd 4 = C.host.bytes 4 C.socket.toNat
  saved : bytesAt mem C.saved C.savedBytes.length = C.savedBytes

/-- The client before the first packet. -/
structure ClientInitial (C : ClientSetting) (s : Client) : Prop where
  kept : Kept C s.mem
  file : s.file = ⟨0, 0, 0⟩
  wire : s.wire = []
  lines : s.lines = []

/-! ### The variables of `main` -/

/-- Address and size of the variables that the loops only read or count with, and of what the caller has saved. -/
def ClientSetting.others (C : ClientSetting) : List (ℕ × ℕ) :=
  [(C.csvfd, 8), (C.socketfd, 4), (C.saved, C.savedBytes.length), (C.i, 4), (C.j, 4)]

/-- **The layout of the stack frame**: no two variables overlap, and none but the struct lies where the encoder of a
little-endian host goes on behind its buffer. -/
structure Intact (C : ClientSetting) : Prop where
  apart : ((C.networkPacket, sizeofPacket) :: (C.resultPacketBuffer, networkPacketTotalSize) :: C.others).Pairwise
    fun v w => Apart v.1 v.2 w.1 w.2
  unreached : C.host = .big ∨ ∀ v ∈ C.others, Apart v.1 v.2 C.resultPacketBuffer 2810

/-- The counter at the address `a` has the value `v`. -/
def Counts (C : ClientSetting) (a : ℕ) (v : UInt32) (mem : Mem) : Prop := bytesAt mem a 4 = C.host.bytes 4 v.toNat

/-- The variables in turn `j` of batch `i`. -/
structure Variables (C : ClientSetting) (i j : ℕ) (mem : Mem) : Prop extends Kept C mem where
  i : Counts C C.i (UInt32.ofNat i) mem
  j : Counts C C.j (UInt32.ofNat j) mem

section frame

variable {C : ClientSetting} {i j : ℕ} {mem mem' : Mem} {s : Client}

theorem Intact.struct_buffer (h : Intact C) :
    Apart C.networkPacket sizeofPacket C.resultPacketBuffer networkPacketTotalSize :=
  (List.pairwise_cons.mp h.apart).1 _ List.mem_cons_self

theorem Intact.struct_other (h : Intact C) {v : ℕ × ℕ} (hv : v ∈ C.others) :
    Apart C.networkPacket sizeofPacket v.1 v.2 :=
  (List.pairwise_cons.mp h.apart).1 _ (List.mem_cons_of_mem _ hv)

theorem Intact.buffer_other (h : Intact C) {v : ℕ × ℕ} (hv : v ∈ C.others) :
    Apart C.resultPacketBuffer networkPacketTotalSize v.1 v.2 :=
  (List.pairwise_cons.mp (List.pairwise_cons.mp h.apart).2).1 _ hv

theorem Intact.others_apart (h : Intact C) : C.others.Pairwise fun v w => Apart v.1 v.2 w.1 w.2 :=
  (List.pairwise_cons.mp (List.pairwise_cons.mp h.apart).2).2

theorem Kept.of_frame (h : Kept C mem) (hframe : ∀ v ∈ C.others, bytesAt mem' v.1 v.2 = bytesAt mem v.1 v.2) :
    Kept C mem' where
  csvfd := (hframe (C.csvfd, 8) (by simp [ClientSetting.others])).trans h.csvfd
  socketfd := (hframe (C.socketfd, 4) (by simp [ClientSetting.others])).trans h.socketfd
  saved := (hframe (C.saved, C.savedBytes.length) (by simp [ClientSetting.others])).trans h.saved

theorem Variables.of_frame (h : Variables C i j mem)
    (hframe : ∀ v ∈ C.others, bytesAt mem' v.1 v.2 = bytesAt mem v.1 v.2) : Variables C i j mem' where
  toKept := h.toKept.of_frame hframe
  i := (hframe (C.i, 4) (by simp [ClientSetting.others])).trans h.i
  j := (hframe (C.j, 4) (by simp [ClientSetting.others])).trans h.j

theorem counts_assign (C : ClientSetting) (a : ℕ) (v : UInt32) (s : Client) : Counts C a v (s.assign C a v).mem :=
  bytesAt_writeBytes_self _ _ _ (C.host.bytes_length 4 _)

theorem word_eq {a : ℕ} {v : UInt32} (h : Counts C a v s.mem) : s.word C a = v := eval_load32_of_bytes h

theorem bytesAt_assign {a b n : ℕ} (h : Apart b n a 4) (v : UInt32) (s : Client) :
    bytesAt (s.assign C a v).mem b n = bytesAt s.mem b n := by
  have hlen := C.host.bytes_length 4 v.toNat
  apply bytesAt_writeBytes_of_disjoint
  unfold Apart at h
  omega

theorem Kept.assign (h : Kept C s.mem) (hintact : Intact C) {a : ℕ} (ha : a = C.i ∨ a = C.j) (v : UInt32) :
    Kept C (s.assign C a v).mem := by
  have hapart := hintact.others_apart
  simp only [ClientSetting.others, List.pairwise_cons, List.forall_mem_cons] at hapart
  obtain ⟨⟨-, -, hi, hj, -⟩, ⟨-, hi', hj', -⟩, ⟨hi'', hj'', -⟩, -⟩ := hapart
  rcases ha with rfl | rfl
  · exact ⟨(bytesAt_assign hi v s).trans h.csvfd, (bytesAt_assign hi' v s).trans h.socketfd,
      (bytesAt_assign hi'' v s).trans h.saved⟩
  · exact ⟨(bytesAt_assign hj v s).trans h.csvfd, (bytesAt_assign hj' v s).trans h.socketfd,
      (bytesAt_assign hj'' v s).trans h.saved⟩

theorem Counts.assign_j {v : UInt32} (h : Counts C C.i v s.mem) (hintact : Intact C) (w : UInt32) :
    Counts C C.i v (s.assign C C.j w).mem := by
  have hapart := hintact.others_apart
  simp only [ClientSetting.others, List.pairwise_cons, List.forall_mem_cons] at hapart
  obtain ⟨-, -, -, ⟨hij, -⟩, -⟩ := hapart
  exact (bytesAt_assign hij w s).trans h

/-- **A counting loop** whose body keeps the counter: the invariant does not depend on the counter. -/
theorem countTo_returns {a n : ℕ} (hn : n < 2 ^ 32) {body : ℕ → Client → Option (Turn Client (ℤ × Client))}
    {I : ℕ → Client → Prop} {Q : ℤ × Client → Prop} (hassign : ∀ k s v, I k s → I k (s.assign C a v))
    (hbody : ∀ k s, k < n → I k s → Counts C a (UInt32.ofNat k) s.mem →
      ∃ r, Returns (fun fuel => body fuel s) r ∧
        r.Sat (fun s' => I (k + 1) s' ∧ Counts C a (UInt32.ofNat k) s'.mem) Q) (hs : I 0 s) :
    ∃ r, Returns (fun fuel => countTo C a n (body fuel) fuel s) r ∧ r.Sat (I n) Q := by
  have htest : ∀ k s, k ≤ n → I k s ∧ Counts C a (UInt32.ofNat k) s.mem →
      (decide (s.word C a < UInt32.ofNat n) = true ↔ k < n) := by
    rintro k s hk ⟨-, hcounts⟩
    rw [decide_eq_true_iff, word_eq hcounts, UInt32.lt_iff_toNat_lt, UInt32.toNat_ofNat', UInt32.toNat_ofNat',
      Nat.mod_eq_of_lt hn, Nat.mod_eq_of_lt (Nat.lt_of_le_of_lt hk hn)]
  have hnext : ∀ k s, k < n → I k s ∧ Counts C a (UInt32.ofNat k) s.mem →
      ∃ r, Returns (fun fuel => body fuel s) r ∧ r.Sat (fun s' => I (k + 1) (s'.assign C a (s'.word C a + 1)) ∧
        Counts C a (UInt32.ofNat (k + 1)) (s'.assign C a (s'.word C a + 1)).mem) Q := by
    rintro k s hk ⟨hI, hcounts⟩
    obtain ⟨r, hreturns, hsat⟩ := hbody k s hk hI hcounts
    refine ⟨r, hreturns, hsat.mono ?_ fun t h => h⟩
    rintro s' ⟨hI', hcounts'⟩
    refine ⟨hassign _ _ _ hI', ?_⟩
    rw [word_eq hcounts', UInt32.ofNat_add]
    exact counts_assign C a _ s'
  obtain ⟨r, hreturns, hsat⟩ := forLoop_returns htest hnext ⟨hassign 0 s 0 hs, counts_assign C a 0 s⟩
  exact ⟨r, hreturns, hsat.mono (fun s h => h.1) fun t h => h⟩

end frame

/-! ### One packet -/

/-- The samples of a packet. -/
abbrev Samples := { data : List Int16 // data.length = networkPacketDataInt16WordsCount }

/-- The packet that the client sends after `k` others, with the samples `d`. -/
def clientPacket (C : ClientSetting) (k : ℕ) (d : Samples) : Packet where
  number := UInt16.ofNat (k + 1)
  microtime := helperGetCurrentTimeInMicroseconds (C.clock k)
  data := d.val
  md5 := Rfc1321.md5 (C.host.wordBytes (d.val.map Int16.toUInt16))
  data_length := d.property
  md5_length := Rfc1321.digest_length _ _

/-- The packets with the samples `ds`, from the first one on. -/
def clientPackets (C : ClientSetting) (ds : List Samples) : List Packet := ds.mapIdx (clientPacket C)

theorem clientPackets_concat (C : ClientSetting) (ds : List Samples) (d : Samples) :
    clientPackets C (ds ++ [d]) = clientPackets C ds ++ [clientPacket C ds.length d] :=
  List.mapIdx_concat

@[simp] theorem clientPackets_length (C : ClientSetting) (ds : List Samples) : (clientPackets C ds).length = ds.length :=
  List.length_mapIdx

theorem frames_length (client : ByteOrder) (ps : List Packet) :
    (ps.flatMap (wireFrame client)).length = 1426 * ps.length := by
  induction ps with
  | nil => rfl
  | cons p ps ih =>
      rw [List.flatMap_cons, List.length_append, ih, wireFrame_length, List.length_cons, Nat.mul_succ, Nat.add_comm]

theorem read_stored {F : CsvFile} {fuel : ℕ} {s : FileState} {e : ReadResult}
    (h : helperReadInt16FromCsvFile F fuel s = some e) (hstatus : e.status = 0) : ∃ w, e.stored = some w := by
  obtain ⟨t, -, he⟩ := Option.map_eq_some_iff.mp h
  rw [← he] at hstatus ⊢
  unfold convert at hstatus ⊢
  dsimp only at hstatus ⊢
  split_ifs at hstatus ⊢
  · cases hstatus
  · exact ⟨_, rfl⟩

theorem readElements_length {F : CsvFile} {fuel count : ℕ} {s : FileState} {r : CycleResult}
    (h : readElements F fuel count s = some r) :
    r.stored.length ≤ count ∧ (r.status = 0 → r.stored.length = count) := by
  induction count generalizing s r with
  | zero =>
      obtain rfl := Option.some.inj h
      exact ⟨Nat.le_refl 0, fun _ => rfl⟩
  | succ count ih =>
      obtain ⟨e, he, h⟩ := Option.bind_eq_some_iff.mp h
      split_ifs at h with hfail
      · obtain rfl := Option.some.inj h
        exact ⟨Nat.zero_le _, nofun⟩
      · obtain ⟨rest, hrest, rfl⟩ := Option.map_eq_some_iff.mp h
        obtain ⟨w, hw⟩ := read_stored he (not_not.mp hfail)
        obtain ⟨hle, hlen⟩ := ih hrest
        rw [hw]
        exact ⟨Nat.succ_le_succ hle, fun hstatus => congrArg (· + 1) (hlen hstatus)⟩

theorem packetNumber_ofNat (i j : ℕ) :
    packetNumber (UInt32.ofNat i) (UInt32.ofNat j) = UInt16.ofNat (i * batchSize + j + 1) := by
  apply UInt16.toNat_inj.mp
  simp only [packetNumber, batchSize, UInt32.toNat_toUInt16, UInt32.toNat_add, UInt32.toNat_mul, UInt32.toNat_ofNat',
    UInt16.toNat_ofNat', UInt32.toNat_one]
  omega

section packet

variable {C : ClientSetting} {i j k : ℕ} {m : Machine}

theorem mem_fillHeader {x : ℕ} (hx : x < C.networkPacket ∨ C.networkPacket + 16 ≤ x) :
    (exec (fillHeader C k) m).mem x = m.mem x := by
  simp only [fillHeader, exec_bind, mem_store16, mem_store64, microtimeOffset]
  rw [writeBytes_outside (by rw [bytes_length]; omega), writeBytes_outside (by rw [bytes_length]; omega)]
  rfl

theorem mem_storeData {stored : List Int16} (hlen : stored.length ≤ 700) {x : ℕ}
    (hx : x < C.networkPacket + 16 ∨ C.networkPacket + 1416 ≤ x) : (exec (storeData C stored) m).mem x = m.mem x := by
  have hdata : (C.host.wordBytes (stored.map Int16.toUInt16)).length = 2 * stored.length := by
    rw [wordBytes_length, List.length_map]
  simp only [storeData, mem_store, dataOffset]
  exact writeBytes_outside (by omega)

theorem packetAt_filled (h : Variables C i j m.mem) (hk : i * batchSize + j = k) (d : Samples) :
    packetAt C.host (exec (storeData C d.val) (exec (fillHeader C k) m)).mem C.networkPacket =
      { clientPacket C k d with
        md5 := bytesAt m.mem (C.networkPacket + md5Offset) networkPacketMd5Size
        md5_length := bytesAt_length _ _ _ } := by
  have hdata : (C.host.wordBytes (d.val.map Int16.toUInt16)).length = 2 * 700 := by
    rw [wordBytes_length, List.length_map, d.property]
  have hi : eval (load32 C.host C.i) m = UInt32.ofNat i := eval_load32_of_bytes h.i
  have hj : eval (load32 C.host C.j) (exec (load32 C.host C.i) m) = UInt32.ofNat j := eval_load32_of_bytes h.j
  have h2 := C.host.bytes_length 2 (UInt16.ofNat (k + 1)).toNat
  have h8 := C.host.bytes_length 8 (helperGetCurrentTimeInMicroseconds (C.clock k)).toNat
  simp only [storeData, fillHeader, exec_bind, mem_store, mem_store16, mem_store64, microtimeOffset, dataOffset, hi, hj,
    packetNumber_ofNat, hk]
  apply packetAt_eq_of_bytes
  · rw [bytesAt_writeBytes_of_disjoint _ (by omega), bytesAt_writeBytes_of_disjoint _ (by omega),
      bytesAt_writeBytes_self _ _ _ h2]
    rfl
  · rw [bytesAt_writeBytes_of_disjoint _ (by omega), bytesAt_writeBytes_self _ _ _ h8]
    rfl
  · exact bytesAt_writeBytes_self _ _ _ hdata
  · rw [bytesAt_writeBytes_of_disjoint _ (by omega), bytesAt_writeBytes_of_disjoint _ (by omega),
      bytesAt_writeBytes_of_disjoint _ (by omega)]
    rfl

theorem mem_clientSendMd5 (ctx : Md5Context) {x : ℕ}
    (hdigest : x < C.networkPacket + 1416 ∨ C.networkPacket + 1432 ≤ x)
    (hbuffer : x < C.resultPacketBuffer ∨ C.resultPacketBuffer + 1426 ≤ x)
    (hbehind : C.host = .big ∨ x < C.resultPacketBuffer ∨ C.resultPacketBuffer + 2810 ≤ x) :
    (exec (clientSendMd5 ctx C.host C.networkPacket C.resultPacketBuffer) m).mem x = m.mem x := by
  have hnot : ¬ (C.host = .little ∧ C.resultPacketBuffer + 1426 ≤ x ∧ x < C.resultPacketBuffer + 2810) := by
    rintro ⟨hlittle, h1, h2⟩
    rcases hbehind with hbig | hbehind
    · rw [hbig] at hlittle
      cases hlittle
    · omega
  have hlen := mbedtlsMd5.hash_length (bytesAt m.mem (C.networkPacket + dataOffset) networkPacketDataSize)
  simp only [clientSendMd5, exec_bind, mem_load]
  rw [networkEncodePacket_outside _ _ _ _ _ hbuffer, if_neg hnot, mem_mbedtlsMd5Ret]
  exact writeBytes_outside (hdigest.imp id fun h => by rw [hlen]; exact h)

/-- **What a packet leaves alone**: the other variables of `main`, and what its caller has saved. -/
theorem bytesAt_send (hintact : Intact C) {v : ℕ × ℕ} (hv : v ∈ C.others) (ctx : Md5Context) :
    bytesAt (exec (clientSendMd5 ctx C.host C.networkPacket C.resultPacketBuffer) m).mem v.1 v.2 =
      bytesAt m.mem v.1 v.2 := by
  have hstruct : C.networkPacket + 1432 ≤ v.1 ∨ v.1 + v.2 ≤ C.networkPacket := hintact.struct_other hv
  have hbuffer : C.resultPacketBuffer + 1426 ≤ v.1 ∨ v.1 + v.2 ≤ C.resultPacketBuffer := hintact.buffer_other hv
  apply bytesAt_congr
  intro x hx
  refine mem_clientSendMd5 ctx (by omega) (by omega) ?_
  rcases hintact.unreached with hbig | hapart
  · exact Or.inl hbig
  · have hfar : v.1 + v.2 ≤ C.resultPacketBuffer ∨ C.resultPacketBuffer + 2810 ≤ v.1 := hapart v hv
    exact Or.inr (by omega)

theorem bytesAt_fillHeader (hintact : Intact C) {v : ℕ × ℕ} (hv : v ∈ C.others) :
    bytesAt (exec (fillHeader C k) m).mem v.1 v.2 = bytesAt m.mem v.1 v.2 := by
  have hstruct : C.networkPacket + 1432 ≤ v.1 ∨ v.1 + v.2 ≤ C.networkPacket := hintact.struct_other hv
  exact bytesAt_congr fun x hx => mem_fillHeader (by omega)

theorem bytesAt_storeData (hintact : Intact C) {v : ℕ × ℕ} (hv : v ∈ C.others) {stored : List Int16}
    (hlen : stored.length ≤ 700) : bytesAt (exec (storeData C stored) m).mem v.1 v.2 = bytesAt m.mem v.1 v.2 := by
  have hstruct : C.networkPacket + 1432 ≤ v.1 ∨ v.1 + v.2 ≤ C.networkPacket := hintact.struct_other hv
  exact bytesAt_congr fun x hx => mem_storeData hlen (by omega)

/-- **The frame of one packet**, from its number to `write`. -/
theorem eval_send (hintact : Intact C) (h : Variables C i j m.mem) (hk : i * batchSize + j = k) (ctx : Md5Context)
    (d : Samples) :
    eval (clientSendMd5 ctx C.host C.networkPacket C.resultPacketBuffer)
      (exec (storeData C d.val) (exec (fillHeader C k) m)) = wireFrame C.host (clientPacket C k d) := by
  rw [eval_clientSendMd5 ctx C.host _ hintact.struct_buffer, packetAt_filled h hk]
  rfl

/-- The encoder does not reach the struct. -/
def Undisturbed (C : ClientSetting) : Prop :=
  C.host = .big ∨ C.networkPacket + sizeofPacket ≤ C.resultPacketBuffer ∨ C.resultPacketBuffer + 2810 ≤ C.networkPacket

/-- The number and the time are still in the struct when the line is printed. -/
theorem eval_printSent (hintact : Intact C) (hfar : Undisturbed C) (ctx : Md5Context) :
    eval (printSent C) ⟨(exec (clientSendMd5 ctx C.host C.networkPacket C.resultPacketBuffer) m).mem, [], []⟩ =
      ((packetAt C.host m.mem C.networkPacket).number, (packetAt C.host m.mem C.networkPacket).microtime) := by
  have hsep : C.networkPacket + 1432 ≤ C.resultPacketBuffer ∨ C.resultPacketBuffer + 1426 ≤ C.networkPacket :=
    hintact.struct_buffer
  have hframe (x : ℕ) (hlo : C.networkPacket ≤ x) (hhi : x < C.networkPacket + 1416) :
      (exec (clientSendMd5 ctx C.host C.networkPacket C.resultPacketBuffer) m).mem x = m.mem x := by
    refine mem_clientSendMd5 ctx (Or.inl hhi) (by omega) (hfar.imp id fun hfar => ?_)
    have hfar : C.networkPacket + 1432 ≤ C.resultPacketBuffer ∨ C.resultPacketBuffer + 2810 ≤ C.networkPacket := hfar
    omega
  have hprint : eval (printSent C)
      ⟨(exec (clientSendMd5 ctx C.host C.networkPacket C.resultPacketBuffer) m).mem, [], []⟩ =
      ((packetAt C.host (exec (clientSendMd5 ctx C.host C.networkPacket C.resultPacketBuffer) m).mem
          C.networkPacket).number,
        (packetAt C.host (exec (clientSendMd5 ctx C.host C.networkPacket C.resultPacketBuffer) m).mem
          C.networkPacket).microtime) := rfl
  rw [hprint, packetAt_number_congr C.host fun x hlo hhi => hframe x hlo (by omega),
    packetAt_microtime_congr C.host fun x hlo hhi => hframe x (by omega) (by omega)]

end packet

end OhMySockets
