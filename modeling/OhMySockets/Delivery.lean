import OhMySockets.ClientStream
import OhMySockets.SelectFrames

/-! # From the clients to the circular buffer

What the select loop pushes, when the bytes of a connection are those that a client has written.

* `judged_of_reaches`: in every run, `is_valid` of a pushed packet says whether its digest is the hash of its
  samples;
* `Carries stream consumed bytes`: the bytes delivered so far are the first ones of `bytes`;
* `delivered_prefix`: the numbers, times, samples and verdicts pushed from a connection are those of the
  first packets of its sender, in order, without gaps and without repetitions, however the bytes are
  cut into pieces and however the connections are interleaved; when all bytes have been delivered,
  they are those of all its packets;
* `client_to_server`: the sender is the client. -/

namespace OhMySockets

open ByteMemory ByteOrder Transition

/-! ### Verdicts -/

section verdicts

variable {S : Setting} {s s' s₀ : Loop}

/-- The verdict on a packet is right. -/
def Pushed.Judged (S : Setting) (e : Pushed) : Prop :=
  e.isValid = true ↔ e.packet.md5 = S.md5.hash (S.host.wordBytes e.packet.words)

theorem loopStep_pushed {a : LoopAction} (h : loopStep S s a = some s') :
    s'.pushed = s.pushed ∨ ∃ e, s'.pushed = s.pushed ++ [e] ∧ e.Judged S := by
  cases loopStep_move h with
  | pushed hpc hapart hmem =>
      right
      simp only [loopStep, pushStep, hpc, if_pos hapart] at h
      obtain hsame := congrArg Loop.pushed (Option.some.inj h)
      exact ⟨_, hsame.symm, serverReceive_iff S.md5 S.host ⟨s.mem, [], []⟩ S.buffer _⟩
  | delivered =>
      left
      unfold afterRead
      split
      · rfl
      · split <;> rfl
  | _ =>
      left
      rfl

/-- **Every packet in the buffer carries the right verdict**, in every run. -/
theorem judged_of_reaches (hinit : LoopInitial S s₀) (hrun : Reaches (loopStep S) s₀ s) :
    ∀ e ∈ s.pushed, e.Judged S := by
  apply Run.invariant (I := fun s => ∀ e ∈ s.pushed, e.Judged S) hrun
  · intro e he
    rw [hinit.pushed] at he
    cases he
  · intro t u a _ _ ht hstep e he
    rcases loopStep_pushed hstep with hsame | ⟨e', hpushed, hjudged⟩
    · exact ht e (hsame ▸ he)
    · rw [hpushed] at he
      rcases List.mem_append.mp he with he | he
      · exact ht e he
      · exact List.mem_singleton.mp he ▸ hjudged

end verdicts

/-! ### Streams of frames -/

/-- What a server has of a packet: its number, its time, its samples and the verdict. -/
abbrev Received := UInt16 × UInt64 × List Int16 × Bool

/-- A pushed packet. -/
def Pushed.received (e : Pushed) : Received := (e.packet.number, e.packet.microtime, e.packet.data, e.isValid)

/-- What is received of a packet whose digest is the hash of its samples: it passes between hosts of one
byte order, and when the digests of the two images of the samples are mirror images. -/
def expectedOf (H : Md5) (client server : ByteOrder) (p : Packet) : Received :=
  (p.number, p.microtime, p.data,
    decide (client = server ∨ (H.hash (client.wordBytes p.words)).reverse = H.hash (server.wordBytes p.words)))

/-- The first `count` bytes of a connection are the first ones of `bytes`. -/
structure Carries (stream : ℕ → UInt8) (count : ℕ) (bytes : List UInt8) : Prop where
  le : count ≤ bytes.length
  eq : ∀ x < count, stream x = bytes.getD x 0

/-- The packets that have come from a connection, as they were received. -/
def receivedFrom (c : ℕ) (pushed : List Pushed) : List Received :=
  (pushed.filter fun e => e.connection = some c).map Pushed.received

section frames

variable {stream : ℕ → UInt8} {count : ℕ} {client : ByteOrder} {ps : List Packet} {rest : List UInt8}

/-- A block that has been delivered as a whole is the frame of one packet. -/
theorem Carries.frame (h : Carries stream count (ps.flatMap (wireFrame client) ++ rest)) {k : ℕ} (hk : k < ps.length)
    (hcount : 1426 * k + 1426 ≤ count) : frame stream k = wireFrame client ps[k] := by
  have hsplit : ps.flatMap (wireFrame client) ++ rest = (ps.take k).flatMap (wireFrame client) ++
      (wireFrame client ps[k] ++ ((ps.drop (k + 1)).flatMap (wireFrame client) ++ rest)) := by
    rw [← List.append_assoc, ← List.append_assoc, List.append_assoc (List.flatMap _ _), ← List.flatMap_cons,
      ← List.drop_eq_getElem_cons hk, ← List.flatMap_append, List.take_append_drop]
  have hfits := wireFrame_length client ps[k]
  have hbefore : ((ps.take k).flatMap (wireFrame client)).length = 1426 * k := by
    rw [frames_length, List.length_take, Nat.min_eq_left (Nat.le_of_lt hk)]
  show bytesAt stream (1426 * k) 1426 = _
  apply List.ext_getElem
  · rw [bytesAt_length, hfits]
  · intro i hi hi'
    have hindex : 1426 * k + i - ((ps.take k).flatMap (wireFrame client)).length = i := by omega
    rw [bytesAt_length] at hi
    rw [bytesAt_getElem, h.eq _ (by omega), hsplit, List.getD_eq_getElem?_getD,
      List.getElem?_append_right (by omega), hindex, List.getElem?_append_left hi', List.getElem?_eq_getElem hi']
    rfl

theorem decodeFrame_wireFrame (H : Md5) (server : ByteOrder) {p : Packet}
    (hp : p.md5 = H.hash (client.wordBytes p.words)) :
    let got := decodeFrame server (wireFrame client p)
    got.number = p.number ∧ got.microtime = p.microtime ∧ got.data = p.data ∧
      (got.md5 = H.hash (server.wordBytes got.words) ↔ client = server ∨
        (H.hash (client.wordBytes p.words)).reverse = H.hash (server.wordBytes p.words)) := by
  intro got
  have hdigest : withDigest H client p = p := Packet.ext rfl rfl rfl hp.symm
  apply received_iff H
  rw [hdigest]
  show wireFrame server (decodeFrame server (wireFrame client p)) = _
  unfold decodeFrame
  rw [wireFrame_decodedPacket _ (by decide), bytesAt_delivered (wireFrame_length _ _)]

end frames

/-! ### The packets of a connection -/

section connection

variable {S : Setting} {s s₀ : Loop} {c : ℕ} {client : ByteOrder} {ps : List Packet} {rest : List UInt8}

theorem receivedFrom_eq (hinit : LoopInitial S s₀) (hrun : Reaches (loopStep S) s₀ s)
    (hdigest : ∀ p ∈ ps, p.md5 = S.md5.hash (client.wordBytes p.words)) (hle : frames s c ≤ ps.length)
    (hcarries : Carries (S.stream c) (s.consumed c) (ps.flatMap (wireFrame client) ++ rest)) :
    receivedFrom c s.pushed = (ps.take (frames s c)).map (expectedOf S.md5 client S.host) := by
  have hinv := (loopInv hinit hrun).frames
  have hjudged := judged_of_reaches hinit hrun
  have hfull := hinv.full c
  set es := s.pushed.filter fun e => e.connection = some c with hes
  have hpackets : es.map Pushed.packet =
      (List.range (frames s c)).map fun k => decodeFrame S.host (frame (S.stream c) k) := hinv.decoded c
  have hlen : es.length = frames s c := by
    rw [← List.length_map (f := Pushed.packet), hpackets, List.length_map, List.length_range]
  show es.map Pushed.received = _
  apply List.ext_getElem
  · rw [List.length_map, hlen, List.length_map, List.length_take, Nat.min_eq_left hle]
  · intro i hi hi'
    rw [List.length_map, hlen] at hi
    have hie : i < es.length := hlen.symm ▸ hi
    have hpacket : es[i].packet = decodeFrame S.host (wireFrame client ps[i]) := by
      rw [← hcarries.frame (by omega) (by omega)]
      have hie' : i < (es.map Pushed.packet).length := by rwa [List.length_map]
      have hget : (es.map Pushed.packet)[i] = decodeFrame S.host (frame (S.stream c) i) := by
        simp only [hpackets, List.getElem_map, List.getElem_range]
      rwa [List.getElem_map] at hget
    have hsent := hdigest ps[i] (List.getElem_mem (by omega))
    obtain ⟨hn, ht, hd, hm⟩ := decodeFrame_wireFrame S.md5 S.host hsent
    have hvalid : es[i].Judged S := hjudged _ (List.mem_of_mem_filter (List.getElem_mem hie))
    unfold Pushed.Judged at hvalid
    rw [hpacket, hm] at hvalid
    rw [List.getElem_map, List.getElem_map, List.getElem_take]
    unfold Pushed.received expectedOf
    rw [hpacket, hn, ht, hd, Bool.eq_iff_iff.mpr (hvalid.trans decide_eq_true_iff.symm)]

/-- **What is received from a connection.**  It is what the sender has sent, up to some packet, and up to its last
one when all bytes have been delivered and handled. -/
theorem delivered_prefix (hinit : LoopInitial S s₀) (hrun : Reaches (loopStep S) s₀ s)
    (hdigest : ∀ p ∈ ps, p.md5 = S.md5.hash (client.wordBytes p.words)) (hrest : rest.length < networkPacketTotalSize)
    (hcarries : Carries (S.stream c) (s.consumed c) (ps.flatMap (wireFrame client) ++ rest)) :
    receivedFrom c s.pushed <+: ps.map (expectedOf S.md5 client S.host) ∧
      (s.pc = .select → s.consumed c = (ps.flatMap (wireFrame client) ++ rest).length →
        receivedFrom c s.pushed = ps.map (expectedOf S.md5 client S.host)) := by
  have hinv := (loopInv hinit hrun).frames
  have hfull := hinv.full c
  have hlen : (ps.flatMap (wireFrame client) ++ rest).length = 1426 * ps.length + rest.length := by
    rw [List.length_append, frames_length]
  have hcount := hcarries.le
  rw [hlen] at hcount ⊢
  have hrest : rest.length < 1426 := hrest
  have hle : frames s c ≤ ps.length := by omega
  rw [receivedFrom_eq hinit hrun hdigest hle hcarries]
  constructor
  · rw [List.map_take]
    exact List.take_prefix _ _
  · intro hpc hall
    have hlt := hinv.lt_of_not_pushing (c := c) fun i hi => (nomatch hpc.symm.trans hi)
    rw [List.take_of_length_le (by omega)]

theorem Written.delivered {C : ClientSetting} {ds : List Samples} {sc : Client} (hmd5 : S.md5 = mbedtlsMd5)
    (hinit : LoopInitial S s₀) (hrun : Reaches (loopStep S) s₀ s) (h : Written C ds rest sc)
    (hrest : rest.length < networkPacketTotalSize) (hcarries : Carries (S.stream c) (s.consumed c) sc.wire) :
    receivedFrom c s.pushed <+: (clientPackets C ds).map (expectedOf mbedtlsMd5 C.host S.host) ∧
      (s.pc = .select → s.consumed c = sc.wire.length →
        receivedFrom c s.pushed = (clientPackets C ds).map (expectedOf mbedtlsMd5 C.host S.host)) := by
  have hdigest : ∀ p ∈ clientPackets C ds, p.md5 = S.md5.hash (C.host.wordBytes p.words) := by
    intro p hp
    obtain ⟨k, hk, rfl⟩ := List.mem_mapIdx.mp hp
    rw [hmd5]
    rfl
  rw [h.wire] at hcarries ⊢
  rw [← hmd5]
  exact delivered_prefix hinit hrun hdigest hrest hcarries

end connection

/-- What the client has written when it returns: the frames of `n` packets, and less than one more. -/
structure WrittenUpTo (C : ClientSetting) (v : List Int16) (status : ℤ) (n : ℕ) (s : Client) : Prop where
  le : n ≤ batchLoops * batchSize
  status : status = 0 ↔ n = batchLoops * batchSize
  written : ∃ rest, rest.length < networkPacketTotalSize ∧ Written C (firstSamples v n) rest s

theorem ClientInitial.writes {C : ClientSetting} {v : List Int16} {s₀ : Client} (hinit : ClientInitial C s₀)
    (hintact : Intact C) (htext : CsvText v C.csv.content) (hv : ∀ w ∈ v, -10000 < w.toInt)
    (hkernel : ∀ k, C.written k ≤ networkPacketTotalSize) :
    ∃ status s n, WhileLoop.Returns (fun fuel => clientMain C fuel s₀) (status, s) ∧ WrittenUpTo C v status n s := by
  obtain ⟨t, hreturns, ⟨ds, s, rfl, hlen, hs⟩ | hfails⟩ :=
    client_returns hintact (reads_printed htext hv) hinit (cyclic_start htext)
  · refine ⟨0, s, ds.length, hreturns, Nat.le_of_eq hlen, by simp [hlen], [], by decide, ?_⟩
    rw [← hs.file.samples]
    exact hs.toWritten
  · obtain ⟨n, s, rfl, hn, hresult, hwritten⟩ := hfails.stopped
    refine ⟨1, s, n, hreturns, Nat.le_of_lt hn, ?_, _, ?_, hwritten⟩
    · exact ⟨fun h => absurd h (by decide), fun h => absurd h (Nat.ne_of_lt hn)⟩
    · rw [List.length_take, wireFrame_length]
      have hle : C.written n ≤ 1426 := hkernel n
      have hresult : C.written n ≠ 1426 := hresult
      show min _ 1426 < 1426
      omega

/-- What a server gets to the circular buffer of the bytes that a client has written. -/
def ClientDelivered (C : ClientSetting) (v : List Int16) (n : ℕ) (wire : List UInt8) : Prop :=
  ∀ (S : Setting) (s₀ s : Loop) (c : ℕ), S.md5 = mbedtlsMd5 → LoopInitial S s₀ → Reaches (loopStep S) s₀ s →
    Carries (S.stream c) (s.consumed c) wire →
      receivedFrom c s.pushed <+: (clientPackets C (firstSamples v n)).map (expectedOf mbedtlsMd5 C.host S.host) ∧
        (s.pc = .select → s.consumed c = wire.length →
          receivedFrom c s.pushed = (clientPackets C (firstSamples v n)).map (expectedOf mbedtlsMd5 C.host S.host))

/-- **From the client's file to the server's buffer.**  The client returns after the packets `1, …, n`, all 200
exactly when it returns 0.  In every run of every server that gets its bytes on some connection, the
packets pushed from this connection are the first of these, with the numbers, times and samples that were
sent, and between two passes all of them when all bytes have been delivered. -/
theorem client_to_server {C : ClientSetting} {v : List Int16} {s₀ : Client} (hintact : Intact C)
    (htext : CsvText v C.csv.content) (hv : ∀ w ∈ v, -10000 < w.toInt)
    (hkernel : ∀ k, C.written k ≤ networkPacketTotalSize) (hinit : ClientInitial C s₀) :
    ∃ status s n, WhileLoop.Returns (fun fuel => clientMain C fuel s₀) (status, s) ∧ n ≤ batchLoops * batchSize ∧
      (status = 0 ↔ n = batchLoops * batchSize) ∧ ClientDelivered C v n s.wire := by
  obtain ⟨status, s, n, hreturns, hle, hstatus, rest, hrest, hwritten⟩ := hinit.writes hintact htext hv hkernel
  refine ⟨status, s, n, hreturns, hle, hstatus, fun S l₀ l c hmd5 hinitS hrun hcarries => ?_⟩
  exact hwritten.delivered hmd5 hinitS hrun hrest hcarries

/-- A client whose third `write` fails. -/
def stoppedClient : ClientSetting := { twoNumbers with written := fun k => if k = 2 then -1 else 1426 }

theorem stoppedClient_initial : ClientInitial stoppedClient startedClient :=
  ⟨⟨by decide, by decide, by decide⟩, rfl, rfl, rfl⟩

theorem stoppedClient_intact : Intact stoppedClient := ⟨by decide, Or.inr (by decide)⟩

theorem stoppedClient_written (k : ℕ) : stoppedClient.written k ≤ networkPacketTotalSize := by
  show (if k = 2 then -1 else 1426) ≤ (1426 : ℤ)
  split_ifs <;> decide

/-- What it has written: two frames. -/
def stoppedWire : List UInt8 :=
  (clientPackets stoppedClient (firstSamples [7, -42] 2)).flatMap (wireFrame .little)

theorem stoppedWire_length : stoppedWire.length = 2852 := by
  rw [stoppedWire, frames_length, clientPackets_length, firstSamples_length]

theorem stoppedClient_sends : ∃ s, WhileLoop.Returns (fun fuel => clientMain stoppedClient fuel startedClient) (1, s) ∧
    Written stoppedClient (firstSamples [7, -42] 2) [] s ∧ s.wire = stoppedWire := by
  obtain ⟨t, hreturns, ⟨ds, s, rfl, hlen, hs⟩ | hfails⟩ := client_returns stoppedClient_intact
    (reads_printed twoNumbers_text (by simp)) stoppedClient_initial (cyclic_start twoNumbers_text)
  · exact absurd (hs.written 2 (by rw [hlen]; decide)) (by decide)
  · obtain ⟨n, s, rfl, -, hresult, hwritten⟩ := hfails.stopped
    obtain rfl : n = 2 := by
      by_contra hne
      exact hresult (if_neg hne)
    have hnothing : (stoppedClient.written 2).toNat = 0 := rfl
    rw [hnothing, List.take_zero] at hwritten
    exact ⟨s, hreturns, hwritten, hwritten.wire.trans (List.append_nil _)⟩

/-- A server with the hash of the library, whose connections carry these bytes. -/
def md5Setting : Setting := { sampleSetting with md5 := mbedtlsMd5, stream := fun _ x => stoppedWire.getD x 0 }

theorem stoppedWire_carried {count : ℕ} (h : count = 2852) : Carries (md5Setting.stream 0) count stoppedWire :=
  ⟨Nat.le_of_eq (h.trans stoppedWire_length.symm), fun _ _ => rfl⟩

/-- The client connects, and sends one frame in two pieces and one in one piece. -/
def connectAndSend : List LoopAction :=
  acceptPass 4 ++ scanToFour {4} ++ [.read 1000, .read 426, .push 5000, .scan] ++ scanToFour {4} ++
    [.read 1426, .push 7000, .scan]

/-- Both packets arrive. -/
theorem client_to_server_two_packets : ∃ s l,
    WhileLoop.Returns (fun fuel => clientMain stoppedClient fuel startedClient) (1, s) ∧
      runActions (loopStep md5Setting) sampleLoop connectAndSend = some l ∧ l.pushed.length = 2 ∧
      receivedFrom 0 l.pushed =
        (clientPackets stoppedClient (firstSamples [7, -42] 2)).map (expectedOf mbedtlsMd5 .little .little) := by
  obtain ⟨status, s, n, hreturns, -, -, hdelivered⟩ := client_to_server stoppedClient_intact twoNumbers_text (by simp)
    stoppedClient_written stoppedClient_initial
  obtain ⟨s', hreturns', -, hwire⟩ := stoppedClient_sends
  obtain ⟨rfl, rfl⟩ := Prod.mk.inj (hreturns.unique hreturns')
  obtain ⟨l, hl, hpc, hconsumed, hpushed, hconnections⟩ : ∃ l,
      runActions (loopStep md5Setting) sampleLoop connectAndSend = some l ∧ l.pc = .select ∧ l.consumed 0 = 2852 ∧
      l.pushed.length = 2 ∧ (receivedFrom 0 l.pushed).length = 2 :=
    ⟨_, rfl, rfl, rfl, rfl, rfl⟩
  have hall : l.consumed 0 = s.wire.length := by rw [hwire, stoppedWire_length, hconsumed]
  have hcarries : Carries (md5Setting.stream 0) (l.consumed 0) s.wire := hwire ▸ stoppedWire_carried hconsumed
  have hinit : LoopInitial md5Setting sampleLoop := ⟨rfl, rfl, rfl, fun _ => rfl, rfl, fun _ => rfl, rfl, rfl⟩
  have hreceived := (hdelivered md5Setting sampleLoop l 0 rfl hinit (run_of_runActions _ hl) hcarries).2 hpc hall
  have hn := congrArg List.length hreceived
  rw [hconnections, List.length_map, clientPackets_length, firstSamples_length] at hn
  subst hn
  exact ⟨s, l, hreturns', hl, hpushed, hreceived⟩

end OhMySockets
