import OhMySockets.SelectLoop

/-! # The frames of a connection

All connections share one frame buffer, which is never cleared, and their descriptors are used
again.  The invariant of the select loop (`LoopInv`) has three parts:

* `Numbered`: an open descriptor stands for one connection, and no connection has two;
* `FrameInv`: `n` packets have been pushed from the first `1426 * n` bytes of a connection, and the
  bytes delivered after these are at the start of the buffer while it is being read;
* `Retired`: a connection whose read has failed has no descriptor any more.

`pushed_are_frames` is what follows for all runs. -/

namespace OhMySockets

open ByteMemory Transition

/-- Block number `k` of a byte stream. -/
def frame (stream : ℕ → UInt8) (k : ℕ) : List UInt8 :=
  bytesAt stream (networkPacketTotalSize * k) networkPacketTotalSize

/-- What `network_decode_packet` makes of a block. -/
def decodeFrame (host : ByteOrder) (bytes : List UInt8) : Packet :=
  decodedPacket host 0 networkPacketTotalSize (delivered bytes)

/-- The packets pushed from a connection, in order. -/
def packetsFrom (c : ℕ) (pushed : List Pushed) : List Packet :=
  (pushed.filter fun e => e.connection = some c).map Pushed.packet

theorem packetsFrom_concat (c : ℕ) (pushed : List Pushed) (e : Pushed) :
    packetsFrom c (pushed ++ [e]) =
      packetsFrom c pushed ++ if e.connection = some c then [e.packet] else [] := by
  unfold packetsFrom
  rw [List.filter_append, List.map_append]
  by_cases h : e.connection = some c <;> simp [h]

theorem packetAt_eq_decodeFrame (S : Setting) (mem : Mem) {networkPacket : ℕ}
    (h : Apart networkPacket sizeofPacket S.buffer networkPacketTotalSize) :
    packetAt S.host (exec (serverReceive S.md5 S.host S.buffer networkPacket) ⟨mem, [], []⟩).mem networkPacket =
      decodeFrame S.host (bytesAt mem S.buffer networkPacketTotalSize) := by
  apply wireFrame_inj S.host
  rw [packetAt_serverReceive, wireFrame_decodedPacket _ h, decodeFrame, wireFrame_decodedPacket _ (by decide),
    bytesAt_delivered (bytesAt_length ..)]

/-- The number of bytes at the start of the buffer that belong to the descriptor `fd`. -/
def LoopPc.got : LoopPc → ℕ → ℕ
  | .read i total, fd => if fd = i then total.toNat else 0
  | .push i, fd => if fd = i then 1426 else 0
  | _, _ => 0

/-- The number of packets pushed from a connection. -/
def frames (s : Loop) (c : ℕ) : ℕ := (packetsFrom c s.pushed).length

/-- After its full blocks `t` more bytes of the connection have been delivered; they are at the start
of the buffer. -/
structure Partial (S : Setting) (s : Loop) (c t : ℕ) : Prop where
  consumed : s.consumed c = 1426 * frames s c + t
  buffer : bytesAt s.mem S.buffer t = bytesAt (S.stream c) (1426 * frames s c) t

/-- `main` has a full frame of the connection in the buffer. -/
def Loop.Pushing (s : Loop) (c : ℕ) : Prop := ∃ i, s.pc = .push i ∧ s.connection i = some c

/-- The descriptors of the connections: a number stands for one connection only. -/
structure Numbered (s : Loop) : Prop where
  lt_accepted : ∀ fd c, s.connection fd = some c → c < s.accepted
  distinct : ∀ fd fd' c, s.connection fd = some c → s.connection fd' = some c → fd = fd'

/-- **The invariant of the bytes.** -/
structure FrameInv (S : Setting) (s : Loop) : Prop where
  fresh : ∀ c, s.accepted ≤ c → s.consumed c = 0 ∧ frames s c = 0
  decoded : ∀ c, packetsFrom c s.pushed =
    (List.range (frames s c)).map fun k => decodeFrame S.host (frame (S.stream c) k)
  started : ∀ fd c, s.connection fd = some c → Partial S s c (s.pc.got fd)
  full : ∀ c, 1426 * frames s c ≤ s.consumed c
  rest : ∀ c, s.consumed c < 1426 * frames s c + 1426 ∨ s.Pushing c
  total : ∀ i t, s.pc = .read i t → t.toNat < 1426

/-- A failed read retires its connection. -/
structure Retired (s : Loop) : Prop where
  closed : ∀ e ∈ s.reads, e.result ≤ 0 → ∀ c, e.connection = some c →
    c < s.accepted ∧ ∀ fd, s.connection fd ≠ some c
  last : ∀ c pre e post, s.reads = pre ++ e :: post → e.connection = some c → e.result ≤ 0 →
    ∀ e' ∈ post, e'.connection ≠ some c

variable {S : Setting} {s s' : Loop}

/-! ### The bytes of a frame -/

/-- Only a connection whose frame `main` is about to push has a whole frame in the buffer. -/
theorem FrameInv.lt_of_not_pushing (h : FrameInv S s) {c : ℕ}
    (hpush : ∀ i, s.pc = .push i → s.connection i ≠ some c) : s.consumed c < 1426 * frames s c + 1426 := by
  apply (h.rest c).resolve_right
  rintro ⟨i, hi, hc⟩
  exact hpush i hi hc

theorem FrameInv.consumed_of_got (h : FrameInv S s) {fd c : ℕ} (hc : s.connection fd = some c)
    (hgot : s.pc.got fd = 0) : s.consumed c = 1426 * frames s c + 0 := by
  have hconsumed := (h.started fd c hc).consumed
  rwa [hgot] at hconsumed

theorem FrameInv.frame_of_pushing (h : FrameInv S s) {i c : ℕ} (hpc : s.pc = .push i)
    (hc : s.connection i = some c) : s.consumed c = 1426 * frames s c + 1426 ∧
      bytesAt s.mem S.buffer 1426 = frame (S.stream c) (frames s c) := by
  obtain ⟨hconsumed, hbuffer⟩ := h.started i c hc
  rw [hpc, LoopPc.got, if_pos rfl] at hconsumed hbuffer
  exact ⟨hconsumed, hbuffer⟩

theorem FrameInv.lt_of_pushing (h : FrameInv S s) {i c : ℕ} (hpc : s.pc = .push i)
    (hc : s.connection i ≠ some c) : s.consumed c < 1426 * frames s c + 1426 := by
  apply h.lt_of_not_pushing
  intro j hj
  obtain rfl : i = j := LoopPc.push.inj (hpc.symm.trans hj)
  exact hc

theorem frames_concat {e : Pushed} (h : s'.pushed = s.pushed ++ [e]) (c : ℕ) :
    frames s' c = frames s c + if e.connection = some c then 1 else 0 := by
  rw [frames, frames, h, packetsFrom_concat, List.length_append]
  split_ifs <;> rfl

theorem Partial.append {c t : ℕ} (h : Partial S s c t) (k : ℕ) :
    bytesAt (writeBytes s.mem (S.buffer + t) (bytesAt (S.stream c) (s.consumed c) k)) S.buffer (t + k) =
      bytesAt (S.stream c) (1426 * frames s c) (t + k) := by
  rw [bytesAt_add, bytesAt_add, bytesAt_writeBytes_self _ _ _ (bytesAt_length ..), h.consumed,
    bytesAt_writeBytes_of_disjoint _ (Or.inl (Nat.le_refl _)), h.buffer]

/-! ### Connections -/

/-- No descriptor stands for a connection that has not been accepted. -/
theorem Numbered.connection_ne (h : Numbered s) {c : ℕ} (hc : s.accepted ≤ c) (fd : ℕ) :
    s.connection fd ≠ some c := by
  intro hfd
  have hlt := h.lt_accepted fd c hfd
  omega

theorem Numbered.accept (h : Numbered s) (fd : ℕ)
    (hconnection : s'.connection = Function.update s.connection fd (some s.accepted))
    (haccepted : s'.accepted = s.accepted + 1) : Numbered s' := by
  have hlt := h.lt_accepted
  constructor
  · intro x c hx
    rw [hconnection, Function.update_apply] at hx
    split_ifs at hx with hfd
    · cases hx
      omega
    · have := hlt x c hx
      omega
  · intro x y c hx hy
    rw [hconnection, Function.update_apply] at hx hy
    split_ifs at hx hy with h1 h2 h2
    · rw [h1, h2]
    · cases hx
      exact absurd (hlt y _ hy) (Nat.lt_irrefl _)
    · cases hy
      exact absurd (hlt x _ hx) (Nat.lt_irrefl _)
    · exact h.distinct x y c hx hy

theorem Numbered.close (h : Numbered s) (fd : ℕ)
    (hconnection : s'.connection = Function.update s.connection fd none)
    (haccepted : s'.accepted = s.accepted) : Numbered s' := by
  have hold : ∀ x c, s'.connection x = some c → s.connection x = some c := fun x c hx => by
    rw [hconnection, Function.update_apply] at hx
    split_ifs at hx
    exact hx
  exact ⟨fun x c hx => haccepted ▸ h.lt_accepted x c (hold x c hx),
    fun x y c hx hy => h.distinct x y c (hold x c hx) (hold y c hy)⟩

theorem Numbered.of_eq (h : Numbered s) (hconnection : s'.connection = s.connection)
    (haccepted : s.accepted ≤ s'.accepted) : Numbered s' := by
  constructor
  · intro x c hx
    exact Nat.lt_of_lt_of_le (h.lt_accepted x c (hconnection ▸ hx)) haccepted
  · rw [hconnection]
    exact h.distinct

/-! ### Failed reads -/

theorem Retired.of_eq (h : Retired s) (hreads : s'.reads = s.reads) (haccepted : s.accepted ≤ s'.accepted)
    (hconnection : ∀ fd c, s'.connection fd = some c → c < s.accepted → s.connection fd = some c) :
    Retired s' := by
  refine ⟨fun e he hr c hc => ?_, by rw [hreads]; exact h.last⟩
  obtain ⟨hlt, hnone⟩ := h.closed e (hreads ▸ he) hr c hc
  exact ⟨Nat.lt_of_lt_of_le hlt haccepted, fun fd hfd => hnone fd (hconnection fd c hfd hlt)⟩

theorem Retired.last_concat (h : Retired s) {e : ReadEvent} {fd : ℕ}
    (he : e.connection = s.connection fd) (c : ℕ) (pre : List ReadEvent) (e₀ : ReadEvent)
    (post : List ReadEvent) (hreads : s.reads ++ [e] = pre ++ e₀ :: post) (hc : e₀.connection = some c)
    (hr : e₀.result ≤ 0) : ∀ e' ∈ post, e'.connection ≠ some c := by
  rcases List.eq_nil_or_concat' post with rfl | ⟨post, e₁, rfl⟩
  · intro e' he'
    cases he'
  · rw [← List.cons_append, ← List.append_assoc] at hreads
    obtain ⟨hold, hlast⟩ := List.append_inj' hreads rfl
    cases hlast
    intro e' he'
    rcases List.mem_append.mp he' with he' | he'
    · exact h.last c pre e₀ post hold hc hr e' he'
    · obtain rfl := List.mem_singleton.mp he'
      rw [he]
      exact (h.closed e₀ (by rw [hold]; simp) hr c hc).2 fd

/-! ### One step -/

/-- **The invariant of the select loop.** -/
structure LoopInv (S : Setting) (s : Loop) : Prop where
  numbered : Numbered s
  frames : FrameInv S s
  retired : Retired s

namespace LoopInv

theorem quiet (h : LoopInv S s) (hconnection : s'.connection = s.connection)
    (haccepted : s.accepted ≤ s'.accepted) (hconsumed : s'.consumed = s.consumed)
    (hreads : s'.reads = s.reads) (hpushed : s'.pushed = s.pushed) (hbefore : ∀ fd, s.pc.got fd = 0)
    (hafter : ∀ fd, s'.pc.got fd = 0) (htotal : ∀ i t, s'.pc = .read i t → t = 0) : LoopInv S s' := by
  obtain ⟨hnumbered, ⟨hfresh, hdecoded, hstarted, hfull, hrest, -⟩, hretired⟩ := h
  have hframes : OhMySockets.frames s' = OhMySockets.frames s := funext fun c => by
    rw [OhMySockets.frames, OhMySockets.frames, hpushed]
  refine ⟨hnumbered.of_eq hconnection haccepted, ⟨?_, ?_, ?_, ?_, ?_, ?_⟩,
    hretired.of_eq hreads haccepted fun fd c hfd _ => hconnection ▸ hfd⟩
  · intro c hc
    rw [hconsumed, hframes]
    exact hfresh c (Nat.le_trans haccepted hc)
  · rw [hpushed, hframes]
    exact hdecoded
  · intro fd c hfd
    obtain ⟨hc, -⟩ := hstarted fd c (hconnection ▸ hfd)
    rw [hbefore] at hc
    rw [hafter]
    exact ⟨by rw [hconsumed, hframes, hc], rfl⟩
  · rw [hconsumed, hframes]
    exact hfull
  · intro c
    rw [hconsumed, hframes]
    apply (hrest c).imp_right
    rintro ⟨i, hi, -⟩
    have hgot := hbefore i
    rw [hi] at hgot
    simp [LoopPc.got] at hgot
  · intro i t hpc
    rw [htotal i t hpc]
    decide

/-- A positive result leaves `main` in the frame: reading on, or about to push it. -/
theorem afterRead_pos (s : Loop) (i : ℕ) {k : ℕ} {t : UInt32} (hk : 1 ≤ k) (hfits : t.toNat + k ≤ 1426) :
    ∃ pc, afterRead s i (readStatus frameSize t k) = { s with pc } ∧
      (∀ fd, pc.got fd = if fd = i then t.toNat + k else 0) ∧
      (∀ j t', pc = .read j t' → t'.toNat < 1426) ∧ (t.toNat + k < 1426 ∨ pc = .push i) := by
  have hsize : t.toNat + k ≤ frameSize.toNat := hfits
  obtain ⟨t', ht', hstatus⟩ := readStatus_of_pos hk hsize
  rw [hstatus]
  split_ifs with hfull
  · refine ⟨.push i, rfl, fun fd => ?_, fun j u hj => (nomatch hj), Or.inr rfl⟩
    rw [hfull]
    rfl
  · have hlt : t.toNat + k < 1426 := Nat.lt_of_le_of_ne hfits hfull
    refine ⟨.read i t', rfl, fun fd => ?_, fun j u hj => ?_, Or.inl hlt⟩
    · rw [← ht']
      rfl
    · cases hj
      rw [ht']
      exact hlt

theorem accept (h : LoopInv S s) {i fd : ℕ} (hpc : s.pc = .accept i) {s' : Loop}
    (hs' : s' = { s with
      maxfd := s'.maxfd
      activeFdSet := s'.activeFdSet
      connection := Function.update s.connection fd (some s.accepted)
      accepted := s.accepted + 1
      pc := .scan (i + 1) }) : LoopInv S s' := by
  obtain ⟨hnumbered, hinv, hretired⟩ := h
  have hfresh := hinv.fresh
  rw [hs']
  refine ⟨hnumbered.accept fd rfl rfl, ⟨fun c hc => hfresh c (Nat.le_of_succ_le hc), hinv.decoded, ?_,
    hinv.full, ?_, ?_⟩, hretired.of_eq rfl (Nat.le_succ _) ?_⟩
  · intro x c hx
    simp only [Function.update_apply] at hx
    split_ifs at hx with hfd
    · -- the new connection has delivered nothing
      cases hx
      obtain ⟨hconsumed, hframes⟩ := hfresh s.accepted (Nat.le_refl _)
      refine ⟨?_, rfl⟩
      show s.consumed s.accepted = 1426 * OhMySockets.frames s s.accepted + 0
      rw [hconsumed, hframes]
    · exact ⟨hinv.consumed_of_got hx (by rw [hpc]; rfl), rfl⟩
  · exact fun c => Or.inl (hinv.lt_of_not_pushing fun j hj => (nomatch hpc.symm.trans hj))
  · intro j t hj
    cases hj
  · intro x c hx hlt
    simp only [Function.update_apply] at hx
    split_ifs at hx
    · cases hx
      exact absurd hlt (Nat.lt_irrefl _)
    · exact hx

theorem read (h : LoopInv S s) {i c k : ℕ} {t : UInt32} (hpc : s.pc = .read i t)
    (hc : s.connection i = some c) (hk : 1 ≤ k) (hchunk : k ≤ (chunkSize frameSize t).toNat) :
    LoopInv S (afterRead { s with
      mem := writeBytes s.mem (S.buffer + t.toNat) (bytesAt (S.stream c) (s.consumed c) k)
      consumed := Function.update s.consumed c (s.consumed c + k)
      reads := s.reads ++ [⟨i, some c, k⟩] } i (readStatus frameSize t k)) := by
  obtain ⟨hnumbered, hinv, hretired⟩ := h
  have hfull := hinv.full
  have hfits : t.toNat + k ≤ 1426 :=
    Nat.le_trans (Nat.add_le_add_left hchunk _) (chunkSize_bounds (hinv.total i t hpc)).2.2
  have hpartial := hinv.started i c hc
  rw [hpc, LoopPc.got, if_pos rfl] at hpartial
  have hconsumed := hpartial.consumed
  obtain ⟨pc, hafter, hgot, hread, hpush⟩ := afterRead_pos { s with
    mem := writeBytes s.mem (S.buffer + t.toNat) (bytesAt (S.stream c) (s.consumed c) k)
    consumed := Function.update s.consumed c (s.consumed c + k)
    reads := s.reads ++ [⟨i, some c, k⟩] } i hk hfits
  rw [hafter]
  refine ⟨hnumbered.of_eq rfl (Nat.le_refl _), ⟨?_, hinv.decoded, ?_, ?_, ?_, hread⟩, ?_⟩
  · intro x (hx : s.accepted ≤ x)
    have hne : x ≠ c := fun he => hnumbered.connection_ne hx i (he ▸ hc)
    simp only [Function.update_of_ne hne]
    exact hinv.fresh x hx
  · intro fd x hx
    rw [hgot]
    split_ifs with hfd
    · -- the connection that is read
      obtain rfl : c = x := Option.some.inj (hc.symm.trans (hfd ▸ hx))
      refine ⟨?_, hpartial.append k⟩
      show Function.update s.consumed c (s.consumed c + k) c = 1426 * OhMySockets.frames s c + (t.toNat + k)
      rw [Function.update_self, hconsumed, Nat.add_assoc]
    · have hne : x ≠ c := fun he => hfd (hnumbered.distinct fd i c (he ▸ hx) hc)
      refine ⟨?_, rfl⟩
      show Function.update s.consumed c (s.consumed c + k) x = 1426 * OhMySockets.frames s x + 0
      rw [Function.update_of_ne hne]
      exact hinv.consumed_of_got hx (by rw [hpc]; exact if_neg hfd)
  · intro x
    show 1426 * OhMySockets.frames s x ≤ Function.update s.consumed c (s.consumed c + k) x
    rw [Function.update_apply]
    split_ifs with hx
    · subst hx
      exact Nat.le_trans (hfull x) (Nat.le_add_right _ _)
    · exact hfull x
  · intro x
    by_cases hx : x = c
    · rcases hpush with hlt | hpush
      · left
        show Function.update s.consumed c (s.consumed c + k) x < 1426 * OhMySockets.frames s x + 1426
        rw [hx, Function.update_self]
        omega
      · exact Or.inr ⟨i, hpush, hx ▸ hc⟩
    · left
      show Function.update s.consumed c (s.consumed c + k) x < 1426 * OhMySockets.frames s x + 1426
      rw [Function.update_of_ne hx]
      exact hinv.lt_of_not_pushing fun j hj => (nomatch hpc.symm.trans hj)
  · refine ⟨fun e he hr x hx => ?_, hretired.last_concat hc.symm⟩
    rcases List.mem_append.mp he with he | he
    · exact hretired.closed e he hr x hx
    · obtain rfl := List.mem_singleton.mp he
      exfalso
      simp only at hr
      omega

theorem fail (h : LoopInv S s) {i : ℕ} {t : UInt32} {r : ℤ} (hpc : s.pc = .read i t) :
    LoopInv S { s with
      reads := s.reads ++ [⟨i, s.connection i, r⟩]
      connection := Function.update s.connection i none
      activeFdSet := s.activeFdSet.erase i
      pc := .scan (i + 1) } := by
  obtain ⟨hnumbered, hinv, hretired⟩ := h
  have hclosed : ∀ fd c, Function.update s.connection i none fd = some c → fd ≠ i ∧ s.connection fd = some c := by
    intro fd c hfd
    rw [Function.update_apply] at hfd
    split_ifs at hfd with h
    exact ⟨h, hfd⟩
  refine ⟨hnumbered.close i rfl rfl,
    ⟨hinv.fresh, hinv.decoded, ?_, hinv.full, ?_, fun j u hj => (nomatch hj)⟩, ?_, ?_⟩
  · intro fd c hfd
    obtain ⟨hne, hc⟩ := hclosed fd c hfd
    exact ⟨hinv.consumed_of_got hc (by rw [hpc]; exact if_neg hne), rfl⟩
  · exact fun c => Or.inl (hinv.lt_of_not_pushing fun j hj => (nomatch hpc.symm.trans hj))
  · intro e he hr c hc
    rcases List.mem_append.mp he with he | he
    · obtain ⟨hlt, hnone⟩ := hretired.closed e he hr c hc
      exact ⟨hlt, fun fd hfd => hnone fd (hclosed fd c hfd).2⟩
    · -- the connection that fails is the one that is closed
      obtain rfl := List.mem_singleton.mp he
      refine ⟨hnumbered.lt_accepted i c hc, fun fd hfd => ?_⟩
      obtain ⟨hne, hfd⟩ := hclosed fd c hfd
      exact hne (hnumbered.distinct fd i c hfd hc)
  · exact hretired.last_concat rfl

theorem push (h : LoopInv S s) {i networkPacket : ℕ} (hpc : s.pc = .push i)
    (hapart : Apart networkPacket sizeofPacket S.buffer networkPacketTotalSize) {mem : Mem} {isValid : Bool}
    (hmem : mem = (exec (serverReceive S.md5 S.host S.buffer networkPacket) ⟨s.mem, [], []⟩).mem) :
    LoopInv S { s with
      mem
      pushed := s.pushed ++ [⟨s.connection i, packetAt S.host mem networkPacket, isValid⟩]
      pc := .scan (i + 1) } := by
  obtain ⟨hnumbered, hinv, hretired⟩ := h
  have hpacket : packetAt S.host mem networkPacket = decodeFrame S.host (bytesAt s.mem S.buffer 1426) := by
    rw [hmem]
    exact packetAt_eq_decodeFrame S s.mem hapart
  have hframes : ∀ c, OhMySockets.frames { s with
      mem
      pushed := s.pushed ++ [⟨s.connection i, packetAt S.host mem networkPacket, isValid⟩]
      pc := .scan (i + 1) } c = OhMySockets.frames s c + if s.connection i = some c then 1 else 0 :=
    fun c => frames_concat (e := ⟨s.connection i, packetAt S.host mem networkPacket, isValid⟩) rfl c
  refine ⟨hnumbered.of_eq rfl (Nat.le_refl _), ⟨?_, ?_, ?_, ?_, ?_, fun j u hj => (nomatch hj)⟩,
    hretired.of_eq rfl (Nat.le_refl _) fun fd c hfd _ => hfd⟩
  · intro c (hc : s.accepted ≤ c)
    rw [hframes, if_neg (hnumbered.connection_ne hc i)]
    exact hinv.fresh c hc
  · intro c
    rw [hframes]
    show packetsFrom c (s.pushed ++ [_]) = _
    rw [packetsFrom_concat, hinv.decoded c]
    split_ifs with hc
    · rw [List.range_succ, List.map_append, hpacket, (hinv.frame_of_pushing hpc hc).2]
      rfl
    · rw [List.append_nil, Nat.add_zero]
  · intro fd c hc
    have hnone : LoopPc.got (.scan (i + 1)) fd = 0 := rfl
    refine ⟨?_, rfl⟩
    rw [hframes, hnone]
    show s.consumed c = _
    split_ifs with hi
    · rw [(hinv.frame_of_pushing hpc hi).1]
      omega
    · have hne : fd ≠ i := fun he => hi (he ▸ hc)
      exact hinv.consumed_of_got hc (by rw [hpc]; exact if_neg hne)
  · intro c
    rw [hframes]
    show _ ≤ s.consumed c
    split_ifs with hi
    · rw [(hinv.frame_of_pushing hpc hi).1]
      omega
    · exact hinv.full c
  · intro c
    left
    rw [hframes]
    show s.consumed c < _
    split_ifs with hi
    · rw [(hinv.frame_of_pushing hpc hi).1]
      omega
    · exact hinv.lt_of_pushing hpc hi

/-- **Every step keeps the invariant.** -/
theorem step (h : LoopInv S s) {a : LoopAction} (hstep : loopStep S s a = some s') : LoopInv S s' := by
  cases loopStep_move hstep with
  | select hpc | selectFails hpc | acceptFails hpc | listening hpc | notReady hpc | passEnds hpc =>
      exact h.quiet rfl (Nat.le_refl _) rfl rfl rfl (fun fd => by rw [hpc]; rfl) (fun fd => rfl)
        fun i t hi => (nomatch hi)
  | @reading i hpc _ _ _ =>
      refine h.quiet rfl (Nat.le_refl _) rfl rfl rfl (fun fd => by rw [hpc]; rfl) (fun fd => ?_)
        fun j t hj => ?_
      · show (if fd = i then (0 : UInt32).toNat else 0) = 0
        split_ifs <;> rfl
      · cases hj
        rfl
  | tooLarge hpc _ =>
      exact h.quiet rfl (Nat.le_succ _) rfl rfl rfl (fun fd => by rw [hpc]; rfl) (fun fd => rfl)
        fun i t hi => (nomatch hi)
  | accepted hpc _ _ _ => exact h.accept hpc rfl
  | delivered hpc hc hcount hchunk => exact h.read hpc hc hcount hchunk
  | closed hpc _ => exact h.fail hpc
  | pushed hpc hapart hmem => exact h.push hpc hapart hmem

end LoopInv

/-! ### All runs -/

theorem LoopInitial.inv (h : LoopInitial S s) : LoopInv S s where
  numbered := by constructor <;> simp [h.connection]
  frames := by
    have hframes : ∀ c, frames s c = 0 := fun c => by rw [frames, h.pushed]; rfl
    constructor
    · exact fun c _ => ⟨h.consumed c, hframes c⟩
    · intro c
      rw [hframes, h.pushed]
      rfl
    · intro fd c hc
      rw [h.connection] at hc
      cases hc
    · intro c
      rw [hframes, h.consumed]
    · intro c
      left
      rw [hframes, h.consumed]
      decide
    · intro i t hpc
      rw [h.pc] at hpc
      cases hpc
  retired := by
    constructor
    · intro e he
      rw [h.reads] at he
      cases he
    · intro c pre e post hreads
      rw [h.reads] at hreads
      simp at hreads

variable {s₀ : Loop}

theorem loopInv (hinit : LoopInitial S s₀) (hrun : Reaches (loopStep S) s₀ s) : LoopInv S s :=
  Run.invariant (I := LoopInv S) hrun hinit.inv fun _ _ h hstep => h.step hstep

/-- **The packets pushed from a connection are the decodings of the first blocks of its stream**, in
order; every one of these blocks has been delivered, and between two passes every block that has
been delivered is pushed.  After a failed read the connection is not read again. -/
theorem pushed_are_frames (hinit : LoopInitial S s₀) (hrun : Reaches (loopStep S) s₀ s) (c : ℕ) :
    (∃ n, packetsFrom c s.pushed = (List.range n).map (fun k => decodeFrame S.host (frame (S.stream c) k)) ∧
      networkPacketTotalSize * n ≤ s.consumed c ∧
      (s.pc = .select → s.consumed c < networkPacketTotalSize * (n + 1))) ∧
    ∀ pre e post, s.reads = pre ++ e :: post → e.connection = some c → e.result ≤ 0 →
      ∀ e' ∈ post, e'.connection ≠ some c := by
  obtain ⟨-, hframes, hretired⟩ := loopInv hinit hrun
  refine ⟨⟨_, hframes.decoded c, hframes.full c, fun hpc => ?_⟩, hretired.last c⟩
  exact hframes.lt_of_not_pushing fun i hi => (nomatch hpc.symm.trans hi)

/-- A server with descriptor 3 as listening socket; the streams of its connections differ. -/
def sampleSetting : Setting := ⟨3, {0, 1, 2}, .little, firstSixteen, 0, fun c x => UInt8.ofNat (100 * c + x)⟩

theorem sampleLoop_initial : LoopInitial sampleSetting sampleLoop :=
  ⟨rfl, rfl, rfl, fun _ => rfl, rfl, fun _ => rfl, rfl, rfl⟩

/-- Two connections are accepted, in two passes. -/
def twoAccepted : List LoopAction := acceptPass 4 ++ acceptPass 5

/-- A pass with a frame of each, the first one in two pieces, and a pass with a second frame of the first. -/
def threeFrames : List LoopAction :=
  scanToFour {4, 5} ++ [.read 1000, .read 426, .push 5000, .scan, .read 1426, .push 7000, .scan] ++
    scanToFour {4} ++ [.read 1426, .push 9000, .scan, .scan]

/-- Each connection has given its own frames, in order. -/
theorem pushed_are_frames_interleaved : ∃ s,
    runActions (loopStep sampleSetting) sampleLoop (twoAccepted ++ threeFrames) = some s ∧
    s.pushed.map Pushed.connection = [some 0, some 1, some 0] ∧
    packetsFrom 0 s.pushed = (List.range 2).map (fun k => decodeFrame .little (frame (sampleSetting.stream 0) k)) ∧
    packetsFrom 1 s.pushed = (List.range 1).map (fun k => decodeFrame .little (frame (sampleSetting.stream 1) k)) := by
  obtain ⟨s, hs, hconnections, hpc, hfirst, hsecond⟩ : ∃ s,
      runActions (loopStep sampleSetting) sampleLoop (twoAccepted ++ threeFrames) = some s ∧
      s.pushed.map Pushed.connection = [some 0, some 1, some 0] ∧ s.pc = .select ∧ s.consumed 0 = 2852 ∧
      s.consumed 1 = 1426 :=
    ⟨_, rfl, rfl, rfl, rfl, rfl⟩
  have hrun := run_of_runActions _ hs
  obtain ⟨⟨n, hpackets, hle, hlt⟩, -⟩ := pushed_are_frames sampleLoop_initial hrun 0
  obtain ⟨⟨n', hpackets', hle', hlt'⟩, -⟩ := pushed_are_frames sampleLoop_initial hrun 1
  have hn : 1426 * n ≤ s.consumed 0 ∧ s.consumed 0 < 1426 * (n + 1) := ⟨hle, hlt hpc⟩
  have hn' : 1426 * n' ≤ s.consumed 1 ∧ s.consumed 1 < 1426 * (n' + 1) := ⟨hle', hlt' hpc⟩
  obtain rfl : n = 2 := by omega
  obtain rfl : n' = 1 := by omega
  exact ⟨s, hs, hconnections, hpackets, hpackets'⟩

end OhMySockets
