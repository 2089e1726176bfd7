import Mathlib.Data.Finset.Insert
import OhMySockets.ReadNotLessThan
import OhMySockets.Transition
import OhMySockets.Validation

/-! # The select loop of the server

The loop of `main` in `server/main.c` with the calls that it makes: `select`, `accept`, `read` inside
`read_not_less_than`, `close`, and for a full frame decoding, hashing and the push of the packet.
A step is one call or one turn of the `for` loop.  The descriptor sets are finite sets.

The kernel's side is part of the state: which descriptors are open connections, and how many bytes
of each connection's stream have been delivered.  Connections are numbered in the order in which
they are accepted, because descriptors are used again.  `select` reports any of the active
descriptors, `accept` returns any descriptor that is not open, `read` returns any number of the
next bytes up to the request, or ends, fails or times out. -/

namespace OhMySockets

open ByteMemory ByteOrder

/-- `FD_SETSIZE`. -/
abbrev fdSetSize : ℕ := 1024

/-- What does not change during a run. -/
structure Setting where
  /-- the listening socket -/
  socketfd : ℕ
  /-- the other descriptors that are open from the start -/
  reserved : Finset ℕ
  host : ByteOrder
  md5 : Md5
  /-- the address of the frame buffer -/
  buffer : ℕ
  /-- the byte stream of each connection -/
  stream : ℕ → ℕ → UInt8

/-- Where `main` is, for the descriptor `i`. -/
inductive LoopPc where
  | select
  /-- the test of the `for` loop -/
  | scan (i : ℕ)
  | accept (i : ℕ)
  /-- in `read_not_less_than`, before `read` -/
  | read (i : ℕ) (total : UInt32)
  /-- a full frame is in the buffer -/
  | push (i : ℕ)
  /-- `main` has returned -/
  | returned (status : ℤ)
deriving DecidableEq

/-- The result of a `read` on a descriptor and the connection behind it. -/
structure ReadEvent where
  fd : ℕ
  connection : Option ℕ
  result : ℤ
deriving DecidableEq

/-- A packet that is pushed to the circular buffer, and the connection that it came from. -/
structure Pushed where
  connection : Option ℕ
  packet : Packet
  isValid : Bool

/-- The state of the loop; the last six fields belong to the kernel and to the history of the run. -/
structure Loop where
  activeFdSet : Finset ℕ
  readFdSet : Finset ℕ
  maxfd : ℕ
  pc : LoopPc
  mem : Mem
  /-- the open connections, by descriptor -/
  connection : ℕ → Option ℕ
  /-- the number of connections so far -/
  accepted : ℕ
  /-- the number of bytes delivered, by connection -/
  consumed : ℕ → ℕ
  reads : List ReadEvent
  pushed : List Pushed
  /-- the open connections at the last `select` -/
  atSelect : ℕ → Option ℕ
  /-- the descriptors handled since the last `select` -/
  handled : List ℕ

/-- What can happen next. -/
inductive LoopAction where
  /-- `select` reports `ready` -/
  | select (ready : Finset ℕ)
  | selectFails
  /-- `main` goes on without a call -/
  | scan
  /-- `accept` returns `fd` -/
  | accept (fd : ℕ)
  | acceptFails
  /-- `read` delivers the next `count` bytes -/
  | read (count : ℕ)
  /-- `read` returns 0 or a negative number -/
  | readFails (result : ℤ)
  /-- `malloc` returns `networkPacket`, the packet is decoded, checked and pushed -/
  | push (networkPacket : ℕ)

/-- `NETWORK_PACKET_TOTAL_SIZE` as the argument `size` of `read_not_less_than`. -/
abbrev frameSize : UInt32 := 1426

/-- `select` on `active_fd_set`. -/
def selectStep (s : Loop) (ready : Finset ℕ) : Option Loop :=
  match s.pc with
  | .select =>
      if ready ⊆ s.activeFdSet then
        some { s with readFdSet := ready, pc := .scan 0, atSelect := s.connection, handled := [] }
      else none
  | _ => none

/-- One turn of the `for` loop, up to a call. -/
def scanStep (S : Setting) (s : Loop) : Option Loop :=
  match s.pc with
  | .scan i =>
      if i ≤ s.maxfd then
        if i ∈ s.readFdSet then
          some { s with
            pc := if i = S.socketfd then .accept i else .read i 0
            handled := s.handled ++ [i] }
        else some { s with pc := .scan (i + 1) }
      else some { s with pc := .select }
  | _ => none

/-- `accept` returns the descriptor `fd`, which is not open. -/
def acceptStep (S : Setting) (s : Loop) (fd : ℕ) : Option Loop :=
  match s.pc with
  | .accept i =>
      if fd ≠ S.socketfd ∧ fd ∉ S.reserved ∧ s.connection fd = none then
        if fd ≥ fdSetSize then
          -- accepted and closed at once
          some { s with accepted := s.accepted + 1, pc := .scan (i + 1) }
        else
          some { s with
            maxfd := if fd > s.maxfd then fd else s.maxfd
            activeFdSet := insert fd s.activeFdSet
            connection := Function.update s.connection fd (some s.accepted)
            accepted := s.accepted + 1
            pc := .scan (i + 1) }
      else none
  | _ => none

/-- The return from `read_not_less_than`, or its next turn. -/
def afterRead (s : Loop) (i : ℕ) : ReadStatus → Loop
  | .again total => { s with pc := .read i total }
  | .done status =>
      if status < 0 then
        { s with
          connection := Function.update s.connection i none
          activeFdSet := s.activeFdSet.erase i
          pc := .scan (i + 1) }
      else { s with pc := .push i }

/-- `read` delivers the next `count` bytes of the connection. -/
def readStep (S : Setting) (s : Loop) (count : ℕ) : Option Loop :=
  match s.pc with
  | .read i total =>
      match s.connection i with
      | some c =>
          if 1 ≤ count ∧ count ≤ (chunkSize frameSize total).toNat then
            some (afterRead { s with
              mem := writeBytes s.mem (S.buffer + total.toNat) (bytesAt (S.stream c) (s.consumed c) count)
              consumed := Function.update s.consumed c (s.consumed c + count)
              reads := s.reads ++ [⟨i, some c, count⟩] } i (readStatus frameSize total count))
          else none
      | none => none
  | _ => none

/-- `read` returns 0 or a negative number. -/
def readFailsStep (s : Loop) (result : ℤ) : Option Loop :=
  match s.pc with
  | .read i total =>
      if result ≤ 0 then
        some (afterRead { s with reads := s.reads ++ [⟨i, s.connection i, result⟩] } i
          (readStatus frameSize total result))
      else none
  | _ => none

/-- A full frame: decode, hash, compare, push. -/
def pushStep (S : Setting) (s : Loop) (networkPacket : ℕ) : Option Loop :=
  match s.pc with
  | .push i =>
      if Apart networkPacket sizeofPacket S.buffer networkPacketTotalSize then
        let m : Machine := ⟨s.mem, [], []⟩
        let mem := (exec (serverReceive S.md5 S.host S.buffer networkPacket) m).mem
        let isValid := eval (serverReceive S.md5 S.host S.buffer networkPacket) m
        some { s with
          mem
          pushed := s.pushed ++ [⟨s.connection i, packetAt S.host mem networkPacket, isValid⟩]
          pc := .scan (i + 1) }
      else none
  | _ => none

/-- `main` returns. -/
def failStep (s : Loop) (failing : LoopPc → Bool) : Option Loop :=
  if failing s.pc then some { s with pc := .returned 1 } else none

/-- **One step of the select loop.** -/
def loopStep (S : Setting) (s : Loop) : LoopAction → Option Loop
  | .select ready => selectStep s ready
  | .selectFails => failStep s fun pc => pc = .select
  | .scan => scanStep S s
  | .accept fd => acceptStep S s fd
  | .acceptFails => failStep s fun | .accept _ => true | _ => false
  | .read count => readStep S s count
  | .readFails result => readFailsStep s result
  | .push networkPacket => pushStep S s networkPacket

/-- The loop before its first `select`. -/
structure LoopInitial (S : Setting) (s : Loop) : Prop where
  activeFdSet : s.activeFdSet = {S.socketfd}
  maxfd : s.maxfd = S.socketfd
  pc : s.pc = .select
  connection : ∀ fd, s.connection fd = none
  accepted : s.accepted = 0
  consumed : ∀ c, s.consumed c = 0
  reads : s.reads = []
  pushed : s.pushed = []

/-! ### What a step can do -/

/-- The steps of the loop, one case for each way through the code. -/
inductive LoopMove (S : Setting) (s : Loop) : LoopAction → Loop → Prop
  | select {ready : Finset ℕ} (hpc : s.pc = .select) (hready : ready ⊆ s.activeFdSet) :
      LoopMove S s (.select ready)
        { s with readFdSet := ready, pc := .scan 0, atSelect := s.connection, handled := [] }
  | selectFails (hpc : s.pc = .select) : LoopMove S s .selectFails { s with pc := .returned 1 }
  | acceptFails {i : ℕ} (hpc : s.pc = .accept i) : LoopMove S s .acceptFails { s with pc := .returned 1 }
  | listening {i : ℕ} (hpc : s.pc = .scan i) (hle : i ≤ s.maxfd) (hready : i ∈ s.readFdSet)
      (hi : i = S.socketfd) : LoopMove S s .scan { s with pc := .accept i, handled := s.handled ++ [i] }
  | reading {i : ℕ} (hpc : s.pc = .scan i) (hle : i ≤ s.maxfd) (hready : i ∈ s.readFdSet)
      (hi : i ≠ S.socketfd) : LoopMove S s .scan { s with pc := .read i 0, handled := s.handled ++ [i] }
  | notReady {i : ℕ} (hpc : s.pc = .scan i) (hle : i ≤ s.maxfd) (hready : i ∉ s.readFdSet) :
      LoopMove S s .scan { s with pc := .scan (i + 1) }
  | passEnds {i : ℕ} (hpc : s.pc = .scan i) (hlt : s.maxfd < i) : LoopMove S s .scan { s with pc := .select }
  | tooLarge {i fd : ℕ} (hpc : s.pc = .accept i) (hlarge : fdSetSize ≤ fd) :
      LoopMove S s (.accept fd) { s with accepted := s.accepted + 1, pc := .scan (i + 1) }
  | accepted {i fd : ℕ} (hpc : s.pc = .accept i) (hfd : fd ≠ S.socketfd) (hclosed : s.connection fd = none)
      (hlt : fd < fdSetSize) :
      LoopMove S s (.accept fd) { s with
        maxfd := max s.maxfd fd
        activeFdSet := insert fd s.activeFdSet
        connection := Function.update s.connection fd (some s.accepted)
        accepted := s.accepted + 1
        pc := .scan (i + 1) }
  | delivered {i c count : ℕ} {total : UInt32} (hpc : s.pc = .read i total) (hc : s.connection i = some c)
      (hcount : 1 ≤ count) (hchunk : count ≤ (chunkSize frameSize total).toNat) :
      LoopMove S s (.read count) (afterRead { s with
        mem := writeBytes s.mem (S.buffer + total.toNat) (bytesAt (S.stream c) (s.consumed c) count)
        consumed := Function.update s.consumed c (s.consumed c + count)
        reads := s.reads ++ [⟨i, some c, count⟩] } i (readStatus frameSize total count))
  | closed {i : ℕ} {total : UInt32} {result : ℤ} (hpc : s.pc = .read i total) (hresult : result ≤ 0) :
      LoopMove S s (.readFails result) { s with
        reads := s.reads ++ [⟨i, s.connection i, result⟩]
        connection := Function.update s.connection i none
        activeFdSet := s.activeFdSet.erase i
        pc := .scan (i + 1) }
  | pushed {i networkPacket : ℕ} {mem : Mem} {isValid : Bool} (hpc : s.pc = .push i)
      (hapart : Apart networkPacket sizeofPacket S.buffer networkPacketTotalSize)
      (hmem : mem = (exec (serverReceive S.md5 S.host S.buffer networkPacket) ⟨s.mem, [], []⟩).mem) :
      LoopMove S s (.push networkPacket) { s with
        mem
        pushed := s.pushed ++ [⟨s.connection i, packetAt S.host mem networkPacket, isValid⟩]
        pc := .scan (i + 1) }

theorem loopStep_move {S : Setting} {s s' : Loop} {a : LoopAction} (hstep : loopStep S s a = some s') :
    LoopMove S s a s' := by
  cases a with
  | select ready =>
      simp only [loopStep, selectStep] at hstep
      split at hstep
      · split_ifs at hstep with hready
        obtain rfl := Option.some.inj hstep
        exact .select ‹_› hready
      · cases hstep
  | selectFails =>
      simp only [loopStep, failStep] at hstep
      split_ifs at hstep with hpc
      obtain rfl := Option.some.inj hstep
      exact .selectFails (by simpa using hpc)
  | scan =>
      simp only [loopStep, scanStep] at hstep
      split at hstep
      · split_ifs at hstep with hle hready hsocket
        · obtain rfl := Option.some.inj hstep
          exact .listening ‹_› hle hready hsocket
        · obtain rfl := Option.some.inj hstep
          exact .reading ‹_› hle hready hsocket
        · obtain rfl := Option.some.inj hstep
          exact .notReady ‹_› hle hready
        · obtain rfl := Option.some.inj hstep
          exact .passEnds ‹_› (Nat.lt_of_not_le hle)
      · cases hstep
  | accept fd =>
      simp only [loopStep, acceptStep] at hstep
      split at hstep
      · split_ifs at hstep with hfd hlarge hmax
        · obtain rfl := Option.some.inj hstep
          exact .tooLarge ‹_› hlarge
        · obtain rfl := Option.some.inj hstep
          have hmove := LoopMove.accepted (S := S) ‹_› hfd.1 hfd.2.2 (Nat.lt_of_not_le hlarge)
          rwa [Nat.max_eq_right (Nat.le_of_lt hmax)] at hmove
        · obtain rfl := Option.some.inj hstep
          have hmove := LoopMove.accepted (S := S) ‹_› hfd.1 hfd.2.2 (Nat.lt_of_not_le hlarge)
          rwa [Nat.max_eq_left (Nat.le_of_not_lt hmax)] at hmove
      · cases hstep
  | acceptFails =>
      simp only [loopStep, failStep] at hstep
      split_ifs at hstep with hpc
      obtain rfl := Option.some.inj hstep
      split at hpc
      · exact .acceptFails ‹_›
      · cases hpc
  | read count =>
      simp only [loopStep, readStep] at hstep
      split at hstep
      · split at hstep
        · split_ifs at hstep with hcount
          obtain rfl := Option.some.inj hstep
          exact .delivered ‹_› ‹_› hcount.1 hcount.2
        · cases hstep
      · cases hstep
  | readFails result =>
      simp only [loopStep, readFailsStep] at hstep
      split at hstep
      · split_ifs at hstep with hresult
        obtain rfl := Option.some.inj hstep
        obtain ⟨status, hstatus, hneg⟩ := readStatus_of_nonpos frameSize _ hresult
        rw [hstatus, afterRead, if_pos hneg]
        exact .closed ‹_› hresult
      · cases hstep
  | push networkPacket =>
      simp only [loopStep, pushStep] at hstep
      split at hstep
      · split_ifs at hstep with hapart
        obtain rfl := Option.some.inj hstep
        exact .pushed ‹_› hapart rfl
      · cases hstep

/-- A loop with descriptor 3 as listening socket, before the first `select`. -/
def sampleLoop : Loop := ⟨{3}, ∅, 3, .select, fun _ => 0, fun _ => none, 0, fun _ => 0, [], [], fun _ => none, []⟩

/-- A pass in which the listening socket is ready; the connection gets the descriptor `fd`. -/
def acceptPass (fd : ℕ) : List LoopAction :=
  [.select {3}] ++ List.replicate 4 .scan ++ [.accept fd] ++ List.replicate (fd - 2) .scan

/-- A pass up to descriptor 4, the first one that is ready. -/
def scanToFour (ready : Finset ℕ) : List LoopAction := .select ready :: List.replicate 5 .scan

end OhMySockets
