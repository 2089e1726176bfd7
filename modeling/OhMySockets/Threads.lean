import OhMySockets.Allocation
import OhMySockets.BufferQueue
import OhMySockets.Transition
import OhMySockets.Validation

/-! # The two threads of the server

`main` from a received frame on (allocate the packet, push it, signal, print the line "Received"),
and `worker` (wait, drain the buffer, print the lines "Processed", free).  The state has the two
mutexes, the circular buffer, the heap and the two program counters; a step of a thread is one
call, one critical section, one read or one `free` of the source.  All mutex calls succeed, `malloc`
returns any address that is not in use.  A waiting worker goes on after a signal or, with
`Action.spurious`, without one.

Every read of a field of a heap block is recorded together with the life of the block at that
moment (`Access`).

* `mainStep_move`, `workerStep_move`: what a step of each thread can be. -/

namespace OhMySockets

open Allocation

abbrev Addr := ℕ

inductive Thread where
  | main
  | worker
deriving DecidableEq

/-- `struct packet_with_validation`. -/
structure PacketWithValidation where
  packet : Addr
  isValid : Bool

/-- A thread reads a field of the block at `addr`, which is in the state `life`. -/
structure Access where
  thread : Thread
  addr : Addr
  life : Life
deriving DecidableEq

/-- The heap: the life of each block, its content as either of the two structs, and the reads of
fields so far. -/
structure Heap where
  life : Addr → Life
  packets : Addr → Packet
  headers : Addr → PacketWithValidation
  accesses : List Access

namespace Heap

/-- `malloc` may return the address. -/
def isFree (heap : Heap) (a : Addr) : Prop := heap.life a ≠ .allocated ∧ heap.life a ≠ .live

instance (heap : Heap) (a : Addr) : Decidable (heap.isFree a) := inferInstanceAs (Decidable (_ ∧ _))

/-- `malloc` returns the address `a`. -/
def malloc (heap : Heap) (a : Addr) : Heap :=
  { heap with life := Function.update heap.life a .allocated }

/-- A thread reads a field of the block at `a`. -/
def read (heap : Heap) (thread : Thread) (a : Addr) : Heap :=
  { heap with accesses := heap.accesses ++ [⟨thread, a, heap.life a⟩] }

/-- `free(a)`. -/
def free (heap : Heap) (a : Addr) : Heap := { heap with life := Function.update heap.life a .released }

/-- The fields of the packet at `b` are filled in. -/
def fillPacket (heap : Heap) (b : Addr) (p : Packet) : Heap :=
  { heap with
    packets := Function.update heap.packets b p
    life := Function.update heap.life b .live }

/-- The fields of the `struct packet_with_validation` at `h` are filled in. -/
def fillHeader (heap : Heap) (h b : Addr) (isValid : Bool) : Heap :=
  { heap with
    headers := Function.update heap.headers h ⟨b, isValid⟩
    life := Function.update heap.life h .live }

/-- `free(cb->data[i]->packet); free(cb->data[i]);` for the pointers that `cb_push` finds. -/
def freeAll (thread : Thread) : Heap → List Addr → Heap
  | heap, [] => heap
  | heap, h :: hs => freeAll thread (((heap.read thread h).free (heap.headers h).packet).free h) hs

end Heap

/-- Where `main` is: `h` is `packet_with_validation`, `b` is `network_packet`. -/
inductive MainPc where
  /-- in `select`, or reading a frame -/
  | select
  | mallocPacket (p : Packet) (isValid : Bool)
  | decode (b : Addr) (p : Packet) (isValid : Bool)
  | mallocHeader (b : Addr) (isValid : Bool)
  | fill (h b : Addr) (isValid : Bool)
  /-- `pthread_mutex_lock(&mutex)` -/
  | lock (h b : Addr)
  /-- `cb_push`: its lock, its critical section and its unlock -/
  | pushLock (h b : Addr)
  | pushBody (h b : Addr)
  | pushUnlock (h b : Addr)
  | signal (h b : Addr)
  | unlock (h b : Addr)
  /-- the line "Received" -/
  | readIsValid (h b : Addr)
  | printReceived (h b : Addr) (isValid : Bool)

/-- Where `worker` is.  `first` marks the first `cb_pull` after the wait loop. -/
inductive WorkerPc where
  /-- `pthread_mutex_lock(&mutex)` -/
  | lock
  /-- `cb_current_length`, and the test of its result -/
  | lengthLock
  | lengthBody
  | lengthUnlock (length : UInt32)
  | check (length : UInt32)
  /-- in `pthread_cond_wait`, without a wake-up -/
  | waiting
  /-- in `pthread_cond_wait`, woken up -/
  | reacquire
  /-- `cb_pull`, and the test of its result -/
  | pullLock (first : Bool)
  | pullBody (first : Bool)
  | pullUnlock (first : Bool) (packet : Option Addr)
  /-- the line "Processed" -/
  | readIsValid (h : Addr)
  | printProcessed (h : Addr) (isValid : Bool)
  | freePacket (h : Addr)
  | freeHeader (h : Addr)
  | unlock

/-- What a signal, or no signal at all, does to a waiting worker. -/
def WorkerPc.wake : WorkerPc → WorkerPc
  | .waiting => .reacquire
  | w => w

structure State where
  mutex : Option Thread
  cbMutex : Option Thread
  cb : CircularBuffer Addr
  heap : Heap
  main : MainPc
  worker : WorkerPc
  printed : List String

/-- What can happen next. -/
inductive Action where
  /-- `main` has read a frame with the packet `p`, and `p` is valid or not -/
  | receive (p : Packet) (isValid : Bool)
  /-- `malloc` returns the address `a` to `main` -/
  | malloc (a : Addr)
  | main
  | worker
  /-- the worker wakes up without a signal -/
  | spurious

/-- The line "Received" or "Processed". -/
def line (what : String) (p : Packet) (isValid : Bool) : String :=
  what ++ ": #" ++ toString p.number.toNat ++ " #" ++ toString p.microtime.toNat ++ " " ++
    getValidationMessageByValidationStatus isValid ++ "\n"

/-- A step of `main` other than receiving and allocating. -/
def mainStep (s : State) : Option State :=
  match s.main with
  | .select | .mallocPacket .. | .mallocHeader .. => none
  | .decode b p isValid =>
      -- `mbedtls_md5_ret` reads the samples of the packet
      some { s with heap := (s.heap.fillPacket b p).read .main b, main := .mallocHeader b isValid }
  | .fill h b isValid =>
      -- `memcmp` reads the digest of the packet
      some { s with heap := (s.heap.read .main b).fillHeader h b isValid, main := .lock h b }
  | .lock h b =>
      if s.mutex = none then some { s with mutex := some .main, main := .pushLock h b } else none
  | .pushLock h b =>
      if s.cbMutex = none then some { s with cbMutex := some .main, main := .pushBody h b } else none
  | .pushBody h b =>
      let o := pushSection s.cb (some h)
      some { s with cb := o.cb, heap := s.heap.freeAll .main (freed o.effects), main := .pushUnlock h b }
  | .pushUnlock h b => some { s with cbMutex := none, main := .signal h b }
  | .signal h b => some { s with worker := s.worker.wake, main := .unlock h b }
  | .unlock h b => some { s with mutex := none, main := .readIsValid h b }
  | .readIsValid h b =>
      some { s with heap := s.heap.read .main h, main := .printReceived h b (s.heap.headers h).isValid }
  | .printReceived _ b isValid =>
      some { s with
        heap := (s.heap.read .main b).read .main b
        printed := s.printed ++ [line "Received" (s.heap.packets b) isValid]
        main := .select }

/-- A step of `worker`. -/
def workerStep (s : State) : Option State :=
  match s.worker with
  | .lock | .reacquire =>
      if s.mutex = none then some { s with mutex := some .worker, worker := .lengthLock } else none
  | .lengthLock =>
      if s.cbMutex = none then some { s with cbMutex := some .worker, worker := .lengthBody } else none
  | .lengthBody => some { s with worker := .lengthUnlock (lengthSection s.cb) }
  | .lengthUnlock length => some { s with cbMutex := none, worker := .check length }
  | .check length =>
      if length ≤ 0 then some { s with mutex := none, worker := .waiting }
      else some { s with worker := .pullLock true }
  | .waiting => none
  | .pullLock first =>
      if s.cbMutex = none then some { s with cbMutex := some .worker, worker := .pullBody first } else none
  | .pullBody first =>
      let o := pullSection s.cb
      some { s with cb := o.cb, worker := .pullUnlock first o.ret }
  | .pullUnlock _ packet =>
      let worker := match packet with
        | none => .unlock
        | some h => .readIsValid h
      some { s with cbMutex := none, worker }
  | .readIsValid h =>
      some { s with heap := s.heap.read .worker h, worker := .printProcessed h (s.heap.headers h).isValid }
  | .printProcessed h isValid =>
      let b := (s.heap.headers h).packet
      some { s with
        heap := (((s.heap.read .worker h).read .worker b).read .worker h).read .worker b
        printed := s.printed ++ [line "Processed" (s.heap.packets b) isValid]
        worker := .freePacket h }
  | .freePacket h =>
      some { s with
        heap := (s.heap.read .worker h).free (s.heap.headers h).packet
        worker := .freeHeader h }
  | .freeHeader h => some { s with heap := s.heap.free h, worker := .pullLock false }
  | .unlock => some { s with mutex := none, worker := .lock }

/-- A `malloc` of `main` returns the address `a`. -/
def mallocStep (s : State) (a : Addr) : Option State :=
  match s.main with
  | .mallocPacket p isValid =>
      if s.heap.isFree a then some { s with heap := s.heap.malloc a, main := .decode a p isValid } else none
  | .mallocHeader b isValid =>
      if s.heap.isFree a then some { s with heap := s.heap.malloc a, main := .fill a b isValid } else none
  | _ => none

/-- `main` has received a frame. -/
def receiveStep (s : State) (p : Packet) (isValid : Bool) : Option State :=
  match s.main with
  | .select => some { s with main := .mallocPacket p isValid }
  | _ => none

/-- The worker wakes up. -/
def spuriousStep (s : State) : Option State :=
  match s.worker with
  | .waiting => some { s with worker := s.worker.wake }
  | _ => none

/-! ### What a step can be -/

/-- A step of `main` other than receiving and allocating. -/
inductive MainMove (s : State) : State → Prop where
  | decode {b : Addr} {p : Packet} {isValid : Bool} (hm : s.main = .decode b p isValid) : MainMove s { s with
      heap := (s.heap.fillPacket b p).read .main b, main := .mallocHeader b isValid }
  | fill {h b : Addr} {isValid : Bool} (hm : s.main = .fill h b isValid) : MainMove s { s with
      heap := (s.heap.read .main b).fillHeader h b isValid, main := .lock h b }
  | lock {h b : Addr} (hm : s.main = .lock h b) (hfree : s.mutex = none) : MainMove s { s with
      mutex := some .main, main := .pushLock h b }
  | pushLock {h b : Addr} (hm : s.main = .pushLock h b) (hfree : s.cbMutex = none) : MainMove s { s with
      cbMutex := some .main, main := .pushBody h b }
  | pushBody {h b : Addr} (hm : s.main = .pushBody h b) : MainMove s { s with
      cb := (pushSection s.cb (some h)).cb
      heap := s.heap.freeAll .main (freed (pushSection s.cb (some h)).effects)
      main := .pushUnlock h b }
  | pushUnlock {h b : Addr} (hm : s.main = .pushUnlock h b) : MainMove s { s with
      cbMutex := none, main := .signal h b }
  | signal {h b : Addr} (hm : s.main = .signal h b) : MainMove s { s with
      worker := s.worker.wake, main := .unlock h b }
  | unlock {h b : Addr} (hm : s.main = .unlock h b) : MainMove s { s with
      mutex := none, main := .readIsValid h b }
  | readIsValid {h b : Addr} (hm : s.main = .readIsValid h b) : MainMove s { s with
      heap := s.heap.read .main h, main := .printReceived h b (s.heap.headers h).isValid }
  | printReceived {h b : Addr} {isValid : Bool} (hm : s.main = .printReceived h b isValid) : MainMove s { s with
      heap := (s.heap.read .main b).read .main b
      printed := s.printed ++ [line "Received" (s.heap.packets b) isValid]
      main := .select }

/-- A step of `worker`. -/
inductive WorkerMove (s : State) : State → Prop where
  | lock (hw : s.worker = .lock) (hfree : s.mutex = none) : WorkerMove s { s with
      mutex := some .worker, worker := .lengthLock }
  | reacquire (hw : s.worker = .reacquire) (hfree : s.mutex = none) : WorkerMove s { s with
      mutex := some .worker, worker := .lengthLock }
  | lengthLock (hw : s.worker = .lengthLock) (hfree : s.cbMutex = none) : WorkerMove s { s with
      cbMutex := some .worker, worker := .lengthBody }
  | lengthBody (hw : s.worker = .lengthBody) : WorkerMove s { s with
      worker := .lengthUnlock (lengthSection s.cb) }
  | lengthUnlock {length : UInt32} (hw : s.worker = .lengthUnlock length) : WorkerMove s { s with
      cbMutex := none, worker := .check length }
  | wait {length : UInt32} (hw : s.worker = .check length) (hzero : length = 0) : WorkerMove s { s with
      mutex := none, worker := .waiting }
  | goOn {length : UInt32} (hw : s.worker = .check length) (hzero : length ≠ 0) : WorkerMove s { s with
      worker := .pullLock true }
  | pullLock {first : Bool} (hw : s.worker = .pullLock first) (hfree : s.cbMutex = none) : WorkerMove s { s with
      cbMutex := some .worker, worker := .pullBody first }
  | pullBody {first : Bool} (hw : s.worker = .pullBody first) : WorkerMove s { s with
      cb := (pullSection s.cb).cb, worker := .pullUnlock first (pullSection s.cb).ret }
  | pulledNone {first : Bool} (hw : s.worker = .pullUnlock first none) : WorkerMove s { s with
      cbMutex := none, worker := .unlock }
  | pulled {first : Bool} {h : Addr} (hw : s.worker = .pullUnlock first (some h)) : WorkerMove s { s with
      cbMutex := none, worker := .readIsValid h }
  | readIsValid {h : Addr} (hw : s.worker = .readIsValid h) : WorkerMove s { s with
      heap := s.heap.read .worker h, worker := .printProcessed h (s.heap.headers h).isValid }
  | printProcessed {h b : Addr} {isValid : Bool} (hw : s.worker = .printProcessed h isValid)
      (hb : b = (s.heap.headers h).packet) : WorkerMove s { s with
      heap := (((s.heap.read .worker h).read .worker b).read .worker h).read .worker b
      printed := s.printed ++ [line "Processed" (s.heap.packets b) isValid]
      worker := .freePacket h }
  | freePacket {h : Addr} (hw : s.worker = .freePacket h) : WorkerMove s { s with
      heap := (s.heap.read .worker h).free (s.heap.headers h).packet, worker := .freeHeader h }
  | freeHeader {h : Addr} (hw : s.worker = .freeHeader h) : WorkerMove s { s with
      heap := s.heap.free h, worker := .pullLock false }
  | unlock (hw : s.worker = .unlock) : WorkerMove s { s with mutex := none, worker := .lock }

section inversion

variable {s s' : State}

theorem mainStep_move (hstep : mainStep s = some s') : MainMove s s' := by
  unfold mainStep at hstep
  cases hm : s.main with
  | select | mallocPacket | mallocHeader => simp [hm] at hstep
  | lock h b =>
      simp only [hm] at hstep
      split_ifs at hstep with hfree
      obtain rfl := Option.some.inj hstep
      exact .lock hm hfree
  | pushLock h b =>
      simp only [hm] at hstep
      split_ifs at hstep with hfree
      obtain rfl := Option.some.inj hstep
      exact .pushLock hm hfree
  | _ =>
      simp only [hm] at hstep
      obtain rfl := Option.some.inj hstep
      constructor
      exact hm

theorem workerStep_move (hstep : workerStep s = some s') : WorkerMove s s' := by
  unfold workerStep at hstep
  cases hw : s.worker with
  | waiting => simp [hw] at hstep
  | lock =>
      simp only [hw] at hstep
      split_ifs at hstep with hfree
      obtain rfl := Option.some.inj hstep
      exact .lock hw hfree
  | reacquire =>
      simp only [hw] at hstep
      split_ifs at hstep with hfree
      obtain rfl := Option.some.inj hstep
      exact .reacquire hw hfree
  | lengthLock =>
      simp only [hw] at hstep
      split_ifs at hstep with hfree
      obtain rfl := Option.some.inj hstep
      exact .lengthLock hw hfree
  | check n =>
      simp only [hw] at hstep
      split_ifs at hstep with hn
      · obtain rfl := Option.some.inj hstep
        exact .wait hw (UInt32.le_antisymm hn UInt32.zero_le)
      · obtain rfl := Option.some.inj hstep
        exact .goOn hw fun hzero => hn (hzero ▸ UInt32.le_refl n)
  | pullLock first =>
      simp only [hw] at hstep
      split_ifs at hstep with hfree
      obtain rfl := Option.some.inj hstep
      exact .pullLock hw hfree
  | pullUnlock first packet =>
      simp only [hw] at hstep
      obtain rfl := Option.some.inj hstep
      cases packet with
      | none => exact .pulledNone hw
      | some h => exact .pulled hw
  | printProcessed h isValid =>
      simp only [hw] at hstep
      obtain rfl := Option.some.inj hstep
      exact .printProcessed hw rfl
  | _ =>
      simp only [hw] at hstep
      obtain rfl := Option.some.inj hstep
      constructor
      exact hw

theorem receiveStep_some {p : Packet} {isValid : Bool} (h : receiveStep s p isValid = some s') :
    s.main = .select ∧ s' = { s with main := .mallocPacket p isValid } := by
  unfold receiveStep at h
  split at h
  · rename_i hm
    exact ⟨hm, (Option.some.inj h).symm⟩
  · cases h

theorem mallocStep_some {a : Addr} (h : mallocStep s a = some s') : s.heap.isFree a ∧
    ∃ m, s' = { s with heap := s.heap.malloc a, main := m } ∧
      ((∃ p isValid, s.main = .mallocPacket p isValid ∧ m = .decode a p isValid) ∨
        ∃ b isValid, s.main = .mallocHeader b isValid ∧ m = .fill a b isValid) := by
  unfold mallocStep at h
  split at h
  · rename_i p isValid hm
    split_ifs at h with hfree
    exact ⟨hfree, _, (Option.some.inj h).symm, Or.inl ⟨p, isValid, hm, rfl⟩⟩
  · rename_i b isValid hm
    split_ifs at h with hfree
    exact ⟨hfree, _, (Option.some.inj h).symm, Or.inr ⟨b, isValid, hm, rfl⟩⟩
  · cases h

theorem spuriousStep_some (h : spuriousStep s = some s') :
    s.worker = .waiting ∧ s' = { s with worker := .reacquire } := by
  unfold spuriousStep at h
  split at h
  · rename_i hw
    refine ⟨hw, ?_⟩
    rw [← Option.some.inj h, hw]
    rfl
  · cases h

end inversion

/-- **One step of the server.** -/
def serverStep (s : State) : Action → Option State
  | .receive p isValid => receiveStep s p isValid
  | .malloc a => mallocStep s a
  | .main => mainStep s
  | .worker => workerStep s
  | .spurious => spuriousStep s

/-- The server when `worker` starts: nothing is allocated, memory holds anything. -/
structure Initial (length : UInt32) (content : ℕ → Option Addr) (s : State) : Prop where
  created : cbCreate 0 length content = some s.cb
  mutex : s.mutex = none
  cbMutex : s.cbMutex = none
  life : ∀ a, s.heap.life a = .unused
  accesses : s.heap.accesses = []
  main : s.main = .select
  worker : s.worker = .lock

/-- A start with a buffer of two slots. -/
def start : State where
  mutex := none
  cbMutex := none
  cb := ⟨2, 0, fun _ => none, 0, 0⟩
  heap := ⟨fun _ => .unused, fun _ => zeroPacket (List.replicate 16 0) rfl, fun _ => ⟨0, false⟩, []⟩
  main := .select
  worker := .lock
  printed := []

theorem start_initial : Initial 2 (fun _ => none) start :=
  ⟨rfl, rfl, rfl, fun _ => rfl, rfl, rfl, rfl⟩

end OhMySockets
