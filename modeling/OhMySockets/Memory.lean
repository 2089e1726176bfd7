import Mathlib.Order.Interval.Set.Basic
import OhMySockets.ByteOrder

/-! # A byte-addressed memory with an access log

Programs with pointers run on a `Machine`: a memory (a byte at every address) together with
the addresses read and written so far.  `Cmd` is the state monad over it; its primitives are
`load`, `store` (byte sequences) and `load8`, `store8` (single bytes), and `forUpTo n body` is
the loop `for (i = 0; i < n; i++) body(i)`.

* **Contents.**  `bytesAt m a n` are the `n` bytes from address `a` on; `writeBytes` is the
  effect of a store on it (`bytesAt_writeBytes_self`, `bytesAt_writeBytes_of_disjoint`).
* **Accesses.**  `Footprint R W c` says that `c` reads only addresses of `R`, writes only
  addresses of `W` and leaves every byte outside `W` unchanged.  It is closed under the
  constructions of the monad (`Footprint.bind`, `Footprint.forUpTo`, …).
* **Loops.**  `exec_forUpTo` is the invariant rule.
* **Words.**  `load16`, `store16`, `load32`, `store32`, `load64` and `store64` access machine words in the
  byte order of the host; `memcpy` copies a block.  `swapPairs_wordBytes` is the effect on a
  sequence of 16-bit words of exchanging the two bytes of each. -/

namespace ByteMemory

/-- A memory: a byte at every address. -/
abbrev Mem := ℕ → UInt8

/-- The `n` bytes of `m` from address `a` on. -/
def bytesAt (m : Mem) (a n : ℕ) : List UInt8 := (List.range n).map fun i => m (a + i)

/-- `m` with the bytes `bs` written from address `a` on. -/
def writeBytes (m : Mem) (a : ℕ) (bs : List UInt8) : Mem :=
  fun x => if a ≤ x ∧ x < a + bs.length then bs.getD (x - a) 0 else m x

@[simp] theorem bytesAt_length (m : Mem) (a n : ℕ) : (bytesAt m a n).length = n := by
  simp [bytesAt]

@[simp] theorem bytesAt_zero (m : Mem) (a : ℕ) : bytesAt m a 0 = [] := rfl

theorem bytesAt_getElem (m : Mem) (a n i : ℕ) (h : i < (bytesAt m a n).length) :
    (bytesAt m a n)[i] = m (a + i) := by
  simp [bytesAt]

theorem bytesAt_congr {m m' : Mem} {a b n : ℕ} (h : ∀ i < n, m (a + i) = m' (b + i)) :
    bytesAt m a n = bytesAt m' b n :=
  List.map_congr_left fun i hi => h i (List.mem_range.mp hi)

theorem bytesAt_add (m : Mem) (a n k : ℕ) :
    bytesAt m a (n + k) = bytesAt m a n ++ bytesAt m (a + n) k := by
  simp [bytesAt, List.range_add, Nat.add_assoc, Function.comp_def]

theorem writeBytes_outside {m : Mem} {a x : ℕ} {bs : List UInt8}
    (h : x < a ∨ a + bs.length ≤ x) : writeBytes m a bs x = m x := by
  unfold writeBytes
  rw [if_neg (by omega)]

theorem bytesAt_writeBytes_self (m : Mem) (a : ℕ) (bs : List UInt8) {n : ℕ} (h : bs.length = n) :
    bytesAt (writeBytes m a bs) a n = bs := by
  subst h
  apply List.ext_getElem (by simp)
  intro i h1 h2
  rw [bytesAt_getElem, writeBytes, if_pos (by omega), Nat.add_sub_cancel_left]
  simp [h2]

theorem bytesAt_writeBytes_of_disjoint (m : Mem) {a b n : ℕ} {bs : List UInt8}
    (h : b + n ≤ a ∨ a + bs.length ≤ b) : bytesAt (writeBytes m a bs) b n = bytesAt m b n :=
  bytesAt_congr fun i hi => writeBytes_outside (by omega)

theorem bytesAt_succ (m : Mem) (a n : ℕ) : bytesAt m a (n + 1) = m a :: bytesAt m (a + 1) n := by
  rw [Nat.add_comm, bytesAt_add]
  rfl

theorem writeBytes_nil (m : Mem) (a : ℕ) : writeBytes m a [] = m := by
  funext x
  exact writeBytes_outside (by simp only [List.length_nil]; omega)

theorem writeBytes_update (m : Mem) (i : ℕ) (b : UInt8) (bs : List UInt8) :
    writeBytes (Function.update m i b) (i + 1) bs = writeBytes m i (b :: bs) := by
  funext x
  unfold writeBytes
  rw [List.length_cons]
  rcases Nat.lt_trichotomy x i with hlt | rfl | hgt
  · rw [if_neg (by omega), if_neg (by omega), Function.update_of_ne (Nat.ne_of_lt hlt)]
  · rw [if_neg (by omega), if_pos (by omega), Function.update_self, Nat.sub_self, List.getD_cons_zero]
  · rw [Function.update_of_ne (Nat.ne_of_gt hgt)]
    by_cases hx : x < i + (bs.length + 1)
    · rw [if_pos (by omega), if_pos (by omega), show x - i = x - (i + 1) + 1 by omega, List.getD_cons_succ]
    · rw [if_neg (by omega), if_neg (by omega)]

/-! ### Commands -/

/-- A memory and the addresses read and written so far. -/
structure Machine where
  mem : Mem
  reads : List ℕ
  writes : List ℕ

/-- A program on the machine. -/
def Cmd (α : Type) := Machine → α × Machine

variable {α β : Type}

/-- The result of a command. -/
def eval (c : Cmd α) (m : Machine) : α := (c m).1

/-- The machine after a command. -/
def exec (c : Cmd α) (m : Machine) : Machine := (c m).2

instance : Monad Cmd where
  pure a := fun m => (a, m)
  bind c f := fun m => f (c m).1 (c m).2

@[simp] theorem eval_pure (a : α) (m : Machine) : eval (pure a : Cmd α) m = a := rfl
@[simp] theorem exec_pure (a : α) (m : Machine) : exec (pure a : Cmd α) m = m := rfl

@[simp] theorem eval_bind (c : Cmd α) (f : α → Cmd β) (m : Machine) :
    eval (c >>= f) m = eval (f (eval c m)) (exec c m) := rfl

@[simp] theorem exec_bind (c : Cmd α) (f : α → Cmd β) (m : Machine) :
    exec (c >>= f) m = exec (f (eval c m)) (exec c m) := rfl

/-- Read `n` bytes from address `a` on. -/
def load (a n : ℕ) : Cmd (List UInt8) := fun m =>
  (bytesAt m.mem a n, { m with reads := m.reads ++ List.range' a n })

/-- Write the bytes `bs` from address `a` on. -/
def store (a : ℕ) (bs : List UInt8) : Cmd Unit := fun m =>
  ((), { m with mem := writeBytes m.mem a bs, writes := m.writes ++ List.range' a bs.length })

/-- Read one byte. -/
def load8 (a : ℕ) : Cmd UInt8 := fun m => (m.mem a, { m with reads := m.reads ++ [a] })

/-- Write one byte. -/
def store8 (a : ℕ) (v : UInt8) : Cmd Unit := fun m =>
  ((), { m with mem := Function.update m.mem a v, writes := m.writes ++ [a] })

/-- The loop `for (i = 0; i < n; i++) body(i)`. -/
def forUpTo : ℕ → (ℕ → Cmd Unit) → Cmd Unit
  | 0, _ => pure ()
  | n + 1, body => do forUpTo n body; body n

@[simp] theorem eval_load (a n : ℕ) (m : Machine) : eval (load a n) m = bytesAt m.mem a n := rfl
@[simp] theorem mem_load (a n : ℕ) (m : Machine) : (exec (load a n) m).mem = m.mem := rfl
@[simp] theorem mem_store (a : ℕ) (bs : List UInt8) (m : Machine) :
    (exec (store a bs) m).mem = writeBytes m.mem a bs := rfl
@[simp] theorem eval_load8 (a : ℕ) (m : Machine) : eval (load8 a) m = m.mem a := rfl
@[simp] theorem mem_load8 (a : ℕ) (m : Machine) : (exec (load8 a) m).mem = m.mem := rfl
@[simp] theorem mem_store8 (a : ℕ) (v : UInt8) (m : Machine) :
    (exec (store8 a v) m).mem = Function.update m.mem a v := rfl

/-- The invariant rule for `forUpTo`. -/
theorem exec_forUpTo {body : ℕ → Cmd Unit} {n : ℕ} {m : Machine} (I : ℕ → Machine → Prop)
    (h0 : I 0 m) (hs : ∀ i < n, ∀ m', I i m' → I (i + 1) (exec (body i) m')) :
    I n (exec (forUpTo n body) m) := by
  induction n with
  | zero => exact h0
  | succ n ih =>
      exact hs n (Nat.lt_succ_self n) _ (ih fun i hi => hs i (Nat.lt_succ_of_lt hi))

/-! ### Footprints -/

/-- Every address that `c` reads lies in `R`, every address that it writes lies in `W`, and
the bytes outside `W` keep their values. -/
structure Footprint (R W : Set ℕ) (c : Cmd α) : Prop where
  reads : ∀ m, ∀ x ∈ (exec c m).reads, x ∈ m.reads ∨ x ∈ R
  writes : ∀ m, ∀ x ∈ (exec c m).writes, x ∈ m.writes ∨ x ∈ W
  frame : ∀ m, ∀ x ∉ W, (exec c m).mem x = m.mem x

namespace Footprint

variable {R W : Set ℕ}

theorem pure (a : α) : Footprint R W (Pure.pure a : Cmd α) :=
  ⟨fun _ _ h => Or.inl h, fun _ _ h => Or.inl h, fun _ _ _ => rfl⟩

theorem bind {c : Cmd α} {f : α → Cmd β} (hc : Footprint R W c)
    (hf : ∀ m, Footprint R W (f (eval c m))) : Footprint R W (c >>= f) where
  reads m x hx := by
    rcases (hf m).reads _ x hx with h | h
    · exact hc.reads m x h
    · exact Or.inr h
  writes m x hx := by
    rcases (hf m).writes _ x hx with h | h
    · exact hc.writes m x h
    · exact Or.inr h
  frame m x hx := by
    rw [exec_bind, (hf m).frame _ x hx, hc.frame m x hx]

theorem load {a n : ℕ} (h : ∀ x, a ≤ x → x < a + n → x ∈ R) : Footprint R W (load a n) where
  reads m x hx := by
    rcases List.mem_append.mp hx with hx | hx
    · exact Or.inl hx
    · have := List.mem_range'_1.mp hx
      exact Or.inr (h x this.1 this.2)
  writes _ _ hx := Or.inl hx
  frame _ _ _ := rfl

theorem store {a : ℕ} {bs : List UInt8} (h : ∀ x, a ≤ x → x < a + bs.length → x ∈ W) :
    Footprint R W (store a bs) where
  reads _ _ hx := Or.inl hx
  writes m x hx := by
    rcases List.mem_append.mp hx with hx | hx
    · exact Or.inl hx
    · have := List.mem_range'_1.mp hx
      exact Or.inr (h x this.1 this.2)
  frame m x hx := by
    apply writeBytes_outside
    by_contra hin
    exact hx (h x (by omega) (by omega))

theorem load8 {a : ℕ} (h : a ∈ R) : Footprint R W (load8 a) where
  reads m x hx := by
    rcases List.mem_append.mp hx with hx | hx
    · exact Or.inl hx
    · exact Or.inr (List.mem_singleton.mp hx ▸ h)
  writes _ _ hx := Or.inl hx
  frame _ _ _ := rfl

theorem store8 {a : ℕ} {v : UInt8} (h : a ∈ W) : Footprint R W (store8 a v) where
  reads _ _ hx := Or.inl hx
  writes m x hx := by
    rcases List.mem_append.mp hx with hx | hx
    · exact Or.inl hx
    · exact Or.inr (List.mem_singleton.mp hx ▸ h)
  frame m x hx := by
    have hne : x ≠ a := fun e => hx (e ▸ h)
    rw [mem_store8, Function.update_of_ne hne]

theorem forUpTo {n : ℕ} {body : ℕ → Cmd Unit} (h : ∀ i < n, Footprint R W (body i)) :
    Footprint R W (forUpTo n body) := by
  induction n with
  | zero => exact Footprint.pure ()
  | succ n ih =>
      exact (ih fun i hi => h i (Nat.lt_succ_of_lt hi)).bind fun _ => h n (Nat.lt_succ_self n)

theorem mono {R' W' : Set ℕ} {c : Cmd α} (hc : Footprint R W c) (hR : R ⊆ R') (hW : W ⊆ W') :
    Footprint R' W' c where
  reads m x hx := (hc.reads m x hx).imp id fun h => hR h
  writes m x hx := (hc.writes m x hx).imp id fun h => hW h
  frame m x hx := hc.frame m x fun h => hx (hW h)

theorem frame_Ico {a b : ℕ} {c : Cmd α} (hc : Footprint R (Set.Ico a b) c) (m : Machine) {x : ℕ}
    (hx : x < a ∨ b ≤ x) : (exec c m).mem x = m.mem x := by
  apply hc.frame m x
  rintro ⟨hlo, hhi⟩
  omega

end Footprint

/-! ### Words and blocks -/

/-- Read a 16-bit word in the byte order of the host. -/
def load16 (host : ByteOrder) (a : ℕ) : Cmd UInt16 := do
  let bs ← load a 2
  pure (UInt16.ofNat (host.value bs))

/-- Write a 16-bit word in the byte order of the host. -/
def store16 (host : ByteOrder) (a : ℕ) (v : UInt16) : Cmd Unit := store a (host.bytes 2 v.toNat)

/-- Read a 32-bit word in the byte order of the host. -/
def load32 (host : ByteOrder) (a : ℕ) : Cmd UInt32 := do
  let bs ← load a 4
  pure (UInt32.ofNat (host.value bs))

/-- Write a 32-bit word in the byte order of the host. -/
def store32 (host : ByteOrder) (a : ℕ) (v : UInt32) : Cmd Unit := store a (host.bytes 4 v.toNat)

/-- Read a 64-bit word in the byte order of the host. -/
def load64 (host : ByteOrder) (a : ℕ) : Cmd UInt64 := do
  let bs ← load a 8
  pure (UInt64.ofNat (host.value bs))

/-- Write a 64-bit word in the byte order of the host. -/
def store64 (host : ByteOrder) (a : ℕ) (v : UInt64) : Cmd Unit := store a (host.bytes 8 v.toNat)

/-- Copy `n` bytes from `src` to `dst`. -/
def memcpy (dst src n : ℕ) : Cmd Unit := do
  let bs ← load src n
  store dst bs

theorem ofNat16_toNat (host : ByteOrder) {bs : List UInt8} (h : bs.length = 2) :
    (UInt16.ofNat (host.value bs)).toNat = host.value bs := by
  have hlt : host.value bs < 2 ^ 16 := by simpa [h] using host.value_lt bs
  rw [UInt16.toNat_ofNat', Nat.mod_eq_of_lt hlt]

theorem ofNat64_toNat (host : ByteOrder) {bs : List UInt8} (h : bs.length = 8) :
    (UInt64.ofNat (host.value bs)).toNat = host.value bs := by
  have hlt : host.value bs < 2 ^ 64 := by simpa [h] using host.value_lt bs
  rw [UInt64.toNat_ofNat', Nat.mod_eq_of_lt hlt]

@[simp] theorem mem_load16 (host : ByteOrder) (a : ℕ) (m : Machine) :
    (exec (load16 host a) m).mem = m.mem := rfl

@[simp] theorem mem_load64 (host : ByteOrder) (a : ℕ) (m : Machine) :
    (exec (load64 host a) m).mem = m.mem := rfl

@[simp] theorem mem_store16 (host : ByteOrder) (a : ℕ) (v : UInt16) (m : Machine) :
    (exec (store16 host a v) m).mem = writeBytes m.mem a (host.bytes 2 v.toNat) := rfl

@[simp] theorem mem_store64 (host : ByteOrder) (a : ℕ) (v : UInt64) (m : Machine) :
    (exec (store64 host a v) m).mem = writeBytes m.mem a (host.bytes 8 v.toNat) := rfl

@[simp] theorem mem_memcpy (dst src n : ℕ) (m : Machine) :
    (exec (memcpy dst src n) m).mem = writeBytes m.mem dst (bytesAt m.mem src n) := rfl

theorem eval_load16 (host : ByteOrder) (a : ℕ) (m : Machine) :
    eval (load16 host a) m = UInt16.ofNat (host.value (bytesAt m.mem a 2)) := rfl

theorem eval_load32_of_bytes {host : ByteOrder} {a : ℕ} {v : UInt32} {m : Machine}
    (h : bytesAt m.mem a 4 = host.bytes 4 v.toNat) : eval (load32 host a) m = v := by
  show UInt32.ofNat (host.value (bytesAt m.mem a 4)) = v
  rw [h, host.value_bytes v.toNat_lt, UInt32.ofNat_toNat]

theorem eval_load64_of_bytes {host : ByteOrder} {a : ℕ} {v : UInt64} {m : Machine}
    (h : bytesAt m.mem a 8 = host.bytes 8 v.toNat) : eval (load64 host a) m = v := by
  show UInt64.ofNat (host.value (bytesAt m.mem a 8)) = v
  have hlt : v.toNat < 256 ^ 8 := by simpa using v.toNat_lt
  rw [h, host.value_bytes hlt, UInt64.ofNat_toNat]

theorem eval_load64_toNat (host : ByteOrder) (a : ℕ) (m : Machine) :
    (eval (load64 host a) m).toNat = host.value (bytesAt m.mem a 8) :=
  ofNat64_toNat host (bytesAt_length _ _ _)

namespace Footprint

variable {R W : Set ℕ} {host : ByteOrder}

theorem load16 {a : ℕ} (h : ∀ x, a ≤ x → x < a + 2 → x ∈ R) : Footprint R W (load16 host a) :=
  (Footprint.load h).bind fun _ => Footprint.pure _

theorem load64 {a : ℕ} (h : ∀ x, a ≤ x → x < a + 8 → x ∈ R) : Footprint R W (load64 host a) :=
  (Footprint.load h).bind fun _ => Footprint.pure _

theorem store16 {a : ℕ} {v : UInt16} (h : ∀ x, a ≤ x → x < a + 2 → x ∈ W) :
    Footprint R W (store16 host a v) :=
  Footprint.store (by simpa using h)

theorem store64 {a : ℕ} {v : UInt64} (h : ∀ x, a ≤ x → x < a + 8 → x ∈ W) :
    Footprint R W (store64 host a v) :=
  Footprint.store (by simpa using h)

theorem memcpy {dst src n : ℕ} (hR : ∀ x, src ≤ x → x < src + n → x ∈ R)
    (hW : ∀ x, dst ≤ x → x < dst + n → x ∈ W) : Footprint R W (memcpy dst src n) :=
  (Footprint.load hR).bind fun m => Footprint.store (by simpa using hW)

end Footprint

/-- Exchanging the bytes of every 16-bit word stores the same words in the other order. -/
theorem swapPairs_wordBytes {m m' : Mem} {e : ByteOrder} {ws : List UInt16} {a b : ℕ}
    (h : bytesAt m a (2 * ws.length) = e.wordBytes ws)
    (hswap : ∀ i < ws.length, m' (b + 2 * i) = m (a + 2 * i + 1) ∧ m' (b + 2 * i + 1) = m (a + 2 * i)) :
    bytesAt m' b (2 * ws.length) = e.swap.wordBytes ws := by
  induction ws generalizing a b with
  | nil => rfl
  | cons w ws ih =>
      rw [List.length_cons, Nat.mul_succ, Nat.add_comm, bytesAt_add, ByteOrder.wordBytes_cons] at h ⊢
      have hlen : (bytesAt m a 2).length = (e.bytes 2 w.toNat).length := by simp
      obtain ⟨hw, hrest⟩ := List.append_inj h hlen
      have hpair : bytesAt m' b 2 = (bytesAt m a 2).reverse := by
        obtain ⟨h0, h1⟩ := hswap 0 (by simp)
        simp only [bytesAt, List.range_succ]
        simp_all
      rw [hpair, hw, e.bytes_reverse]
      congr 1
      apply ih hrest
      intro i hi
      have := hswap (i + 1) (by simpa using hi)
      rwa [Nat.mul_succ, Nat.add_comm _ 2, ← Nat.add_assoc, ← Nat.add_assoc] at this

end ByteMemory
