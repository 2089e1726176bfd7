import Mathlib.Data.Nat.Notation
import Mathlib.Data.List.Basic
import Mathlib.Tactic.Ring

/-! # Byte orders

How a machine word lies in memory.  `leastFirst k v` lists the `k` low bytes of `v`, least
significant first, and `valueLeast` reads such a list back; a `ByteOrder` uses the list as it
is (`little`) or reversed (`big`).

* `ByteOrder.value_bytes` and `ByteOrder.bytes_value` are the two round trips for one word;
* `ByteOrder.bytes_reverse` says that reversing the bytes of a word exchanges the two orders;
* `wordBytes` and `bytesWords` do the same for a sequence of 16-bit words. -/

/-- The order in which a host stores the bytes of a word. -/
inductive ByteOrder where
  | little
  | big
deriving DecidableEq, Repr

namespace ByteOrder

/-- The `k` low bytes of `v`, least significant first. -/
def leastFirst : ℕ → ℕ → List UInt8
  | 0, _ => []
  | k + 1, v => UInt8.ofNat v :: leastFirst k (v / 256)

/-- The number whose bytes, least significant first, are the list. -/
def valueLeast : List UInt8 → ℕ
  | [] => 0
  | b :: bs => b.toNat + 256 * valueLeast bs

@[simp] theorem leastFirst_length (k v : ℕ) : (leastFirst k v).length = k := by
  induction k generalizing v with
  | zero => rfl
  | succ k ih => simp [leastFirst, ih]

theorem valueLeast_leastFirst (k v : ℕ) : valueLeast (leastFirst k v) = v % 256 ^ k := by
  induction k generalizing v with
  | zero => simp [leastFirst, valueLeast, Nat.mod_one]
  | succ k ih =>
      have hb : (UInt8.ofNat v).toNat = v % 256 := by simp
      rw [leastFirst, valueLeast, ih, hb, Nat.pow_succ', Nat.mod_mul]

theorem leastFirst_valueLeast (bs : List UInt8) : leastFirst bs.length (valueLeast bs) = bs := by
  induction bs with
  | nil => rfl
  | cons b bs ih =>
      have hb : b.toNat < 256 := b.toNat_lt
      have hmod : (b.toNat + 256 * valueLeast bs) / 256 = valueLeast bs := by omega
      have hbyte : UInt8.ofNat (b.toNat + 256 * valueLeast bs) = b := by
        apply UInt8.toNat_inj.mp
        rw [UInt8.toNat_ofNat']
        omega
      rw [List.length_cons, valueLeast, leastFirst, hmod, hbyte, ih]

theorem valueLeast_lt (bs : List UInt8) : valueLeast bs < 256 ^ bs.length := by
  induction bs with
  | nil => simp [valueLeast]
  | cons b bs ih =>
      have hb : b.toNat < 256 := b.toNat_lt
      rw [valueLeast, List.length_cons, Nat.pow_succ]
      omega

/-- The bytes of the `k`-byte word `v` in the order `e`. -/
def bytes (e : ByteOrder) (k v : ℕ) : List UInt8 :=
  match e with
  | little => leastFirst k v
  | big => (leastFirst k v).reverse

/-- The word whose bytes in the order `e` are the list. -/
def value (e : ByteOrder) (bs : List UInt8) : ℕ :=
  match e with
  | little => valueLeast bs
  | big => valueLeast bs.reverse

/-- The other order. -/
def swap : ByteOrder → ByteOrder
  | little => big
  | big => little

@[simp] theorem bytes_length (e : ByteOrder) (k v : ℕ) : (e.bytes k v).length = k := by
  cases e <;> simp [bytes]

theorem value_bytes_mod (e : ByteOrder) (k v : ℕ) : e.value (e.bytes k v) = v % 256 ^ k := by
  cases e <;> simp [bytes, value, valueLeast_leastFirst]

theorem value_bytes (e : ByteOrder) {k v : ℕ} (h : v < 256 ^ k) : e.value (e.bytes k v) = v := by
  rw [value_bytes_mod, Nat.mod_eq_of_lt h]

theorem bytes_value (e : ByteOrder) {bs : List UInt8} {k : ℕ} (h : bs.length = k) :
    e.bytes k (e.value bs) = bs := by
  subst h
  cases e with
  | little => exact leastFirst_valueLeast bs
  | big =>
      have := leastFirst_valueLeast bs.reverse
      rw [List.length_reverse] at this
      simp [bytes, value, this]

theorem value_lt (e : ByteOrder) (bs : List UInt8) : e.value bs < 256 ^ bs.length := by
  cases e with
  | little => exact valueLeast_lt bs
  | big => simpa [value] using valueLeast_lt bs.reverse

/-- Reversing the bytes of a word exchanges the two orders. -/
theorem bytes_reverse (e : ByteOrder) (k v : ℕ) : (e.bytes k v).reverse = e.swap.bytes k v := by
  cases e <;> simp [bytes, swap]

theorem bytes_inj (e : ByteOrder) {k v w : ℕ} (hv : v < 256 ^ k) (hw : w < 256 ^ k)
    (h : e.bytes k v = e.bytes k w) : v = w := by
  rw [← e.value_bytes hv, ← e.value_bytes hw, h]

/-- The bytes of a block in network order, where the host wrote it as one word. -/
def toNetwork : ByteOrder → List UInt8 → List UInt8
  | little, bs => bs.reverse
  | big, bs => bs

@[simp] theorem toNetwork_length (e : ByteOrder) (bs : List UInt8) :
    (e.toNetwork bs).length = bs.length := by
  cases e <;> simp [toNetwork]

@[simp] theorem toNetwork_toNetwork (e : ByteOrder) (bs : List UInt8) :
    e.toNetwork (e.toNetwork bs) = bs := by
  cases e <;> simp [toNetwork]

theorem toNetwork_bytes (e : ByteOrder) (k v : ℕ) : e.toNetwork (e.bytes k v) = big.bytes k v := by
  cases e with
  | little => exact bytes_reverse little k v
  | big => rfl

/-! ### Sequences of 16-bit words -/

/-- The bytes of a sequence of 16-bit words. -/
def wordBytes (e : ByteOrder) (ws : List UInt16) : List UInt8 :=
  ws.flatMap fun w => e.bytes 2 w.toNat

theorem toNat_lt_pow (w : UInt16) : w.toNat < 256 ^ 2 := by
  simpa using w.toNat_lt

/-- The 16-bit words stored in a byte sequence (a last single byte is ignored). -/
def bytesWords (e : ByteOrder) : List UInt8 → List UInt16
  | a :: b :: bs => UInt16.ofNat (e.value [a, b]) :: bytesWords e bs
  | _ => []

@[simp] theorem wordBytes_nil (e : ByteOrder) : e.wordBytes [] = [] := rfl

@[simp] theorem wordBytes_cons (e : ByteOrder) (w : UInt16) (ws : List UInt16) :
    e.wordBytes (w :: ws) = e.bytes 2 w.toNat ++ e.wordBytes ws := rfl

@[simp] theorem wordBytes_length (e : ByteOrder) (ws : List UInt16) :
    (e.wordBytes ws).length = 2 * ws.length := by
  induction ws with
  | nil => rfl
  | cons w ws ih => simp [ih]; ring

theorem bytesWords_length (e : ByteOrder) {n : ℕ} {bs : List UInt8} (h : bs.length = 2 * n) :
    (e.bytesWords bs).length = n := by
  induction n generalizing bs with
  | zero => rw [List.eq_nil_of_length_eq_zero h]; rfl
  | succ n ih =>
      match bs, h with
      | a :: b :: bs, h =>
          simp only [bytesWords, List.length_cons]
          rw [ih (by simp only [List.length_cons] at h; omega)]

theorem bytesWords_wordBytes (e : ByteOrder) (ws : List UInt16) :
    e.bytesWords (e.wordBytes ws) = ws := by
  induction ws with
  | nil => rfl
  | cons w ws ih =>
      have hlen := e.bytes_length 2 w.toNat
      rw [wordBytes_cons]
      match hb : e.bytes 2 w.toNat, hlen with
      | [a, b], _ =>
          have hv := e.value_bytes (toNat_lt_pow w)
          rw [hb] at hv
          simp only [List.cons_append, List.nil_append, bytesWords, hv, ih, UInt16.ofNat_toNat]

theorem wordBytes_bytesWords (e : ByteOrder) {n : ℕ} {bs : List UInt8} (h : bs.length = 2 * n) :
    e.wordBytes (e.bytesWords bs) = bs := by
  induction n generalizing bs with
  | zero => rw [List.eq_nil_of_length_eq_zero h]; rfl
  | succ n ih =>
      match bs, h with
      | a :: b :: bs, h =>
          have hlt : e.value [a, b] < 2 ^ 16 := by simpa using e.value_lt [a, b]
          have hpair : e.bytes 2 (UInt16.ofNat (e.value [a, b])).toNat = [a, b] := by
            rw [UInt16.toNat_ofNat', Nat.mod_eq_of_lt hlt]
            exact e.bytes_value rfl
          rw [bytesWords, wordBytes_cons, hpair, ih (by simp only [List.length_cons] at h; omega)]
          rfl

theorem wordBytes_inj (e : ByteOrder) {ws vs : List UInt16} (h : e.wordBytes ws = e.wordBytes vs) :
    ws = vs := by
  rw [← e.bytesWords_wordBytes ws, ← e.bytesWords_wordBytes vs, h]

end ByteOrder
