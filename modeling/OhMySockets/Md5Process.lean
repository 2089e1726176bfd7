import OhMySockets.ByteOrder

/-! # The compression function of MD5

`mbedtls_internal_md5_process` writes the 64 operations of MD5 out, one macro call `P(a, b, c, d, k, s, t)` a
line; the registers `A`, `B`, `C`, `D` take turns in the place of `a`, and the macro `F` is defined
anew for each round.  `Rfc1321.compress` is the loop that the algorithm describes: one operation
with the tables of indices, shifts and constants, whose result goes to the front of a shifted
register file.

* `md5F1_eq`, `md5F2_eq`: the macros compute the auxiliary functions;
* `md5S_eq`: `S` is the rotation of a word;
* `operations_add_four`: four operations of the loop are four calls of `P`, and the registers are
  back in their places;
* `mbedtlsInternalMd5Process_eq`: the unrolled code computes the loop. -/

namespace OhMySockets

/-- `A`, `B`, `C`, `D`; also the words of `ctx->state`. -/
structure Registers where
  a : UInt32
  b : UInt32
  c : UInt32
  d : UInt32
deriving DecidableEq, Repr

/-- `GET_UINT32_LE`. -/
def getUint32Le (b : List UInt8) (i : ℕ) : UInt32 :=
  (b.getD i 0).toUInt32 ||| ((b.getD (i + 1) 0).toUInt32 <<< 8) |||
    ((b.getD (i + 2) 0).toUInt32 <<< 16) ||| ((b.getD (i + 3) 0).toUInt32 <<< 24)

/-- `PUT_UINT32_LE`: the four bytes that it stores. -/
def putUint32Le (n : UInt32) : List UInt8 :=
  [(n &&& 0xFF).toUInt8, ((n >>> 8) &&& 0xFF).toUInt8, ((n >>> 16) &&& 0xFF).toUInt8,
    ((n >>> 24) &&& 0xFF).toUInt8]

/-- `S(x, n)`. -/
def md5S (x : UInt32) (n : ℕ) : UInt32 :=
  (x <<< UInt32.ofNat n) ||| ((x &&& 0xFFFFFFFF) >>> UInt32.ofNat (32 - n))

/-- `F(x, y, z)` in the first round. -/
def md5F1 (x y z : UInt32) : UInt32 := z ^^^ (x &&& (y ^^^ z))

/-- `F(x, y, z)` in the second round. -/
def md5F2 (x y z : UInt32) : UInt32 := y ^^^ (z &&& (x ^^^ y))

/-- `F(x, y, z)` in the third round. -/
def md5F3 (x y z : UInt32) : UInt32 := x ^^^ y ^^^ z

/-- `F(x, y, z)` in the fourth round. -/
def md5F4 (x y z : UInt32) : UInt32 := y ^^^ (x ||| ~~~z)

/-- `P(a, b, c, d, k, s, t)`: what it assigns to `a`. -/
def md5P (F : UInt32 → UInt32 → UInt32 → UInt32) (X : ℕ → UInt32) (a b c d : UInt32) (k s : ℕ) (t : UInt32) :
    UInt32 :=
  let a := a + (F b c d + X k + t)
  md5S a s + b

namespace Registers

variable (F : UInt32 → UInt32 → UInt32 → UInt32) (X : ℕ → UInt32) (k s : ℕ) (t : UInt32) (r : Registers)

/-- `P(A, B, C, D, k, s, t)`. -/
def pA : Registers := { r with a := md5P F X r.a r.b r.c r.d k s t }

/-- `P(D, A, B, C, k, s, t)`. -/
def pD : Registers := { r with d := md5P F X r.d r.a r.b r.c k s t }

/-- `P(C, D, A, B, k, s, t)`. -/
def pC : Registers := { r with c := md5P F X r.c r.d r.a r.b k s t }

/-- `P(B, C, D, A, k, s, t)`. -/
def pB : Registers := { r with b := md5P F X r.b r.c r.d r.a k s t }

/-- `ctx->state[i] +=` for the four words. -/
def add (r r' : Registers) : Registers := ⟨r.a + r'.a, r.b + r'.b, r.c + r'.c, r.d + r'.d⟩

end Registers

/-! ### The code -/

/-- The first 16 calls of `P`. -/
def firstRound (X : ℕ → UInt32) (r : Registers) : Registers :=
  r
  |>.pA md5F1 X 0 7 0xD76AA478
  |>.pD md5F1 X 1 12 0xE8C7B756
  |>.pC md5F1 X 2 17 0x242070DB
  |>.pB md5F1 X 3 22 0xC1BDCEEE
  |>.pA md5F1 X 4 7 0xF57C0FAF
  |>.pD md5F1 X 5 12 0x4787C62A
  |>.pC md5F1 X 6 17 0xA8304613
  |>.pB md5F1 X 7 22 0xFD469501
  |>.pA md5F1 X 8 7 0x698098D8
  |>.pD md5F1 X 9 12 0x8B44F7AF
  |>.pC md5F1 X 10 17 0xFFFF5BB1
  |>.pB md5F1 X 11 22 0x895CD7BE
  |>.pA md5F1 X 12 7 0x6B901122
  |>.pD md5F1 X 13 12 0xFD987193
  |>.pC md5F1 X 14 17 0xA679438E
  |>.pB md5F1 X 15 22 0x49B40821

/-- The second 16 calls of `P`. -/
def secondRound (X : ℕ → UInt32) (r : Registers) : Registers :=
  r
  |>.pA md5F2 X 1 5 0xF61E2562
  |>.pD md5F2 X 6 9 0xC040B340
  |>.pC md5F2 X 11 14 0x265E5A51
  |>.pB md5F2 X 0 20 0xE9B6C7AA
  |>.pA md5F2 X 5 5 0xD62F105D
  |>.pD md5F2 X 10 9 0x02441453
  |>.pC md5F2 X 15 14 0xD8A1E681
  |>.pB md5F2 X 4 20 0xE7D3FBC8
  |>.pA md5F2 X 9 5 0x21E1CDE6
  |>.pD md5F2 X 14 9 0xC33707D6
  |>.pC md5F2 X 3 14 0xF4D50D87
  |>.pB md5F2 X 8 20 0x455A14ED
  |>.pA md5F2 X 13 5 0xA9E3E905
  |>.pD md5F2 X 2 9 0xFCEFA3F8
  |>.pC md5F2 X 7 14 0x676F02D9
  |>.pB md5F2 X 12 20 0x8D2A4C8A

/-- The third 16 calls of `P`. -/
def thirdRound (X : ℕ → UInt32) (r : Registers) : Registers :=
  r
  |>.pA md5F3 X 5 4 0xFFFA3942
  |>.pD md5F3 X 8 11 0x8771F681
  |>.pC md5F3 X 11 16 0x6D9D6122
  |>.pB md5F3 X 14 23 0xFDE5380C
  |>.pA md5F3 X 1 4 0xA4BEEA44
  |>.pD md5F3 X 4 11 0x4BDECFA9
  |>.pC md5F3 X 7 16 0xF6BB4B60
  |>.pB md5F3 X 10 23 0xBEBFBC70
  |>.pA md5F3 X 13 4 0x289B7EC6
  |>.pD md5F3 X 0 11 0xEAA127FA
  |>.pC md5F3 X 3 16 0xD4EF3085
  |>.pB md5F3 X 6 23 0x04881D05
  |>.pA md5F3 X 9 4 0xD9D4D039
  |>.pD md5F3 X 12 11 0xE6DB99E5
  |>.pC md5F3 X 15 16 0x1FA27CF8
  |>.pB md5F3 X 2 23 0xC4AC5665

/-- The last 16 calls of `P`. -/
def fourthRound (X : ℕ → UInt32) (r : Registers) : Registers :=
  r
  |>.pA md5F4 X 0 6 0xF4292244
  |>.pD md5F4 X 7 10 0x432AFF97
  |>.pC md5F4 X 14 15 0xAB9423A7
  |>.pB md5F4 X 5 21 0xFC93A039
  |>.pA md5F4 X 12 6 0x655B59C3
  |>.pD md5F4 X 3 10 0x8F0CCC92
  |>.pC md5F4 X 10 15 0xFFEFF47D
  |>.pB md5F4 X 1 21 0x85845DD1
  |>.pA md5F4 X 8 6 0x6FA87E4F
  |>.pD md5F4 X 15 10 0xFE2CE6E0
  |>.pC md5F4 X 6 15 0xA3014314
  |>.pB md5F4 X 13 21 0x4E0811A1
  |>.pA md5F4 X 4 6 0xF7537E82
  |>.pD md5F4 X 11 10 0xBD3AF235
  |>.pC md5F4 X 2 15 0x2AD7D2BB
  |>.pB md5F4 X 9 21 0xEB86D391

/-- `mbedtls_internal_md5_process`: the new `ctx->state`. -/
def mbedtlsInternalMd5Process (state : Registers) (data : List UInt8) : Registers :=
  let X := fun k => getUint32Le data (4 * k)
  state.add (fourthRound X (thirdRound X (secondRound X (firstRound X state))))

/-! ### The algorithm -/

namespace Rfc1321

/-- The auxiliary function of operation `i`. -/
def auxiliary (i : ℕ) (x y z : UInt32) : UInt32 :=
  if i < 16 then (x &&& y) ||| (~~~x &&& z)
  else if i < 32 then (x &&& z) ||| (y &&& ~~~z)
  else if i < 48 then x ^^^ y ^^^ z
  else y ^^^ (x ||| ~~~z)

/-- The word of the block that operation `i` adds. -/
def index (i : ℕ) : ℕ :=
  if i < 16 then i
  else if i < 32 then (5 * i + 1) % 16
  else if i < 48 then (3 * i + 5) % 16
  else 7 * i % 16

/-- The amount by which operation `i` rotates. -/
def shift (i : ℕ) : ℕ :=
  if i < 16 then [7, 12, 17, 22].getD (i % 4) 0
  else if i < 32 then [5, 9, 14, 20].getD (i % 4) 0
  else if i < 48 then [4, 11, 16, 23].getD (i % 4) 0
  else [6, 10, 15, 21].getD (i % 4) 0

/-- The constants. -/
def table : List UInt32 :=
  [
    0xD76AA478, 0xE8C7B756, 0x242070DB, 0xC1BDCEEE, 0xF57C0FAF, 0x4787C62A, 0xA8304613, 0xFD469501,
    0x698098D8, 0x8B44F7AF, 0xFFFF5BB1, 0x895CD7BE, 0x6B901122, 0xFD987193, 0xA679438E, 0x49B40821,
    0xF61E2562, 0xC040B340, 0x265E5A51, 0xE9B6C7AA, 0xD62F105D, 0x02441453, 0xD8A1E681, 0xE7D3FBC8,
    0x21E1CDE6, 0xC33707D6, 0xF4D50D87, 0x455A14ED, 0xA9E3E905, 0xFCEFA3F8, 0x676F02D9, 0x8D2A4C8A,
    0xFFFA3942, 0x8771F681, 0x6D9D6122, 0xFDE5380C, 0xA4BEEA44, 0x4BDECFA9, 0xF6BB4B60, 0xBEBFBC70,
    0x289B7EC6, 0xEAA127FA, 0xD4EF3085, 0x04881D05, 0xD9D4D039, 0xE6DB99E5, 0x1FA27CF8, 0xC4AC5665,
    0xF4292244, 0x432AFF97, 0xAB9423A7, 0xFC93A039, 0x655B59C3, 0x8F0CCC92, 0xFFEFF47D, 0x85845DD1,
    0x6FA87E4F, 0xFE2CE6E0, 0xA3014314, 0x4E0811A1, 0xF7537E82, 0xBD3AF235, 0x2AD7D2BB, 0xEB86D391]

/-- The rotation of a word to the left. -/
def rotate (x : UInt32) (n : ℕ) : UInt32 := UInt32.ofBitVec (x.toBitVec.rotateLeft n)

/-- The word `k` of a block, least significant byte first. -/
def word (block : List UInt8) (k : ℕ) : UInt32 :=
  UInt32.ofNat (ByteOrder.little.value ((block.drop (4 * k)).take 4))

/-- Operation `i`. -/
def operation (X : ℕ → UInt32) (i : ℕ) (r : Registers) : Registers :=
  ⟨r.d, r.b + rotate (r.a + auxiliary i r.b r.c r.d + X (index i) + table.getD i 0) (shift i), r.b, r.c⟩

/-- The first `n` operations. -/
def operations (X : ℕ → UInt32) : ℕ → Registers → Registers
  | 0, r => r
  | n + 1, r => operation X n (operations X n r)

/-- The compression function. -/
def compress (state : Registers) (block : List UInt8) : Registers :=
  state.add (operations (word block) 64 state)

end Rfc1321

/-! ### Words -/

theorem or_shiftLeft_toNat (n : UInt32) (b : UInt8) {i : ℕ} (hn : n.toNat < 2 ^ i) (hi : i ≤ 24) :
    (n ||| (b.toUInt32 <<< UInt32.ofNat i)).toNat = n.toNat + 2 ^ i * b.toNat := by
  have hb : b.toNat < 2 ^ 8 := b.toNat_lt
  have hplace : b.toNat * 2 ^ i < 2 ^ 32 := by
    calc b.toNat * 2 ^ i < 2 ^ 8 * 2 ^ i := Nat.mul_lt_mul_of_pos_right hb (Nat.two_pow_pos i)
      _ ≤ 2 ^ 8 * 2 ^ 24 := Nat.mul_le_mul_left _ (Nat.pow_le_pow_right (by decide) hi)
      _ = 2 ^ 32 := by decide
  have hshift : (b.toUInt32 <<< UInt32.ofNat i).toNat = b.toNat <<< i := by
    rw [UInt32.toNat_shiftLeft, UInt8.toNat_toUInt32, UInt32.toNat_ofNat', Nat.shiftLeft_eq,
      Nat.mod_eq_of_lt (show i < 2 ^ 32 by omega), Nat.mod_eq_of_lt (show i < 32 by omega),
      Nat.mod_eq_of_lt hplace, Nat.shiftLeft_eq]
  rw [UInt32.toNat_or, hshift, Nat.or_comm, ← Nat.shiftLeft_add_eq_or_of_lt hn, Nat.shiftLeft_eq,
    Nat.add_comm, Nat.mul_comm]

theorem getUint32Le_eq {bs : List UInt8} {k : ℕ} (h : 4 * k + 4 ≤ bs.length) :
    getUint32Le bs (4 * k) = Rfc1321.word bs k := by
  obtain ⟨b0, b1, b2, b3, hbytes⟩ : ∃ b0 b1 b2 b3, (bs.drop (4 * k)).take 4 = [b0, b1, b2, b3] := by
    have hlen : ((bs.drop (4 * k)).take 4).length = 4 := by
      rw [List.length_take, List.length_drop]
      omega
    match hbs : (bs.drop (4 * k)).take 4, hlen with
    | [b0, b1, b2, b3], _ => exact ⟨b0, b1, b2, b3, rfl⟩
  have hget (j : ℕ) (hj : j < 4) : bs.getD (4 * k + j) 0 = [b0, b1, b2, b3].getD j 0 := by
    rw [← hbytes, List.getD_eq_getElem?_getD, List.getD_eq_getElem?_getD, List.getElem?_take_of_lt hj,
      List.getElem?_drop]
  have h0 : bs.getD (4 * k) 0 = b0 := hget 0 (by decide)
  have h1 : bs.getD (4 * k + 1) 0 = b1 := hget 1 (by decide)
  have h2 : bs.getD (4 * k + 2) 0 = b2 := hget 2 (by decide)
  have h3 : bs.getD (4 * k + 3) 0 = b3 := hget 3 (by decide)
  have hb0 : b0.toNat < 2 ^ 8 := b0.toNat_lt
  have hb1 : b1.toNat < 2 ^ 8 := b1.toNat_lt
  have hb2 : b2.toNat < 2 ^ 8 := b2.toNat_lt
  have hb3 : b3.toNat < 2 ^ 8 := b3.toNat_lt
  -- the bytes come in one after the other, each into the next higher place
  have e0 : b0.toUInt32.toNat = b0.toNat := UInt8.toNat_toUInt32 b0
  have e1 : (b0.toUInt32 ||| b1.toUInt32 <<< 8).toNat = b0.toNat + 2 ^ 8 * b1.toNat := by
    rw [← e0]
    exact or_shiftLeft_toNat (i := 8) _ b1 (by omega) (by decide)
  have e2 : (b0.toUInt32 ||| b1.toUInt32 <<< 8 ||| b2.toUInt32 <<< 16).toNat =
      b0.toNat + 2 ^ 8 * b1.toNat + 2 ^ 16 * b2.toNat := by
    rw [← e1]
    exact or_shiftLeft_toNat (i := 16) _ b2 (by omega) (by decide)
  have e3 : (b0.toUInt32 ||| b1.toUInt32 <<< 8 ||| b2.toUInt32 <<< 16 ||| b3.toUInt32 <<< 24).toNat =
      b0.toNat + 2 ^ 8 * b1.toNat + 2 ^ 16 * b2.toNat + 2 ^ 24 * b3.toNat := by
    rw [← e2]
    exact or_shiftLeft_toNat (i := 24) _ b3 (by omega) (by decide)
  apply UInt32.toNat_inj.mp
  rw [getUint32Le, h0, h1, h2, h3, e3, Rfc1321.word, hbytes, UInt32.toNat_ofNat']
  simp only [ByteOrder.value, ByteOrder.valueLeast]
  omega

theorem putUint32Le_eq (n : UInt32) : putUint32Le n = ByteOrder.little.bytes 4 n.toNat := by
  have hbyte (v : UInt32) : (v &&& 0xFF).toUInt8 = UInt8.ofNat v.toNat := by
    apply UInt8.toNat_inj.mp
    rw [UInt32.toNat_toUInt8, UInt32.toNat_and, UInt8.toNat_ofNat']
    have hand : v.toNat &&& 255 = v.toNat % 2 ^ 8 := Nat.and_two_pow_sub_one_eq_mod v.toNat 8
    have hff : (0xFF : UInt32).toNat = 255 := rfl
    rw [hff, hand, Nat.mod_mod]
  have h8 : (n >>> 8).toNat = n.toNat / 256 := by
    rw [UInt32.toNat_shiftRight]
    exact Nat.shiftRight_eq_div_pow n.toNat 8
  have h16 : (n >>> 16).toNat = n.toNat / 256 / 256 := by
    rw [UInt32.toNat_shiftRight, Nat.div_div_eq_div_mul]
    exact Nat.shiftRight_eq_div_pow n.toNat 16
  have h24 : (n >>> 24).toNat = n.toNat / 256 / 256 / 256 := by
    rw [UInt32.toNat_shiftRight, Nat.div_div_eq_div_mul, Nat.div_div_eq_div_mul]
    exact Nat.shiftRight_eq_div_pow n.toNat 24
  rw [putUint32Le, hbyte, hbyte, hbyte, hbyte, h8, h16, h24]
  rfl

theorem and_mask (n : UInt32) : n &&& 0xFFFFFFFF = n := by
  apply UInt32.toNat_inj.mp
  rw [UInt32.toNat_and]
  have hand := Nat.and_two_pow_sub_one_eq_mod n.toNat 32
  rw [Nat.mod_eq_of_lt n.toNat_lt] at hand
  exact hand

theorem md5S_eq (x : UInt32) {n : ℕ} (hpos : 0 < n) (h : n < 32) : md5S x n = Rfc1321.rotate x n := by
  have hwidth : (32 : BitVec 32).toNat = 32 := rfl
  have hleft : (UInt32.ofNat n).toBitVec % 32 = BitVec.ofNat 32 n := by
    apply BitVec.eq_of_toNat_eq
    simp only [UInt32.toBitVec_ofNat', BitVec.toNat_umod, BitVec.toNat_ofNat, hwidth]
    omega
  have hright : (UInt32.ofNat (32 - n)).toBitVec % 32 = BitVec.ofNat 32 (32 - n) := by
    apply BitVec.eq_of_toNat_eq
    simp only [UInt32.toBitVec_ofNat', BitVec.toNat_umod, BitVec.toNat_ofNat, hwidth]
    omega
  apply UInt32.toBitVec_inj.mp
  rw [md5S, and_mask, Rfc1321.rotate, UInt32.toBitVec_or, UInt32.toBitVec_shiftLeft, UInt32.toBitVec_shiftRight,
    hleft, hright, UInt32.toBitVec_ofBitVec, BitVec.rotateLeft_eq_rotateLeftAux_of_lt h, BitVec.rotateLeftAux,
    BitVec.shiftLeft_eq', BitVec.ushiftRight_eq', BitVec.toNat_ofNat, BitVec.toNat_ofNat,
    Nat.mod_eq_of_lt (show n < 2 ^ 32 by omega), Nat.mod_eq_of_lt (show 32 - n < 2 ^ 32 by omega)]

/-! ### The auxiliary functions -/

/-- A bit of `z ^ (x & (y ^ z))` is chosen by the bit of `x`. -/
theorem xor_and_xor (p q r : Bool) : (r ^^ (p && (q ^^ r))) = (p && q || !p && r) := by
  revert p q r
  decide

theorem md5F1_eq (x y z : UInt32) : md5F1 x y z = (x &&& y) ||| (~~~x &&& z) := by
  apply UInt32.toBitVec_inj.mp
  apply BitVec.eq_of_getLsbD_eq
  intro i hi
  simp only [md5F1, UInt32.toBitVec_xor, UInt32.toBitVec_and, UInt32.toBitVec_or, UInt32.toBitVec_not,
    BitVec.getLsbD_xor, BitVec.getLsbD_and, BitVec.getLsbD_or, BitVec.getLsbD_not, hi, decide_true,
    Bool.true_and, xor_and_xor]

/-- The second macro is the first with its arguments permuted. -/
theorem md5F2_eq (x y z : UInt32) : md5F2 x y z = (x &&& z) ||| (y &&& ~~~z) := by
  have hperm : md5F2 x y z = md5F1 z x y := rfl
  rw [hperm, md5F1_eq, UInt32.and_comm z x, UInt32.and_comm (~~~z) y]

/-! ### The unrolled code is the loop -/

namespace Rfc1321

variable (X : ℕ → UInt32) (i : ℕ) (r : Registers)

theorem index_lt : index i < 16 := by
  unfold index
  split_ifs <;> omega

theorem operations_congr {X X' : ℕ → UInt32} (h : ∀ k < 16, X k = X' k) (n : ℕ) (r : Registers) :
    operations X n r = operations X' n r := by
  induction n with
  | zero => rfl
  | succ n ih => rw [operations, operations, ih, operation, operation, h _ (index_lt n)]

theorem shift_range (hi : i < 64) : 0 < shift i ∧ shift i < 32 := by
  revert i
  decide

end Rfc1321

section quad

open Rfc1321 Registers

variable {F : UInt32 → UInt32 → UInt32 → UInt32} {X : ℕ → UInt32} {i : ℕ}

theorem operation_eq (hi : i < 64) (hF : auxiliary i = F) (r : Registers) :
    operation X i r =
      ⟨r.d, md5P F X r.a r.b r.c r.d (index i) (shift i) (table.getD i 0), r.b, r.c⟩ := by
  obtain ⟨hpos, hlt⟩ := shift_range i hi
  rw [operation, md5P, hF, md5S_eq _ hpos hlt, UInt32.add_comm r.b, UInt32.add_assoc, UInt32.add_assoc,
    UInt32.add_assoc]

/-- Four calls of `P`, one for each register, with the tables' values for the operations from `i` on. -/
def fourCalls (F : UInt32 → UInt32 → UInt32 → UInt32) (X : ℕ → UInt32) (i : ℕ) (r : Registers) : Registers :=
  r
  |>.pA F X (index i) (shift i) (table.getD i 0)
  |>.pD F X (index (i + 1)) (shift (i + 1)) (table.getD (i + 1) 0)
  |>.pC F X (index (i + 2)) (shift (i + 2)) (table.getD (i + 2) 0)
  |>.pB F X (index (i + 3)) (shift (i + 3)) (table.getD (i + 3) 0)

/-- **Four operations.**  They are calls of `P` for the four registers in turn. -/
theorem operations_add_four (hi : i + 3 < 64) (hF : ∀ j < 4, auxiliary (i + j) = F) (r : Registers) :
    operations X (i + 4) r = fourCalls F X i (operations X i r) := by
  have hF0 : auxiliary i = F := hF 0 (by decide)
  rw [operations, operations, operations, operations, operation_eq (by omega) hF0, operation_eq (by omega)
    (hF 1 (by decide)), operation_eq (by omega) (hF 2 (by decide)), operation_eq (by omega) (hF 3 (by decide))]
  rfl

theorem operations_add_sixteen {n : ℕ} (hn : n + 15 < 64) (hF : ∀ i, n ≤ i → i < n + 16 → auxiliary i = F)
    (r : Registers) : operations X (n + 16) r =
      fourCalls F X (n + 12) (fourCalls F X (n + 8) (fourCalls F X (n + 4) (fourCalls F X n (operations X n r)))) := by
  have hquad (k : ℕ) (hk : k + 3 < 16) (j : ℕ) (hj : j < 4) : auxiliary (n + k + j) = F :=
    hF _ (by omega) (by omega)
  have hfirst : operations X (n + 4) r = fourCalls F X n (operations X n r) :=
    operations_add_four (by omega) (hquad 0 (by decide)) r
  rw [← hfirst, ← operations_add_four (by omega) (hquad 4 (by decide)),
    ← operations_add_four (by omega) (hquad 8 (by decide)), ← operations_add_four (by omega) (hquad 12 (by decide))]

theorem firstRound_eq (r : Registers) : firstRound X r = operations X 16 r := by
  have hF (i : ℕ) (_ : 0 ≤ i) (hi : i < 0 + 16) : auxiliary i = md5F1 := by
    funext x y z
    rw [auxiliary, if_pos (by omega), md5F1_eq]
  rw [operations_add_sixteen (n := 0) (by decide) hF]
  rfl

theorem secondRound_eq (r : Registers) : secondRound X (operations X 16 r) = operations X 32 r := by
  have hF (i : ℕ) (hlo : 16 ≤ i) (hi : i < 16 + 16) : auxiliary i = md5F2 := by
    funext x y z
    rw [auxiliary, if_neg (by omega), if_pos (by omega), md5F2_eq]
  rw [operations_add_sixteen (n := 16) (by decide) hF]
  rfl

theorem thirdRound_eq (r : Registers) : thirdRound X (operations X 32 r) = operations X 48 r := by
  have hF (i : ℕ) (hlo : 32 ≤ i) (hi : i < 32 + 16) : auxiliary i = md5F3 := by
    funext x y z
    rw [auxiliary, if_neg (by omega), if_neg (by omega), if_pos (by omega), md5F3]
  rw [operations_add_sixteen (n := 32) (by decide) hF]
  rfl

theorem fourthRound_eq (r : Registers) : fourthRound X (operations X 48 r) = operations X 64 r := by
  have hF (i : ℕ) (hlo : 48 ≤ i) (hi : i < 48 + 16) : auxiliary i = md5F4 := by
    funext x y z
    rw [auxiliary, if_neg (by omega), if_neg (by omega), if_neg (by omega), md5F4]
  rw [operations_add_sixteen (n := 48) (by decide) hF]
  rfl

end quad

/-- **The compression function.**  The unrolled code computes the loop of the algorithm. -/
theorem mbedtlsInternalMd5Process_eq (state : Registers) {data : List UInt8} (h : data.length = 64) :
    mbedtlsInternalMd5Process state data = Rfc1321.compress state data := by
  have hwords (k : ℕ) (hk : k < 16) : getUint32Le data (4 * k) = Rfc1321.word data k :=
    getUint32Le_eq (by omega)
  have hrounds := Rfc1321.operations_congr hwords 64 state
  rw [mbedtlsInternalMd5Process, Rfc1321.compress, ← hrounds, ← fourthRound_eq, ← thirdRound_eq,
    ← secondRound_eq, ← firstRound_eq]

end OhMySockets
