import Mathlib.Data.Nat.Bitwise
import Mathlib.Tactic.Ring
import Mathlib.Tactic.Positivity
import Mathlib.Tactic.Zify
import RtfmEv.Lib.Text

/-!
# Byte strings

Byte strings are lists of bytes and integers read from them are naturals. A
slice `b[i:j]` never fails: it is cut off at the end of the string. The bit
operations on small naturals are reduced to division and remainder, which is
the form that the linear arithmetic procedures understand.
-/

namespace RtfmEv.Lib

abbrev Bytes := List UInt8

/-- A hex digit can be written as a numeral. -/
instance (priority := high) neZeroSixteen : NeZero 16 := ⟨by decide⟩

/-- The slice `b[i:j]`. -/
def slice {α : Type*} (b : List α) (i j : ℕ) : List α := (b.drop i).take (j - i)

theorem length_slice {α : Type*} (b : List α) (i j : ℕ) :
    (slice b i j).length = min (j - i) (b.length - i) := by
  simp only [slice, List.length_take, List.length_drop]

/-- A slice that starts after `a` only reads what follows it. -/
theorem slice_append {α : Type*} (a b : List α) (i j : ℕ) (hi : a.length ≤ i) :
    slice (a ++ b) i j = slice b (i - a.length) (j - a.length) := by
  have h : j - a.length - (i - a.length) = j - i := by omega
  rw [slice, slice, h, List.drop_append, List.drop_eq_nil_of_le hi, List.nil_append]

/-- The natural with the given little-endian bytes. -/
def fromBytesLE : Bytes → ℕ
  | [] => 0
  | b :: bs => b.toNat + 256 * fromBytesLE bs

theorem fromBytesLE_lt (b : Bytes) : fromBytesLE b < 256 ^ b.length := by
  induction b with
  | nil => simp [fromBytesLE]
  | cons b bs ih =>
    have hb : b.toNat < 256 := b.toNat_lt
    rw [fromBytesLE, List.length_cons, pow_succ]
    omega

variable {n k : ℕ}

theorem toNat_ofNat_of_lt (h : n < 256) : (UInt8.ofNat n).toNat = n := by
  rw [UInt8.toNat_ofNat']
  exact Nat.mod_eq_of_lt h

/-! ### Hexadecimal text -/

/-- One lower-case hexadecimal digit. -/
def hexDigit (n : ℕ) : Char :=
  if n < 10 then Char.ofNat (48 + n) else Char.ofNat (87 + n)

def hexByte (b : UInt8) : List Char := [hexDigit (b.toNat / 16), hexDigit (b.toNat % 16)]

/-- `bytes.hex()`: two lower-case digits for each byte. -/
def toHex (b : Bytes) : List Char := b.flatMap hexByte

theorem length_toHex (b : Bytes) : (toHex b).length = 2 * b.length := by
  induction b with
  | nil => rfl
  | cons b bs ih =>
    have h : toHex (b :: bs) = hexByte b ++ toHex bs := rfl
    rw [h, List.length_append, ih, List.length_cons]
    simp only [hexByte, List.length_cons, List.length_nil]
    ring

/-! ### Reading hexadecimal text -/

/-- The value of a hexadecimal digit of either case. -/
def hexValue (c : Char) : Option ℕ :=
  let n := c.toNat
  if 48 ≤ n ∧ n ≤ 57 then some (n - 48)
  else if 65 ≤ n ∧ n ≤ 70 then some (n - 55)
  else if 97 ≤ n ∧ n ≤ 102 then some (n - 87)
  else none

/-- ASCII white space. -/
def isAsciiSpace (c : Char) : Bool :=
  let n := c.toNat
  (9 ≤ n && n ≤ 13) || n == 32

/-- `bytes.fromhex`: two digits for each byte, white space between bytes. -/
def fromHex : List Char → Option Bytes
  | [] => some []
  | c :: rest =>
    if isAsciiSpace c then fromHex rest
    else
      match rest with
      | [] => none
      | d :: rest => do
        let high ← hexValue c
        let low ← hexValue d
        let bytes ← fromHex rest
        return UInt8.ofNat (16 * high + low) :: bytes

theorem hexValue_toUpper (c : Char) : hexValue c.toUpper = hexValue c := by
  simp only [hexValue, toNat_toUpper]
  split_ifs <;> first | (exfalso; omega) | congr 1

theorem isAsciiSpace_toUpper (c : Char) : isAsciiSpace c.toUpper = isAsciiSpace c := by
  simp only [isAsciiSpace, toNat_toUpper]
  split_ifs with h
  · rw [Bool.eq_iff_iff]
    simp only [Bool.or_eq_true, Bool.and_eq_true, decide_eq_true_eq, beq_iff_eq]
    omega
  · rfl

theorem fromHex_cons_space {c : Char} (h : isAsciiSpace c = true) (rest : List Char) :
    fromHex (c :: rest) = fromHex rest := by
  cases rest <;> simp [fromHex, h]

theorem fromHex_toUpper (s : List Char) : fromHex (s.map Char.toUpper) = fromHex s := by
  induction s using fromHex.induct with
  | case1 => rfl
  | case2 c rest hspace ih =>
    have hspace' : isAsciiSpace c.toUpper = true := by rw [isAsciiSpace_toUpper, hspace]
    rw [List.map_cons, fromHex_cons_space hspace', ih, fromHex_cons_space hspace]
  | case3 c hspace =>
    simp [fromHex, isAsciiSpace_toUpper, hspace]
  | case4 c hspace d rest ih =>
    rw [List.map_cons, List.map_cons, fromHex, isAsciiSpace_toUpper, if_neg hspace, fromHex,
      if_neg hspace]
    simp only [hexValue_toUpper, ih]
/-! ### Bit fields of small naturals -/

theorem and_three (n : ℕ) : n &&& 0x03 = n % 4 := Nat.and_two_pow_sub_one_eq_mod n 2

theorem and_fifteen (n : ℕ) : n &&& 0x0F = n % 16 := Nat.and_two_pow_sub_one_eq_mod n 4

theorem and_sixtythree (n : ℕ) : n &&& 0x3F = n % 64 := Nat.and_two_pow_sub_one_eq_mod n 6

theorem shiftRight_two (n : ℕ) : n >>> 2 = n / 4 := Nat.shiftRight_eq_div_pow n 2

theorem shiftRight_six (n : ℕ) : n >>> 6 = n / 64 := Nat.shiftRight_eq_div_pow n 6

theorem shiftLeft_six_or {a b : ℕ} (h : b < 64) : a <<< 6 ||| b = 64 * a + b := by
  rw [← Nat.shiftLeft_add_eq_or_of_lt (show b < 2 ^ 6 from h), Nat.shiftLeft_eq]
  ring

/-!
## Big-endian integers

Integers of any size as byte strings, most significant byte first: unsigned, in
two's complement, and the number of bytes a value needs. The reader of either form
returns the written value exactly when that many bytes can hold it.
-/

/-! #### Bit lengths -/

/-- `n.bit_length()`. -/
def bitLength (n : ℕ) : ℕ := if n = 0 then 0 else n.log2 + 1

theorem bitLength_le_iff : bitLength n ≤ k ↔ n < 2 ^ k := by
  by_cases hn : n = 0
  · subst hn
    simp [bitLength]
  · rw [bitLength, if_neg hn, ← Nat.log2_lt hn]
    omega

theorem lt_two_pow_bitLength (n : ℕ) : n < 2 ^ bitLength n := bitLength_le_iff.mp le_rfl

theorem bitLength_mono {m : ℕ} (h : m ≤ n) : bitLength m ≤ bitLength n :=
  bitLength_le_iff.mpr (lt_of_le_of_lt h (lt_two_pow_bitLength n))

theorem bitLength_pos (h : n ≠ 0) : 0 < bitLength n := by
  rw [bitLength, if_neg h]
  omega

theorem pow_256 (k : ℕ) : 256 ^ k = 2 ^ (8 * k) := by
  rw [pow_mul, show 2 ^ 8 = 256 from rfl]

/-! #### Unsigned integers -/

/-- `n.to_bytes(k, "big")`. -/
def toBytesBE : ℕ → ℕ → Bytes
  | 0, _ => []
  | k + 1, n => toBytesBE k (n / 256) ++ [UInt8.ofNat (n % 256)]

/-- `int.from_bytes(b, "big")`. -/
def fromBytesBE (b : Bytes) : ℕ := b.foldl (fun n byte => 256 * n + byte.toNat) 0

@[simp] theorem length_toBytesBE (k n : ℕ) : (toBytesBE k n).length = k := by
  induction k generalizing n with
  | zero => rfl
  | succ k ih => rw [toBytesBE, List.length_append, ih, List.length_singleton]

theorem fromBytesBE_append_singleton (b : Bytes) (byte : UInt8) :
    fromBytesBE (b ++ [byte]) = 256 * fromBytesBE b + byte.toNat := by
  simp only [fromBytesBE, List.foldl_append, List.foldl_cons, List.foldl_nil]

theorem fromBytesBE_lt (b : Bytes) : fromBytesBE b < 256 ^ b.length := by
  induction b using List.reverseRecOn with
  | nil => simp [fromBytesBE]
  | append_singleton b byte ih =>
    have hbyte : byte.toNat < 256 := byte.toNat_lt
    rw [fromBytesBE_append_singleton, List.length_append, List.length_singleton, pow_succ]
    omega

theorem fromBytesBE_toBytesBE (h : n < 256 ^ k) : fromBytesBE (toBytesBE k n) = n := by
  induction k generalizing n with
  | zero =>
    rw [pow_zero] at h
    have hn : n = 0 := by omega
    rw [hn]
    rfl
  | succ k ih =>
    have hquot : n / 256 < 256 ^ k := by
      rw [pow_succ] at h
      omega
    rw [toBytesBE, fromBytesBE_append_singleton, ih hquot, toNat_ofNat_of_lt (by omega)]
    omega

/-! #### Two's complement -/

/-- `v.to_bytes(k, "big", signed=True)`. -/
def toBytesSignedBE (k : ℕ) (v : ℤ) : Bytes := toBytesBE k (v % 256 ^ k).toNat

/-- `int.from_bytes(b, "big", signed=True)`. -/
def fromBytesSignedBE (b : Bytes) : ℤ :=
  if 2 * fromBytesBE b < 256 ^ b.length then fromBytesBE b else fromBytesBE b - 256 ^ b.length

@[simp] theorem length_toBytesSignedBE (k : ℕ) (v : ℤ) : (toBytesSignedBE k v).length = k :=
  length_toBytesBE k _

/-- The value of `k` bytes lies in the signed range of `k` bytes. -/
theorem fromBytesSignedBE_bounds (b : Bytes) :
    -(256 ^ b.length : ℤ) ≤ 2 * fromBytesSignedBE b ∧
      2 * fromBytesSignedBE b < 256 ^ b.length := by
  have hlt : (fromBytesBE b : ℤ) < 256 ^ b.length := by exact_mod_cast fromBytesBE_lt b
  rw [fromBytesSignedBE]
  split_ifs with hsmall
  · have hcast : (2 * fromBytesBE b : ℤ) < 256 ^ b.length := by exact_mod_cast hsmall
    omega
  · have hcast : (256 ^ b.length : ℤ) ≤ 2 * fromBytesBE b := by exact_mod_cast Nat.not_lt.mp hsmall
    omega

theorem fromBytesSignedBE_toBytesSignedBE {v : ℤ} (hlow : -(256 ^ k : ℤ) ≤ 2 * v)
    (hhigh : 2 * v < 256 ^ k) : fromBytesSignedBE (toBytesSignedBE k v) = v := by
  have hpos : (0 : ℤ) < 256 ^ k := by positivity
  have hmod : 0 ≤ v % 256 ^ k := Int.emod_nonneg v hpos.ne'
  have hlt : v % 256 ^ k < 256 ^ k := Int.emod_lt_of_pos v hpos
  have hnat : (v % 256 ^ k).toNat < 256 ^ k := by
    zify
    rw [Int.toNat_of_nonneg hmod]
    exact hlt
  have hcast : (((v % 256 ^ k).toNat : ℕ) : ℤ) = v % 256 ^ k := Int.toNat_of_nonneg hmod
  rw [fromBytesSignedBE, length_toBytesSignedBE, toBytesSignedBE, fromBytesBE_toBytesBE hnat]
  rcases lt_or_ge v 0 with hneg | hnonneg
  · have hval : v % 256 ^ k = v + 256 ^ k := by
      rw [← Int.add_emod_right, Int.emod_eq_of_lt] <;> omega
    rw [if_neg, hcast, hval]
    · omega
    · zify
      rw [hcast, hval]
      omega
  · have hval : v % 256 ^ k = v := Int.emod_eq_of_lt hnonneg (by omega)
    rw [if_pos, hcast, hval]
    zify
    rw [hcast, hval]
    exact hhigh

end RtfmEv.Lib
