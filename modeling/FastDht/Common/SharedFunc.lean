import Mathlib.Data.List.GetD
import Mathlib.Data.Int.Basic
import Mathlib.Tactic.Ring

/-! # Big-endian integers in byte buffers

`int2buff` and `buff2int` of common/shared_func.c, over C `int` as the low 32
bits of an `Int`. Every length, expiry and hash code of the protocol and every
stored expiry goes through these two functions. -/
namespace FastDht

abbrev Bytes := List UInt8

/-- The cast `(unsigned int)n`: the low 32 bits. -/
def toUInt32 (n : Int) : Nat := (n % 2 ^ 32).toNat

/-- Conversion to C `int`: the low 32 bits, read as two's complement. -/
def toInt32 (n : Int) : Int := if toUInt32 n < 2 ^ 31 then toUInt32 n else toUInt32 n - 2 ^ 32

/-- Conversion to `int64_t`. -/
def toInt64 (n : Int) : Int :=
  if (n % 2 ^ 64).toNat < 2 ^ 63 then (n % 2 ^ 64).toNat else (n % 2 ^ 64).toNat - 2 ^ 64

theorem toInt32_spec (n : Int) : -2 ^ 31 ≤ toInt32 n ∧ toInt32 n < 2 ^ 31 ∧
    ∃ q : Int, toInt32 n = n + 2 ^ 32 * q := by
  unfold toInt32 toUInt32
  split
  · exact ⟨by omega, by omega, -(n / 2 ^ 32), by omega⟩
  · exact ⟨by omega, by omega, -(n / 2 ^ 32) - 1, by omega⟩

theorem toInt32_lt (n : Int) : toInt32 n < 2 ^ 31 := (toInt32_spec n).2.1

theorem le_toInt32 (n : Int) : -2 ^ 31 ≤ toInt32 n := (toInt32_spec n).1

theorem toInt32_congr {n m q : Int} (h : n = m + 2 ^ 32 * q) : toInt32 n = toInt32 m := by
  obtain ⟨hl, hu, a, ha⟩ := toInt32_spec n
  obtain ⟨hl', hu', b, hb⟩ := toInt32_spec m
  omega

theorem toInt32_of_range {n : Int} (hl : -2 ^ 31 ≤ n) (hu : n < 2 ^ 31) : toInt32 n = n := by
  obtain ⟨hl', hu', q, hq⟩ := toInt32_spec n
  omega

@[simp] theorem toInt32_toInt32 (n : Int) : toInt32 (toInt32 n) = toInt32 n :=
  toInt32_of_range (le_toInt32 n) (toInt32_lt n)

@[simp] theorem toInt32_toUInt32 (n : Int) : toInt32 (toUInt32 n) = toInt32 n :=
  toInt32_congr (q := -(n / 2 ^ 32)) (by unfold toUInt32; omega)

/-- `(n >> s) & 0xFF`, on the two's complement of `n`. -/
def byteAt (n : Int) (s : Nat) : UInt8 := UInt8.ofNat ((n / 2 ^ s) % 256).toNat

def int2buff (n : Int) : Bytes := [byteAt n 24, byteAt n 16, byteAt n 8, byteAt n 0]

/-- The four bytes at the head of `buff`; a byte outside the buffer reads as 0. -/
def buff2int (buff : Bytes) : Int :=
  toInt32 (2 ^ 24 * (buff.getD 0 0).toNat + 2 ^ 16 * (buff.getD 1 0).toNat +
    2 ^ 8 * (buff.getD 2 0).toNat + (buff.getD 3 0).toNat : Nat)

@[simp] theorem int2buff_length (n : Int) : (int2buff n).length = 4 := rfl

theorem byteAt_toNat (n : Int) (s : Nat) : ((byteAt n s).toNat : Int) = n / 2 ^ s % 256 := by
  unfold byteAt
  rw [UInt8.toNat_ofNat_of_lt' (by simp only [UInt8.size]; omega)]
  omega

theorem buff2int_int2buff (n : Int) (rest : Bytes) :
    buff2int (int2buff n ++ rest) = toInt32 n := by
  have h24 := byteAt_toNat n 24
  have h16 := byteAt_toNat n 16
  have h8 := byteAt_toNat n 8
  have h0 := byteAt_toNat n 0
  have hsum : ((2 ^ 24 * (byteAt n 24).toNat + 2 ^ 16 * (byteAt n 16).toNat +
      2 ^ 8 * (byteAt n 8).toNat + (byteAt n 0).toNat : Nat) : Int) = n % 2 ^ 32 := by
    omega
  have hemod : toInt32 (n % 2 ^ 32) = toInt32 n :=
    toInt32_congr (q := -(n / 2 ^ 32)) (by omega)
  rw [← hemod, ← hsum]
  rfl

theorem buff2int_congr {a a' : Bytes} (h : ∀ i, i < 4 → a.getD i 0 = a'.getD i 0) :
    buff2int a = buff2int a' := by
  unfold buff2int
  rw [h 0 (by omega), h 1 (by omega), h 2 (by omega), h 3 (by omega)]

theorem buff2int_lt (b : Bytes) : buff2int b < 2 ^ 31 := toInt32_lt _

@[simp] theorem toInt32_buff2int (b : Bytes) : toInt32 (buff2int b) = buff2int b := toInt32_toInt32 _

theorem byteAt_toInt32 (n : Int) {s : Nat} (hs : s = 0 ∨ s = 8 ∨ s = 16 ∨ s = 24) :
    byteAt (toInt32 n) s = byteAt n s := by
  obtain ⟨-, -, q, hq⟩ := toInt32_spec n
  unfold byteAt
  congr 2
  rcases hs with rfl | rfl | rfl | rfl <;> omega

@[simp] theorem int2buff_toInt32 (n : Int) : int2buff (toInt32 n) = int2buff n := by
  simp [int2buff, byteAt_toInt32]

end FastDht
