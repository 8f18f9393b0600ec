/-
Bytes as bits, the most significant first, and masks of leading bits.

* `and_leadingMask_eq_iff` — two bytes agree under the mask of `k` bits when their first `k` bits
  do.
* `take_bitString_short`, `take_bitString_append` — the leading bits of a byte string, within its
  first byte and beyond a front.
-/

import Mathlib

namespace NitroServer.Lib

variable {a b : UInt8} {as bs : List UInt8} {k n : Nat}

def byteBits (b : UInt8) : List Bool := (List.range 8).map fun i => b.toNat.testBit (7 - i)

def bitString (bs : List UInt8) : List Bool := bs.flatMap byteBits

/-- The first `k` bits of a byte. -/
def leadingMask (k : Nat) : UInt8 := UInt8.ofNat (0xff <<< (8 - k))

@[simp] theorem byteBits_length (b : UInt8) : (byteBits b).length = 8 := by
  simp [byteBits]

theorem testBit_leadingMask (le : k ≤ 8) {i : Nat} (lt : i < 8) :
    (leadingMask k).toNat.testBit i = decide (8 - k ≤ i) := by
  have all : ∀ k < 9, ∀ i < 8, (leadingMask k).toNat.testBit i = decide (8 - k ≤ i) := by
    decide
  exact all k (by omega) i lt

theorem byte_testBit (b : UInt8) {i : Nat} (ge : 8 ≤ i) : b.toNat.testBit i = false := by
  have lt : b.toNat < 2 ^ i := b.toNat_lt.trans_le (Nat.pow_le_pow_right (by decide) ge)
  exact Nat.testBit_eq_false_of_lt lt

theorem and_leadingMask_eq_iff (le : k ≤ 8) :
    a &&& leadingMask k = b &&& leadingMask k ↔ (byteBits a).take k = (byteBits b).take k := by
  have masked : a &&& leadingMask k = b &&& leadingMask k ↔
      ∀ i < 8, 8 - k ≤ i → a.toNat.testBit i = b.toNat.testBit i := by
    rw [← UInt8.toNat_inj, UInt8.toNat_and, UInt8.toNat_and]
    constructor
    · intro same i lt ge
      have bit := congrArg (·.testBit i) same
      simpa [Nat.testBit_and, testBit_leadingMask le lt, ge] using bit
    · intro same
      refine Nat.eq_of_testBit_eq fun i => ?_
      rw [Nat.testBit_and, Nat.testBit_and]
      by_cases lt : i < 8
      · rw [testBit_leadingMask le lt]
        by_cases ge : 8 - k ≤ i
        · rw [same i lt ge]
        · simp [ge]
      · rw [byte_testBit a (not_lt.mp lt), byte_testBit b (not_lt.mp lt)]
  have leading : (byteBits a).take k = (byteBits b).take k ↔
      ∀ i < k, a.toNat.testBit (7 - i) = b.toNat.testBit (7 - i) := by
    rw [byteBits, byteBits, ← List.map_take, ← List.map_take, List.take_range,
      Nat.min_eq_left le, List.map_inj_left]
    simp only [List.mem_range]
  rw [masked, leading]
  constructor
  · intro same i lt
    exact same (7 - i) (by omega) (by omega)
  · intro same i lt ge
    have bit := same (7 - i) (by omega)
    rwa [show 7 - (7 - i) = i by omega] at bit

theorem bitString_cons (a : UInt8) (as : List UInt8) :
    bitString (a :: as) = byteBits a ++ bitString as := List.flatMap_cons

theorem take_bitString_short (le : n ≤ 8) :
    (bitString (a :: as)).take n = (byteBits a).take n := by
  rw [bitString_cons]
  exact List.take_append_of_le_length (by rw [byteBits_length]; exact le)

theorem take_bitString_long :
    (bitString (a :: as)).take (8 + n) = byteBits a ++ (bitString as).take n := by
  rw [bitString_cons, ← byteBits_length a, List.take_length_add_append]

theorem take_bitString_append (front : List UInt8) :
    (bitString (front ++ as)).take (8 * front.length + n) =
      bitString front ++ (bitString as).take n := by
  induction front with
  | nil => simp [bitString]
  | cons a front ih =>
      have bits : 8 * (a :: front).length + n = 8 + (8 * front.length + n) := by
        rw [List.length_cons]
        omega
      rw [List.cons_append, bits, take_bitString_long, ih, bitString_cons, List.append_assoc]

@[simp] theorem bitString_length (bs : List UInt8) : (bitString bs).length = 8 * bs.length := by
  induction bs with
  | nil => rfl
  | cons b bs ih =>
      rw [bitString_cons, List.length_append, byteBits_length, ih, List.length_cons]
      omega

/-- Bits that are alike up to a place are alike up to an earlier one. -/
theorem take_bitString_mono {m : Nat} (le : n ≤ m)
    (same : (bitString as).take m = (bitString bs).take m) :
    (bitString as).take n = (bitString bs).take n := by
  have cut := congrArg (List.take n) same
  rwa [List.take_take, List.take_take, Nat.min_eq_left le] at cut

end NitroServer.Lib
