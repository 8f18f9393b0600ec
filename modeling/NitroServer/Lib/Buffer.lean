/-
Buffers that are written in place, and little-endian numbers in them.

`write` overwrites a range and fails outside the buffer; `slice` is what a range holds.

* `slice_write_same`, `slice_write_apart` — a range after a write.
* `slice_add` — a range is read in two parts.
* `Filled` — what a run of writes has left behind: `bs` from `i` on, and before `i` nothing
  changed outside a gap `lo..hi`. `Filled.trans` has two runs, `Filled.prepend` a length
  that is written last, `Filled.aside` a write into the gap.
* `ofLE_toLE` — a number is read back modulo the width it was written with.
* `foldl_ofDigits` — a number read digit by digit, the most significant first.
-/

import Mathlib

namespace NitroServer.Lib.Buffer

variable {α : Type*} {v v' bs : List α} {i j n m : Nat}

/-! ### Ranges -/

/-- Overwrite the bytes from `i` on. -/
def write (v : List α) (i : Nat) (bs : List α) : Option (List α) :=
  if i + bs.length ≤ v.length then some (v.take i ++ bs ++ v.drop (i + bs.length)) else none

def slice (v : List α) (i n : Nat) : List α := (v.drop i).take n

theorem write_isSome (fits : i + bs.length ≤ v.length) : ∃ v', write v i bs = some v' :=
  ⟨_, if_pos fits⟩

theorem write_cases (h : write v i bs = some v') :
    i + bs.length ≤ v.length ∧ v' = v.take i ++ bs ++ v.drop (i + bs.length) := by
  rw [write] at h
  split at h
  · rename_i fits
    exact ⟨fits, (Option.some.inj h).symm⟩
  · cases h

theorem write_length (h : write v i bs = some v') : v'.length = v.length := by
  obtain ⟨fits, rfl⟩ := write_cases h
  simp only [List.length_append, List.length_take, List.length_drop]
  omega

theorem slice_write_same (h : write v i bs = some v') : slice v' i bs.length = bs := by
  obtain ⟨fits, rfl⟩ := write_cases h
  have front : (v.take i).length = i := by
    rw [List.length_take]
    omega
  rw [slice, List.append_assoc, List.drop_left' front, List.take_left' rfl]

theorem getElem?_slice (k : Nat) : (slice v i n)[k]? = if k < n then v[i + k]? else none := by
  rw [slice, List.getElem?_take, List.getElem?_drop]

theorem getElem?_write (h : write v i bs = some v') {k : Nat}
    (apart : k < i ∨ i + bs.length ≤ k) : v'[k]? = v[k]? := by
  obtain ⟨fits, rfl⟩ := write_cases h
  have front : (v.take i).length = i := by
    rw [List.length_take]
    omega
  rcases apart with before | behind
  · rw [List.append_assoc, List.getElem?_append_left (by omega), List.getElem?_take,
      if_pos before]
  · have both : (v.take i ++ bs).length = i + bs.length := by rw [List.length_append, front]
    rw [List.getElem?_append_right (by omega), List.getElem?_drop, both]
    congr 1
    omega

/-- A range that the write does not touch. -/
theorem slice_write_apart (h : write v i bs = some v') (apart : j + n ≤ i ∨ i + bs.length ≤ j) :
    slice v' j n = slice v j n := by
  ext1 k
  rw [getElem?_slice, getElem?_slice]
  split
  · exact getElem?_write h (by omega)
  · rfl

theorem slice_add (v : List α) (i n m : Nat) :
    slice v i (n + m) = slice v i n ++ slice v (i + n) m := by
  rw [slice, slice, slice, List.take_add, List.drop_drop]

theorem slice_append_drop (v : List α) (i n : Nat) : slice v i n ++ v.drop (i + n) = v.drop i := by
  rw [slice, ← List.drop_drop, List.take_append_drop]

theorem slice_length (fits : i + n ≤ v.length) : (slice v i n).length = n := by
  rw [slice, List.length_take, List.length_drop]
  omega

/-! ### Runs of writes -/

/-- `v'` is `v` with `bs` from `i` on; what came before `i` is the same outside `lo..hi`. -/
structure Filled (lo hi : Nat) (v : List α) (i : Nat) (bs v' : List α) : Prop where
  length : v'.length = v.length
  here : slice v' i bs.length = bs
  before : ∀ j n, j + n ≤ i → j + n ≤ lo ∨ hi ≤ j → slice v' j n = slice v j n

variable {lo hi : Nat} {v₁ v₂ as cs : List α}

theorem Filled.nil : Filled lo hi v i [] v := ⟨rfl, rfl, fun _ _ _ _ => rfl⟩

theorem Filled.write (h : Filled lo hi v i as v₁) (h' : write v₁ i bs = some v₂) :
    Filled lo hi v i bs v₂ where
  length := (write_length h').trans h.length
  here := slice_write_same h'
  before j n le out := by rw [slice_write_apart h' (Or.inl le), h.before j n le out]

theorem Filled.trans (after : hi ≤ i) (h : Filled lo hi v i bs v₁)
    (h' : Filled lo hi v₁ (i + bs.length) cs v₂) : Filled lo hi v i (bs ++ cs) v₂ where
  length := h'.length.trans h.length
  here := by rw [List.length_append, slice_add, h'.before _ _ le_rfl (Or.inr after), h.here, h'.here]
  before j n le out := by rw [h'.before j n (by omega) out, h.before j n le out]

theorem Filled.prepend (h : Filled lo hi v (i + as.length) bs v₁)
    (h' : Buffer.write v₁ i as = some v₂) : Filled lo hi v i (as ++ bs) v₂ where
  length := (write_length h').trans h.length
  here := by
    rw [List.length_append, slice_add, slice_write_same h', slice_write_apart h' (Or.inr le_rfl),
      h.here]
  before j n le out := by
    rw [slice_write_apart h' (Or.inl le), h.before j n (by omega) out]

theorem Filled.aside (h' : Buffer.write v j as = some v₁) (low : lo ≤ j) (high : j + as.length ≤ hi)
    (h : Filled lo hi v₁ i bs v₂) : Filled lo hi v i bs v₂ where
  length := h.length.trans (write_length h')
  here := h.here
  before k n le out := by rw [h.before k n le out, slice_write_apart h' (by omega)]

/-! ### Little-endian numbers -/

/-- The low `w` bytes of `n`, the lowest first. -/
def toLE : Nat → Nat → List UInt8
  | 0, _ => []
  | w + 1, n => UInt8.ofNat (n % 256) :: toLE w (n / 256)

def ofLE : List UInt8 → Nat
  | [] => 0
  | b :: bs => b.toNat + 256 * ofLE bs

@[simp] theorem toLE_length (w n : Nat) : (toLE w n).length = w := by
  induction w generalizing n with
  | zero => rfl
  | succ w ih => rw [toLE, List.length_cons, ih]

theorem ofLE_toLE (w n : Nat) : ofLE (toLE w n) = n % 256 ^ w := by
  induction w generalizing n with
  | zero => rw [toLE, ofLE, pow_zero, Nat.mod_one]
  | succ w ih =>
      have low : (UInt8.ofNat (n % 256)).toNat = n % 256 := by
        rw [UInt8.toNat_ofNat']
        omega
      rw [toLE, ofLE, ih, low, pow_succ', Nat.mod_mul]

/-! ### Numbers in digits -/

theorem foldl_ofDigits (base : Nat) (digit : α → Nat) (v : List α) (n : Nat) :
    v.foldl (fun n a => n * base + digit a) n =
      n * base ^ v.length + Nat.ofDigits base (v.map digit).reverse := by
  induction v generalizing n with
  | nil => simp
  | cons a v ih =>
      rw [List.foldl_cons, ih, List.map_cons, List.reverse_cons, Nat.ofDigits_append,
        Nat.ofDigits_singleton, List.length_reverse, List.length_map, List.length_cons]
      ring

end NitroServer.Lib.Buffer
