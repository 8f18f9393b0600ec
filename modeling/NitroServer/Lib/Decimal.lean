/-
Decimal numerals as JSON (RFC 8259) spells them: a sign, a whole part, a fraction, an
exponent.

* `Numeral.text`, `read` — the text of a numeral and its reader; `read_text` has one undo the
  other in front of anything that cannot be part of a number.
* `Numeral.value` — the rational number it denotes.
* `decimalDigits` — the digits of a natural number; `digitsValue_decimalDigits`, `plain_decimalDigits`.
* `digitsValue_append` — the value of digits behind digits; zeros in front say nothing, zeros
  behind are powers of ten.
-/

import Mathlib

namespace NitroServer.Lib.Decimal

abbrev Digit := Fin 10

instance neZero_ten : NeZero 10 := ⟨by decide⟩

abbrev Text := List Char

/-! ### Digits -/

def digitChar (d : Digit) : Char := Char.ofNat (48 + d)

def digit? (c : Char) : Option Digit :=
  if h : 48 ≤ c.toNat ∧ c.toNat < 58 then some ⟨c.toNat - 48, by omega⟩ else none

@[simp] theorem digit?_digitChar (d : Digit) : digit? (digitChar d) = some d := by
  revert d
  decide

/-- The same in UTF-16. -/
def digitUnit (d : Digit) : UInt16 := UInt16.ofNat (48 + d)

def unitDigit? (u : UInt16) : Option Digit :=
  if h : 48 ≤ u.toNat ∧ u.toNat < 58 then some ⟨u.toNat - 48, by omega⟩ else none

@[simp] theorem unitDigit?_digitUnit (d : Digit) : unitDigit? (digitUnit d) = some d := by
  revert d
  decide

/-- The digits in front, and what is behind them. -/
def spanDigits : Text → List Digit × Text
  | [] => ([], [])
  | c :: cs =>
      match digit? c with
      | none => ([], c :: cs)
      | some d => (d :: (spanDigits cs).1, (spanDigits cs).2)

theorem spanDigits_append (ds : List Digit) {rest : Text}
    (stop : ∀ c ∈ rest.head?, digit? c = none) :
    spanDigits (ds.map digitChar ++ rest) = (ds, rest) := by
  induction ds with
  | nil =>
      cases rest with
      | nil => rfl
      | cons c cs =>
          have first := stop c rfl
          simp only [List.map_nil, List.nil_append, spanDigits, first]
  | cons d ds ih =>
      rw [List.map_cons, List.cons_append, spanDigits, digit?_digitChar]
      simp only [ih]

/-- Most significant first. -/
def digitsValue (ds : List Digit) : Nat := Nat.ofDigits 10 (ds.map Fin.val).reverse

theorem digitsValue_append (as bs : List Digit) :
    digitsValue (as ++ bs) = digitsValue as * 10 ^ bs.length + digitsValue bs := by
  rw [digitsValue, List.map_append, List.reverse_append, Nat.ofDigits_append, List.length_reverse,
    List.length_map, digitsValue, digitsValue]
  ring

theorem digitsValue_zeros (n : Nat) : digitsValue (List.replicate n 0) = 0 := by
  induction n with
  | zero => rfl
  | succ n ih =>
      have zero : digitsValue [0] = 0 := rfl
      rw [List.replicate_succ', digitsValue_append, ih, zero, Nat.zero_mul]

theorem digitsValue_zeros_append (n : Nat) (ds : List Digit) :
    digitsValue (List.replicate n 0 ++ ds) = digitsValue ds := by
  rw [digitsValue_append, digitsValue_zeros, Nat.zero_mul, Nat.zero_add]

theorem digitsValue_append_zeros (ds : List Digit) (n : Nat) :
    digitsValue (ds ++ List.replicate n 0) = digitsValue ds * 10 ^ n := by
  rw [digitsValue_append, digitsValue_zeros, List.length_replicate, Nat.add_zero]

/-! ### Natural numbers -/

/-- No digit in front that the number does not need. -/
def Plain (ds : List Digit) : Prop := ds ≠ [] ∧ (ds.length = 1 ∨ ds.head? ≠ some 0)

instance : DecidablePred Plain := fun _ => inferInstanceAs (Decidable (_ ∧ _))

def decimalDigits (n : Nat) : List Digit :=
  if n = 0 then [0] else (Nat.digits 10 n).reverse.map (Fin.ofNat 10)

theorem digitsValue_decimalDigits (n : Nat) : digitsValue (decimalDigits n) = n := by
  rw [decimalDigits]
  split
  · rename_i zero
    exact zero.symm
  · have same : ((Nat.digits 10 n).reverse.map (Fin.ofNat 10)).map Fin.val =
        (Nat.digits 10 n).reverse := by
      rw [List.map_map]
      conv_rhs => rw [← List.map_id (Nat.digits 10 n).reverse]
      apply List.map_congr_left
      intro d mem
      have small := Nat.digits_lt_base (by decide : 1 < 10) (List.mem_reverse.mp mem)
      exact Nat.mod_eq_of_lt small
    rw [digitsValue, same, List.reverse_reverse, Nat.ofDigits_digits]

theorem plain_decimalDigits (n : Nat) : Plain (decimalDigits n) := by
  rw [decimalDigits]
  split
  · exact ⟨List.cons_ne_nil _ _, .inl rfl⟩
  · rename_i pos
    have full : Nat.digits 10 n ≠ [] := Nat.digits_ne_nil_iff_ne_zero.mpr pos
    have top := Nat.getLast_digit_ne_zero 10 pos
    have small := Nat.digits_lt_base (by decide : 1 < 10) (List.getLast_mem full)
    constructor
    · rw [ne_eq, List.map_eq_nil_iff, List.reverse_eq_nil_iff]
      exact full
    · right
      rw [List.head?_map, List.head?_reverse, List.getLast?_eq_some_getLast full, Option.map_some]
      intro zero
      have same := congrArg Fin.val (Option.some.inj zero)
      rw [Fin.val_ofNat, Nat.mod_eq_of_lt small] at same
      exact top same

/-! ### Numerals -/

structure Numeral where
  negative : Bool
  whole : List Digit
  fraction : List Digit
  exponent : Option Int
deriving DecidableEq, Repr

namespace Numeral

def signText (negative : Bool) : Text := if negative then ['-'] else []

def fractionText : List Digit → Text
  | [] => []
  | d :: ds => '.' :: (d :: ds).map digitChar

def exponentText : Option Int → Text
  | none => []
  | some x => 'e' :: (if 0 ≤ x then '+' else '-') :: (decimalDigits x.natAbs).map digitChar

def text (n : Numeral) : Text :=
  signText n.negative ++ (n.whole.map digitChar ++ (fractionText n.fraction ++
    exponentText n.exponent))

def value (n : Numeral) : ℚ :=
  (if n.negative then -1 else 1) * digitsValue (n.whole ++ n.fraction) *
    10 ^ (n.exponent.getD 0 - n.fraction.length : ℤ)

/-- As the grammar has it: no superfluous zero in front. -/
def Proper (n : Numeral) : Prop := Plain n.whole

end Numeral

/-! ### Reading -/

def readSign : Text → Bool × Text
  | '-' :: cs => (true, cs)
  | cs => (false, cs)

def readWhole (cs : Text) : Option (List Digit × Text) :=
  if Plain (spanDigits cs).1 then some (spanDigits cs) else none

def readFraction : Text → Option (List Digit × Text)
  | '.' :: cs => if (spanDigits cs).1 = [] then none else some (spanDigits cs)
  | cs => some ([], cs)

def readExponentSign : Text → Bool × Text
  | '-' :: cs => (true, cs)
  | '+' :: cs => (false, cs)
  | cs => (false, cs)

def readExponent : Text → Option (Option Int × Text)
  | [] => some (none, [])
  | c :: cs =>
      if c = 'e' ∨ c = 'E' then
        let (negative, cs) := readExponentSign cs
        let (ds, rest) := spanDigits cs
        if ds = [] then none
        else some (some (if negative then -(digitsValue ds : Int) else digitsValue ds), rest)
      else some (none, c :: cs)

/-- The numeral in front, and what is behind it. -/
def read (cs : Text) : Option (Numeral × Text) := do
  let (negative, cs) := readSign cs
  let (whole, cs) ← readWhole cs
  let (fraction, cs) ← readFraction cs
  let (exponent, cs) ← readExponent cs
  some (⟨negative, whole, fraction, exponent⟩, cs)

/-- Nothing that continues a number. -/
def Stops (rest : Text) : Prop :=
  ∀ c ∈ rest.head?, digit? c = none ∧ c ≠ '.' ∧ c ≠ 'e' ∧ c ≠ 'E'

theorem digitChar_ne (d : Digit) :
    digitChar d ≠ '-' ∧ digitChar d ≠ '+' ∧ digitChar d ≠ '.' := by
  revert d
  decide

theorem readSign_text (negative : Bool) {ds : List Digit} (full : ds ≠ []) (rest : Text) :
    readSign (Numeral.signText negative ++ (ds.map digitChar ++ rest)) =
      (negative, ds.map digitChar ++ rest) := by
  cases negative with
  | true => rfl
  | false =>
      cases ds with
      | nil => exact absurd rfl full
      | cons d ds =>
          have sign := (digitChar_ne d).1
          rw [Numeral.signText, if_neg Bool.false_ne_true, List.nil_append, List.map_cons,
            List.cons_append, readSign]
          simpa using sign

theorem readWhole_text {ds : List Digit} (plain : Plain ds) {rest : Text}
    (stop : ∀ c ∈ rest.head?, digit? c = none) :
    readWhole (ds.map digitChar ++ rest) = some (ds, rest) := by
  rw [readWhole, spanDigits_append ds stop, if_pos plain]

theorem readFraction_text (ds : List Digit) {rest : Text}
    (stop : ∀ c ∈ rest.head?, digit? c = none ∧ c ≠ '.') :
    readFraction (Numeral.fractionText ds ++ rest) = some (ds, rest) := by
  cases ds with
  | nil =>
      cases rest with
      | nil => rfl
      | cons c cs =>
          have point := (stop c rfl).2
          rw [Numeral.fractionText, List.nil_append, readFraction]
          simpa using point
  | cons d ds =>
      rw [Numeral.fractionText, List.cons_append, readFraction,
        spanDigits_append _ fun c hc => (stop c hc).1, if_neg (List.cons_ne_nil d ds)]

theorem readExponent_text (x : Option Int) {rest : Text} (stop : Stops rest) :
    readExponent (Numeral.exponentText x ++ rest) = some (x, rest) := by
  cases x with
  | none =>
      cases rest with
      | nil => rfl
      | cons c cs =>
          obtain ⟨-, -, small, big⟩ := stop c rfl
          rw [Numeral.exponentText, List.nil_append, readExponent, if_neg]
          rintro (rfl | rfl)
          · exact small rfl
          · exact big rfl
  | some x =>
      have span := spanDigits_append (decimalDigits x.natAbs) fun c hc => (stop c hc).1
      have full := (plain_decimalDigits x.natAbs).1
      have number := digitsValue_decimalDigits x.natAbs
      rw [Numeral.exponentText, List.cons_append, List.cons_append, readExponent,
        if_pos (Or.inl rfl)]
      by_cases sign : 0 ≤ x
      · rw [if_pos sign]
        simp only [readExponentSign, span, if_neg full, number, Bool.false_eq_true, if_false]
        rw [Int.natAbs_of_nonneg sign]
      · rw [if_neg sign]
        simp only [readExponentSign, span, if_neg full, number, if_true]
        rw [Int.ofNat_natAbs_of_nonpos (by omega), Int.neg_neg]

theorem stops_exponent (x : Option Int) {rest : Text} (stop : Stops rest) :
    ∀ c ∈ (Numeral.exponentText x ++ rest).head?, digit? c = none ∧ c ≠ '.' := by
  cases x with
  | none => exact fun c hc => ⟨(stop c hc).1, (stop c hc).2.1⟩
  | some x =>
      rintro c hc
      obtain rfl : 'e' = c := Option.some.inj hc
      decide

theorem stops_fraction (ds : List Digit) (x : Option Int) {rest : Text} (stop : Stops rest) :
    ∀ c ∈ (Numeral.fractionText ds ++ (Numeral.exponentText x ++ rest)).head?,
      digit? c = none := by
  cases ds with
  | nil => exact fun c hc => (stops_exponent x stop c hc).1
  | cons d ds =>
      rintro c hc
      obtain rfl : '.' = c := Option.some.inj hc
      decide

/-- A numeral is read back. -/
theorem read_text {n : Numeral} (proper : n.Proper) {rest : Text} (stop : Stops rest) :
    read (n.text ++ rest) = some (n, rest) := by
  have sign := readSign_text n.negative proper.1
    (Numeral.fractionText n.fraction ++ (Numeral.exponentText n.exponent ++ rest))
  have whole := readWhole_text proper (stops_fraction n.fraction n.exponent stop)
  have fraction := readFraction_text n.fraction (stops_exponent n.exponent stop)
  have exponent := readExponent_text n.exponent stop
  simp only [read, Numeral.text, List.append_assoc, sign, whole, fraction, exponent,
    Option.bind_eq_bind, Option.bind_some]

theorem stops_nil : Stops [] := by
  intro c hc
  cases hc

end NitroServer.Lib.Decimal
