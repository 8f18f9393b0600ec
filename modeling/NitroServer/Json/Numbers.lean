/-
Numbers in the JSON writer: the decimal numeral of an integer, and the layout of a double.

* `writeInt_data` — the numeral of the integer, the least one included.
* `layoutNumeral` — the numeral for the digits and the exponent of a double, and
  `layoutNumeral_value`, that it denotes them exactly.
* `numbers_laid_out` — what `writeInt` and `writeDouble` append.
-/

import NitroServer.Json.Writer
import NitroServer.Lib.Json

namespace NitroServer.Json

open Engine (Bytes)
open Lib.Decimal (Digit decimalDigits digitChar digitsValue digitsValue_append Numeral)
open Lib.Json (utf8)

/-! ### Digits as bytes -/

theorem utf8_digits (ds : List Digit) : utf8 (ds.map digitChar) = ds.map digitByte := by
  induction ds with
  | nil => rfl
  | cons d ds ih =>
      have one : ∀ d : Digit, String.utf8EncodeChar (digitChar d) = [digitByte d] := by decide
      rw [List.map_cons, List.map_cons, Lib.Json.utf8_cons, ih, one, List.singleton_append]

theorem digitByte_toNat (d : Digit) : (digitByte d).toNat = 0x30 + d := by
  revert d
  decide

/-! ### Integers -/

theorem magnitude_toNat (v : Int64) : (magnitude v).toNat = v.toInt.natAbs := by
  have bits : v.toUInt64.toNat = v.toBitVec.toNat := rfl
  have size := v.toBitVec.isLt
  have number : v.toInt = v.toBitVec.toInt := rfl
  have zero : (0 : Int64).toInt = 0 := rfl
  rw [BitVec.toInt_eq_toNat_cond] at number
  rw [magnitude]
  split
  · rename_i negative
    rw [Int64.lt_iff_toInt_lt, zero] at negative
    have one : (1 : UInt64).toNat = 1 := rfl
    rw [UInt64.toNat_add, UInt64.toNat_not, bits, one, UInt64.size]
    split at number
    · omega
    · omega
  · rename_i positive
    rw [Int64.lt_iff_toInt_lt, zero] at positive
    rw [bits]
    split at number
    · omega
    · omega

/-- The loop has room for every digit. -/
theorem tmpDigits_eq (places : Nat) (x : UInt64) (room : x.toNat < 10 ^ places) :
    tmpDigits places x = (Nat.digits 10 x.toNat).map fun d => UInt8.ofNat (0x30 + d) := by
  induction places generalizing x with
  | zero =>
      have zero : x.toNat = 0 := by omega
      rw [zero, tmpDigits, Nat.digits_zero, List.map_nil]
  | succ places ih =>
      rw [tmpDigits]
      split
      · rename_i zero
        subst zero
        rfl
      · rename_i pos
        have some_ : x.toNat ≠ 0 := fun zero => pos (UInt64.toNat_inj.mp zero)
        have next : (x / 10).toNat = x.toNat / 10 := UInt64.toNat_div x 10
        have low : (x % 10).toNat = x.toNat % 10 := UInt64.toNat_mod x 10
        rw [ih (x / 10) (by rw [next]; omega), next, low,
          Nat.digits_def' (by decide) (Nat.pos_of_ne_zero some_), List.map_cons]

def integerNumeral (x : Int) : Numeral := ⟨decide (x < 0), decimalDigits x.natAbs, [], none⟩

theorem integerNumeral_proper (x : Int) : (integerNumeral x).Proper :=
  Lib.Decimal.plain_decimalDigits x.natAbs

theorem integerNumeral_value (x : Int) : (integerNumeral x).value = x := by
  have digits := Lib.Decimal.digitsValue_decimalDigits x.natAbs
  rw [Numeral.value, integerNumeral, List.append_nil, digits]
  have unit : (10 : ℚ) ^ ((none : Option Int).getD 0 - ([] : List Digit).length : ℤ) = 1 := by
    norm_num
  rw [unit, mul_one]
  by_cases negative : x < 0
  · have abs : ((x.natAbs : ℤ) : ℚ) = ((-x : ℤ) : ℚ) := by
      rw [Int.ofNat_natAbs_of_nonpos negative.le]
    rw [if_pos (decide_eq_true negative), ← Int.cast_natCast, abs, Int.cast_neg]
    ring
  · have abs : ((x.natAbs : ℤ) : ℚ) = (x : ℚ) := by
      rw [Int.natAbs_of_nonneg (by omega)]
    rw [if_neg (by simpa using negative), ← Int.cast_natCast, abs, one_mul]

theorem decimal_bytes {n : Nat} (pos : n ≠ 0) :
    (decimalDigits n).map digitByte =
      ((Nat.digits 10 n).map fun d => UInt8.ofNat (0x30 + d)).reverse := by
  rw [decimalDigits, if_neg pos, List.map_map, ← List.map_reverse]
  apply List.map_congr_left
  intro d mem
  have small := Nat.digits_lt_base (by decide : 1 < 10) (List.mem_reverse.mp mem)
  rw [Function.comp_apply, digitByte, Fin.val_ofNat, Nat.mod_eq_of_lt small]

theorem integer_text (x : Int) :
    utf8 (integerNumeral x).text =
      (if x < 0 then [0x2d] else []) ++ (decimalDigits x.natAbs).map digitByte := by
  have text : (integerNumeral x).text =
      Numeral.signText (decide (x < 0)) ++ ((decimalDigits x.natAbs).map digitChar ++ []) := rfl
  have minus : utf8 (Numeral.signText true) = [0x2d] := by decide
  rw [text, List.append_nil, Lib.Json.utf8_append, utf8_digits]
  congr 1
  split
  · rename_i negative
    rw [decide_eq_true negative, minus]
  · rename_i positive
    rw [decide_eq_false positive]
    rfl

theorem writeInt_data (w : NitroJsonWriter) (v : Int64) :
    (w.writeInt v).data = w.data ++ utf8 (integerNumeral v.toInt).text := by
  rw [NitroJsonWriter.writeInt]
  split
  · rename_i zero
    have text : utf8 (integerNumeral (0 : Int64).toInt).text = [0x30] := by decide
    rw [zero, text, NitroJsonWriter.put_data]
  · rename_i some_
    have zero : (0 : Int64).toInt = 0 := rfl
    have pos : v.toInt.natAbs ≠ 0 := by
      intro none_
      apply some_
      rw [← Int64.toInt_inj, zero]
      omega
    have sign : v < 0 ↔ v.toInt < 0 := by rw [Int64.lt_iff_toInt_lt, zero]
    have room : (magnitude v).toNat < 10 ^ 24 := by
      have size := (magnitude v).toNat_lt
      omega
    rw [integer_text, decimal_bytes pos, NitroJsonWriter.reserve_data, tmpDigits_eq 24 _ room,
      magnitude_toNat]
    simp only [sign]

/-! ### The scientific text -/

theorem digitByte_plain (d : Digit) :
    digitByte d ≠ 0x2e ∧ digitByte d ≠ 0x65 ∧ digitByte d ≠ 0x2b ∧ digitByte d ≠ 0x2d := by
  revert d
  decide

theorem takeWhile_digits (ds : List Digit) (rest : Bytes) :
    (ds.map digitByte ++ 0x65 :: rest).takeWhile (· != 0x65) = ds.map digitByte ∧
      (ds.map digitByte ++ 0x65 :: rest).dropWhile (· != 0x65) = 0x65 :: rest := by
  induction ds with
  | nil => exact ⟨rfl, rfl⟩
  | cons d ds ih =>
      have other : (digitByte d != 0x65) = true := bne_iff_ne.mpr (digitByte_plain d).2.1
      rw [List.map_cons, List.cons_append, List.takeWhile_cons, List.dropWhile_cons, other]
      exact ⟨congrArg _ ih.1, ih.2⟩

/-- The digits are found again, with one digit and with a point behind the first. -/
theorem sciDigits_sci (d : Digit) (ds : List Digit) (rest : Bytes) :
    sciDigits (digitByte d ::
      ((if ds = [] then [] else 0x2e :: ds.map digitByte) ++ 0x65 :: rest)) =
      ((d :: ds).map digitByte, 0x65 :: rest) := by
  cases ds with
  | nil => rfl
  | cons d' ds =>
      have others := takeWhile_digits (d' :: ds) rest
      rw [if_neg (List.cons_ne_nil d' ds), List.cons_append, sciDigits, if_pos rfl, others.1,
        others.2]
      rfl

theorem sciNumber_digits (ds : List Digit) : sciNumber (ds.map digitByte) = digitsValue ds := by
  induction ds using List.reverseRecOn with
  | nil => rfl
  | append_singleton ds d ih =>
      have byte := digitByte_toNat d
      have last : digitsValue [d] = d := Nat.ofDigits_singleton
      rw [sciNumber, List.map_append, List.foldl_append, ← sciNumber, ih, digitsValue_append, last]
      simp only [List.map_cons, List.map_nil, List.foldl_cons, List.foldl_nil, byte,
        List.length_singleton]
      push_cast
      ring

theorem sciExponent_text (e : Int) :
    sciExponent ((if e < 0 then 0x2d else 0x2b) ::
      ((if e.natAbs < 10 then [0x30] else []) ++ (decimalDigits e.natAbs).map digitByte)) = e := by
  have padded : sciNumber ((if e.natAbs < 10 then [0x30] else []) ++
      (decimalDigits e.natAbs).map digitByte) = e.natAbs := by
    have number := sciNumber_digits (decimalDigits e.natAbs)
    rw [Lib.Decimal.digitsValue_decimalDigits] at number
    split
    · have zero : sciNumber ([0x30] ++ (decimalDigits e.natAbs).map digitByte) =
          sciNumber ((decimalDigits e.natAbs).map digitByte) := rfl
      rw [zero, number]
    · exact number
  rw [sciExponent]
  by_cases negative : e < 0
  · rw [if_pos negative, if_neg (by decide), if_pos rfl, padded]
    omega
  · rw [if_neg negative, if_pos rfl, padded]
    omega

/-- The text that `std::to_chars` wrote is taken apart again. -/
theorem sci_parsed (s : Shortest) :
    (sciDigits s.sci).1 = s.digits.map digitByte ∧
      sciExponent ((sciDigits s.sci).2.drop 1) = s.exponent := by
  obtain ⟨digits, e, nonempty, short, trimmed, low, high⟩ := s
  cases digits with
  | nil => exact absurd rfl nonempty
  | cons d ds =>
      have alone : (d :: ds).length = 1 ↔ ds = [] := by
        rw [List.length_cons, Nat.succ_inj, List.length_eq_zero_iff]
      have text : Shortest.sci ⟨d :: ds, e, nonempty, short, trimmed, low, high⟩ =
          digitByte d :: ((if ds = [] then [] else 0x2e :: ds.map digitByte) ++
            0x65 :: (if e < 0 then 0x2d else 0x2b) :: ((if e.natAbs < 10 then [0x30] else []) ++
              (decimalDigits e.natAbs).map digitByte)) := by
        simp only [Shortest.sci, alone]
        rfl
      rw [text, sciDigits_sci]
      exact ⟨rfl, sciExponent_text e⟩

/-! ### The layout -/

/-- The numeral that the four branches spell. -/
def layoutNumeral (negative : Bool) (s : Shortest) : Numeral :=
  let n := s.exponent + 1
  if s.digits.length ≤ n ∧ n ≤ 21 then
    ⟨negative, s.digits ++ List.replicate (n - s.digits.length).toNat 0, [0], none⟩
  else if 0 < n ∧ n ≤ 21 then ⟨negative, s.digits.take n.toNat, s.digits.drop n.toNat, none⟩
  else if -6 < n ∧ n ≤ 0 then ⟨negative, [0], List.replicate (-n).toNat 0 ++ s.digits, none⟩
  else ⟨negative, s.digits.take 1, s.digits.drop 1, some (n - 1)⟩

/-- `0.d1…dk · 10^(e+1)`. -/
def Shortest.magnitude (s : Shortest) : ℚ :=
  digitsValue s.digits / 10 ^ s.digits.length * 10 ^ (s.exponent + 1)

/-- A numeral of these digits, up to zeros behind them. -/
theorem value_of_digits {negative : Bool} {whole fraction : List Digit} {exponent : Option Int}
    {s : Shortest} (zeros : Nat)
    (digits : digitsValue (whole ++ fraction) = digitsValue s.digits * 10 ^ zeros)
    (point : zeros + (exponent.getD 0 - fraction.length) = s.exponent + 1 - s.digits.length) :
    (Numeral.mk negative whole fraction exponent).value =
      (if negative then -1 else 1) * s.magnitude := by
  have ten : (10 : ℚ) ≠ 0 := by norm_num
  have scale : (10 : ℚ) ^ zeros * 10 ^ (exponent.getD 0 - fraction.length : ℤ) =
      10 ^ (s.exponent + 1) / 10 ^ s.digits.length := by
    rw [← zpow_natCast, ← zpow_add₀ ten, point, zpow_sub₀ ten, zpow_natCast]
  rw [Numeral.value, Shortest.magnitude]
  dsimp only
  rw [digits, Nat.cast_mul, Nat.cast_pow, Nat.cast_ofNat, mul_assoc, mul_assoc, scale]
  ring

theorem layoutNumeral_value (negative : Bool) (s : Shortest) :
    (layoutNumeral negative s).value = (if negative then -1 else 1) * s.magnitude := by
  have some_ := List.length_pos_of_ne_nil s.nonempty
  unfold layoutNumeral
  dsimp only
  split
  · apply value_of_digits ((s.exponent + 1 - s.digits.length).toNat + 1)
    · have last : [0] = List.replicate 1 (0 : Digit) := rfl
      rw [last, List.append_assoc, List.replicate_append_replicate,
        Lib.Decimal.digitsValue_append_zeros]
    · rw [Option.getD_none, List.length_singleton]
      omega
  split
  · apply value_of_digits 0
    · rw [List.take_append_drop, pow_zero, mul_one]
    · rw [Option.getD_none, List.length_drop]
      omega
  split
  · apply value_of_digits 0
    · have first : [0] = List.replicate 1 (0 : Digit) := rfl
      rw [← List.append_assoc, first, List.replicate_append_replicate,
        Lib.Decimal.digitsValue_zeros_append, pow_zero, mul_one]
    · rw [Option.getD_none, List.length_append, List.length_replicate]
      omega
  · apply value_of_digits 0
    · rw [List.take_append_drop, pow_zero, mul_one]
    · rw [Option.getD_some, List.length_drop]
      omega

/-- Where the point can stand without an exponent, it does, and a digit follows it. -/
theorem layoutNumeral_form (negative : Bool) (s : Shortest) :
    (layoutNumeral negative s).negative = negative ∧
      if -6 ≤ s.exponent ∧ s.exponent < 21 then
        (layoutNumeral negative s).fraction ≠ [] ∧ (layoutNumeral negative s).exponent = none
      else (layoutNumeral negative s).exponent = some s.exponent := by
  unfold layoutNumeral
  dsimp only
  split
  · rw [if_pos (by omega)]
    exact ⟨rfl, List.cons_ne_nil _ _, rfl⟩
  split
  · rw [if_pos (by omega)]
    refine ⟨rfl, ?_, rfl⟩
    rw [ne_eq, List.drop_eq_nil_iff]
    omega
  split
  · rw [if_pos (by omega)]
    exact ⟨rfl, List.append_ne_nil_of_right_ne_nil _ s.nonempty, rfl⟩
  · rw [if_neg (by omega)]
    exact ⟨rfl, congrArg some (Int.add_sub_cancel s.exponent 1)⟩

theorem utf8_fraction (ds : List Digit) :
    utf8 (Numeral.fractionText ds) = if ds = [] then [] else 0x2e :: ds.map digitByte := by
  cases ds with
  | nil => rfl
  | cons d ds =>
      have point : String.utf8EncodeChar '.' = [0x2e] := by decide
      rw [Numeral.fractionText, Lib.Json.utf8_cons, point, utf8_digits,
        if_neg (List.cons_ne_nil d ds), List.singleton_append]

/-- The bytes of a numeral behind its sign. -/
theorem utf8_text (negative : Bool) (whole fraction : List Digit) (exponent : Option Int) :
    utf8 (Numeral.mk negative whole fraction exponent).text =
      (if negative then [0x2d] else []) ++ (whole.map digitByte ++
        ((if fraction = [] then [] else 0x2e :: fraction.map digitByte) ++
          utf8 (Numeral.exponentText exponent))) := by
  have sign : utf8 (Numeral.signText negative) = if negative then [0x2d] else [] := by
    cases negative with
    | false => rfl
    | true => decide
  rw [Numeral.text]
  simp only [Lib.Json.utf8_append, utf8_digits, utf8_fraction, sign]

theorem writeExponent_data (w : NitroJsonWriter) {x : Int} (low : -324 ≤ x) (high : x ≤ 308) :
    (w.writeExponent x).data = w.data ++ utf8 (Numeral.exponentText (some x)) := by
  have e : String.utf8EncodeChar 'e' = [0x65] := by decide
  have plus : String.utf8EncodeChar '+' = [0x2b] := by decide
  have minus : String.utf8EncodeChar '-' = [0x2d] := by decide
  have number : ∀ y : Int, 0 ≤ y → y ≤ 324 → (Int64.ofInt y).toInt = y := by
    intro y pos small
    exact Int64.toInt_ofInt_of_le (by norm_num; omega) (by norm_num; omega)
  rw [NitroJsonWriter.writeExponent, Numeral.exponentText]
  by_cases pos : 0 ≤ x
  · rw [if_pos pos, if_pos pos, writeInt_data, number x pos (by omega), integer_text,
      if_neg (by omega)]
    simp only [NitroJsonWriter.put_data, Lib.Json.utf8_cons, utf8_digits, e, plus,
      List.append_assoc, List.nil_append]
  · rw [if_neg pos, if_neg pos, writeInt_data, number (-x) (by omega) (by omega), integer_text,
      if_neg (by omega), Int.natAbs_neg]
    simp only [NitroJsonWriter.put_data, Lib.Json.utf8_cons, utf8_digits, e, minus,
      List.append_assoc, List.nil_append]

theorem layout_data (w : NitroJsonWriter) (negative : Bool) (s : Shortest) :
    ((if negative then w.put 0x2d else w).layout (s.digits.map digitByte) (s.exponent + 1)).data =
      w.data ++ utf8 (layoutNumeral negative s).text := by
  have some_ := List.length_pos_of_ne_nil s.nonempty
  have low := s.low
  have high := s.high
  have sign : (if negative then w.put 0x2d else w).data =
      w.data ++ (if negative then [0x2d] else []) := by
    cases negative with
    | false => exact (List.append_nil _).symm
    | true => exact w.put_data 0x2d
  have zero : digitByte 0 = 0x30 := by decide
  have nothing : utf8 (Numeral.exponentText none) = [] := rfl
  rw [NitroJsonWriter.layout, layoutNumeral]
  dsimp only
  rw [List.length_map]
  generalize (if negative = true then w.put 0x2d else w) = w' at sign ⊢
  split
  · rw [utf8_text]
    simp only [NitroJsonWriter.putN_data, NitroJsonWriter.puts_data, sign, nothing,
      List.map_append, List.map_replicate, zero, List.append_assoc, List.cons_ne_nil, if_false,
      List.map_cons, List.map_nil, List.append_nil]
  split
  · rename_i whole inside
    have rest : s.digits.drop (s.exponent + 1).toNat ≠ [] := by
      rw [ne_eq, List.drop_eq_nil_iff]
      omega
    rw [utf8_text, if_neg rest]
    simp only [NitroJsonWriter.put_data, NitroJsonWriter.puts_data, sign, nothing,
      List.map_take, List.map_drop, List.append_assoc, List.append_nil, List.singleton_append]
  split
  · have rest : List.replicate (-(s.exponent + 1)).toNat 0 ++ s.digits ≠ [] :=
      List.append_ne_nil_of_right_ne_nil _ s.nonempty
    rw [utf8_text, if_neg rest]
    simp only [NitroJsonWriter.putN_data, NitroJsonWriter.puts_data, sign, nothing,
      List.map_append, List.map_replicate, zero, List.append_assoc, List.append_nil,
      List.map_cons, List.map_nil, List.cons_append, List.nil_append]
  · have exponent : s.exponent + 1 - 1 = s.exponent := Int.add_sub_cancel s.exponent 1
    rw [utf8_text, exponent, writeExponent_data _ low high]
    obtain ⟨d, ds, digits⟩ := List.exists_cons_of_ne_nil s.nonempty
    rw [digits, List.length_cons]
    cases ds with
    | nil =>
        rw [if_neg (by simp)]
        simp [sign]
    | cons d' ds =>
        rw [if_pos (by rw [List.length_cons]; omega)]
        simp [sign]

/-- The numeral follows the grammar when the first digit is not zero. -/
theorem layoutNumeral_proper (negative : Bool) {s : Shortest} (leads : s.digits.head? ≠ some 0) :
    (layoutNumeral negative s).Proper := by
  unfold layoutNumeral
  dsimp only
  split
  · refine ⟨List.append_ne_nil_of_left_ne_nil s.nonempty _, .inr ?_⟩
    rw [List.head?_append_of_ne_nil _ s.nonempty]
    exact leads
  split
  · have first : s.digits.take (s.exponent + 1).toNat ≠ [] := by
      rw [ne_eq, List.take_eq_nil_iff]
      rintro (none_ | none_)
      · omega
      · exact s.nonempty none_
    refine ⟨first, .inr ?_⟩
    rw [List.head?_take, if_neg (by omega)]
    exact leads
  split
  · exact ⟨List.cons_ne_nil _ _, .inl rfl⟩
  · have some_ := List.length_pos_of_ne_nil s.nonempty
    have one : (s.digits.take 1).length = 1 := by
      rw [List.length_take]
      omega
    exact ⟨List.ne_nil_of_length_pos (by rw [one]; decide), .inl one⟩

def doubleNumeral : Double → Numeral
  | .zero negative => ⟨negative, [0], [0], none⟩
  | .finite negative s _ => layoutNumeral negative s

theorem writeSci_data (w : NitroJsonWriter) (negative : Bool) (s : Shortest) :
    (w.writeSci negative s.sci).data = w.data ++ utf8 (layoutNumeral negative s).text := by
  obtain ⟨digits, exponent⟩ := sci_parsed s
  have layout := layout_data (w.ensure 40) negative s
  rw [NitroJsonWriter.ensure_data] at layout
  rw [NitroJsonWriter.writeSci]
  dsimp only
  rw [digits, exponent, layout]

theorem writeDouble_data (w : NitroJsonWriter) (d : Double) :
    (w.writeDouble d).data = w.data ++ utf8 (doubleNumeral d).text := by
  cases d with
  | zero negative =>
      have text : utf8 (Numeral.mk negative [0] [0] none).text =
          (if negative then [0x2d] else []) ++ [0x30, 0x2e, 0x30] := by
        cases negative with
        | false => decide
        | true => decide
      rw [NitroJsonWriter.writeDouble, doubleNumeral, text, NitroJsonWriter.putN_data]
      cases negative with
      | false => rfl
      | true => rw [if_pos rfl, NitroJsonWriter.put_data, if_pos rfl, List.append_assoc]
  | finite negative s leads => exact writeSci_data w negative s

/-- An integer is its decimal numeral. The digits of a double are a numeral that denotes them
exactly, with its sign, without an exponent for `-6 ≤ e < 21` and then with a digit behind the
point; it follows the grammar when they start with a digit that is not zero. -/
theorem numbers_laid_out (w : NitroJsonWriter) :
    (∀ v : Int64, (w.writeInt v).data = w.data ++ utf8 (integerNumeral v.toInt).text ∧
      (integerNumeral v.toInt).value = v.toInt ∧ (integerNumeral v.toInt).Proper) ∧
    (∀ (negative : Bool) (s : Shortest),
      (w.writeSci negative s.sci).data = w.data ++ utf8 (layoutNumeral negative s).text ∧
      (layoutNumeral negative s).value = (if negative then -1 else 1) *
        (digitsValue s.digits / 10 ^ s.digits.length * 10 ^ (s.exponent + 1)) ∧
      (layoutNumeral negative s).negative = negative ∧
      (if -6 ≤ s.exponent ∧ s.exponent < 21 then
        (layoutNumeral negative s).fraction ≠ [] ∧ (layoutNumeral negative s).exponent = none
      else (layoutNumeral negative s).exponent = some s.exponent) ∧
      (s.digits.head? ≠ some 0 → (layoutNumeral negative s).Proper)) ∧
    ∀ negative, (w.writeDouble (.zero negative)).data =
      w.data ++ utf8 (Numeral.mk negative [0] [0] none).text := by
  refine ⟨?_, ?_, ?_⟩
  · intro v
    exact ⟨writeInt_data w v, integerNumeral_value v.toInt, integerNumeral_proper v.toInt⟩
  · intro negative s
    obtain ⟨sign, notation_⟩ := layoutNumeral_form negative s
    exact ⟨writeSci_data w negative s, layoutNumeral_value negative s, sign, notation_,
      layoutNumeral_proper negative⟩
  · intro negative
    exact writeDouble_data w (.zero negative)

end NitroServer.Json
