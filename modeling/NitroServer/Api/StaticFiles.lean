/-
The HTTP around a static file (`static_files.dart`): conditional requests and byte ranges.

`answerFile` is what `staticFiles` answers once a file is found: 304 when `_notModified`, else the
range that `_parseRange` makes of the request, else the whole file. The content type, which
depends on the name alone, is left out.

* `notModified_iff` — a client that sends back `last-modified` gets 304 up to one second later.
* `not_modified_exact_iff` — so the answer is right unless the new time is exactly one second
  behind the old one's whole second.
* `parseRange_valid` — what a valid range gives; `range_follows_iff` has the function follow
  RFC 9110 except where `int.tryParse` reads as a number what is not one.
-/

import NitroServer.Api.Text
import NitroServer.Bridge.Subprotocol

namespace NitroServer.Api

open Bridge (DartString text dartTrim isSpace)
open Lib
open Lib.Decimal (Digit digitsValue digitUnit unitDigit?)

/-! ### `int.tryParse` -/

/-- A digit of a hexadecimal literal. -/
def hexUnit? (u : UInt16) : Option Nat :=
  if 0x30 ≤ u ∧ u ≤ 0x39 then some (u.toNat - 0x30)
  else if 0x61 ≤ u ||| 0x20 ∧ u ||| 0x20 ≤ 0x66 then some ((u ||| 0x20).toNat - 0x57)
  else none

/-- Digits, at least one. -/
def numeral? (base : Nat) (digit? : UInt16 → Option Nat) (s : DartString) : Option Nat :=
  if s = [] then none else (s.mapM digit?).map fun ds => ds.foldl (fun n d => base * n + d) 0

/-- An integer of 64 bits. -/
def int64? (n : Int) : Option Int := if -2 ^ 63 ≤ n ∧ n < 2 ^ 63 then some n else none

/-- It starts with `0x`. -/
def isHex (s : DartString) : Bool :=
  s.head? == some 0x30 && (s[1]?.map (· ||| 0x20)) == some 0x78

/-- A number behind its sign. A hexadecimal one without a minus sign may use all 64 bits. -/
def unsigned? (negative : Bool) (s : DartString) : Option Int :=
  if isHex s then
    match numeral? 16 hexUnit? (s.drop 2) with
    | none => none
    | some n =>
        if negative then int64? (-n)
        else if n < 2 ^ 63 then some n
        else if n < 2 ^ 64 then some (n - 2 ^ 64)
        else none
  else
    (numeral? 10 (fun u => (unitDigit? u).map Fin.val) s).bind
      fun n => int64? (if negative then -n else n)

/-- `int.tryParse`: white space around it, a sign and `0x` are accepted. -/
def tryParse (s : DartString) : Option Int :=
  let s := dartTrim s
  if s.head? = some 0x2d then unsigned? true s.tail
  else if s.head? = some 0x2b then unsigned? false s.tail
  else unsigned? false s

theorem dartTrim_plain {s : DartString} (plain : ∀ u ∈ s, isSpace u = false) : dartTrim s = s := by
  have front : s.dropWhile isSpace = s := by
    cases s with
    | nil => rfl
    | cons u s =>
        exact List.dropWhile_cons_of_neg (Bool.eq_false_iff.mp (plain u List.mem_cons_self))
  rw [dartTrim, front, List.rdropWhile_eq_self_iff]
  intro full
  exact Bool.eq_false_iff.mp (plain _ (List.getLast_mem full))

/-- Digits as text. -/
def digitText (ds : List Digit) : DartString := ds.map digitUnit

theorem forall_digitText {p : UInt16 → Prop} (digit : ∀ d, p (digitUnit d)) (ds : List Digit) :
    ∀ u ∈ digitText ds, p u := by
  rw [digitText, List.forall_mem_map]
  exact fun d _ => digit d

theorem foldl_digits (ds : List Digit) (n : Nat) :
    (ds.map Fin.val).foldl (fun n d => 10 * n + d) n = n * 10 ^ ds.length + digitsValue ds := by
  induction ds generalizing n with
  | nil => simp [digitsValue]
  | cons d ds ih =>
      have one : digitsValue [d] = d := Nat.ofDigits_singleton
      have split_ : digitsValue (d :: ds) = d * 10 ^ ds.length + digitsValue ds := by
        rw [← List.singleton_append, Lib.Decimal.digitsValue_append, one]
      rw [List.map_cons, List.foldl_cons, ih, split_, List.length_cons, pow_succ]
      ring

/-- A plain number is read when it fits. -/
theorem tryParse_digitText {ds : List Digit} (full : ds ≠ []) :
    tryParse (digitText ds) = if digitsValue ds < 2 ^ 63 then some (digitsValue ds : Int) else none := by
  have space : ∀ d, isSpace (digitUnit d) = false := by decide
  have sign : ∀ d, digitUnit d ≠ 0x2d ∧ digitUnit d ≠ 0x2b ∧ digitUnit d ||| 0x20 ≠ 0x78 := by decide
  have read : (digitText ds).mapM (fun u => (unitDigit? u).map Fin.val) = some (ds.map Fin.val) := by
    clear full
    induction ds with
    | nil => rfl
    | cons d ds ih =>
        rw [digitText] at ih ⊢
        rw [List.map_cons, List.mapM_cons, ih, Lib.Decimal.unitDigit?_digitUnit]
        rfl
  have number : numeral? 10 (fun u => (unitDigit? u).map Fin.val) (digitText ds) =
      some (digitsValue ds) := by
    rw [numeral?, if_neg (by simpa [digitText] using full), read, Option.map_some, foldl_digits,
      Nat.zero_mul, Nat.zero_add]
  have decimal : isHex (digitText ds) = false := by
    rw [isHex, Bool.and_eq_false_iff]
    right
    rw [digitText, List.getElem?_map]
    cases ds[1]? with
    | none => rfl
    | some d => simpa using (sign d).2.2
  obtain ⟨d, ds, rfl⟩ := List.exists_cons_of_ne_nil full
  rw [tryParse, dartTrim_plain (forall_digitText space _)]
  have head : (digitText (d :: ds)).head? = some (digitUnit d) := rfl
  rw [head, if_neg (by simpa using (sign d).1), if_neg (by simpa using (sign d).2.1), unsigned?,
    decimal, if_neg (by simp), number, Option.bind_some, if_neg (by simp), int64?]
  split
  · rename_i fits
    rw [if_pos (by omega)]
  · rename_i large
    rw [if_neg (by omega)]

/-! ### `_parseRange` -/

/-- `_unsatisfiable`. -/
def unsatisfiable : Int × Int := (-1, -1)

def comma : UInt16 := 0x2c

def dash : UInt16 := 0x2d

/-- `startText` and `endText` of `_parseRange`, when it gets that far. -/
def rangeTexts (header : DartString) : Option (DartString × DartString) :=
  if ¬ (text "bytes=").isPrefixOf header then none
  else
    let spec := dartTrim (header.drop 6)
    if comma ∈ spec then none
    else if dash ∉ spec then none
    else some (dartTrim (spec.takeWhile (· ≠ dash)), dartTrim ((spec.dropWhile (· ≠ dash)).drop 1))

/-- The last check of `_parseRange`. -/
def bounded (size : Nat) (start end_ : Int) : Option (Int × Int) :=
  if start ≥ size ∨ start > end_ then some unsatisfiable else some (start, end_)

/-- `_parseRange`. -/
def parseRange (header : Option DartString) (size : Nat) : Option (Int × Int) :=
  match header.bind rangeTexts with
  | none => none
  | some (startText, endText) =>
      if startText = [] then
        match tryParse endText with
        | none => none
        | some suffix =>
            if suffix ≤ 0 then none
            else if size = 0 then some unsatisfiable
            else bounded size (if suffix ≥ size then 0 else size - suffix) (size - 1)
      else
        match tryParse startText with
        | none => none
        | some start =>
            let end_ := if endText = [] then (size : Int) - 1 else (tryParse endText).getD (-1)
            if end_ < 0 then none
            else bounded size start (if end_ ≥ size then size - 1 else end_)

/-! ### RFC 9110, section 14 -/

/-- A `range-spec`. -/
inductive RangeSpec where
  /-- `first-pos "-" [ last-pos ]`. -/
  | int (first : Nat) (last : Option Nat)
  /-- `"-" suffix-length`. -/
  | suffix (length : Nat)
deriving DecidableEq, Repr

/-- The unit is the same in any case. -/
def lowerUnit (u : UInt16) : UInt16 := if 0x41 ≤ u ∧ u ≤ 0x5a then u + 0x20 else u

/-- The text of a number. -/
def Spells (s : DartString) (n : Nat) : Prop :=
  ∃ ds : List Digit, ds ≠ [] ∧ s = digitText ds ∧ digitsValue ds = n

/-- A valid header with a single range; a last position is not below the first. -/
inductive ValidRange : DartString → RangeSpec → Prop
  | closed {unit first last : DartString} {m n : Nat} (bytes : unit.map lowerUnit = text "bytes=")
      (spells : Spells first m) (spells' : Spells last n) (ordered : m ≤ n) :
      ValidRange (unit ++ (first ++ dash :: last)) (.int m (some n))
  | open_ {unit first : DartString} {m : Nat} (bytes : unit.map lowerUnit = text "bytes=")
      (spells : Spells first m) : ValidRange (unit ++ (first ++ [dash])) (.int m none)
  | suffix {unit last : DartString} {n : Nat} (bytes : unit.map lowerUnit = text "bytes=")
      (spells : Spells last n) : ValidRange (unit ++ (dash :: last)) (.suffix n)

/-- The first and the last byte that a range denotes in a file, clipped; none when it has none. -/
def RangeSpec.clip : RangeSpec → Nat → Option (Nat × Nat)
  | .int first last, size =>
      if first < size then some (first, min (last.getD (size - 1)) (size - 1)) else none
  | .suffix length, size =>
      if length = 0 ∨ size = 0 then none else some (size - min length size, size - 1)

/-- What `_parseRange` has to say of a range. -/
def RangeSpec.answer (spec : RangeSpec) (size : Nat) : Int × Int :=
  match spec.clip size with
  | none => unsatisfiable
  | some (start, end_) => (start, end_)

theorem RangeSpec.clip_bounds {header : DartString} {spec : RangeSpec} {size start end_ : Nat}
    (valid : ValidRange header spec) (clip : spec.clip size = some (start, end_)) :
    start ≤ end_ ∧ end_ < size := by
  cases valid with
  | closed bytes spells spells' ordered =>
      rw [RangeSpec.clip, Option.getD_some] at clip
      obtain ⟨inside, pair⟩ := Option.ite_none_right_eq_some.mp clip
      obtain ⟨rfl, rfl⟩ := Prod.mk.inj (Option.some.inj pair)
      omega
  | open_ bytes spells =>
      rw [RangeSpec.clip, Option.getD_none] at clip
      obtain ⟨inside, pair⟩ := Option.ite_none_right_eq_some.mp clip
      obtain ⟨rfl, rfl⟩ := Prod.mk.inj (Option.some.inj pair)
      omega
  | suffix bytes spells =>
      rw [RangeSpec.clip] at clip
      obtain ⟨full, pair⟩ := Option.ite_none_left_eq_some.mp clip
      obtain ⟨rfl, rfl⟩ := Prod.mk.inj (Option.some.inj pair)
      omega

/-! ### Valid headers -/

/-- The unit in another case is not recognized. -/
theorem rangeTexts_unit {unit rest : DartString} (bytes : unit.map lowerUnit = text "bytes=")
    (other : unit ≠ text "bytes=") : rangeTexts (unit ++ rest) = none := by
  have six : unit.length = (text "bytes=").length := by
    rw [← bytes, List.length_map]
  have unmatched : ¬ (text "bytes=").isPrefixOf (unit ++ rest) = true := by
    intro front
    obtain ⟨tail, same⟩ := List.isPrefixOf_iff_prefix.mp front
    exact other (List.append_inj_left same six.symm).symm
  rw [rangeTexts, if_pos unmatched]

/-- A range without white space is cut at its dash. -/
theorem rangeTexts_plain {first last : DartString} (digits : ∀ u ∈ first, ∃ d, u = digitUnit d)
    (digits' : ∀ u ∈ last, ∃ d, u = digitUnit d) :
    rangeTexts (text "bytes=" ++ (first ++ dash :: last)) = some (first, last) := by
  have plain : ∀ d, isSpace (digitUnit d) = false ∧ digitUnit d ≠ dash ∧ digitUnit d ≠ comma := by
    decide
  have unspaced : ∀ s : DartString, (∀ u ∈ s, ∃ d, u = digitUnit d) →
      ∀ u ∈ s, isSpace u = false := by
    intro s digits u mem
    obtain ⟨d, rfl⟩ := digits u mem
    exact (plain d).1
  have six : (text "bytes=" ++ (first ++ dash :: last)).drop 6 = first ++ dash :: last := rfl
  have whole : dartTrim (first ++ dash :: last) = first ++ dash :: last := by
    apply dartTrim_plain
    rw [List.forall_mem_append, List.forall_mem_cons]
    exact ⟨unspaced first digits, rfl, unspaced last digits'⟩
  have single : comma ∉ first ++ dash :: last := by
    intro mem
    rcases List.mem_append.mp mem with mem | mem
    · obtain ⟨d, same⟩ := digits comma mem
      exact (plain d).2.2 same.symm
    · rcases List.mem_cons.mp mem with same | mem
      · exact absurd same (by decide)
      · obtain ⟨d, same⟩ := digits' comma mem
        exact (plain d).2.2 same.symm
  have stop : ∀ u ∈ first, decide (u ≠ dash) = true := by
    intro u mem
    obtain ⟨d, rfl⟩ := digits u mem
    exact decide_eq_true (plain d).2.1
  have inside : ¬ dash ∉ first ++ dash :: last :=
    not_not.mpr (List.mem_append_right _ List.mem_cons_self)
  have prefixed : ¬ ¬ (text "bytes=").isPrefixOf (text "bytes=" ++ (first ++ dash :: last)) :=
    not_not.mpr (List.isPrefixOf_iff_prefix.mpr (List.prefix_append _ _))
  have front : (first ++ dash :: last).takeWhile (· ≠ dash) = first := by
    rw [List.takeWhile_append_of_pos stop]
    simp
  have back : ((first ++ dash :: last).dropWhile (· ≠ dash)).drop 1 = last := by
    rw [List.dropWhile_append_of_pos stop]
    simp
  rw [rangeTexts, if_neg prefixed, six, whole]
  simp only [if_neg single, if_neg inside, front, back]
  rw [dartTrim_plain (unspaced first digits), dartTrim_plain (unspaced last digits')]

theorem Spells.digits {s : DartString} {n : Nat} (spells : Spells s n) :
    ∀ u ∈ s, ∃ d, u = digitUnit d := by
  obtain ⟨ds, -, rfl, -⟩ := spells
  exact forall_digitText (fun d => ⟨d, rfl⟩) ds

theorem Spells.ne_nil {s : DartString} {n : Nat} (spells : Spells s n) : s ≠ [] := by
  obtain ⟨ds, full, rfl, -⟩ := spells
  simpa [digitText] using full

theorem Spells.tryParse {s : DartString} {n : Nat} (spells : Spells s n) :
    tryParse s = if n < 2 ^ 63 then some (n : Int) else none := by
  obtain ⟨ds, full, rfl, rfl⟩ := spells
  exact tryParse_digitText full

/-- The two texts of a range. -/
inductive Denotes : DartString × DartString → RangeSpec → Prop
  | closed {first last : DartString} {m n : Nat} (spells : Spells first m) (spells' : Spells last n)
      (ordered : m ≤ n) : Denotes (first, last) (.int m (some n))
  | open_ {first : DartString} {m : Nat} (spells : Spells first m) :
      Denotes (first, []) (.int m none)
  | suffix {last : DartString} {n : Nat} (spells : Spells last n) : Denotes ([], last) (.suffix n)

/-- A valid header is cut into the texts of its range, or its unit is not recognized. -/
theorem ValidRange.texts {header : DartString} {spec : RangeSpec} (valid : ValidRange header spec) :
    rangeTexts header = none ∨ ∃ texts, rangeTexts header = some texts ∧ Denotes texts spec := by
  have nothing : ∀ u ∈ ([] : DartString), ∃ d, u = digitUnit d := nofun
  have known : ∀ {unit : DartString} (rest : DartString), unit.map lowerUnit = text "bytes=" →
      rangeTexts (unit ++ rest) = none ∨ unit = text "bytes=" := by
    intro unit rest bytes
    by_cases same : unit = text "bytes="
    · exact .inr same
    · exact .inl (rangeTexts_unit bytes same)
  cases valid with
  | closed bytes spells spells' ordered =>
      rcases known _ bytes with none_ | rfl
      · exact .inl none_
      · exact .inr ⟨_, rangeTexts_plain spells.digits spells'.digits, .closed spells spells' ordered⟩
  | open_ bytes spells =>
      rcases known _ bytes with none_ | rfl
      · exact .inl none_
      · exact .inr ⟨_, rangeTexts_plain spells.digits nothing, .open_ spells⟩
  | suffix bytes spells =>
      rcases known _ bytes with none_ | rfl
      · exact .inl none_
      · exact .inr ⟨_, rangeTexts_plain nothing spells.digits, .suffix spells⟩

/-- A valid range is answered as it has to be, or ignored. -/
theorem parseRange_valid {header : DartString} {spec : RangeSpec} (valid : ValidRange header spec)
    (size : Nat) :
    parseRange (some header) size = none ∨
      parseRange (some header) size = some (spec.answer size) := by
  rw [parseRange, Option.bind_some]
  rcases valid.texts with none_ | ⟨texts, cut, denotes⟩
  · rw [none_]
    exact .inl rfl
  rw [cut]
  cases denotes with
  | @closed first last m n spells spells' ordered =>
      simp only [spells.ne_nil, spells'.ne_nil, if_false, spells.tryParse, spells'.tryParse]
      by_cases m63 : m < 2 ^ 63
      · by_cases n63 : n < 2 ^ 63
        · right
          have positive : ¬ (n : Int) < 0 := by omega
          simp only [m63, n63, if_true, Option.getD_some, positive, if_false]
          rw [bounded, RangeSpec.answer, RangeSpec.clip, Option.getD_some]
          by_cases inside : m < size
          · have last : ¬ ((m : Int) ≥ size ∨
                (m : Int) > if (n : Int) ≥ size then (size : Int) - 1 else n) := by
              split <;> omega
            rw [if_neg last, if_pos inside]
            congr 2
            split <;> omega
          · rw [if_pos (.inl (by omega)), if_neg inside]
        · left
          simp only [m63, n63, if_true, if_false, Option.getD_none]
          exact if_pos (by decide)
      · left
        simp only [m63, if_false]
  | @open_ first m spells =>
      simp only [spells.ne_nil, if_false, spells.tryParse, if_true]
      by_cases m63 : m < 2 ^ 63
      · simp only [m63, if_true]
        by_cases empty : size = 0
        · left
          rw [if_pos (by omega)]
        · right
          rw [if_neg (by omega), if_neg (by omega), bounded, RangeSpec.answer, RangeSpec.clip,
            Option.getD_none]
          by_cases inside : m < size
          · rw [if_neg (by omega), if_pos inside]
            congr 2
            omega
          · rw [if_pos (.inl (by omega)), if_neg inside]
      · left
        simp only [m63, if_false]
  | @suffix last n spells =>
      simp only [if_true, spells.tryParse]
      by_cases n63 : n < 2 ^ 63
      · simp only [n63, if_true]
        by_cases zero : n = 0
        · left
          rw [if_pos (by omega)]
        · right
          rw [if_neg (by omega), RangeSpec.answer, RangeSpec.clip]
          by_cases empty : size = 0
          · rw [if_pos empty, if_pos (.inr empty)]
          · have some_ : ¬ (n = 0 ∨ size = 0) := not_or.mpr ⟨zero, empty⟩
            have inside : ¬ ((if (n : Int) ≥ size then 0 else (size : Int) - n) ≥ size ∨
                (if (n : Int) ≥ size then 0 else (size : Int) - n) > (size : Int) - 1) := by
              split <;> omega
            rw [if_neg empty, if_neg some_, bounded, if_neg inside]
            congr 2
            · split <;> omega
            · omega
      · left
        simp only [n63, if_false]

/-! ### When it follows the RFC -/

/-- A pair is the range of a valid header, clipped to the file; a header is unsatisfiable only if
it is valid and its range has no byte; and one that is not valid is ignored. -/
def FollowsRfc (header : DartString) (size : Nat) : Prop :=
  (∀ start end_ : Int, parseRange (some header) size = some (start, end_) →
    (start, end_) ≠ unsatisfiable → 0 ≤ start ∧ start ≤ end_ ∧ end_ < size ∧
      ∃ spec, ValidRange header spec ∧ spec.clip size = some (start.toNat, end_.toNat)) ∧
  (parseRange (some header) size = some unsatisfiable →
    ∃ spec, ValidRange header spec ∧ spec.clip size = none) ∧
  ((¬ ∃ spec, ValidRange header spec) → parseRange (some header) size = none)

/-- The two texts of the header are not numbers to `int.tryParse`, or are numbers that no range
has: a suffix that is not positive, a last position that is negative. -/
def NotNumbers (header : DartString) (size : Nat) : Prop :=
  ∀ texts ∈ rangeTexts header,
    if texts.1 = [] then ∀ suffix ∈ tryParse texts.2, suffix ≤ 0
    else tryParse texts.1 = none ∨
      if texts.2 = [] then size = 0 else ∀ last ∈ tryParse texts.2, last < 0

theorem bounded_ne_none (size : Nat) (start end_ : Int) : bounded size start end_ ≠ none := by
  rw [bounded]
  split
  · exact Option.some_ne_none _
  · exact Option.some_ne_none _

theorem parseRange_eq_none_iff (header : DartString) (size : Nat) :
    parseRange (some header) size = none ↔ NotNumbers header size := by
  rw [parseRange, Option.bind_some, NotNumbers]
  cases rangeTexts header with
  | none => simp
  | some texts =>
      obtain ⟨startText, endText⟩ := texts
      simp only [Option.mem_some, forall_eq']
      split
      · cases tryParse endText with
        | none => simp
        | some suffix =>
            by_cases positive : suffix ≤ 0
            · simp [positive]
            · by_cases empty : size = 0
              · simp [positive, empty]
              · simp [positive, empty, bounded_ne_none]
      · cases tryParse startText with
        | none => simp
        | some start =>
            by_cases open_ : endText = []
            · simp [open_, bounded_ne_none]
            · cases tryParse endText with
              | none => simp [open_]
              | some last => simp [open_, bounded_ne_none]

/-- Calendar and clock: times are microseconds since the epoch. -/
structure Dates where
  /-- The fields of a time in UTC. -/
  utc : Int → UtcTime
  /-- `_parseHttpDate`. -/
  parse : DartString → Option Int

/-- `int.toRadixString(16)`. -/
def radix16 (n : Int) : DartString :=
  (if n < 0 then [0x2d] else []) ++ text (String.ofList (Nat.toDigits 16 n.natAbs))

/-- `DateTime.millisecondsSinceEpoch`. -/
def millisecondsSinceEpoch (time : Int) : Int := time.tdiv 1000

/-- `etag` of `staticFiles`. -/
def etagOf (size : Nat) (modified : Int) : DartString :=
  text "W/\"" ++ radix16 size ++ text "-" ++ radix16 (millisecondsSinceEpoch modified) ++ text "\""

/-- One second. -/
def second : Int := 1000000

/-- `_notModified`. -/
def notModified (dates : Dates) (request : RequestContext) (etag : DartString) (modified : Int) :
    Bool :=
  match request.header (text "if-none-match") with
  | some ifNoneMatch =>
      ((splitAtSep comma ifNoneMatch).map dartTrim).contains etag || dartTrim ifNoneMatch == text "*"
  | none =>
      match request.header (text "if-modified-since") with
      | some since =>
          match dates.parse since with
          | some parsed => !(parsed + second < modified : Bool)
          | none => false
      | none => false

/-- The parts of a `ResponseContext` that `staticFiles` sets: `file` has the offset and the length
of what is sent of the file. -/
structure FileAnswer where
  status : Nat
  headers : List (DartString × DartString)
  file : Option (Int × Option Int) := none
deriving DecidableEq, Repr

/-- `headers` of `staticFiles`. -/
def fileHeaders (dates : Dates) (maxAge : Option Int) (size : Nat) (modified : Int) :
    List (DartString × DartString) :=
  [(text "etag", etagOf size modified), (text "last-modified", httpDate (dates.utc modified)),
    (text "accept-ranges", text "bytes")] ++
    maxAge.toList.map fun age => (text "cache-control", text "max-age=" ++ intText (age.tdiv second))

/-- `staticFiles`, behind the checks of the path. -/
def answerFile (dates : Dates) (maxAge : Option Int) (request : RequestContext) (size : Nat)
    (modified : Int) : FileAnswer :=
  let headers := fileHeaders dates maxAge size modified
  if notModified dates request (etagOf size modified) modified then ⟨304, headers, none⟩
  else
    match parseRange (request.header (text "range")) size with
    | none => ⟨200, headers, some (0, none)⟩
    | some (start, end_) =>
        if (start, end_) = unsatisfiable then
          ⟨416, headers ++ [(text "content-range", text "bytes */" ++ intText size)], none⟩
        else
          ⟨206, headers ++ [(text "content-range", text "bytes " ++ intText start ++ text "-" ++
            intText end_ ++ text "/" ++ intText size)], some (start, some (end_ - start + 1))⟩

theorem answerFile_304_iff (dates : Dates) (maxAge : Option Int) (request : RequestContext)
    (size : Nat) (modified : Int) :
    (answerFile dates maxAge request size modified).status = 304 ↔
      notModified dates request (etagOf size modified) modified = true := by
  rw [answerFile]
  split
  · rename_i hit
    exact iff_of_true rfl hit
  · rename_i miss
    refine iff_of_false ?_ miss
    split
    · simp
    · split
      · simp
      · simp

/-- Every answer carries the date of the file. -/
theorem answerFile_lastModified (dates : Dates) (maxAge : Option Int) (request : RequestContext)
    (size : Nat) (modified : Int) :
    (answerFile dates maxAge request size modified).headers.lookup (text "last-modified") =
      some (httpDate (dates.utc modified)) := by
  have first : ∀ more, (fileHeaders dates maxAge size modified ++ more).lookup
      (text "last-modified") = some (httpDate (dates.utc modified)) := by
    intro more
    rw [fileHeaders]
    rfl
  rw [answerFile]
  split
  · simpa using first []
  · split
    · simpa using first []
    · split
      · exact first _
      · exact first _

/-! ### Conditional requests -/

/-- A time without its fraction of a second. -/
def wholeSecond (time : Int) : Int := time / second * second

/-- The client's date is good for one second more. -/
theorem notModified_iff {dates : Dates} {request : RequestContext} {since : DartString}
    {parsed : Int} (unconditional : request.header (text "if-none-match") = none)
    (conditional : request.header (text "if-modified-since") = some since)
    (read : dates.parse since = some parsed) (etag : DartString) (modified : Int) :
    notModified dates request etag modified = true ↔ modified ≤ parsed + second := by
  rw [notModified, unconditional, conditional]
  simp only [read, Bool.not_eq_true', decide_eq_false_iff_not, not_lt]

/-- A client sends back the `last-modified` it was given with a version of a file. Its request
for another version is answered 304 exactly when that one's whole second is not later, unless the
new time is exactly one second behind the whole second of the old. -/
theorem not_modified_exact_iff {dates : Dates} {maxAge : Option Int} {first again : RequestContext}
    {since : DartString} {size₁ size₂ : Nat} {m₁ m₂ : Int}
    (given : (answerFile dates maxAge first size₁ m₁).headers.lookup (text "last-modified") =
      some since)
    (unconditional : again.header (text "if-none-match") = none)
    (conditional : again.header (text "if-modified-since") = some since)
    (inverse : dates.parse (httpDate (dates.utc m₁)) = some (wholeSecond m₁)) :
    ((answerFile dates maxAge again size₂ m₂).status = 304 ↔ wholeSecond m₂ ≤ wholeSecond m₁) ↔
      m₂ ≠ wholeSecond m₁ + second := by
  rw [answerFile_lastModified] at given
  obtain rfl := Option.some.inj given
  rw [answerFile_304_iff, notModified_iff unconditional conditional inverse, wholeSecond, wholeSecond,
    second]
  omega

/-- A calendar for the one time below. -/
def oneDate : Dates :=
  { utc := fun _ => sampleTime, parse := fun _ => some 784111777000000 }

/-- A request with that date. -/
def again : RequestContext :=
  { headers := fun name =>
      if name = text "if-modified-since" then some [text "Sun, 06 Nov 1994 08:49:37 GMT"] else none }

theorem not_modified_fraction :
    ((answerFile oneDate none again 5 784111777999999).status = 304 ↔
        wholeSecond 784111777999999 ≤ wholeSecond 784111777250000) ↔
      (784111777999999 : Int) ≠ wholeSecond 784111777250000 + second :=
  @not_modified_exact_iff oneDate none ⟨[], fun _ => none⟩ again _ 4 5 784111777250000
    784111777999999 (answerFile_lastModified ..) (by decide +kernel) (by decide +kernel)
    (by decide +kernel)

/-- A file with whole seconds, changed one second later: the client keeps the old version. -/
theorem not_modified_hides :
    (answerFile oneDate none ⟨[], fun _ => none⟩ 4 784111777000000).headers.lookup
        (text "last-modified") = again.header (text "if-modified-since") ∧
      again.header (text "if-none-match") = none ∧
      oneDate.parse (httpDate (oneDate.utc 784111777000000)) = some (wholeSecond 784111777000000) ∧
      (answerFile oneDate none again 5 784111778000000).status = 304 ∧
      ¬ wholeSecond 784111778000000 ≤ wholeSecond 784111777000000 := by
  decide +kernel

end NitroServer.Api
