/-
The two views of a query string (`context.dart`): `queryParameters`, one value for each name, and
`queryParametersAll`, all of them.

The first is Dart's `Uri.splitQueryString`, and the last values of the second when that throws an
`ArgumentError`. Two things come between them. Escapes that are not UTF-8 throw a
`FormatException`, which neither catches. And `splitQueryString` skips a pair with an empty key,
which the second view keeps.

* `utf8Decode_eq_some_iff` — the decoder reads exactly the encodings.
* `parseQueryAll_ok_iff` — the second view throws exactly on escapes that are not UTF-8.
* `query_views_iff` — when both views return and agree.
-/

import NitroServer.Bridge.Text
import NitroServer.Lib.Loops
import NitroServer.Lib.Search
import NitroServer.Ws.CodeSpace

namespace NitroServer.Api

open Bridge (DartString text charUnits)
open Engine (Bytes)
open Engine.Ws (front front_char)
open Lib

/-! ### `utf8.decode` -/

/-- The characters of a byte string, each read by its lead byte and checked against its own
encoding. -/
def readChars : Nat → Bytes → Option (List Char)
  | _, [] => some []
  | 0, _ :: _ => none
  | fuel + 1, b :: bytes =>
      let c := Char.ofNat (front (b :: bytes)).1
      let rest := (front (b :: bytes)).2
      if String.utf8EncodeChar c ++ rest = b :: bytes then (readChars fuel rest).map (c :: ·)
      else none

/-- The characters whose encoding the bytes are. -/
def utf8Chars (bytes : Bytes) : Option (List Char) := readChars bytes.length bytes

theorem readChars_sound {fuel : Nat} {bytes : Bytes} {cs : List Char}
    (read : readChars fuel bytes = some cs) : bytes = cs.flatMap String.utf8EncodeChar := by
  induction fuel generalizing bytes cs with
  | zero =>
      cases bytes with
      | nil => rw [← Option.some.inj read]; rfl
      | cons b bytes => cases read
  | succ fuel ih =>
      cases bytes with
      | nil => rw [← Option.some.inj read]; rfl
      | cons b bytes =>
          rw [readChars] at read
          obtain ⟨encoded, read⟩ := Option.ite_none_right_eq_some.mp read
          obtain ⟨more, tail, rfl⟩ := Option.map_eq_some_iff.mp read
          rw [List.flatMap_cons, ← ih tail]
          exact encoded.symm

theorem readChars_complete (cs : List Char) {fuel : Nat}
    (enough : (cs.flatMap String.utf8EncodeChar).length ≤ fuel) :
    readChars fuel (cs.flatMap String.utf8EncodeChar) = some cs := by
  induction cs generalizing fuel with
  | nil => cases fuel <;> rfl
  | cons c cs ih =>
      rw [List.flatMap_cons] at enough ⊢
      have at_ := front_char c (cs.flatMap String.utf8EncodeChar)
      obtain ⟨b, rest, shape⟩ := List.exists_cons_of_ne_nil (String.utf8EncodeChar_ne_nil (c := c))
      rw [List.length_append, shape, List.length_cons] at enough
      obtain ⟨fuel, rfl⟩ : ∃ f, fuel = f + 1 := ⟨fuel - 1, by omega⟩
      rw [shape, List.cons_append] at at_ ⊢
      rw [readChars]
      simp only [at_]
      rw [Char.ofNat_toNat, shape, List.cons_append, if_pos rfl, ih (by omega)]
      rfl

theorem utf8Chars_eq_some_iff {bytes : Bytes} {cs : List Char} :
    utf8Chars bytes = some cs ↔ bytes = cs.flatMap String.utf8EncodeChar := by
  constructor
  · exact readChars_sound
  · rintro rfl
    exact readChars_complete cs le_rfl

/-- A byte order mark in front is dropped. -/
def withoutBom : List Char → List Char
  | [] => []
  | c :: cs => if c.toNat = 0xfeff then cs else c :: cs

/-- `utf8.decode`; `none` is the `FormatException`. -/
def utf8Decode (bytes : Bytes) : Option DartString :=
  (utf8Chars bytes).map fun cs => (withoutBom cs).flatMap charUnits

/-! ### `Uri.decodeQueryComponent` -/

inductive DecodeError where
  | argument | format
deriving DecidableEq, Repr

def percent : UInt16 := 0x25

def plus : UInt16 := 0x2b

/-- A digit of `_hexCharPairToByte`. -/
def hexDigit? (u : UInt16) : Option Nat :=
  if 0x30 ≤ u ∧ u ≤ 0x39 then some (u.toNat - 0x30)
  else if 0x61 ≤ u ||| 0x20 ∧ u ||| 0x20 ≤ 0x66 then some ((u ||| 0x20).toNat - 0x57)
  else none

/-- The loop of `_uriDecode` with `plusToSpace`; `none` is the `ArgumentError`. -/
def uriBytes : DartString → Option Bytes
  | [] => some []
  | u :: s =>
      if 127 < u then none
      else if u = percent then
        match s with
        | a :: b :: s =>
            match hexDigit? a, hexDigit? b with
            | some high, some low => (uriBytes s).map (UInt8.ofNat (16 * high + low) :: ·)
            | _, _ => none
        | _ => none
      else if u = plus then (uriBytes s).map (0x20 :: ·)
      else (uriBytes s).map (UInt8.ofNat u.toNat :: ·)

/-- A unit that is copied as it is. -/
def isSimple (u : UInt16) : Bool := u ≤ 127 && u != percent && u != plus

/-- `Uri.decodeQueryComponent`. -/
def decodeQueryComponent (s : DartString) : Except DecodeError DartString :=
  if s.all isSimple then .ok s
  else
    match uriBytes s with
    | none => .error .argument
    | some bytes =>
        match utf8Decode bytes with
        | none => .error .format
        | some decoded => .ok decoded

/-- Escapes that are not UTF-8. -/
def BadUtf8 (s : DartString) : Prop := decodeQueryComponent s = .error .format

/-- A malformed escape, or a unit that is not ASCII beside an escape or a plus sign. -/
def BadEscape (s : DartString) : Prop := decodeQueryComponent s = .error .argument

instance : DecidablePred BadUtf8 := fun _ => inferInstanceAs (Decidable (_ = _))

instance : DecidablePred BadEscape := fun _ => inferInstanceAs (Decidable (_ = _))

/-! ### The two views -/

def ampersand : UInt16 := 0x26

def equalsSign : UInt16 := 0x3d

/-- The pair up to its first equals sign. -/
def keyText (pair : DartString) : DartString := pair.takeWhile (· ≠ equalsSign)

/-- The pair behind its first equals sign. -/
def valueText (pair : DartString) : DartString := (pair.dropWhile (· ≠ equalsSign)).drop 1

/-- `_decodeLenient`. -/
def decodeLenient (component : DartString) : Except DecodeError DartString :=
  match decodeQueryComponent component with
  | .error .argument => .ok component
  | out => out

/-- A pair of a non-empty key, and a value, as `decode` reads them. -/
def decodePair (decode : DartString → Except DecodeError DartString) (pair : DartString) :
    Except DecodeError (DartString × DartString) := do
  let key ← decode (keyText pair)
  let value ← decode (valueText pair)
  return (key, value)

/-- `Uri.splitQueryString`. -/
def splitQueryString (query : DartString) : Except DecodeError (Table DartString DartString) :=
  (splitAtSep ampersand query).foldlM (fun map element => do
    if equalsSign ∉ element then
      if element ≠ [] then
        let key ← decodeQueryComponent element
        return map.set key []
      else return map
    else if element.head? ≠ some equalsSign then
      let key ← decodeQueryComponent (keyText element)
      let value ← decodeQueryComponent (valueText element)
      return map.set key value
    else return map) .empty

/-- `_parseQueryAll`. -/
def parseQueryAll (query : DartString) :
    Except DecodeError (Table DartString (List DartString)) :=
  if query = [] then .ok .empty
  else (splitAtSep ampersand query).foldlM (fun out pair => do
    if pair = [] then return out
    else
      let key := if equalsSign ∉ pair then pair else keyText pair
      let value := if equalsSign ∉ pair then [] else valueText pair
      let key ← decodeLenient key
      let value ← decodeLenient value
      return out.set key ((out.find key).getD [] ++ [value])) .empty

/-- `{for (final e in entries) e.key: e.value.last}`. -/
def lastValues (all : Table DartString (List DartString)) : Table DartString DartString :=
  assigned (all.entries.filterMap fun e => e.2.getLast?.map fun value => (e.1, value))

/-- `_parseQuery`. -/
def parseQuery (query : DartString) : Except DecodeError (Table DartString DartString) :=
  if query = [] then .ok .empty
  else
    match splitQueryString query with
    | .error .argument => (parseQueryAll query).map lastValues
    | out => out

/-! ### The pairs -/

/-- The pairs of a query that are not empty. -/
def pairs (query : DartString) : List DartString :=
  (splitAtSep ampersand query).filter fun pair => decide (pair ≠ [])

/-- Those that do not start with an equals sign. -/
def namedPairs (query : DartString) : List DartString :=
  (pairs query).filter fun pair => decide (keyText pair ≠ [])

/-- A component as the second view has it. -/
def lenient (component : DartString) : DartString :=
  match decodeQueryComponent component with
  | .ok decoded => decoded
  | .error _ => component

/-- A pair as the second view has it. -/
def entry (pair : DartString) : DartString × DartString :=
  (lenient (keyText pair), lenient (valueText pair))

theorem keyText_of_not_mem {pair : DartString} (whole : equalsSign ∉ pair) : keyText pair = pair := by
  rw [keyText, List.takeWhile_eq_self_iff]
  intro u mem
  exact decide_eq_true fun same => whole (same ▸ mem)

theorem valueText_of_not_mem {pair : DartString} (whole : equalsSign ∉ pair) :
    valueText pair = [] := by
  have all : pair.dropWhile (· ≠ equalsSign) = [] := by
    rw [List.dropWhile_eq_nil_iff]
    intro u mem
    exact decide_eq_true fun same => whole (same ▸ mem)
  rw [valueText, all, List.drop_nil]

theorem keyText_eq_nil_iff {pair : DartString} :
    keyText pair = [] ↔ pair = [] ∨ pair.head? = some equalsSign := by
  cases pair with
  | nil => simp [keyText]
  | cons u pair =>
      rw [keyText, List.takeWhile_cons]
      by_cases first : u = equalsSign
      · simp [first]
      · simp [first]

theorem decode_nil : decodeQueryComponent [] = .ok [] := rfl

/-- A loop over the pairs that `keep` lets pass. -/
theorem foldlM_keep {σ : Type} (keep : DartString → Bool)
    (decode : DartString → Except DecodeError DartString)
    (update : σ → DartString × DartString → σ) {body : σ → DartString → Except DecodeError σ}
    (skip : ∀ s pair, keep pair = false → body s pair = .ok s)
    (take : ∀ s pair, keep pair = true → body s pair = (decodePair decode pair).map (update s))
    (l : List DartString) (s : σ) :
    l.foldlM body s =
      (l.filter keep).foldlM (fun s pair => (decodePair decode pair).map (update s)) s := by
  rw [List.foldlM_filter]
  congr 1
  funext s pair
  cases kept : keep pair with
  | false => exact skip s pair kept
  | true => exact take s pair kept

theorem splitQueryString_eq (query : DartString) :
    splitQueryString query = (namedPairs query).foldlM
      (fun t pair => (decodePair decodeQueryComponent pair).map fun e => t.set e.1 e.2) .empty := by
  have named : namedPairs query = (splitAtSep ampersand query).filter fun pair =>
      decide (keyText pair ≠ []) := by
    rw [namedPairs, pairs, List.filter_filter]
    apply List.filter_congr
    intro pair _
    by_cases full : pair = []
    · simp [full, keyText]
    · simp [full]
  rw [named, splitQueryString]
  refine foldlM_keep _ decodeQueryComponent (fun (t : Table DartString DartString) e =>
    t.set e.1 e.2) ?_ ?_ _ _
  · intro t pair unnamed
    have empty : keyText pair = [] := by simpa using unnamed
    rcases keyText_eq_nil_iff.mp empty with rfl | first
    · rfl
    · have inside : equalsSign ∈ pair := List.mem_of_head? first
      simp only [inside, not_true_eq_false, if_false, first, ne_eq]
      rfl
  · intro t pair named
    have full : keyText pair ≠ [] := by simpa using named
    rw [ne_eq, keyText_eq_nil_iff, not_or] at full
    by_cases inside : equalsSign ∈ pair
    · simp only [inside, not_true_eq_false, if_false, full.2, ne_eq, not_false_eq_true, if_true]
      rw [decodePair]
      cases decodeQueryComponent (keyText pair) with
      | error e => rfl
      | ok key =>
          cases decodeQueryComponent (valueText pair) with
          | error e => rfl
          | ok value => rfl
    · simp only [inside, not_false_eq_true, if_true, full.1, ne_eq]
      rw [decodePair, keyText_of_not_mem inside, valueText_of_not_mem inside, decode_nil]
      cases decodeQueryComponent pair with
      | error e => rfl
      | ok key => rfl

theorem parseQueryAll_eq (query : DartString) :
    parseQueryAll query = (pairs query).foldlM
      (fun t pair => (decodePair decodeLenient pair).map fun e =>
        t.set e.1 ((t.find e.1).getD [] ++ [e.2])) .empty := by
  rw [parseQueryAll]
  split
  · rename_i empty
    rw [empty]
    rfl
  · rw [pairs]
    refine foldlM_keep _ decodeLenient
      (fun (t : Table DartString (List DartString)) e => t.set e.1 ((t.find e.1).getD [] ++ [e.2])) ?_ ?_ _ _
    · intro t pair empty
      have nil : pair = [] := by simpa using empty
      rw [if_pos nil]
      rfl
    · intro t pair full
      have nonempty : pair ≠ [] := by simpa using full
      have key : (if equalsSign ∉ pair then pair else keyText pair) = keyText pair := by
        split
        · rename_i whole
          exact (keyText_of_not_mem whole).symm
        · rfl
      have value : (if equalsSign ∉ pair then [] else valueText pair) = valueText pair := by
        split
        · rename_i whole
          exact (valueText_of_not_mem whole).symm
        · rfl
      rw [if_neg nonempty]
      simp only [key, value]
      rw [decodePair]
      cases decodeLenient (keyText pair) with
      | error e => rfl
      | ok key =>
          cases decodeLenient (valueText pair) with
          | error e => rfl
          | ok value => rfl

/-! ### What throws -/

theorem decodeQueryComponent_eq {component : DartString} (utf8 : ¬ BadUtf8 component)
    (escape : ¬ BadEscape component) :
    decodeQueryComponent component = .ok (lenient component) := by
  rw [BadUtf8] at utf8
  rw [BadEscape] at escape
  rw [lenient]
  cases out : decodeQueryComponent component with
  | ok decoded => rfl
  | error e =>
      cases e with
      | argument => exact absurd out escape
      | format => exact absurd out utf8

theorem decodeLenient_eq {component : DartString} (utf8 : ¬ BadUtf8 component) :
    decodeLenient component = .ok (lenient component) := by
  by_cases escape : BadEscape component
  · rw [BadEscape] at escape
    rw [decodeLenient, lenient, escape]
  · have out := decodeQueryComponent_eq utf8 escape
    rw [decodeLenient, out]

theorem decodeLenient_badUtf8 {component : DartString} (bad : BadUtf8 component) :
    decodeLenient component = .error .format := by
  rw [BadUtf8] at bad
  rw [decodeLenient, bad]

/-- What a pair throws, its key or its value does. -/
theorem decodePair_error {decode : DartString → Except DecodeError DartString} {pair : DartString}
    {e : DecodeError} (error : decodePair decode pair = .error e) :
    decode (keyText pair) = .error e ∨ decode (valueText pair) = .error e := by
  rw [decodePair] at error
  cases key : decode (keyText pair) with
  | error e' =>
      rw [key] at error
      have same : (.error e' : Except DecodeError (DartString × DartString)) = .error e := error
      rw [Except.error.inj same]
      exact .inl rfl
  | ok decoded =>
      rw [key] at error
      cases value : decode (valueText pair) with
      | error e' =>
          rw [value] at error
          have same : (.error e' : Except DecodeError (DartString × DartString)) = .error e := error
          rw [Except.error.inj same]
          exact .inr rfl
      | ok decoded' =>
          rw [value] at error
          cases error

/-- No escape of the query decodes to bytes that are not UTF-8. -/
def Utf8Escapes (query : DartString) : Prop :=
  ∀ pair ∈ pairs query, ¬ BadUtf8 (keyText pair) ∧ ¬ BadUtf8 (valueText pair)

/-- The second view throws exactly on escapes that are not UTF-8; else it holds every pair. -/
theorem parseQueryAll_ok {query : DartString} (utf8 : Utf8Escapes query) :
    parseQueryAll query = .ok (collected ((pairs query).map entry)) := by
  have ok : ∀ pair ∈ pairs query, decodePair decodeLenient pair = .ok (entry pair) := by
    intro pair mem
    rw [decodePair, decodeLenient_eq (utf8 pair mem).1, decodeLenient_eq (utf8 pair mem).2]
    rfl
  rw [parseQueryAll_eq, foldlM_ok ok, collected, List.foldl_map]

theorem parseQueryAll_ok_iff {query : DartString} :
    (∃ all, parseQueryAll query = .ok all) ↔ Utf8Escapes query := by
  constructor
  · rintro ⟨all, ok⟩ pair mem
    by_contra bad
    have throws : ∃ e, decodePair decodeLenient pair = .error e := by
      rw [decodePair]
      by_cases key : BadUtf8 (keyText pair)
      · exact ⟨_, by rw [decodeLenient_badUtf8 key]; rfl⟩
      · have value : BadUtf8 (valueText pair) := by
          by_contra value
          exact bad ⟨key, value⟩
        exact ⟨_, by rw [decodeLenient_eq key, decodeLenient_badUtf8 value]; rfl⟩
    obtain ⟨e, throws⟩ := throws
    cases first : (pairs query).findSome? (thrown (decodePair decodeLenient)) with
    | none =>
        have quiet := List.findSome?_eq_none_iff.mp first pair mem
        rw [thrown_error throws] at quiet
        cases quiet
    | some e =>
        rw [parseQueryAll_eq, foldlM_error first] at ok
        cases ok
  · exact fun utf8 => ⟨_, parseQueryAll_ok utf8⟩

/-- Some pair with a key has a malformed escape, and the first view is made of the second. -/
def FallsBack (query : DartString) : Prop :=
  ∃ pair ∈ namedPairs query, BadEscape (keyText pair) ∨ BadEscape (valueText pair)

theorem mem_pairs_of_named {query pair : DartString} (mem : pair ∈ namedPairs query) :
    pair ∈ pairs query := (List.mem_filter.mp mem).1

theorem splitQueryString_throws {query : DartString} (utf8 : Utf8Escapes query)
    (back : FallsBack query) : splitQueryString query = .error .argument := by
  obtain ⟨pair, mem, bad⟩ := back
  have throws : ∀ pair ∈ namedPairs query, ∀ e,
      decodePair decodeQueryComponent pair = .error e → e = .argument := by
    intro pair mem e error
    obtain ⟨key, value⟩ := utf8 pair (mem_pairs_of_named mem)
    cases e with
    | argument => rfl
    | format =>
        rcases decodePair_error error with bad | bad
        · exact absurd bad key
        · exact absurd bad value
  have some_ : ∃ e, decodePair decodeQueryComponent pair = .error e := by
    rw [decodePair]
    cases out : decodeQueryComponent (keyText pair) with
    | error e => exact ⟨e, rfl⟩
    | ok decoded =>
        rcases bad with key | value
        · rw [BadEscape, out] at key
          cases key
        · rw [BadEscape] at value
          exact ⟨_, by rw [value]; rfl⟩
  rw [splitQueryString_eq]
  cases first : (namedPairs query).findSome? (thrown (decodePair decodeQueryComponent)) with
  | none =>
      obtain ⟨e, error⟩ := some_
      have quiet := List.findSome?_eq_none_iff.mp first pair mem
      rw [thrown_error error] at quiet
      cases quiet
  | some e =>
      obtain ⟨pair, mem, error⟩ := List.exists_of_findSome?_eq_some first
      rw [foldlM_error first, throws pair mem e (thrown_eq_some error)]

theorem splitQueryString_ok {query : DartString} (utf8 : Utf8Escapes query)
    (straight : ¬ FallsBack query) :
    splitQueryString query = .ok (assigned ((namedPairs query).map entry)) := by
  have ok : ∀ pair ∈ namedPairs query, decodePair decodeQueryComponent pair = .ok (entry pair) := by
    intro pair mem
    obtain ⟨key, value⟩ := utf8 pair (mem_pairs_of_named mem)
    have key' : ¬ BadEscape (keyText pair) := fun bad => straight ⟨pair, mem, .inl bad⟩
    have value' : ¬ BadEscape (valueText pair) := fun bad => straight ⟨pair, mem, .inr bad⟩
    rw [decodePair, decodeQueryComponent_eq key key', decodeQueryComponent_eq value value']
    rfl
  rw [splitQueryString_eq, foldlM_ok ok, assigned, List.foldl_map]

/-! ### Agreement -/

/-- Both views return, with the same keys, and for each key the one value of the first is the
last value of the second. -/
def ViewsAgree (query : DartString) : Prop :=
  ∃ single all, parseQuery query = .ok single ∧ parseQueryAll query = .ok all ∧
    ∀ k, single.find k = (all.find k).bind List.getLast? ∧
      ((single.find k).isSome ↔ (all.find k).isSome)

/-- The pairs whose key decodes to the empty string. -/
def emptyKeyPairs (query : DartString) : List DartString :=
  (pairs query).filter fun pair => decide (lenient (keyText pair) = [])

/-- The last pair of the empty key has the value of the last one that does not start with an
equals sign. -/
def EmptyKeyKept (query : DartString) : Prop :=
  (((emptyKeyPairs query).filter fun pair => decide (keyText pair ≠ [])).getLast?.map
      fun pair => lenient (valueText pair)) =
    (emptyKeyPairs query).getLast?.map fun pair => lenient (valueText pair)

theorem valuesOf_entry (k : DartString) (l : List DartString) :
    valuesOf k (l.map entry) =
      (l.filter fun pair => decide (lenient (keyText pair) = k)).map
        fun pair => lenient (valueText pair) := by
  rw [valuesOf, List.filter_map, List.map_map]
  rfl

theorem emptyKeyKept_iff (query : DartString) :
    EmptyKeyKept query ↔ (valuesOf [] ((namedPairs query).map entry)).getLast? =
      (valuesOf [] ((pairs query).map entry)).getLast? := by
  rw [EmptyKeyKept, valuesOf_entry, valuesOf_entry, List.getLast?_map, List.getLast?_map, namedPairs,
    List.filter_comm]
  rfl

/-- A key that is not empty has its pairs in both views. -/
theorem valuesOf_named {k : DartString} (full : k ≠ []) (query : DartString) :
    valuesOf k ((namedPairs query).map entry) = valuesOf k ((pairs query).map entry) := by
  rw [valuesOf_entry, valuesOf_entry, namedPairs, List.filter_filter]
  congr 1
  apply List.filter_congr
  intro pair _
  by_cases key : lenient (keyText pair) = k
  · have named : keyText pair ≠ [] := by
      intro empty
      rw [empty] at key
      exact full key.symm
    simp [key, named]
  · simp [key]

/-- A view whose values are the last ones of the other has its keys. -/
theorem isSome_iff_of_last {es : List (DartString × DartString)} {value : Option DartString}
    {k : DartString} (last : value = ((collected es).find k).bind List.getLast?) :
    value.isSome ↔ ((collected es).find k).isSome := by
  rw [find_collected_bind] at last
  rw [last, find_collected]
  split
  · rename_i empty
    rw [empty]
    rfl
  · rename_i full
    rw [List.getLast?_isSome]
    exact iff_of_true full rfl

theorem pairs_nil : pairs [] = [] := rfl

/-- Without a fallback the first view holds the pairs with a key. -/
theorem parseQuery_ok {query : DartString} (utf8 : Utf8Escapes query)
    (straight : ¬ FallsBack query) :
    parseQuery query = .ok (assigned ((namedPairs query).map entry)) := by
  rw [parseQuery]
  split
  · rename_i empty
    rw [empty]
    rfl
  · rw [splitQueryString_ok utf8 straight]

/-- With one it holds the last values of the second. -/
theorem parseQuery_fallsBack {query : DartString} (utf8 : Utf8Escapes query)
    (back : FallsBack query) :
    parseQuery query = .ok (lastValues (collected ((pairs query).map entry))) := by
  rw [parseQuery]
  split
  · rename_i empty
    obtain ⟨pair, mem, -⟩ := back
    rw [empty] at mem
    exact absurd mem List.not_mem_nil
  · rw [splitQueryString_throws utf8 back, parseQueryAll_ok utf8]
    rfl

/-- For every query string, both views return and agree if and only if no escape decodes to bytes
that are not UTF-8 and, when no malformed escape makes the first view fall back on the second, the
pairs that start with an equals sign do not decide the empty key. -/
theorem query_views_iff (query : DartString) :
    ViewsAgree query ↔ Utf8Escapes query ∧ (FallsBack query ∨ EmptyKeyKept query) := by
  constructor
  · rintro ⟨single, all, one, many, same⟩
    have utf8 := parseQueryAll_ok_iff.mp ⟨all, many⟩
    refine ⟨utf8, ?_⟩
    by_contra neither
    rw [not_or] at neither
    rw [parseQueryAll_ok utf8] at many
    obtain rfl := Except.ok.inj many
    rw [parseQuery_ok utf8 neither.1] at one
    obtain rfl := Except.ok.inj one
    have empty := (same []).1
    rw [find_assigned, find_collected_bind] at empty
    exact neither.2 ((emptyKeyKept_iff query).mpr empty)
  · rintro ⟨utf8, either_⟩
    have values : ∃ single, parseQuery query = .ok single ∧ ∀ k,
        single.find k = ((collected ((pairs query).map entry)).find k).bind List.getLast? := by
      by_cases back : FallsBack query
      · exact ⟨_, parseQuery_fallsBack utf8 back, find_assigned_filterMap List.getLast? _⟩
      · refine ⟨_, parseQuery_ok utf8 back, fun k => ?_⟩
        rw [find_assigned, find_collected_bind]
        by_cases empty : k = []
        · rw [empty]
          exact (emptyKeyKept_iff query).mp (either_.resolve_left back)
        · rw [valuesOf_named empty]
    obtain ⟨single, one, last⟩ := values
    exact ⟨single, _, one, parseQueryAll_ok utf8,
      fun k => ⟨last k, isSome_iff_of_last (last k)⟩⟩

/-- `=x`: the second view has the empty key, the first has not. `a=%FF`: both throw. -/
theorem query_views_part :
    parseQuery (text "=x") = .ok .empty ∧
      (parseQueryAll (text "=x")).toOption.map (·.entries) = some [([], [text "x"])] ∧
      ¬ ViewsAgree (text "=x") ∧
      parseQuery (text "a=%FF") = .error .format ∧ parseQueryAll (text "a=%FF") = .error .format ∧
      ¬ ViewsAgree (text "a=%FF") := by
  have one : parseQuery (text "=x") = .ok .empty := by rfl
  have many : parseQueryAll (text "=x") = .ok (collected [([], text "x")]) := by rfl
  have thrown_ : parseQueryAll (text "a=%FF") = .error .format := by rfl
  refine ⟨one, by rw [many]; rfl, ?_, by rfl, thrown_, ?_⟩
  · rintro ⟨single, all, one', many', same⟩
    rw [one] at one'
    rw [many] at many'
    obtain rfl := Except.ok.inj one'
    obtain rfl := Except.ok.inj many'
    exact absurd (same []).1 (by decide)
  · rintro ⟨single, all, -, many', -⟩
    rw [thrown_] at many'
    cases many'

end NitroServer.Api
