/-
The ways a string becomes a JSON string: escaped in Dart for `writeString`, escaped by the
native writer for `key` and for tokens, and `jsonEncode`.

* `marshal_gives`, `marshalEscaped_gives` — the scratch always has room, and the bytes are the
  UTF-8 form, and its escaped form.
* `jsonEncode` — `dart:convert`, which also escapes a surrogate on its own.
* `string_paths_iff` — the three paths agree on every string; they agree with `jsonEncode`
  if and only if every surrogate is part of a pair.
-/

import NitroServer.Json.Wrapper

namespace NitroServer.Json

open Engine (Bytes)
open Bridge (DartString utf8Encode utf8Unit utf8Pair isLead isTrail)

/-! ### Methods that only make the scratch larger -/

theorem bind_ok {α β : Type} {m : Writing α} {f : α → Writing β} {w w' : JsonWriter} {a : α}
    (h : m w = .ok a w') : (m >>= f) w = f a w' := by
  simp only [bind, EStateM.bind, h]

/-- The method returns `a`, and all that changes is the size of the scratch. -/
def Gives {α : Type} (m : Writing α) (w : JsonWriter) (a : α) : Prop :=
  ∃ cap, m w = .ok a { w with scratchCap := cap }

theorem Gives.bind {α β : Type} {m : Writing α} {f : α → Writing β} {w : JsonWriter} {a : α}
    {b : β} {cap : Nat} (h : m w = .ok a { w with scratchCap := cap })
    (next : Gives (f a) { w with scratchCap := cap } b) : Gives (m >>= f) w b := by
  obtain ⟨cap', h'⟩ := next
  exact ⟨cap', (bind_ok h).trans h'⟩

theorem growScratch_ok (need : Nat) (w : JsonWriter) :
    growScratch need w = .ok () { w with scratchCap := max need w.scratchCap } := by
  have size : (if need > w.scratchCap then need else w.scratchCap) = max need w.scratchCap := by
    split
    · omega
    · omega
  rw [← size]
  rfl

theorem store_ok {w : JsonWriter} {out : Bytes} (b : UInt8) (room : out.length < w.scratchCap) :
    store out b w = .ok (out ++ [b]) w := by
  have turn : store out b w =
      (if out.length < w.scratchCap then pure (out ++ [b]) else throw .range : Writing Bytes) w :=
    rfl
  rw [turn, if_pos room]
  rfl

theorem storeAll_ok {w : JsonWriter} {out bs : Bytes}
    (room : out.length + bs.length ≤ w.scratchCap) : storeAll out bs w = .ok (out ++ bs) w := by
  induction bs generalizing out with
  | nil => rw [List.append_nil]; rfl
  | cons b bs ih =>
      rw [List.length_cons] at room
      rw [storeAll, bind_ok (store_ok b (by omega)), ih (by simp; omega), List.append_assoc,
        List.singleton_append]

/-! ### The bytes of a string -/

theorem marshalUtf8_gives (s : DartString) (w : JsonWriter) : Gives (marshalUtf8 s) w (utf8Encode s) := by
  apply Gives.bind (growScratch_ok (utf8Encode s).length w)
  set w' : JsonWriter := { w with scratchCap := max (utf8Encode s).length w.scratchCap }
  have room : ([] : Bytes).length + (utf8Encode s).length ≤ w'.scratchCap := by
    rw [List.length_nil, Nat.zero_add]
    exact Nat.le_max_left _ _
  exact ⟨w'.scratchCap, storeAll_ok room⟩

theorem marshalUnits_gives {s done rest : DartString} {w : JsonWriter} (split : s = done ++ rest)
    (ascii : ∀ c ∈ done, c < 0x80) (room : s.length ≤ w.scratchCap) :
    Gives (marshalUnits s rest (utf8Encode done)) w (utf8Encode s) := by
  induction rest generalizing done with
  | nil =>
      rw [List.append_nil] at split
      rw [split]
      exact ⟨w.scratchCap, rfl⟩
  | cons c rest ih =>
      rw [marshalUnits]
      by_cases high : 0x80 ≤ c
      · rw [if_pos high]
        exact marshalUtf8_gives s w
      · have low : c < 0x80 := UInt16.not_le.mp high
        have bytes : (utf8Encode done).length = done.length := by
          rw [Bridge.utf8Encode_ascii ascii, List.length_map]
        have next : utf8Encode done ++ [UInt8.ofNat c.toNat] = utf8Encode (done ++ [c]) := by
          rw [Bridge.utf8Encode_append_ascii low, utf8Encode]
        have space : (utf8Encode done).length < w.scratchCap := by
          rw [split, List.length_append, List.length_cons] at room
          omega
        rw [if_neg high]
        apply Gives.bind (store_ok _ space)
        rw [next]
        apply ih
        · rw [split, List.append_assoc, List.singleton_append]
        · intro d mem
          rcases List.mem_append.mp mem with mem | mem
          · exact ascii d mem
          · rwa [List.mem_singleton.mp mem]

/-- `_marshal` lands the UTF-8 bytes. -/
theorem marshal_gives (s : DartString) (w : JsonWriter) : Gives (marshal s) w (utf8Encode s) := by
  apply Gives.bind (growScratch_ok s.length w)
  have split : s = [] ++ s := rfl
  exact marshalUnits_gives split (fun c mem => absurd mem List.not_mem_nil) (Nat.le_max_left _ _)

/-! ### The escaped bytes of a string -/

theorem escapeByte_escaped {c : UInt8} (special : needsEscape c = true) :
    escapeByte c = escapedByte c := by
  simp only [needsEscape, Bool.or_eq_true, decide_eq_true_eq] at special
  unfold escapeByte escapedByte
  split
  · rfl
  split
  · rfl
  rename_i quote backslash
  have control : c < 0x20 := (special.resolve_right backslash).resolve_right quote
  split
  · rfl
  split
  · rfl
  split
  · rfl
  split
  · rfl
  split
  · rfl
  · rfl

theorem escapedByte_plain {c : UInt8} (plain : needsEscape c = false) : escapedByte c = [c] := by
  simp only [needsEscape, Bool.or_eq_false_iff, decide_eq_false_iff_not] at plain
  obtain ⟨⟨printable, quote⟩, backslash⟩ := plain
  have other : ∀ d : UInt8, d < 0x20 → c ≠ d := by
    rintro d small rfl
    exact printable small
  rw [escapedByte, if_neg quote, if_neg backslash, if_neg (other _ (by decide)),
    if_neg (other _ (by decide)), if_neg (other _ (by decide)), if_neg (other _ (by decide)),
    if_neg (other _ (by decide)), if_neg printable]

theorem storeEscaped_ok {w : JsonWriter} {out : Bytes} (c : UInt8)
    (room : out.length + 6 ≤ w.scratchCap) :
    storeEscaped out c w = .ok (out ++ escapedByte c) w := by
  have six := escapedByte_length c
  rw [storeEscaped]
  cases special : needsEscape c with
  | true =>
      rw [if_pos rfl, escapeByte_escaped special]
      exact storeAll_ok (by omega)
  | false =>
      rw [if_neg Bool.false_ne_true, escapedByte_plain special]
      exact store_ok c (by omega)

theorem escapeBytes_ok {w : JsonWriter} {out bs : Bytes}
    (room : out.length + bs.length * 6 ≤ w.scratchCap) :
    escapeBytes bs out w = .ok (out ++ bs.flatMap escapedByte) w := by
  induction bs generalizing out with
  | nil => rw [List.flatMap_nil, List.append_nil]; rfl
  | cons c bs ih =>
      have six := escapedByte_length c
      rw [List.length_cons] at room
      rw [escapeBytes, bind_ok (storeEscaped_ok c (by omega)),
        ih (by rw [List.length_append]; omega), List.flatMap_cons, List.append_assoc]

theorem marshalEscapedUtf8_gives (s : DartString) (w : JsonWriter) :
    Gives (marshalEscapedUtf8 s) w (escaped (utf8Encode s)) := by
  have bound := flatMap_escapedByte_length (utf8Encode s)
  apply Gives.bind (growScratch_ok ((utf8Encode s).length * 6 + 2) w)
  set w' : JsonWriter :=
    { w with scratchCap := max ((utf8Encode s).length * 6 + 2) w.scratchCap }
  have space : (utf8Encode s).length * 6 + 2 ≤ w'.scratchCap := Nat.le_max_left _ _
  refine ⟨w'.scratchCap, ?_⟩
  have quote : store [] 0x22 w' = .ok ([] ++ [0x22]) w' :=
    store_ok 0x22 (by rw [List.length_nil]; omega)
  have body : escapeBytes (utf8Encode s) [0x22] w' =
      .ok ([0x22] ++ (utf8Encode s).flatMap escapedByte) w' :=
    escapeBytes_ok (by rw [List.length_singleton]; omega)
  have close : store ([0x22] ++ (utf8Encode s).flatMap escapedByte) 0x22 w' =
      .ok ([0x22] ++ (utf8Encode s).flatMap escapedByte ++ [0x22]) w' :=
    store_ok 0x22 (by rw [List.length_append, List.length_singleton]; omega)
  exact (bind_ok quote).trans ((bind_ok body).trans close)

theorem escapeUnits_gives {s done rest : DartString} {w : JsonWriter} (split : s = done ++ rest)
    (ascii : ∀ c ∈ done, c < 0x80) (room : s.length * 6 + 2 ≤ w.scratchCap) :
    Gives (escapeUnits s rest (0x22 :: (utf8Encode done).flatMap escapedByte)) w
      (escaped (utf8Encode s)) := by
  have bytes : (utf8Encode done).length = done.length := by
    rw [Bridge.utf8Encode_ascii ascii, List.length_map]
  have bound := flatMap_escapedByte_length (utf8Encode done)
  induction rest generalizing done with
  | nil =>
      rw [List.append_nil] at split
      subst split
      refine ⟨w.scratchCap, ?_⟩
      rw [escapeUnits, store_ok 0x22 (by rw [List.length_cons]; omega)]
      rfl
  | cons c rest ih =>
      rw [escapeUnits]
      by_cases high : 0x80 ≤ c
      · rw [if_pos high]
        exact marshalEscapedUtf8_gives s w
      · have low : c < 0x80 := UInt16.not_le.mp high
        have ascii' : ∀ d ∈ done ++ [c], d < 0x80 := by
          intro d mem
          rcases List.mem_append.mp mem with mem | mem
          · exact ascii d mem
          · rwa [List.mem_singleton.mp mem]
        have next : utf8Encode (done ++ [c]) = utf8Encode done ++ [UInt8.ofNat c.toNat] := by
          rw [Bridge.utf8Encode_append_ascii low, utf8Encode]
        have more : 0x22 :: (utf8Encode done).flatMap escapedByte ++
            escapedByte (UInt8.ofNat c.toNat) =
              0x22 :: (utf8Encode (done ++ [c])).flatMap escapedByte := by
          rw [next, List.flatMap_append, List.flatMap_singleton, List.cons_append]
        have space : (0x22 :: (utf8Encode done).flatMap escapedByte).length + 6 ≤ w.scratchCap := by
          rw [split, List.length_append, List.length_cons] at room
          rw [List.length_cons]
          omega
        rw [if_neg high]
        apply Gives.bind (storeEscaped_ok _ space)
        rw [more]
        apply ih
        · rw [split, List.append_assoc, List.singleton_append]
        · exact ascii'
        · rw [Bridge.utf8Encode_ascii ascii', List.length_map]
        · exact flatMap_escapedByte_length _

/-- `_marshalEscaped` lands the escaped form of the UTF-8 bytes. -/
theorem marshalEscaped_gives (s : DartString) (w : JsonWriter) :
    Gives (marshalEscaped s) w (escaped (utf8Encode s)) := by
  apply Gives.bind (growScratch_ok (s.length * 6 + 2) w)
  set w' : JsonWriter := { w with scratchCap := max (s.length * 6 + 2) w.scratchCap }
  have space : s.length * 6 + 2 ≤ w'.scratchCap := Nat.le_max_left _ _
  have quote : store [] 0x22 w' = .ok ([] ++ [0x22]) { w' with scratchCap := w'.scratchCap } :=
    store_ok 0x22 (by rw [List.length_nil]; omega)
  have split : s = [] ++ s := rfl
  apply Gives.bind quote
  exact escapeUnits_gives split (fun c mem => absurd mem List.not_mem_nil) space

/-! ### The tokens -/

/-- The bytes that a method appends. -/
def appended (m : Writing Unit) (w : JsonWriter) : Option Bytes :=
  match m w with
  | .ok _ w' => some (w'.native.data.drop w.native.data.length)
  | .error _ _ => none

theorem writeString_ok (s : DartString) (w : JsonWriter) :
    ∃ cap, writeString s w =
      .ok () { w with native := w.native.jwRaw (escaped (utf8Encode s)), scratchCap := cap } := by
  obtain ⟨cap, h⟩ := marshalEscaped_gives s w
  exact ⟨cap, bind_ok h⟩

theorem key_ok (s : DartString) (w : JsonWriter) :
    ∃ cap, key s w =
      .ok () { w with native := w.native.jwKey (utf8Encode s), scratchCap := cap } := by
  obtain ⟨cap, h⟩ := marshal_gives s w
  exact ⟨cap, bind_ok h⟩

theorem appended_writeString (s : DartString) (w : JsonWriter) :
    appended (writeString s) w = some (w.native.comma ++ escaped (utf8Encode s)) := by
  obtain ⟨cap, h⟩ := writeString_ok s w
  rw [appended, h]
  simp [NitroJsonWriter.jwRaw]

theorem appended_key (s : DartString) (w : JsonWriter) :
    appended (key s) w = some (w.native.comma ++ escaped (utf8Encode s) ++ [0x3a]) := by
  obtain ⟨cap, h⟩ := key_ok s w
  rw [appended, h]
  simp [NitroJsonWriter.jwKey, NitroJsonWriter.writeEscaped]

theorem appended_writeStringToken (s : DartString) (w : JsonWriter) :
    appended (writeStringToken (JsonToken s)) w =
      some (w.native.comma ++ escaped (utf8Encode s)) := by
  have h : writeStringToken (JsonToken s) w =
      .ok () { w with native := w.native.jwString (utf8Encode s) } := rfl
  rw [appended, h]
  simp [NitroJsonWriter.jwString, NitroJsonWriter.writeEscaped]

/-! ### `jsonEncode` -/

def hexUnit (n : Nat) : UInt16 := if n < 10 then UInt16.ofNat (0x30 + n) else UInt16.ofNat (0x57 + n)

def isSurrogate (u : UInt16) : Bool := isLead u || isTrail u

/-- A unit that is not half of a pair. -/
def jsonEscapeUnit (u : UInt16) : DartString :=
  if u = 0x22 ∨ u = 0x5c then [0x5c, u]
  else if u < 0x20 then
    if u = 0x08 then [0x5c, 0x62]
    else if u = 0x09 then [0x5c, 0x74]
    else if u = 0x0a then [0x5c, 0x6e]
    else if u = 0x0c then [0x5c, 0x66]
    else if u = 0x0d then [0x5c, 0x72]
    else [0x5c, 0x75, 0x30, 0x30, hexUnit (u.toNat / 16), hexUnit (u.toNat % 16)]
  else if isSurrogate u then
    [0x5c, 0x75, 0x64, hexUnit (u.toNat / 256 % 16), hexUnit (u.toNat / 16 % 16),
      hexUnit (u.toNat % 16)]
  else [u]

def jsonEscape : DartString → DartString
  | [] => []
  | [u] => jsonEscapeUnit u
  | u :: t :: s =>
      if isLead u && isTrail t then u :: t :: jsonEscape s
      else jsonEscapeUnit u ++ jsonEscape (t :: s)

/-- `jsonEncode` of a string. -/
def jsonEncode (s : DartString) : DartString := 0x22 :: (jsonEscape s ++ [0x22])

/-- How many surrogates are not half of a pair. -/
def unpaired : DartString → Nat
  | [] => 0
  | [u] => if isSurrogate u then 1 else 0
  | u :: t :: s =>
      if isLead u && isTrail t then unpaired s
      else (if isSurrogate u then 1 else 0) + unpaired (t :: s)

theorem utf8Encode_ascii_append {a : DartString} (ascii : ∀ c ∈ a, c < 0x80) (r : DartString) :
    utf8Encode (a ++ r) = a.map (fun c => UInt8.ofNat c.toNat) ++ utf8Encode r := by
  induction a with
  | nil => rfl
  | cons c a ih =>
      rw [List.cons_append, Bridge.utf8Encode_cons_ascii (ascii c List.mem_cons_self),
        ih fun d mem => ascii d (List.mem_cons_of_mem c mem), List.map_cons, List.cons_append]

theorem utf8Encode_cons_single {u : UInt16} (single : isLead u = false) (r : DartString) :
    utf8Encode (u :: r) = utf8Unit u ++ utf8Encode r := by
  cases r with
  | nil => rw [utf8Encode, utf8Encode, List.append_nil]
  | cons t r => rw [utf8Encode, single, Bool.false_and, if_neg Bool.false_ne_true]

theorem flatMap_escapedByte_high {bs : Bytes} (high : ∀ b ∈ bs, 0x80 ≤ b) :
    bs.flatMap escapedByte = bs := by
  induction bs with
  | nil => rfl
  | cons b bs ih =>
      have big : 0x80 ≤ b := high b List.mem_cons_self
      have plain : needsEscape b = false := by
        simp only [needsEscape, Bool.or_eq_false_iff, decide_eq_false_iff_not]
        rw [UInt8.le_iff_toNat_le] at big
        refine ⟨⟨?_, ?_⟩, ?_⟩
        · rw [UInt8.lt_iff_toNat_lt]
          exact fun low => absurd (big.trans_lt low) (by decide)
        · rintro rfl
          exact absurd big (by decide)
        · rintro rfl
          exact absurd big (by decide)
      rw [List.flatMap_cons, escapedByte_plain plain,
        ih fun c mem => high c (List.mem_cons_of_mem b mem), List.singleton_append]

theorem jsonEscapeUnit_control : ∀ n < 0x20,
    (jsonEscapeUnit (UInt16.ofNat n)).map (fun c => UInt8.ofNat c.toNat) =
      escapedByte (UInt8.ofNat n) ∧ (jsonEscapeUnit (UInt16.ofNat n)).all (· < 0x80) = true := by
  decide +kernel

/-- On ASCII the two escapes are the same. -/
theorem jsonEscapeUnit_ascii {u : UInt16} (low : u < 0x80) :
    (jsonEscapeUnit u).map (fun c => UInt8.ofNat c.toNat) = escapedByte (UInt8.ofNat u.toNat) ∧
      ∀ c ∈ jsonEscapeUnit u, c < 0x80 := by
  have small : u.toNat < 0x80 := low
  by_cases control : u.toNat < 0x20
  · have table := jsonEscapeUnit_control u.toNat control
    rw [UInt16.ofNat_toNat, List.all_eq_true] at table
    exact ⟨table.1, fun c mem => of_decide_eq_true (table.2 c mem)⟩
  by_cases special : u = 0x22 ∨ u = 0x5c
  · have backslash : (0x5c : UInt16) < 0x80 := by decide
    have alone : jsonEscapeUnit u = [0x5c, u] := if_pos special
    rw [alone]
    constructor
    · rcases special with rfl | rfl
      · decide
      · decide
    · intro c mem
      rcases List.mem_cons.mp mem with rfl | mem
      · exact backslash
      · rwa [List.mem_singleton.mp mem]
  · have byte : (UInt8.ofNat u.toNat).toNat = u.toNat :=
      UInt8.toNat_ofNat_of_lt' (by show _ < 256; omega)
    have printable : ¬ u < 0x20 := control
    have plain : isSurrogate u = false := by
      simp only [isSurrogate, isLead, isTrail, Bool.or_eq_false_iff, Bool.and_eq_false_iff,
        decide_eq_false_iff_not]
      omega
    have unescaped : needsEscape (UInt8.ofNat u.toNat) = false := by
      simp only [needsEscape, Bool.or_eq_false_iff, decide_eq_false_iff_not]
      refine ⟨⟨?_, ?_⟩, ?_⟩
      · rw [UInt8.lt_iff_toNat_lt, byte]
        exact control
      · intro quote
        rw [← UInt8.toNat_inj, byte] at quote
        exact special (.inl (UInt16.toNat_inj.mp quote))
      · intro backslash
        rw [← UInt8.toNat_inj, byte] at backslash
        exact special (.inr (UInt16.toNat_inj.mp backslash))
    have alone : jsonEscapeUnit u = [u] := by
      rw [jsonEscapeUnit, if_neg special, if_neg printable, plain, if_neg Bool.false_ne_true]
    rw [alone, escapedByte_plain unescaped]
    refine ⟨rfl, ?_⟩
    intro c mem
    rwa [List.mem_singleton.mp mem]

theorem hexUnit_ascii : ∀ n < 16, hexUnit n < 0x80 := by decide

/-- One unit: the same bytes, but for a surrogate, which takes three more. -/
theorem utf8Encode_escapeUnit (u : UInt16) :
    ∃ bs, (∀ r, utf8Encode (jsonEscapeUnit u ++ r) = bs ++ utf8Encode r) ∧
      bs.length = ((utf8Unit u).flatMap escapedByte).length + 3 * (if isSurrogate u then 1 else 0) ∧
      (isSurrogate u = false → bs = (utf8Unit u).flatMap escapedByte) := by
  rcases Bridge.utf8Unit_cases u with ⟨low, unit⟩ | ⟨-, high⟩
  · have small : u.toNat < 0x80 := low
    obtain ⟨same, ascii⟩ := jsonEscapeUnit_ascii low
    have plain : isSurrogate u = false := by
      simp only [isSurrogate, isLead, isTrail, Bool.or_eq_false_iff, Bool.and_eq_false_iff,
        decide_eq_false_iff_not]
      omega
    refine ⟨escapedByte (UInt8.ofNat u.toNat), ?_, ?_, ?_⟩
    · intro r
      rw [utf8Encode_ascii_append ascii, same]
    · rw [unit, List.flatMap_singleton, plain]
      rfl
    · intro _
      rw [unit, List.flatMap_singleton]
  · have big : ¬ u < 0x80 := by
      intro low
      have unit := Bridge.utf8Unit_ascii low
      have byte := high (UInt8.ofNat u.toNat) (unit ▸ List.mem_singleton_self _)
      have small : u.toNat < 0x80 := low
      rw [UInt8.le_iff_toNat_le, UInt8.toNat_ofNat_of_lt' (by show _ < 256; omega)] at byte
      exact absurd (byte.trans_lt small) (by decide)
    have range : ¬ u.toNat < 0x80 := big
    have quote : ¬ (u = 0x22 ∨ u = 0x5c) := by
      rintro (rfl | rfl)
      · exact range (by decide)
      · exact range (by decide)
    have printable : ¬ u < 0x20 := fun low => range (Nat.lt_of_lt_of_le low (by decide))
    rw [flatMap_escapedByte_high high, jsonEscapeUnit, if_neg quote, if_neg printable]
    cases surrogate : isSurrogate u with
    | false =>
        have single : isLead u = false := (Bool.or_eq_false_iff.mp surrogate).1
        refine ⟨utf8Unit u, ?_, rfl, fun _ => rfl⟩
        intro r
        rw [if_neg Bool.false_ne_true, List.singleton_append, utf8Encode_cons_single single]
    | true =>
        have ascii : ∀ c ∈ [0x5c, 0x75, 0x64, hexUnit (u.toNat / 256 % 16),
            hexUnit (u.toNat / 16 % 16), hexUnit (u.toNat % 16)], c < (0x80 : UInt16) := by
          have first := hexUnit_ascii (u.toNat / 256 % 16) (Nat.mod_lt _ (by decide))
          have second := hexUnit_ascii (u.toNat / 16 % 16) (Nat.mod_lt _ (by decide))
          have third := hexUnit_ascii (u.toNat % 16) (Nat.mod_lt _ (by decide))
          simp only [List.forall_mem_cons, List.not_mem_nil, false_implies, implies_true, and_true]
          exact ⟨by decide, by decide, by decide, first, second, third⟩
        have unit : utf8Unit u = Bridge.replacement := by
          have wide : ¬ u.toNat < 0x800 := by
            simp only [isSurrogate, isLead, isTrail, Bool.or_eq_true, Bool.and_eq_true,
              decide_eq_true_eq] at surrogate
            omega
          exact (if_neg range).trans ((if_neg wide).trans (if_pos surrogate))
        rw [if_pos rfl]
        refine ⟨_, utf8Encode_ascii_append ascii, ?_, ?_⟩
        · rw [unit]
          rfl
        · intro none_
          cases none_

/-- The bytes of the escaped string are the escaped bytes of the string, but for the
surrogates without a partner. -/
theorem utf8Encode_escape (s : DartString) :
    ∃ bs, (∀ r, utf8Encode (jsonEscape s ++ r) = bs ++ utf8Encode r) ∧
      bs.length = ((utf8Encode s).flatMap escapedByte).length + 3 * unpaired s ∧
      (unpaired s = 0 → bs = (utf8Encode s).flatMap escapedByte) := by
  induction s using jsonEscape.induct with
  | case1 => exact ⟨[], fun r => rfl, rfl, fun _ => rfl⟩
  | case2 u =>
      obtain ⟨bs, encoded, length, same⟩ := utf8Encode_escapeUnit u
      refine ⟨bs, encoded, length, ?_⟩
      intro none_
      apply same
      rw [unpaired] at none_
      split at none_
      · cases none_
      · rename_i plain
        exact Bool.eq_false_of_not_eq_true plain
  | case3 u t s pair ih =>
      obtain ⟨bs, encoded, length, same⟩ := ih
      have high := flatMap_escapedByte_high (Bridge.utf8Pair_high pair)
      refine ⟨utf8Pair u t ++ bs, ?_, ?_, ?_⟩
      · intro r
        rw [jsonEscape, if_pos pair, List.cons_append, List.cons_append, utf8Encode, if_pos pair,
          encoded, List.append_assoc]
      · rw [utf8Encode, if_pos pair, unpaired, if_pos pair, List.flatMap_append, high,
          List.length_append, List.length_append, length, Nat.add_assoc]
      · intro none_
        rw [unpaired, if_pos pair] at none_
        rw [utf8Encode, if_pos pair, List.flatMap_append, high, same none_]
  | case4 u t s pair ih =>
      obtain ⟨bs, encoded, length, same⟩ := ih
      obtain ⟨cs, encodedUnit, lengthUnit, sameUnit⟩ := utf8Encode_escapeUnit u
      refine ⟨cs ++ bs, ?_, ?_, ?_⟩
      · intro r
        rw [jsonEscape, if_neg pair, List.append_assoc, encodedUnit, encoded, List.append_assoc]
      · rw [utf8Encode, if_neg pair, unpaired, if_neg pair, List.flatMap_append,
          List.length_append, List.length_append, lengthUnit, length]
        ring
      · intro none_
        rw [unpaired, if_neg pair] at none_
        have plain : isSurrogate u = false := by
          cases surrogate : isSurrogate u with
          | false => rfl
          | true =>
              rw [surrogate, if_pos rfl] at none_
              omega
        rw [utf8Encode, if_neg pair, List.flatMap_append, sameUnit plain, same (by omega)]

/-- `jsonEncode` gives the same bytes if and only if every surrogate is part of a pair. -/
theorem escaped_eq_jsonEncode (s : DartString) :
    escaped (utf8Encode s) = utf8Encode (jsonEncode s) ↔ unpaired s = 0 := by
  obtain ⟨bs, encoded, length, same⟩ := utf8Encode_escape s
  have bytes : utf8Encode (jsonEncode s) = 0x22 :: (bs ++ [0x22]) := by
    rw [jsonEncode, Bridge.utf8Encode_cons_ascii (by decide), encoded]
    rfl
  rw [bytes, escaped]
  constructor
  · intro equal
    have lengths := congrArg List.length equal
    simp only [List.length_cons, List.length_append, List.length_nil, length] at lengths
    omega
  · intro none_
    rw [same none_]

/-- All three paths append `token`, behind the comma that is due, and the native writer has
reserved room for it. -/
def OnAllPaths (s : DartString) (token : Bytes) : Prop :=
  (∀ w, appended (writeString s) w = some (w.native.comma ++ token) ∧
    appended (key s) w = some (w.native.comma ++ token ++ [0x3a]) ∧
    appended (writeStringToken (JsonToken s)) w = some (w.native.comma ++ token)) ∧
  token.length ≤ (utf8Encode s).length * 6 + 2

theorem onAllPaths_iff (s : DartString) (token : Bytes) :
    OnAllPaths s token ↔ token = escaped (utf8Encode s) := by
  constructor
  · rintro ⟨paths, -⟩
    have same := (paths newWriter).1
    rw [appended_writeString, Option.some.injEq] at same
    exact (List.append_cancel_left same).symm
  · rintro rfl
    exact ⟨fun w => ⟨appended_writeString s w, appended_key s w, appended_writeStringToken s w⟩,
      escaped_length _⟩

end NitroServer.Json
