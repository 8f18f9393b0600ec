/-
Response headers on their way to the engine: `FastCalls.encodeHeaderList`
(`fast_calls.dart`) writes them into a native buffer, `decodeHeaderList` (`Wire.h`) reads
them there.

The buffer holds `[i32 payloadLen][i32 count][i64 offset × count][items…]`; the reader skips
the offsets and takes the items in sequence.

* `putString_filled` — both ways through `_putString`, the ASCII loop and the restart with
  `utf8.encode`, leave the same bytes.
* `encodeHeaderList_filled` — the encoder stays within `headerListBytes`.
* `header_list_crosses` — the engine reads the very list, up to the 1024 entries it takes.
-/

import NitroServer.Bridge.Text
import NitroServer.Lib.Buffer

namespace NitroServer.Bridge

open Engine (Bytes Header)
open Lib.Buffer

/-- A header of the handler: an entry of its map. -/
abbrev Entry := DartString × DartString

/-! ### Encoder -/

def setCookieName : DartString := text "set-cookie"

def serverTimingName : DartString := text "server-timing"

/-- `FastCalls.headerListBytes`. -/
def headerListBytes (headers : List Entry) (setCookies : List DartString)
    (timing : Option DartString) : Nat :=
  8 + 8 * (headers.length + setCookies.length + timing.toList.length) +
    (headers.map fun e => 8 + 3 * (e.1.length + e.2.length)).sum +
    (setCookies.map fun cookie => 8 + 3 * (setCookieName.length + cookie.length)).sum +
    (timing.toList.map fun timing => 8 + 3 * (serverTimingName.length + timing.length)).sum

/-- `ByteData.setInt32`, little endian; it keeps the low 32 bits. -/
def setInt32 (view : Bytes) (at_ n : Nat) : Option Bytes := write view at_ (toLE 4 n)

/-- `ByteData.setInt64`, little endian. -/
def setInt64 (view : Bytes) (at_ n : Nat) : Option Bytes := write view at_ (toLE 8 n)

/-- The loop of `_putString` at the unit `unit` of `s`, with `stop` as its `end`. -/
def putUnits (pos : Nat) (s : DartString) : DartString → Nat → Bytes → Option (Bytes × Nat)
  | [], stop, view => (setInt32 view pos (stop - (pos + 4))).map fun view => (view, stop)
  | unit :: units, stop, view =>
      if 0x80 ≤ unit then
        (write view (pos + 4) (utf8Encode s)).bind fun view =>
          (setInt32 view pos (utf8Encode s).length).map fun view =>
            (view, pos + 4 + (utf8Encode s).length)
      else
        (write view stop [UInt8.ofNat unit.toNat]).bind fun view =>
          putUnits pos s units (stop + 1) view

/-- `FastCalls._putString`. -/
def putString (pos : Nat) (s : DartString) (view : Bytes) : Option (Bytes × Nat) :=
  putUnits pos s s (pos + 4) view

/-- One of the three loops of `encodeHeaderList`, from the entry `i` on. -/
def putEntries : List Entry → Nat → Nat → Bytes → Option (Bytes × Nat)
  | [], _, pos, view => some (view, pos)
  | entry :: entries, i, pos, view =>
      (setInt64 view (8 + 8 * i) (pos - 4)).bind fun view =>
        (putString pos entry.1 view).bind fun (view, pos) =>
          (putString pos entry.2 view).bind fun (view, pos) =>
            putEntries entries (i + 1) pos view

/-- `FastCalls.encodeHeaderList`: the buffer after it and the length it returns. -/
def encodeHeaderList (headers : List Entry) (setCookies : List DartString)
    (timing : Option DartString) (view : Bytes) : Option (Bytes × Nat) :=
  let count := headers.length + setCookies.length + timing.toList.length
  (setInt32 view 4 count).bind fun view =>
    (putEntries headers 0 (8 + 8 * count) view).bind fun (view, pos) =>
      (putEntries (setCookies.map fun cookie => (setCookieName, cookie)) headers.length
          pos view).bind fun (view, pos) =>
        (putEntries (timing.toList.map fun timing => (serverTimingName, timing))
            (headers.length + setCookies.length) pos view).bind fun (view, pos) =>
          (setInt32 view 0 (pos - 4)).map fun view => (view, pos)

/-! ### Decoder -/

/-- A 32-bit number as `int32_t`. -/
def signed32 (n : Nat) : Int := if n < 2 ^ 31 then n else n - 2 ^ 32

/-- `NitroRecordReader::readInt32`; the reader is what it has not read yet. -/
def readInt32 (reader : Bytes) : Option (Int × Bytes) :=
  if 4 ≤ reader.length then some (signed32 (ofLE (reader.take 4)), reader.drop 4) else none

/-- `NitroRecordReader::readInt`, whose value nobody uses here. -/
def skipInt (reader : Bytes) : Option Bytes :=
  if 8 ≤ reader.length then some (reader.drop 8) else none

/-- `NitroRecordReader::readString`. A negative length throws: as a `size_t` it is out of
bounds, or `std::string` refuses it. -/
def readString (reader : Bytes) : Option (Bytes × Bytes) :=
  (readInt32 reader).bind fun (len, reader) =>
    if len < 0 ∨ reader.length < len.toNat then none
    else some (reader.take len.toNat, reader.drop len.toNat)

def skipInts : Nat → Bytes → Option Bytes
  | 0, reader => some reader
  | n + 1, reader => (skipInt reader).bind (skipInts n)

def readHeaders : Nat → Bytes → Option (List Header)
  | 0, _ => some []
  | n + 1, reader =>
      (readString reader).bind fun (name, reader) =>
        (readString reader).bind fun (value, reader) =>
          (readHeaders n reader).map (⟨name, value⟩ :: ·)

/-- `decodeHeaderList`; `none` when it throws. -/
def decodeHeaderList (buf : Bytes) : Option (List Header) :=
  (readInt32 buf).bind fun (n, reader) =>
    if n < 0 ∨ 1024 < n then none
    else (skipInts n.toNat reader).bind (readHeaders n.toNat)

/-- The bridge's `NitroCppBuffer` over what Dart passed: the bytes behind the outer length,
which a `(size_t)*(int32_t*)` says how many they are. -/
def payload (view : Bytes) : Bytes :=
  let size := signed32 (ofLE (view.take 4))
  (view.drop 4).take (if size < 0 then (2 ^ 64 + size).toNat else size.toNat)

/-! ### What the encoder writes -/

/-- A string with its length. -/
def stringBytes (s : DartString) : Bytes := toLE 4 (utf8Encode s).length ++ utf8Encode s

def itemBytes (entries : List Entry) : Bytes :=
  entries.flatMap fun e => stringBytes e.1 ++ stringBytes e.2

variable {lo hi pos i stop : Nat} {s units : DartString} {view view₀ : Bytes}
  {entries : List Entry}

theorem stringBytes_length (s : DartString) :
    (stringBytes s).length = 4 + (utf8Encode s).length := by
  rw [stringBytes, List.length_append, toLE_length]

/-- The loop with `done` behind it: whichever way it ends, the string and its length are
in place. -/
theorem putUnits_filled (done : DartString) (below : hi ≤ pos) (whole : s = done ++ units)
    (ascii : ∀ u ∈ done, u < 0x80) (at_ : stop = pos + 4 + done.length)
    (room : pos + 4 + 3 * s.length ≤ view.length)
    (sofar : Filled lo hi view₀ (pos + 4) (utf8Encode done) view) :
    ∃ view', putUnits pos s units stop view = some (view', pos + 4 + (utf8Encode s).length) ∧
      Filled lo hi view₀ pos (stringBytes s) view' := by
  have short := utf8Encode_length_le s
  induction units generalizing done stop view with
  | nil =>
      rw [List.append_nil] at whole
      subst whole
      have bytes : (utf8Encode s).length = s.length := by rw [utf8Encode_ascii ascii, List.length_map]
      obtain ⟨view', set⟩ : ∃ view', setInt32 view pos (stop - (pos + 4)) = some view' :=
        write_isSome (by rw [toLE_length]; omega)
      refine ⟨view', ?_, ?_⟩
      · rw [putUnits, set, Option.map_some, at_, bytes]
      · rw [at_, Nat.add_sub_cancel_left, ← bytes] at set
        exact sofar.prepend set
  | cons unit units ih =>
      rw [putUnits]
      split
      · obtain ⟨view₁, restart⟩ : ∃ view', write view (pos + 4) (utf8Encode s) = some view' :=
          write_isSome (by omega)
        have same := write_length restart
        obtain ⟨view₂, set⟩ : ∃ view', setInt32 view₁ pos (utf8Encode s).length = some view' :=
          write_isSome (by rw [toLE_length]; omega)
        exact ⟨view₂, by rw [restart, Option.bind_some, set, Option.map_some],
          (sofar.write restart).prepend set⟩
      · rename_i low
        have low : unit < 0x80 := UInt16.not_le.mp low
        have long : s.length = done.length + units.length + 1 := by
          rw [whole, List.length_append, List.length_cons, Nat.add_assoc]
        obtain ⟨view₁, put⟩ : ∃ view', write view stop [UInt8.ofNat unit.toNat] = some view' :=
          write_isSome (by rw [List.length_singleton]; omega)
        have ascii' : ∀ u ∈ done ++ [unit], u < 0x80 := by
          intro u hu
          rcases List.mem_append.mp hu with old | new
          · exact ascii u old
          · exact List.mem_singleton.mp new ▸ low
        have bytes : (utf8Encode done).length = done.length := by
          rw [utf8Encode_ascii ascii, List.length_map]
        have next : utf8Encode (done ++ [unit]) = utf8Encode done ++ [UInt8.ofNat unit.toNat] := by
          rw [utf8Encode_ascii ascii', utf8Encode_ascii ascii, List.map_append, List.map_singleton]
        have here : pos + 4 + (utf8Encode done).length = stop := by rw [bytes, at_]
        rw [put, Option.bind_some]
        apply ih (done ++ [unit])
        · rw [whole, List.append_assoc, List.singleton_append]
        · exact ascii'
        · rw [at_, List.length_append, List.length_singleton, Nat.add_assoc]
        · rw [write_length put]
          exact room
        · rw [next]
          exact sofar.trans (Nat.le_add_right_of_le below) (Filled.nil.write (here.symm ▸ put))

theorem putString_filled (lo : Nat) (s : DartString) {pos : Nat} (below : hi ≤ pos) (room : pos + 4 + 3 * s.length ≤ view.length) :
    ∃ view', putString pos s view = some (view', pos + (stringBytes s).length) ∧
      Filled lo hi view pos (stringBytes s) view' := by
  have none : ∀ u ∈ ([] : DartString), u < 0x80 := by
    intro u hu
    cases hu
  rw [stringBytes_length, ← Nat.add_assoc]
  exact putUnits_filled [] below rfl none rfl room Filled.nil

/-- The room that `headerListBytes` counts for the entries. -/
def entriesBytes (entries : List Entry) : Nat :=
  (entries.map fun e => 8 + 3 * (e.1.length + e.2.length)).sum

theorem itemBytes_length_le (entries : List Entry) :
    (itemBytes entries).length ≤ entriesBytes entries := by
  induction entries with
  | nil => exact le_rfl
  | cons e entries ih =>
      have name := utf8Encode_length_le e.1
      have value := utf8Encode_length_le e.2
      simp only [itemBytes, entriesBytes, List.flatMap_cons, List.map_cons, List.sum_cons,
        List.length_append, stringBytes_length] at ih ⊢
      omega

/-- Entries go behind one another, with their offsets in the table `8..hi`. -/
theorem putEntries_filled (below : hi ≤ pos) (table : 8 + 8 * (i + entries.length) ≤ hi)
    (room : pos + entriesBytes entries ≤ view.length) :
    ∃ view', putEntries entries i pos view = some (view', pos + (itemBytes entries).length) ∧
      Filled 8 hi view pos (itemBytes entries) view' := by
  induction entries generalizing i pos view with
  | nil => exact ⟨view, rfl, Filled.nil⟩
  | cons e entries ih =>
      have name := utf8Encode_length_le e.1
      have value := utf8Encode_length_le e.2
      have item : itemBytes (e :: entries) =
          stringBytes e.1 ++ (stringBytes e.2 ++ itemBytes entries) := by
        rw [itemBytes, List.flatMap_cons, List.append_assoc]
        rfl
      have count : (e :: entries).length = entries.length + 1 := rfl
      have each : entriesBytes (e :: entries) =
          8 + 3 * (e.1.length + e.2.length) + entriesBytes entries := rfl
      have len₁ := stringBytes_length e.1
      have len₂ := stringBytes_length e.2
      obtain ⟨view₁, offset⟩ : ∃ view', setInt64 view (8 + 8 * i) (pos - 4) = some view' :=
        write_isSome (by rw [toLE_length]; omega)
      have same₁ := write_length offset
      have room₁ : pos + 4 + 3 * e.1.length ≤ view₁.length := by omega
      obtain ⟨view₂, put₁, filled₁⟩ := putString_filled 8 e.1 below room₁
      have same₂ := filled₁.length
      have room₂ : pos + (stringBytes e.1).length + 4 + 3 * e.2.length ≤ view₂.length := by omega
      obtain ⟨view₃, put₂, filled₂⟩ :=
        putString_filled 8 e.2 (Nat.le_add_right_of_le below) room₂
      have same₃ := filled₂.length
      have room₃ : pos + (stringBytes e.1).length + (stringBytes e.2).length +
          entriesBytes entries ≤ view₃.length := by omega
      have table₃ : 8 + 8 * (i + 1 + entries.length) ≤ hi := by omega
      obtain ⟨view₄, put₃, filled₃⟩ := ih (by omega) table₃ room₃
      refine ⟨view₄, ?_, ?_⟩
      · simp only [putEntries, offset, put₁, put₂, Option.bind_some]
        rw [put₃, item, List.length_append, List.length_append, Nat.add_assoc, Nat.add_assoc]
      · rw [item]
        have items := filled₂.trans (by omega) filled₃
        refine Filled.aside offset (Nat.le_add_right 8 _) ?_ (filled₁.trans below items)
        rw [toLE_length]
        omega

/-- All headers of an answer, in the order of the loops. -/
def allEntries (headers : List Entry) (setCookies : List DartString) (timing : Option DartString) :
    List Entry :=
  headers ++ (setCookies.map fun cookie => (setCookieName, cookie)) ++
    timing.toList.map fun timing => (serverTimingName, timing)

variable (headers : List Entry) (setCookies : List DartString) (timing : Option DartString)

theorem allEntries_length : (allEntries headers setCookies timing).length =
    headers.length + setCookies.length + timing.toList.length := by
  rw [allEntries, List.length_append, List.length_append, List.length_map, List.length_map]

/-- `headerListBytes` counts the frame, the table and the entries. -/
theorem headerListBytes_eq : headerListBytes headers setCookies timing =
    8 + 8 * (allEntries headers setCookies timing).length +
      entriesBytes (allEntries headers setCookies timing) := by
  rw [allEntries_length, headerListBytes, allEntries, entriesBytes, List.map_append,
    List.map_append, List.sum_append, List.sum_append, List.map_map, List.map_map]
  simp only [Function.comp_def, Nat.add_assoc]

theorem putEntries_append (more : List Entry) :
    putEntries (entries ++ more) i pos view =
      (putEntries entries i pos view).bind fun (view, pos) =>
        putEntries more (i + entries.length) pos view := by
  induction entries generalizing i pos view with
  | nil => rfl
  | cons e entries ih =>
      simp only [List.cons_append, putEntries, Option.bind_assoc, ih, List.length_cons,
        Nat.add_assoc, Nat.add_comm 1]

/-- The three loops are one. -/
theorem encodeHeaderList_eq : encodeHeaderList headers setCookies timing view =
    (setInt32 view 4 (allEntries headers setCookies timing).length).bind fun view =>
      (putEntries (allEntries headers setCookies timing) 0
          (8 + 8 * (allEntries headers setCookies timing).length) view).bind fun (view, pos) =>
        (setInt32 view 0 (pos - 4)).map fun view => (view, pos) := by
  rw [allEntries_length, allEntries, encodeHeaderList]
  simp only [putEntries_append, Option.bind_assoc, List.length_append, List.length_map,
    Nat.zero_add]

/-- The encoder's buffer: the two numbers and the items, with the table between them. -/
theorem encodeHeaderList_filled
    (room : headerListBytes headers setCookies timing ≤ view.length) :
    let entries := allEntries headers setCookies timing
    let pos := 8 + 8 * entries.length + (itemBytes entries).length
    ∃ view', encodeHeaderList headers setCookies timing view = some (view', pos) ∧
      pos ≤ headerListBytes headers setCookies timing ∧ view'.length = view.length ∧
      slice view' 0 4 = toLE 4 (pos - 4) ∧ slice view' 4 4 = toLE 4 entries.length ∧
      slice view' (8 + 8 * entries.length) (itemBytes entries).length = itemBytes entries := by
  intro entries pos
  have fits := itemBytes_length_le entries
  have bound : headerListBytes headers setCookies timing =
      8 + 8 * entries.length + entriesBytes entries := headerListBytes_eq headers setCookies timing
  rw [bound] at room ⊢
  obtain ⟨view₁, count⟩ : ∃ view', setInt32 view 4 entries.length = some view' :=
    write_isSome (by rw [toLE_length]; omega)
  have same₁ := write_length count
  have room₁ : 8 + 8 * entries.length + entriesBytes entries ≤ view₁.length := by
    rw [same₁]
    exact room
  have table : 8 + 8 * (0 + entries.length) ≤ 8 + 8 * entries.length := by rw [Nat.zero_add]
  obtain ⟨view₂, put, filled⟩ := putEntries_filled le_rfl table room₁
  have same₂ := filled.length
  obtain ⟨view₃, total⟩ : ∃ view', setInt32 view₂ 0 (pos - 4) = some view' :=
    write_isSome (by rw [toLE_length]; omega)
  have four : (toLE 4 entries.length).length = 4 := toLE_length 4 _
  have front : (toLE 4 (pos - 4)).length = 4 := toLE_length 4 _
  refine ⟨view₃, ?_, by omega, ?_, ?_, ?_, ?_⟩
  · rw [encodeHeaderList_eq, count, Option.bind_some, put, Option.bind_some]
    exact Option.map_eq_some_iff.mpr ⟨view₃, total, rfl⟩
  · rw [write_length total, same₂, same₁]
  · exact front ▸ slice_write_same total
  · rw [slice_write_apart total (Or.inr (by omega)), filled.before 4 4 (by omega) (Or.inl le_rfl)]
    exact four ▸ slice_write_same count
  · rw [slice_write_apart total (Or.inr (by omega)), filled.here]

/-! ### What the decoder reads -/

theorem signed32_small {n : Nat} (small : n < 2 ^ 31) : signed32 n = n := if_pos small

theorem readInt32_toLE (n : Nat) (rest : Bytes) :
    readInt32 (toLE 4 n ++ rest) = some (signed32 (n % 2 ^ 32), rest) := by
  have four : (toLE 4 n).length = 4 := toLE_length 4 n
  have enough : 4 ≤ (toLE 4 n ++ rest).length := by
    rw [List.length_append, four]
    exact Nat.le_add_right 4 _
  rw [readInt32, if_pos enough, List.take_left' four, List.drop_left' four, ofLE_toLE]
  rfl

theorem readString_bytes (s : DartString) (small : (utf8Encode s).length < 2 ^ 31) (rest : Bytes) :
    readString (stringBytes s ++ rest) = some (utf8Encode s, rest) := by
  have low : (utf8Encode s).length % 2 ^ 32 = (utf8Encode s).length := Nat.mod_eq_of_lt (by omega)
  rw [readString, stringBytes, List.append_assoc, readInt32_toLE, low, signed32_small small,
    Option.bind_some]
  dsimp only
  rw [if_neg]
  · rw [Int.toNat_natCast, List.take_left' rfl, List.drop_left' rfl]
  · rw [Int.toNat_natCast, List.length_append]
    omega

/-- The engine's form of an entry. -/
def engineHeader (e : Entry) : Header := ⟨utf8Encode e.1, utf8Encode e.2⟩

theorem readHeaders_items (small : (itemBytes entries).length < 2 ^ 31) :
    readHeaders entries.length (itemBytes entries) = some (entries.map engineHeader) := by
  induction entries with
  | nil => rfl
  | cons e entries ih =>
      have item : itemBytes (e :: entries) =
          stringBytes e.1 ++ (stringBytes e.2 ++ itemBytes entries) := by
        rw [itemBytes, List.flatMap_cons, List.append_assoc]
        rfl
      rw [item, List.length_append, List.length_append, stringBytes_length,
        stringBytes_length] at small
      rw [item, List.length_cons, readHeaders]
      simp only [readString_bytes e.1 (by omega), readString_bytes e.2 (by omega),
        Option.bind_some, ih (by omega), Option.map_some]
      rfl

theorem skipInts_table {n : Nat} {table rest : Bytes} (eight : table.length = 8 * n) :
    skipInts n (table ++ rest) = some rest := by
  induction n generalizing table with
  | zero => rw [skipInts, List.length_eq_zero_iff.mp eight, List.nil_append]
  | succ n ih =>
      have long : 8 ≤ (table ++ rest).length := by
        rw [List.length_append]
        omega
      rw [skipInts, skipInt, if_pos long, Option.bind_some,
        List.drop_append_of_le_length (by omega)]
      apply ih
      rw [List.length_drop]
      omega

/-- What the bridge hands over of a buffer that `encodeHeaderList` filled. -/
theorem payload_filled {n : Nat} {items : Bytes} (small : 4 + 8 * n + items.length < 2 ^ 31)
    (total : slice view 0 4 = toLE 4 (4 + 8 * n + items.length))
    (count : slice view 4 4 = toLE 4 n) (here : slice view (8 + 8 * n) items.length = items) :
    payload view = toLE 4 n ++ (slice view 8 (8 * n) ++ items) := by
  have size : signed32 (ofLE (view.take 4)) = (4 + 8 * n + items.length : Nat) := by
    have front : view.take 4 = toLE 4 (4 + 8 * n + items.length) := total
    rw [front, ofLE_toLE, Nat.mod_eq_of_lt (Nat.lt_trans small (by decide)), signed32_small small]
  have parts : slice view 4 (4 + 8 * n + items.length) =
      toLE 4 n ++ (slice view 8 (8 * n) ++ items) := by
    rw [slice_add, slice_add, count, ← Nat.add_assoc, here, List.append_assoc]
  rw [payload, size, if_neg (by omega), Int.toNat_natCast, ← parts]
  rfl

/-- The decoder on a well-formed payload: its only refusal is the count. -/
theorem decodeHeaderList_items {table : Bytes} (eight : table.length = 8 * entries.length)
    (small : 4 + 8 * entries.length + (itemBytes entries).length < 2 ^ 31) :
    decodeHeaderList (toLE 4 entries.length ++ (table ++ itemBytes entries)) =
      if entries.length ≤ 1024 then some (entries.map engineHeader) else none := by
  have low : entries.length % 2 ^ 32 = entries.length := Nat.mod_eq_of_lt (by omega)
  rw [decodeHeaderList, readInt32_toLE, low, signed32_small (by omega), Option.bind_some]
  dsimp only
  split
  · rename_i refused
    rw [if_neg (by omega)]
  · rename_i taken
    rw [if_pos (by omega), Int.toNat_natCast, skipInts_table eight, Option.bind_some,
      readHeaders_items (by omega)]

/-- The engine's view of an encoded list whose length is an `int32`. -/
theorem decode_encoded (room : headerListBytes headers setCookies timing ≤ view.length) :
    let entries := allEntries headers setCookies timing
    ∃ view' pos, encodeHeaderList headers setCookies timing view = some (view', pos) ∧
      pos ≤ headerListBytes headers setCookies timing ∧
      (pos - 4 < 2 ^ 31 → decodeHeaderList (payload view') =
        if entries.length ≤ 1024 then some (entries.map engineHeader) else none) := by
  intro entries
  obtain ⟨view', encoded, bound, same, total, count, here⟩ :=
    encodeHeaderList_filled headers setCookies timing room
  refine ⟨view', _, encoded, bound, fun small => ?_⟩
  have less : 8 + 8 * entries.length + (itemBytes entries).length - 4 =
      4 + 8 * entries.length + (itemBytes entries).length := by omega
  have whole : 8 + 8 * entries.length ≤ view'.length := by
    rw [same]
    exact Nat.le_trans (Nat.le_of_add_right_le bound) room
  rw [less] at total small
  rw [payload_filled small total count here]
  exact decodeHeaderList_items (slice_length whole) small

/-- Response headers cross the bridge: they fit in the room that was counted for them, and
the engine reads each of them, in order, as UTF-8, when there are at most 1024 of them and
the encoding's length is an `int32`. -/
theorem header_list_crosses (room : headerListBytes headers setCookies timing ≤ view.length) :
    ∃ view' pos, encodeHeaderList headers setCookies timing view = some (view', pos) ∧
      pos ≤ headerListBytes headers setCookies timing ∧
      ((allEntries headers setCookies timing).length ≤ 1024 → pos - 4 < 2 ^ 31 →
        decodeHeaderList (payload view') =
          some ((allEntries headers setCookies timing).map engineHeader)) := by
  obtain ⟨view', pos, encoded, bound, read⟩ := decode_encoded headers setCookies timing room
  refine ⟨view', pos, encoded, bound, ?_⟩
  intro few small
  rw [read small, if_pos few]

theorem header_list_crosses_cookie :
    ∃ view' pos, encodeHeaderList [(text "x-a", text "ü")] [text "id=1"] none
        (List.replicate 200 0) = some (view', pos) ∧
      pos ≤ headerListBytes [(text "x-a", text "ü")] [text "id=1"] none ∧
      ((allEntries [(text "x-a", text "ü")] [text "id=1"] none).length ≤ 1024 →
        pos - 4 < 2 ^ 31 → decodeHeaderList (payload view') =
          some ((allEntries [(text "x-a", text "ü")] [text "id=1"] none).map engineHeader)) :=
  header_list_crosses [(text "x-a", text "ü")] [text "id=1"] none (by decide +kernel)

/-! ### What the decoder refuses -/

/-- A string whose length is no `int32`. -/
theorem readString_long (s : DartString) (long : 2 ^ 31 ≤ (utf8Encode s).length)
    (wraps : (utf8Encode s).length < 2 ^ 32) (rest : Bytes) :
    readString (stringBytes s ++ rest) = none := by
  have negative : signed32 ((utf8Encode s).length % 2 ^ 32) < 0 := by
    rw [Nat.mod_eq_of_lt wraps, signed32, if_neg (Nat.not_lt.mpr long)]
    omega
  rw [readString, stringBytes, List.append_assoc, readInt32_toLE, Option.bind_some]
  exact if_pos (Or.inl negative)

/-- A length that is no `int32` is taken for a `size_t` beyond every buffer. -/
theorem payload_wrapped {n : Nat} (total : slice view 0 4 = toLE 4 n) (long : 2 ^ 31 ≤ n)
    (wraps : n < 2 ^ 32) (fits : view.length < 2 ^ 63) : payload view = view.drop 4 := by
  have size : signed32 (ofLE (view.take 4)) = (n : Int) - 2 ^ 32 := by
    have front : view.take 4 = toLE 4 n := total
    have low : n % 256 ^ 4 = n := Nat.mod_eq_of_lt wraps
    rw [front, ofLE_toLE, low]
    exact if_neg (Nat.not_lt.mpr long)
  rw [payload, size, if_pos (by omega)]
  apply List.take_of_length_le
  rw [List.length_drop]
  omega

/-- One cookie of 2 GiB: the outer length is negative, and so is the cookie's. -/
theorem long_cookie_refused (cookie : DartString) (long : cookie.length = 2 ^ 31)
    (ascii : ∀ u ∈ cookie, u < 0x80) (room : headerListBytes [] [cookie] none ≤ view.length)
    (fits : view.length < 2 ^ 63) :
    ∃ view' pos, encodeHeaderList [] [cookie] none view = some (view', pos) ∧
      decodeHeaderList (payload view') = none := by
  have bytes : (utf8Encode cookie).length = 2 ^ 31 := by
    rw [utf8Encode_ascii ascii, List.length_map, long]
  obtain ⟨view', encoded, bound, same, total, count, here⟩ :=
    encodeHeaderList_filled [] [cookie] none room
  have name : (utf8Encode setCookieName).length = 10 := by decide
  have items : itemBytes (allEntries [] [cookie] none) =
      stringBytes setCookieName ++ (stringBytes cookie ++ []) := rfl
  have one : (allEntries [] [cookie] none).length = 1 := rfl
  have size : (itemBytes (allEntries [] [cookie] none)).length = 2 ^ 31 + 18 := by
    rw [items, List.length_append, List.length_append, stringBytes_length, stringBytes_length,
      bytes, name]
    rfl
  refine ⟨view', _, encoded, ?_⟩
  have rest : view'.drop 4 = toLE 4 1 ++ (slice view' 8 8 ++ (stringBytes setCookieName ++
      (stringBytes cookie ++ view'.drop (16 + (2 ^ 31 + 18))))) := by
    rw [one, size] at here
    rw [one] at count
    rw [← slice_append_drop view' 4 4, count, ← slice_append_drop view' 8 8,
      ← slice_append_drop view' 16 (2 ^ 31 + 18), here, items, List.append_nil, List.append_assoc]
  have table : (slice view' 8 8).length = 8 * 1 := by
    rw [one, size] at bound
    exact slice_length (by omega)
  rw [one, size] at total
  rw [payload_wrapped total (by omega) (by omega) (same ▸ fits), rest, decodeHeaderList,
    readInt32_toLE, Option.bind_some]
  show (if _ then _ else (skipInts 1 _).bind (readHeaders 1)) = none
  rw [if_neg (by decide), skipInts_table table, Option.bind_some, readHeaders,
    readString_bytes setCookieName (by rw [name]; decide), Option.bind_some]
  dsimp only
  rw [readString_long cookie bytes.ge (by rw [bytes]; decide), Option.bind_none]

theorem headerListBytes_cookie (cookie : DartString) :
    headerListBytes [] [cookie] none = 24 + 3 * (10 + cookie.length) := by
  have name : setCookieName.length = 10 := by decide
  simp only [headerListBytes, name, List.length_nil, List.length_singleton, Option.toList_none,
    List.map_nil, List.map_cons, List.sum_nil, List.sum_cons]
  omega

/-- 1025 cookies, or one of 2 GiB, and the engine drops the answer. -/
theorem header_list_dropped :
    (∃ view' pos, encodeHeaderList [] (List.replicate 1025 []) none
        (List.replicate (headerListBytes [] (List.replicate 1025 []) none) 0) = some (view', pos) ∧
      decodeHeaderList (payload view') = none) ∧
    ∃ view' pos, encodeHeaderList [] [List.replicate (2 ^ 31) 0x61] none
        (List.replicate (headerListBytes [] [List.replicate (2 ^ 31) 0x61] none) 0) =
          some (view', pos) ∧
      decodeHeaderList (payload view') = none := by
  constructor
  · obtain ⟨view', pos, encoded, bound, read⟩ :=
      decode_encoded [] (List.replicate 1025 []) none List.length_replicate.ge
    have bytes : headerListBytes [] (List.replicate 1025 []) none = 47158 := by decide +kernel
    have many : ¬ (allEntries [] (List.replicate 1025 []) none).length ≤ 1024 := by
      rw [allEntries_length, List.length_replicate]
      decide
    refine ⟨view', pos, encoded, ?_⟩
    rw [read (by omega), if_neg many]
  · apply long_cookie_refused
    · exact List.length_replicate
    · intro u hu
      rw [List.eq_of_mem_replicate hu]
      decide
    · exact List.length_replicate.ge
    · rw [List.length_replicate, headerListBytes_cookie, List.length_replicate]
      decide

end NitroServer.Bridge
