/-
The Dart side of the JSON writer (`json_writer.dart`): strings are marshalled into a scratch
buffer, values are walked, and the tables of a template are filled.

* `Writing` — a method: it changes the writer, and a throw keeps the changes made before it.
* `marshal`, `marshalEscaped` — the bytes of a string in the scratch; a store past its end is
  a `RangeError`.
* `writeValue` — a JSON value, token by token.
* `writeTemplatedArray` — the template tables, which are used again by the next call.
-/

import NitroServer.Json.Writer
import NitroServer.Bridge.Text

namespace NitroServer.Json

open Engine (Bytes)
open Bridge (DartString utf8Encode)

inductive JsonError where
  | argument (message : String)
  | range
  | unsupported
deriving DecidableEq

/-- The native writer, the size of `_scratch`, and the template tables. -/
structure JsonWriter where
  native : NitroJsonWriter
  scratchCap : Nat
  segTable : List Bytes
  colTable : List Column

/-- `JsonWriter()`. -/
def newWriter : JsonWriter := { native := jwNew, scratchCap := 0, segTable := [], colTable := [] }

abbrev Writing := EStateM JsonError JsonWriter

def call (f : NitroJsonWriter → NitroJsonWriter) : Writing Unit :=
  modify fun w => { w with native := f w.native }

/-! ### Marshalling -/

/-- `if (need > _scratchCap) _growScratch(need)`. -/
def growScratch (need : Nat) : Writing Unit :=
  modify fun w => { w with scratchCap := if need > w.scratchCap then need else w.scratchCap }

/-- `out[j++] = b`. -/
def store (out : Bytes) (b : UInt8) : Writing Bytes := do
  if out.length < (← get).scratchCap then pure (out ++ [b]) else throw .range

def storeAll (out : Bytes) : Bytes → Writing Bytes
  | [] => pure out
  | b :: bs => do storeAll (← store out b) bs

def marshalUtf8 (s : DartString) : Writing Bytes := do
  let bytes := utf8Encode s
  growScratch bytes.length
  storeAll [] bytes

/-- The loop of `_marshal`, at the units that are left. -/
def marshalUnits (s : DartString) : DartString → Bytes → Writing Bytes
  | [], out => pure out
  | c :: rest, out =>
      if 0x80 ≤ c then marshalUtf8 s
      else do marshalUnits s rest (← store out (UInt8.ofNat c.toNat))

/-- The UTF-8 bytes of a string. -/
def marshal (s : DartString) : Writing Bytes := do
  growScratch s.length
  marshalUnits s s []

def hexDigits : Bytes :=
  [0x30, 0x31, 0x32, 0x33, 0x34, 0x35, 0x36, 0x37, 0x38, 0x39, 0x61, 0x62, 0x63, 0x64, 0x65, 0x66]

/-- What `_escapeByte` stores. -/
def escapeByte (c : UInt8) : Bytes :=
  0x5c ::
    if c = 0x22 then [0x22]
    else if c = 0x5c then [0x5c]
    else if c = 0x08 then [0x62]
    else if c = 0x0c then [0x66]
    else if c = 0x0a then [0x6e]
    else if c = 0x0d then [0x72]
    else if c = 0x09 then [0x74]
    else
      [0x75, 0x30, 0x30, hexDigits.getD (c >>> 4).toNat 0, hexDigits.getD (c &&& 0xf).toNat 0]

/-- `c < 0x20 || c == 0x22 || c == 0x5c`. -/
def needsEscape (c : UInt8) : Bool := c < 0x20 || c = 0x22 || c = 0x5c

def storeEscaped (out : Bytes) (c : UInt8) : Writing Bytes :=
  if needsEscape c then storeAll out (escapeByte c) else store out c

def escapeBytes : Bytes → Bytes → Writing Bytes
  | [], out => pure out
  | c :: rest, out => do escapeBytes rest (← storeEscaped out c)

def marshalEscapedUtf8 (s : DartString) : Writing Bytes := do
  let bytes := utf8Encode s
  growScratch (bytes.length * 6 + 2)
  let out ← store [] 0x22
  let out ← escapeBytes bytes out
  store out 0x22

/-- The loop of `_marshalEscaped`, and the closing quote. -/
def escapeUnits (s : DartString) : DartString → Bytes → Writing Bytes
  | [], out => store out 0x22
  | c :: rest, out =>
      if 0x80 ≤ c then marshalEscapedUtf8 s
      else do escapeUnits s rest (← storeEscaped out (UInt8.ofNat c.toNat))

/-- The string token of a string. -/
def marshalEscaped (s : DartString) : Writing Bytes := do
  growScratch (s.length * 6 + 2)
  let out ← store [] 0x22
  escapeUnits s s out

/-! ### Tokens -/

def reset : Writing Unit := call (·.jwReset)

def beginObject : Writing Unit := call (·.jwBeginObject)

def endObject : Writing Unit := call (·.jwEndObject)

def beginArray : Writing Unit := call (·.jwBeginArray)

def endArray : Writing Unit := call (·.jwEndArray)

def key (name : DartString) : Writing Unit := do
  let bytes ← marshal name
  call (·.jwKey bytes)

/-- The bytes a `JsonToken` holds. -/
def JsonToken (value : DartString) : Bytes := utf8Encode value

def keyToken (token : Bytes) : Writing Unit := call (·.jwKey token)

def writeStringToken (token : Bytes) : Writing Unit := call (·.jwString token)

def writeInt (v : Int64) : Writing Unit := call (·.jwInt v)

/-- A double that is not finite is `none`. -/
def writeDouble : Option Double → Writing Unit
  | none => throw (.argument "not a finite JSON number")
  | some v => call (·.jwDouble v)

def writeString (value : DartString) : Writing Unit := do
  let bytes ← marshalEscaped value
  call (·.jwRaw bytes)

def writeBool (b : Bool) : Writing Unit := call (·.jwBool b)

def writeNull : Writing Unit := call (·.jwNull)

def writeRaw (fragment : DartString) : Writing Unit := do
  let bytes ← marshal fragment
  call (·.jwRaw bytes)

/-! ### Values -/

/-- An object as `writeValue` tells them apart; `other` has what its `toJson` gives, if it
has one. A key is its `toString`. -/
inductive DartObject where
  | null
  | bool (b : Bool)
  | int (v : Int64)
  | double (v : Option Double)
  | string (s : DartString)
  | map (entries : List (DartString × DartObject))
  | list (items : List DartObject)
  | other (converted : Option DartObject)

mutual

def writeValue : DartObject → Writing Unit
  | .null => writeNull
  | .bool b => writeBool b
  | .int v => writeInt v
  | .double v => writeDouble v
  | .string s => writeString s
  | .map entries => do
      beginObject
      writeEntries entries
      endObject
  | .list items => do
      beginArray
      writeItems items
      endArray
  | .other none => throw .unsupported
  | .other (some converted) => writeValue converted

def writeEntries : List (DartString × DartObject) → Writing Unit
  | [] => pure ()
  | (name, value) :: entries => do
      key name
      writeValue value
      writeEntries entries

def writeItems : List DartObject → Writing Unit
  | [] => pure ()
  | value :: items => do
      writeValue value
      writeItems items

end

/-! ### Templates -/

def Column.length : Column → Nat
  | .ints values => values.length
  | .doubles values => values.length

/-- The loop that fills the tables. -/
def fillTables (segments : List Bytes) (n : Nat) : Nat → List Column → Writing Unit
  | _, [] => pure ()
  | c, column :: columns => do
      modify fun w => { w with segTable := w.segTable.set c (segments.getD c []) }
      if column.length ≠ n then
        throw (.argument
          s!"every column must be the same length (column {c} has {column.length}, expected {n})")
      modify fun w => { w with colTable := w.colTable.set c column }
      fillTables segments n (c + 1) columns

def writeTemplatedArray (segments : List Bytes) (columns : List Column) : Writing Unit := do
  let k := columns.length
  if segments.length ≠ k + 1 then
    throw (.argument (s!"writeTemplatedArray needs one more segment than columns " ++
      s!"({segments.length} segments, {k} columns)"))
  let n := columns.head?.elim 0 Column.length
  modify fun w => { w with
    segTable := if k + 1 > w.segTable.length then List.replicate (k + 1) [] else w.segTable
    colTable := if k > w.colTable.length then List.replicate k (.ints []) else w.colTable }
  fillTables segments n 0 columns
  modify fun w => { w with segTable := w.segTable.set k (segments.getD k []) }
  modify fun w => { w with native := w.native.jwEmitTemplate n k w.segTable w.colTable }

end NitroServer.Json
