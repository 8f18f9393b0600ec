/-
The native JSON writer (`JsonWriter.cpp`): a growable buffer that tokens are appended to.

* `NitroJsonWriter` — what has been written, what is reserved, and the comma flag; the raw
  cursor of the token writers is `fill`, which has to be given that the bytes fit.
* `writeInt`, `writeEscaped`, `writeDouble` — the renderings.
* `jwBeginObject`, …, `jwEmitTemplate` — the exported token functions.

A finite double is what the writer gets to see of it: its sign bit, whether it is zero, and
the digits that `std::to_chars` finds for its magnitude.
-/

import NitroServer.Engine.Types
import NitroServer.Lib.Decimal

namespace NitroServer.Json

open Engine (Bytes)
open Lib.Decimal (Digit decimalDigits)

/-! ### The buffer -/

structure NitroJsonWriter where
  data : Bytes
  cap : Nat
  needComma : Bool
  fits : data.length ≤ cap

/-- `while (nc < need) nc *= 2`. -/
def doubled (need nc : Nat) (pos : 0 < nc) : Nat :=
  if nc < need then doubled need (nc * 2) (by omega) else nc
termination_by need - nc

theorem le_doubled (need nc : Nat) (pos : 0 < nc) :
    nc ≤ doubled need nc pos ∧ need ≤ doubled need nc pos := by
  induction nc, pos using doubled.induct need with
  | case1 nc pos short ih =>
      rw [doubled, if_pos short]
      exact ⟨by omega, ih.2⟩
  | case2 nc pos enough =>
      rw [doubled, if_neg enough]
      exact ⟨le_rfl, by omega⟩

/-- `cap ? cap * 2 : 256`. -/
def firstCap (cap : Nat) : Nat := if cap = 0 then 256 else cap * 2

theorem firstCap_pos (cap : Nat) : 0 < firstCap cap := by
  rw [firstCap]
  split
  · decide
  · omega

theorem le_firstCap (cap : Nat) : cap ≤ firstCap cap := by
  rw [firstCap]
  split
  · omega
  · omega

namespace NitroJsonWriter

variable (w : NitroJsonWriter)

def grow (need : Nat) : NitroJsonWriter :=
  { w with
    cap := doubled need (firstCap w.cap) (firstCap_pos w.cap)
    fits := w.fits.trans ((le_firstCap w.cap).trans (le_doubled need _ _).1) }

def ensure (extra : Nat) : NitroJsonWriter :=
  if w.cap < w.data.length + extra then w.grow (w.data.length + extra) else w

@[simp] theorem ensure_data (extra : Nat) : (w.ensure extra).data = w.data := by
  rw [ensure]
  split
  · rfl
  · rfl

@[simp] theorem ensure_needComma (extra : Nat) : (w.ensure extra).needComma = w.needComma := by
  rw [ensure]
  split
  · rfl
  · rfl

theorem ensure_room (extra : Nat) : (w.ensure extra).data.length + extra ≤ (w.ensure extra).cap := by
  rw [ensure_data, ensure]
  split
  · exact (le_doubled _ _ _).2
  · omega

/-- Write through the cursor, inside what is reserved. -/
def fill (bs : Bytes) (room : w.data.length + bs.length ≤ w.cap) : NitroJsonWriter :=
  { w with data := w.data ++ bs, fits := by rw [List.length_append]; exact room }

/-- Reserve `extra` bytes and write through the cursor. -/
def reserve (extra : Nat) (bs : Bytes) (short : bs.length ≤ extra) : NitroJsonWriter :=
  (w.ensure extra).fill bs (by have room := w.ensure_room extra; omega)

def put (b : UInt8) : NitroJsonWriter := w.reserve 1 [b] le_rfl

def putN (s : Bytes) : NitroJsonWriter := w.reserve s.length s le_rfl

/-- A loop of `put`s. -/
def puts (s : Bytes) : NitroJsonWriter := s.foldl put w

def sep : NitroJsonWriter := if w.needComma then w.put 0x2c else w

def setComma (b : Bool) : NitroJsonWriter := { w with needComma := b }

@[simp] theorem reserve_data (extra : Nat) (bs : Bytes) (short : bs.length ≤ extra) :
    (w.reserve extra bs short).data = w.data ++ bs :=
  congrArg (· ++ bs) (w.ensure_data extra)

@[simp] theorem reserve_needComma (extra : Nat) (bs : Bytes) (short : bs.length ≤ extra) :
    (w.reserve extra bs short).needComma = w.needComma :=
  w.ensure_needComma extra

@[simp] theorem put_data (b : UInt8) : (w.put b).data = w.data ++ [b] := w.reserve_data ..

@[simp] theorem put_needComma (b : UInt8) : (w.put b).needComma = w.needComma :=
  w.reserve_needComma ..

@[simp] theorem putN_data (s : Bytes) : (w.putN s).data = w.data ++ s := w.reserve_data ..

@[simp] theorem putN_needComma (s : Bytes) : (w.putN s).needComma = w.needComma :=
  w.reserve_needComma ..

@[simp] theorem puts_data (s : Bytes) : (w.puts s).data = w.data ++ s := by
  induction s generalizing w with
  | nil => exact (List.append_nil _).symm
  | cons b s ih =>
      have turn : w.puts (b :: s) = (w.put b).puts s := rfl
      rw [turn, ih, put_data, List.append_assoc, List.singleton_append]

@[simp] theorem puts_needComma (s : Bytes) : (w.puts s).needComma = w.needComma := by
  induction s generalizing w with
  | nil => rfl
  | cons b s ih =>
      have turn : w.puts (b :: s) = (w.put b).puts s := rfl
      rw [turn, ih, put_needComma]

@[simp] theorem setComma_data (b : Bool) : (w.setComma b).data = w.data := rfl

@[simp] theorem setComma_needComma (b : Bool) : (w.setComma b).needComma = b := rfl

/-- The comma in front of the next value. -/
def comma : Bytes := if w.needComma then [0x2c] else []

@[simp] theorem sep_data : w.sep.data = w.data ++ w.comma := by
  rw [sep, comma]
  split
  · exact w.put_data 0x2c
  · exact (List.append_nil _).symm

end NitroJsonWriter

/-! ### Integers -/

/-- `~x + 1` of a negative number, as unsigned. -/
def magnitude (v : Int64) : UInt64 := if v < 0 then ~~~v.toUInt64 + 1 else v.toUInt64

/-- `tmp`, the lowest digit first. -/
def tmpDigits : Nat → UInt64 → Bytes
  | 0, _ => []
  | places + 1, x =>
      if x = 0 then [] else UInt8.ofNat (0x30 + (x % 10).toNat) :: tmpDigits places (x / 10)

namespace NitroJsonWriter

def writeInt (w : NitroJsonWriter) (v : Int64) : NitroJsonWriter :=
  if v = 0 then w.put 0x30
  else
    let tmp := tmpDigits 24 (magnitude v)
    w.reserve (tmp.length + 1) ((if v < 0 then [0x2d] else []) ++ tmp.reverse) (by
      split <;> simp [tmp])

end NitroJsonWriter

/-! ### Strings -/

def kHex : Bytes :=
  [0x30, 0x31, 0x32, 0x33, 0x34, 0x35, 0x36, 0x37, 0x38, 0x39, 0x61, 0x62, 0x63, 0x64, 0x65, 0x66]

def hexDigit (n : UInt8) : UInt8 := kHex.getD n.toNat 0

/-- One turn of the loop. -/
def escapedByte (c : UInt8) : Bytes :=
  if c = 0x22 then [0x5c, 0x22]
  else if c = 0x5c then [0x5c, 0x5c]
  else if c = 0x08 then [0x5c, 0x62]
  else if c = 0x0c then [0x5c, 0x66]
  else if c = 0x0a then [0x5c, 0x6e]
  else if c = 0x0d then [0x5c, 0x72]
  else if c = 0x09 then [0x5c, 0x74]
  else if c < 0x20 then [0x5c, 0x75, 0x30, 0x30, hexDigit (c >>> 4), hexDigit (c &&& 0xf)]
  else [c]

def escaped (s : Bytes) : Bytes := 0x22 :: (s.flatMap escapedByte ++ [0x22])

theorem escapedByte_length (c : UInt8) : (escapedByte c).length ≤ 6 := by
  unfold escapedByte
  repeat' split
  all_goals exact Nat.le_of_ble_eq_true rfl

theorem flatMap_escapedByte_length (s : Bytes) : (s.flatMap escapedByte).length ≤ s.length * 6 := by
  induction s with
  | nil => exact le_rfl
  | cons c s ih =>
      have six := escapedByte_length c
      rw [List.flatMap_cons, List.length_append, List.length_cons]
      omega

theorem escaped_length (s : Bytes) : (escaped s).length ≤ s.length * 6 + 2 := by
  have six := flatMap_escapedByte_length s
  rw [escaped, List.length_cons, List.length_append, List.length_singleton]
  omega

def NitroJsonWriter.writeEscaped (w : NitroJsonWriter) (s : Bytes) : NitroJsonWriter :=
  w.reserve (s.length * 6 + 2) (escaped s) (escaped_length s)

/-! ### Doubles -/

/-- The shortest digits that read back as a positive double, and the exponent of the first. -/
structure Shortest where
  digits : List Digit
  exponent : Int
  nonempty : digits ≠ []
  short : digits.length ≤ 17
  trimmed : digits.length = 1 ∨ digits.getLast? ≠ some 0
  low : -324 ≤ exponent
  high : exponent ≤ 308

inductive Double where
  | zero (negative : Bool)
  | finite (negative : Bool) (s : Shortest) (leads : s.digits.head? ≠ some 0)

def digitByte (d : Digit) : UInt8 := UInt8.ofNat (0x30 + d)

/-- What `std::to_chars` writes in the scientific format: `d[.ddd]e±xx`, two digits of
exponent at least. -/
def Shortest.sci (s : Shortest) : Bytes :=
  (s.digits.take 1).map digitByte ++
    (if s.digits.length = 1 then [] else 0x2e :: (s.digits.drop 1).map digitByte) ++
    0x65 :: (if s.exponent < 0 then 0x2d else 0x2b) ::
      ((if s.exponent.natAbs < 10 then [0x30] else []) ++
        (decimalDigits s.exponent.natAbs).map digitByte)

/-- The digits of the scientific text, and the rest from the `e` on. -/
def sciDigits : Bytes → Bytes × Bytes
  | [] => ([], [])
  | [d] => ([d], [])
  | d :: c :: rest =>
      if c = 0x2e then (d :: rest.takeWhile (· != 0x65), rest.dropWhile (· != 0x65))
      else ([d], c :: rest)

def sciNumber (ds : Bytes) : Int := ds.foldl (fun e d => e * 10 + (d.toNat - 0x30)) 0

/-- The exponent, behind the `e`. -/
def sciExponent : Bytes → Int
  | [] => 0
  | c :: ds =>
      if c = 0x2b then sciNumber ds
      else if c = 0x2d then -sciNumber ds
      else sciNumber (c :: ds)

namespace NitroJsonWriter

variable (w : NitroJsonWriter)

def writeExponent (exp : Int) : NitroJsonWriter :=
  let w := w.put 0x65
  if 0 ≤ exp then (w.put 0x2b).writeInt (Int64.ofInt exp)
  else (w.put 0x2d).writeInt (Int64.ofInt (-exp))

/-- The layout of the digits, by the position `n` of the decimal point among them. -/
def layout (digits : Bytes) (n : Int) : NitroJsonWriter :=
  let k : Int := digits.length
  if k ≤ n ∧ n ≤ 21 then
    ((w.puts digits).puts (List.replicate (n - k).toNat 0x30)).putN [0x2e, 0x30]
  else if 0 < n ∧ n ≤ 21 then
    ((w.puts (digits.take n.toNat)).put 0x2e).puts (digits.drop n.toNat)
  else if -6 < n ∧ n ≤ 0 then
    ((w.putN [0x30, 0x2e]).puts (List.replicate (-n).toNat 0x30)).puts digits
  else
    let w := w.put (digits.headD 0)
    let w := if 1 < k then (w.put 0x2e).puts (digits.drop 1) else w
    w.writeExponent (n - 1)

/-- `writeDouble` behind the test for zero. -/
def writeSci (negative : Bool) (sci : Bytes) : NitroJsonWriter :=
  let (digits, rest) := sciDigits sci
  let e := sciExponent (rest.drop 1)
  let w := w.ensure 40
  let w := if negative then w.put 0x2d else w
  w.layout digits (e + 1)

def writeDouble : Double → NitroJsonWriter
  | .zero negative => (if negative then w.put 0x2d else w).putN [0x30, 0x2e, 0x30]
  | .finite negative s _ => w.writeSci negative s.sci

end NitroJsonWriter

/-! ### Tokens -/

def jwNew : NitroJsonWriter := ({ data := [], cap := 0, needComma := false, fits := le_rfl } :
  NitroJsonWriter).grow 256

/-- One column of a template: its type and its values. -/
inductive Column where
  | ints (values : List Int64)
  | doubles (values : List Double)

namespace NitroJsonWriter

variable (w : NitroJsonWriter)

def jwReset : NitroJsonWriter := { w with data := [], needComma := false, fits := Nat.zero_le _ }

def jwBeginObject : NitroJsonWriter := (w.sep.put 0x7b).setComma false

def jwEndObject : NitroJsonWriter := (w.put 0x7d).setComma true

def jwBeginArray : NitroJsonWriter := (w.sep.put 0x5b).setComma false

def jwEndArray : NitroJsonWriter := (w.put 0x5d).setComma true

def jwKey (k : Bytes) : NitroJsonWriter := ((w.sep.writeEscaped k).put 0x3a).setComma false

def jwInt (v : Int64) : NitroJsonWriter := (w.sep.writeInt v).setComma true

def jwDouble (v : Double) : NitroJsonWriter := (w.sep.writeDouble v).setComma true

def jwString (s : Bytes) : NitroJsonWriter := (w.sep.writeEscaped s).setComma true

def jwBool (b : Bool) : NitroJsonWriter :=
  (w.sep.putN (if b then [0x74, 0x72, 0x75, 0x65] else [0x66, 0x61, 0x6c, 0x73, 0x65])).setComma true

def jwNull : NitroJsonWriter := (w.sep.putN [0x6e, 0x75, 0x6c, 0x6c]).setComma true

def jwRaw (r : Bytes) : NitroJsonWriter := (w.sep.putN r).setComma true

/-- `colData[c][row]`, by `colTypes[c]`. -/
def writeColumn (row : Nat) : Option Column → NitroJsonWriter
  | some (.ints values) => w.writeInt (values.getD row 0)
  | some (.doubles values) => w.writeDouble (values.getD row (.zero false))
  | none => w

/-- One record. -/
def emitRow (k : Nat) (segments : List Bytes) (columns : List Column) (row : Nat) :
    NitroJsonWriter :=
  let w := (List.range k).foldl
    (fun w c => (w.putN (segments.getD c [])).writeColumn row columns[c]?) w
  w.putN (segments.getD k [])

def jwEmitTemplate (n k : Nat) (segments : List Bytes) (columns : List Column) : NitroJsonWriter :=
  let w := w.sep.put 0x5b
  let w := (List.range n).foldl
    (fun w row => (if row = 0 then w else w.put 0x2c).emitRow k segments columns row) w
  (w.put 0x5d).setComma true

end NitroJsonWriter

end NitroServer.Json
