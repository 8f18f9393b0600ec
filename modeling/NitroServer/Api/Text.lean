/-
Headers as the API layer reads and writes them (`context.dart`): numbers, dates, and the request's
headers by name.

* `intText` — `int.toString`; `mem_intText` says which units it is made of.
* `httpDate` — the date of RFC 9110, from the fields of a UTC time.
* `RequestContext.header` — the first value of a header.
-/

import NitroServer.Bridge.Text
import NitroServer.Lib.Decimal

namespace NitroServer.Api

open Bridge (DartString text)
open Lib.Decimal (Digit decimalDigits digitUnit)

/-! ### Numbers -/

/-- `int.toString`. -/
def intText (n : Int) : DartString :=
  (if n < 0 then [0x2d] else []) ++ (decimalDigits n.natAbs).map digitUnit

/-- A minus sign and digits. -/
theorem mem_intText {n : Int} {u : UInt16} (mem : u ∈ intText n) :
    u = 0x2d ∨ ∃ d : Digit, u = digitUnit d := by
  rcases List.mem_append.mp mem with sign | mem
  · split at sign
    · exact .inl (List.mem_singleton.mp sign)
    · exact absurd sign List.not_mem_nil
  · obtain ⟨d, -, rfl⟩ := List.mem_map.mp mem
    exact .inr ⟨d, rfl⟩

/-! ### Dates -/

/-- What `_httpDate` reads of a `DateTime` in UTC. -/
structure UtcTime where
  weekday : Fin 7
  day : Nat
  month : Fin 12
  year : Int
  hour : Nat
  minute : Nat
  second : Nat
deriving DecidableEq, Repr

/-- The sixth of November 1994, a Sunday. -/
def sampleTime : UtcTime := ⟨⟨6, by decide⟩, 6, ⟨10, by decide⟩, 1994, 8, 49, 37⟩

/-- `_weekdays`. -/
def weekdays : List String := ["Mon", "Tue", "Wed", "Thu", "Fri", "Sat", "Sun"]

/-- `_months`. -/
def months : List String :=
  ["Jan", "Feb", "Mar", "Apr", "May", "Jun", "Jul", "Aug", "Sep", "Oct", "Nov", "Dec"]

/-- `two`: `n.toString().padLeft(2, '0')`. -/
def two (n : Nat) : DartString :=
  List.replicate (2 - (intText n).length) 0x30 ++ intText n

/-- `_httpDate`. -/
def httpDate (utc : UtcTime) : DartString :=
  text (weekdays.getD utc.weekday "") ++ text ", " ++ two utc.day ++ text " " ++
    text (months.getD utc.month "") ++ text " " ++ intText utc.year ++ text " " ++
    two utc.hour ++ text ":" ++ two utc.minute ++ text ":" ++ two utc.second ++ text " GMT"

/-! ### Headers -/

/-- What the handlers below read of a `RequestContext`; `headers` is looked up by a name in lower
case. -/
structure RequestContext where
  clientIp : DartString := []
  headers : DartString → Option (List DartString)

/-- `RequestContext.header` of a name in lower case. -/
def RequestContext.header (request : RequestContext) (name : DartString) : Option DartString :=
  (request.headers name).bind List.head?

end NitroServer.Api
