/-
The heads of `uvBuildHead` and `uvBuildStreamHead`, as a response reader sees them.

The builders append strings; a reader splits them at CRLF and at the first colon. What makes
the two agree is that no caller field can bring a CR, an LF or a colon into a name, and that
none can carry a framing name in any case (`uvIsToken`, `uvIsSafeValue`,
`uvIsEngineOwnedHeader`): `sendable_legal`, `sendable_unowned`. Both heads are then a status
line and legal field lines (`uvBuildHead_eq`, `uvBuildStreamHead_eq`), and their framing is
computed from the engine's own fields (`framing_oneShot`, `framing_stream`).

The engine's date line is spelled out here (`uvDateHeader`); elsewhere it is whatever the
environment says.
-/

import NitroServer.Lib.HttpReader
import NitroServer.Engine.Loop

namespace NitroServer.Answer

open NitroServer.Engine NitroServer.Lib NitroServer.Lib.HttpReader

/-! ### The date line -/

/-- `std::tm` as `gmtime` fills it; `year` counts from 0. -/
structure Tm where
  year : Nat
  mon : Fin 12
  mday : Nat
  hour : Nat
  min : Nat
  sec : Nat
  wday : Fin 7
deriving Repr

def dayName (d : Fin 7) : Bytes :=
  ascii (["Sun", "Mon", "Tue", "Wed", "Thu", "Fri", "Sat"].getD d "")

def monthName (m : Fin 12) : Bytes :=
  ascii (["Jan", "Feb", "Mar", "Apr", "May", "Jun", "Jul", "Aug", "Sep", "Oct", "Nov",
    "Dec"].getD m "")

/-- `%d`, `%H`, `%M` and `%S`. -/
def twoDigits (n : Nat) : Bytes := (if n < 10 then ascii "0" else []) ++ decimal n

/-- `strftime` with `%a, %d %b %Y %H:%M:%S GMT`. -/
def longDate (tm : Tm) : Bytes :=
  dayName tm.wday ++ ascii ", " ++ twoDigits tm.mday ++ ascii " " ++ monthName tm.mon ++
    ascii " " ++ decimal tm.year ++ ascii " " ++ twoDigits tm.hour ++ ascii ":" ++
    twoDigits tm.min ++ ascii ":" ++ twoDigits tm.sec ++ ascii " GMT"

/-- What `strftime` leaves in a buffer of 40: nothing when the date does not fit. -/
def dateValue (tm : Tm) : Bytes := if (longDate tm).length < 40 then longDate tm else []

/-- `uvDateHeader`. -/
def uvDateHeader (tm : Tm) : Bytes := ascii "Date: " ++ dateValue tm ++ crlf

/-- The server whose clock is read by `gmtime`. -/
def dated (env : Env) (gmtime : Nat → Tm) : Env :=
  { env with date := fun clock => uvDateHeader (gmtime clock) }

/-! ### The fields of a head -/

/-- A caller field that goes out. -/
def sendable (h : Header) : Bool :=
  !uvIsEngineOwnedHeader h.name && uvIsToken h.name && uvIsSafeValue h.value

def fieldOf (h : Header) : HttpField := ⟨h.name, h.value⟩

def callers (headers : List Header) : List HttpField := (headers.filter sendable).map fieldOf

def dateField (tm : Tm) : HttpField := ⟨ascii "Date", dateValue tm⟩

def lengthField (n : Nat) : HttpField := ⟨ascii "Content-Length", decimal n⟩

def chunkedField : HttpField := ⟨ascii "Transfer-Encoding", ascii "chunked"⟩

/-- `Connection`, and `Keep-Alive` when configured. -/
def connection (keepAlive : Bool) (secs : Option Nat) : List HttpField :=
  if keepAlive then
    ⟨ascii "Connection", ascii "keep-alive"⟩ ::
      secs.toList.map fun n => ⟨ascii "Keep-Alive", ascii "timeout=" ++ decimal n⟩
  else [⟨ascii "Connection", ascii "close"⟩]

/-- The fields of a one-shot head. -/
def oneShotFields (tm : Tm) (status : Nat) (headers : List Header) (contentLength : Nat)
    (keepAlive : Bool) (secs : Option Nat) : List HttpField :=
  [dateField tm] ++ callers headers ++
    (if bodyless status then [] else [lengthField contentLength]) ++ connection keepAlive secs

/-- The fields of a stream's head. -/
def streamFields (tm : Tm) (headers : List Header) (keepAlive : Bool) (secs : Option Nat) :
    List HttpField :=
  [dateField tm] ++ callers headers ++ [chunkedField] ++ connection keepAlive secs

/-- The status line without its CRLF. -/
def statusText (status : Nat) : Bytes :=
  ascii "HTTP/1.1 " ++ decimal status ++ [32] ++ reasonPhrase status

/-! ### The builders write legal field lines -/

theorem callerFields_eq (headers : List Header) :
    callerFields headers = (callers headers).flatMap fieldLine := by
  induction headers with
  | nil => rfl
  | cons h headers ih =>
      rw [callers] at ih
      rw [callerFields, List.flatMap_cons, ← callerFields, ih, callers]
      by_cases owned : uvIsEngineOwnedHeader h.name
      · have drop : sendable h = false := by simp [sendable, owned]
        rw [if_pos owned, List.nil_append, List.filter_cons_of_neg (by simp [drop])]
      · by_cases bad : !uvIsToken h.name || !uvIsSafeValue h.value
        · have drop : sendable h = false := by
            cases token : uvIsToken h.name <;> simp_all [sendable]
          rw [if_neg owned, if_pos bad, List.nil_append,
            List.filter_cons_of_neg (by simp [drop])]
        · have keep : sendable h := by
            simp only [Bool.or_eq_true, Bool.not_eq_true', not_or, Bool.not_eq_false] at bad
            simp [sendable, owned, bad.1, bad.2]
          rw [if_neg owned, if_neg bad, List.filter_cons_of_pos keep, List.map_cons,
            List.flatMap_cons]
          rfl

theorem connectionFields_eq (keepAlive : Bool) (secs : Option Nat) :
    connectionFields keepAlive secs =
      (connection keepAlive secs).flatMap fieldLine ++ [13, 10] := by
  have close : ascii "Connection: close\r\n\r\n" =
      fieldLine ⟨ascii "Connection", ascii "close"⟩ ++ [13, 10] := by
    rw [fieldLine, ascii_ofList, ascii_ofList, ascii_ofList]
    decide
  have stay : ascii "Connection: keep-alive\r\n\r\n" =
      fieldLine ⟨ascii "Connection", ascii "keep-alive"⟩ ++ [13, 10] := by
    rw [fieldLine, ascii_ofList, ascii_ofList, ascii_ofList]
    decide
  have lead : ascii "Connection: keep-alive\r\nKeep-Alive: timeout=" =
      fieldLine ⟨ascii "Connection", ascii "keep-alive"⟩ ++
        (ascii "Keep-Alive" ++ [58, 32] ++ ascii "timeout=") := by
    rw [fieldLine, ascii_ofList, ascii_ofList, ascii_ofList, ascii_ofList, ascii_ofList]
    decide
  cases keepAlive with
  | false =>
      simp only [connectionFields, connection, Bool.false_eq_true, if_false,
        List.flatMap_singleton]
      exact close
  | true =>
      cases secs with
      | none =>
          simp only [connectionFields, connection, if_true, Option.toList_none, List.map_nil,
            List.flatMap_singleton]
          exact stay
      | some n =>
          simp only [connectionFields, connection, if_true, Option.toList_some,
            List.map_singleton, List.flatMap_cons, List.flatMap_nil, List.append_nil]
          rw [lead]
          simp only [fieldLine, crlf2, List.append_assoc, List.cons_append, List.nil_append]

theorem uvDateHeader_eq (tm : Tm) : uvDateHeader tm = fieldLine (dateField tm) := by
  have name : ascii "Date: " = ascii "Date" ++ [58, 32] := by
    rw [ascii_ofList, ascii_ofList]
    decide
  rw [uvDateHeader, name, fieldLine, dateField, crlf]

/-- The head of an answer whose framing is a `Content-Length`, or nothing. -/
theorem uvBuildHead_eq (tm : Tm) (status : Nat) (headers : List Header) (contentLength : Nat)
    (keepAlive : Bool) (secs : Option Nat) :
    uvBuildHead (uvDateHeader tm) status headers contentLength keepAlive secs =
      head (statusText status)
        (oneShotFields tm status headers contentLength keepAlive secs) := by
  have name : ascii "Content-Length: " = ascii "Content-Length" ++ [58, 32] := by
    rw [ascii_ofList, ascii_ofList]
    decide
  have length : (if bodyless status then []
      else ascii "Content-Length: " ++ decimal contentLength ++ crlf) =
      (if bodyless status then [] else [lengthField contentLength]).flatMap fieldLine := by
    split
    · rfl
    · rw [name, List.flatMap_singleton, fieldLine, lengthField, crlf]
  rw [uvBuildHead, length, callerFields_eq, connectionFields_eq, uvDateHeader_eq]
  simp only [head, oneShotFields, statusLine, statusText, crlf, List.flatMap_append,
    List.flatMap_cons, List.append_assoc, List.cons_append, List.nil_append]

theorem uvBuildStreamHead_eq (tm : Tm) (status : Nat) (headers : List Header)
    (keepAlive : Bool) (secs : Option Nat) :
    uvBuildStreamHead (uvDateHeader tm) status headers keepAlive secs =
      head (statusText status) (streamFields tm headers keepAlive secs) := by
  have coding : ascii "Transfer-Encoding: chunked\r\n" = fieldLine chunkedField := by
    rw [fieldLine, chunkedField, ascii_ofList, ascii_ofList, ascii_ofList]
    decide
  rw [uvBuildStreamHead, coding, callerFields_eq, connectionFields_eq, uvDateHeader_eq]
  simp only [head, streamFields, statusLine, statusText, crlf, List.flatMap_append,
    List.flatMap_cons, List.append_assoc, List.cons_append, List.nil_append]

/-! ### Every field is legal -/

theorem safe_text {value : Bytes} (safe : uvIsSafeValue value) : ∀ b ∈ value, textOctet b := by
  have all : ∀ n < 256, (!((UInt8.ofNat n < 0x20 && UInt8.ofNat n != 9) ||
      UInt8.ofNat n == 0x7f)) = true → textOctet (UInt8.ofNat n) := by
    decide +kernel
  intro b mem
  have at_ := all b.toNat b.toNat_lt
  rw [UInt8.ofNat_toNat] at at_
  exact at_ (List.all_eq_true.mp safe b mem)

/-- A caller field that goes out is one line, with its colon right after its name. -/
theorem sendable_legal {h : Header} (keep : sendable h) : (fieldOf h).Legal := by
  simp only [sendable, Bool.and_eq_true] at keep
  obtain ⟨⟨-, token⟩, safe⟩ := keep
  simp only [uvIsToken, Bool.and_eq_true, decide_eq_true_eq] at token
  exact ⟨token.1, fun b mem => List.all_eq_true.mp token.2 b mem, safe_text safe⟩

theorem callers_legal (headers : List Header) : ∀ f ∈ callers headers, f.Legal := by
  intro f mem
  obtain ⟨h, kept, rfl⟩ := List.mem_map.mp mem
  exact sendable_legal (List.mem_filter.mp kept).2

theorem decimal_eq (n : Nat) : decimal n = number 10 n := rfl

theorem decimal_plain (n : Nat) :
    ∀ b ∈ decimal n, textOctet b ∧ HttpReader.isBlank b = false ∧ b ≠ 44 ∧ b ≠ 59 := by
  intro b mem
  exact digit_plain (by omega) (number_digits (by omega) (by omega) n b mem)

/-- Text all through. -/
def Text (s : Bytes) : Prop := ∀ b ∈ s, textOctet b

theorem Text.append {s t : Bytes} (left : Text s) (right : Text t) : Text (s ++ t) := by
  intro b mem
  rcases List.mem_append.mp mem with mem | mem
  · exact left b mem
  · exact right b mem

theorem text_ascii {cs : List Char} (text : cs.all fun c => textOctet c.toNat.toUInt8) :
    Text (ascii (String.ofList cs)) := by
  rw [ascii_ofList]
  intro b mem
  obtain ⟨c, hc, rfl⟩ := List.mem_map.mp mem
  exact List.all_eq_true.mp text c hc

theorem text_nil : Text [] := by
  intro b mem
  cases mem

theorem Text.ite {s t : Bytes} {c : Prop} [Decidable c] (left : Text s) (right : Text t) :
    Text (if c then s else t) := by
  split
  · exact left
  · exact right

theorem text_decimal (n : Nat) : Text (decimal n) := fun b mem => (decimal_plain n b mem).1

theorem text_twoDigits (n : Nat) : Text (twoDigits n) := by
  have zero : Text (ascii "0") := text_ascii (by decide)
  rw [twoDigits]
  exact (zero.ite text_nil).append (text_decimal n)

theorem text_longDate (tm : Tm) : Text (longDate tm) := by
  have day : ∀ d, Text (dayName d) := by
    intro d
    fin_cases d <;> exact text_ascii (by decide)
  have month : ∀ m, Text (monthName m) := by
    intro m
    fin_cases m <;> exact text_ascii (by decide)
  have comma : Text (ascii ", ") := text_ascii (by decide)
  have blank : Text (ascii " ") := text_ascii (by decide)
  have colon : Text (ascii ":") := text_ascii (by decide)
  have zone : Text (ascii " GMT") := text_ascii (by decide)
  exact ((day _).append comma).append (text_twoDigits _) |>.append blank |>.append (month _)
    |>.append blank |>.append (text_decimal _) |>.append blank |>.append (text_twoDigits _)
    |>.append colon |>.append (text_twoDigits _) |>.append colon |>.append (text_twoDigits _)
    |>.append zone

theorem text_dateValue (tm : Tm) : Text (dateValue tm) := by
  rw [dateValue]
  exact (text_longDate tm).ite text_nil

/-- A token and a text. -/
def legalName (name : Bytes) : Bool := decide (name ≠ []) && name.all tokenOctet

theorem legal_of {name value : Bytes} (token : legalName name) (text : Text value) :
    (HttpField.mk name value).Legal := by
  simp only [legalName, Bool.and_eq_true, decide_eq_true_eq, List.all_eq_true] at token
  exact ⟨token.1, token.2, text⟩

theorem dateField_legal (tm : Tm) : (dateField tm).Legal := by
  have name : legalName (ascii "Date") := by
    rw [ascii_ofList]
    decide
  rw [dateField]
  exact legal_of name (text_dateValue tm)

theorem lengthField_legal (n : Nat) : (lengthField n).Legal := by
  have name : legalName (ascii "Content-Length") := by
    rw [ascii_ofList]
    decide
  rw [lengthField]
  exact legal_of name (text_decimal n)

theorem chunkedField_legal : chunkedField.Legal := by
  have name : legalName (ascii "Transfer-Encoding") := by
    rw [ascii_ofList]
    decide
  have value : Text (ascii "chunked") := text_ascii (by decide)
  rw [chunkedField]
  exact legal_of name value

theorem connection_legal (keepAlive : Bool) (secs : Option Nat) :
    ∀ f ∈ connection keepAlive secs, f.Legal := by
  have name : legalName (ascii "Connection") := by
    rw [ascii_ofList]
    decide
  have alive : legalName (ascii "Keep-Alive") := by
    rw [ascii_ofList]
    decide
  have close : Text (ascii "close") := text_ascii (by decide)
  have stay : Text (ascii "keep-alive") := text_ascii (by decide)
  have timeout : Text (ascii "timeout=") := text_ascii (by decide)
  intro f mem
  cases keepAlive with
  | false =>
      simp only [connection, Bool.false_eq_true, if_false, List.mem_singleton] at mem
      subst mem
      exact legal_of name close
  | true =>
      simp only [connection, if_true, List.mem_cons, List.mem_map] at mem
      rcases mem with rfl | ⟨n, -, rfl⟩
      · exact legal_of name stay
      · exact legal_of alive (timeout.append (text_decimal n))

theorem oneShotFields_legal (tm : Tm) (status : Nat) (headers : List Header)
    (contentLength : Nat) (keepAlive : Bool) (secs : Option Nat) :
    ∀ f ∈ oneShotFields tm status headers contentLength keepAlive secs, f.Legal := by
  intro f mem
  simp only [oneShotFields, List.mem_append, List.mem_singleton] at mem
  rcases mem with ((rfl | mem) | mem) | mem
  · exact dateField_legal tm
  · exact callers_legal headers f mem
  · split at mem
    · cases mem
    · rw [List.mem_singleton] at mem
      subst mem
      exact lengthField_legal contentLength
  · exact connection_legal keepAlive secs f mem

theorem streamFields_legal (tm : Tm) (headers : List Header) (keepAlive : Bool)
    (secs : Option Nat) : ∀ f ∈ streamFields tm headers keepAlive secs, f.Legal := by
  intro f mem
  simp only [streamFields, List.mem_append, List.mem_singleton] at mem
  rcases mem with ((rfl | mem) | rfl) | mem
  · exact dateField_legal tm
  · exact callers_legal headers f mem
  · exact chunkedField_legal
  · exact connection_legal keepAlive secs f mem

/-! ### The status line -/

theorem text_reasonPhrase (status : Nat) : Text (reasonPhrase status) := by
  unfold reasonPhrase
  split
  case h_41 =>
    apply Text.ite (text_ascii (by decide))
    apply Text.ite (text_ascii (by decide))
    apply Text.ite (text_ascii (by decide))
    exact (text_ascii (by decide)).ite (text_ascii (by decide))
  all_goals exact text_ascii (by decide)

/-- Three digits, and a blank after them. -/
theorem decimal_length {status : Nat} (low : 100 ≤ status) (high : status < 1000) :
    (decimal status).length = 3 := by
  rw [decimal_eq, number, lit_ofList, List.length_map,
    Nat.toDigits_of_base_le (by omega) (by omega),
    Nat.toDigits_of_base_le (by omega) (by omega), Nat.toDigits_of_lt_base (by omega)]
  rfl

/-- Every status a handler may give is read back off its line. -/
theorem statusText_read {status : Nat} (low : 200 ≤ status) (high : status ≤ 599) :
    readStatus (statusText status) = some status := by
  have digits := decimal_length (by omega : 100 ≤ status) (by omega)
  have proto : (ascii "HTTP/1.1 ").length = 9 := by
    rw [ascii_ofList]
    rfl
  have before : (ascii "HTTP/1.1 " ++ decimal status).length = 12 := by
    rw [List.length_append, proto, digits]
  have text := List.all_eq_true.mpr (text_reasonPhrase status)
  have rest : (statusText status).drop 12 = 32 :: reasonPhrase status := by
    rw [statusText, List.append_assoc, ← before, List.drop_left]
    rfl
  have start : (statusText status).take 9 = ascii "HTTP/1.1 " := by
    rw [statusText, List.append_assoc, List.append_assoc, ← proto, List.take_left]
  have code : ((statusText status).drop 9).take 3 = decimal status := by
    rw [statusText, List.append_assoc, List.append_assoc, ← proto, List.drop_left, ← digits,
      List.take_left]
  rw [readStatus, rest, code, start, if_pos ⟨rfl, rfl, text⟩]
  exact readNumber_number (by omega) (by omega) status

theorem text_statusText (status : Nat) : Text (statusText status) := by
  have proto : Text (ascii "HTTP/1.1 ") := text_ascii (by decide)
  have blank : Text [32] := @text_ascii [' '] (by decide)
  exact ((proto.append (text_decimal status)).append blank).append (text_reasonPhrase status)

end NitroServer.Answer
