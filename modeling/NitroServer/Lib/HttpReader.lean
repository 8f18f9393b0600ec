/-
A reader of HTTP/1.1 responses (RFC 9112), as a client that knows the method of its request
reads them off a connection.

* `readLine` — a line up to CRLF; a CR or an LF anywhere else is refused.
* `readFields` — field lines up to the empty one, values without the blanks around them.
* `framing` — where the content ends (RFC 9112 §6.3): nowhere for HEAD, 1xx, 204 and 304; by
  `Transfer-Encoding`; by `Content-Length`; else with the connection. Both fields together, and
  lengths that differ, are refused.
* `readResponse` — one response and the octets that are left for the next.

What is written is read back by three rules: `readResponse_head` for any head of legal field
lines, `readContent_length` and `readContent_chunked` for the two ways to delimit content.
-/

import NitroServer.Lib.Search

namespace NitroServer.Lib.HttpReader

abbrev Octets := List UInt8

/-- The octets of an ASCII literal. -/
def lit (s : String) : Octets := s.toList.map fun c => c.toNat.toUInt8

def lower (b : UInt8) : UInt8 := if 65 ≤ b ∧ b ≤ 90 then b + 32 else b

/-- HttpField names and tokens are compared without case. -/
def sameToken (a b : Octets) : Bool := a.map lower == b.map lower

def isBlank (b : UInt8) : Bool := b == 32 || b == 9

/-- A value without the optional white space around it. -/
def strip (s : Octets) : Octets :=
  ((s.dropWhile isBlank).reverse.dropWhile isBlank).reverse

/-- A visible octet, a blank or `obs-text`: what field values and reasons are made of. -/
def textOctet (b : UInt8) : Bool := b == 9 || (32 ≤ b && b != 127)

def tokenOctet (b : UInt8) : Bool :=
  (97 ≤ b && b ≤ 122) || (65 ≤ b && b ≤ 90) || (48 ≤ b && b ≤ 57) ||
    (lit "!#$%&'*+-.^_`|~").contains b

/-- Nothing to strip between two octets that are no blanks. -/
theorem strip_edges {a b : UInt8} (first : isBlank a = false) (last : isBlank b = false)
    (s : Octets) : strip (a :: (s ++ [b])) = a :: (s ++ [b]) := by
  have shape : (a :: (s ++ [b])).reverse = b :: (a :: s).reverse := by
    rw [← List.cons_append, List.reverse_append]
    rfl
  have front : (a :: (s ++ [b])).dropWhile isBlank = a :: (s ++ [b]) :=
    List.dropWhile_cons_of_neg (by simp [first])
  have back : (b :: (a :: s).reverse).dropWhile isBlank = b :: (a :: s).reverse :=
    List.dropWhile_cons_of_neg (by simp [last])
  rw [strip, front, shape, back, ← shape, List.reverse_reverse]

theorem dropWhile_solid {s : Octets} (solid : ∀ b ∈ s, isBlank b = false) :
    s.dropWhile isBlank = s := by
  cases s with
  | nil => rfl
  | cons a s => exact List.dropWhile_cons_of_neg (by simp [solid a List.mem_cons_self])

theorem strip_solid {s : Octets} (solid : ∀ b ∈ s, isBlank b = false) : strip s = s := by
  have back : ∀ b ∈ s.reverse, isBlank b = false := fun b mem =>
    solid b (List.mem_reverse.mp mem)
  rw [strip, dropWhile_solid solid, dropWhile_solid back, List.reverse_reverse]

/-! ### Lines -/

/-- The line before the first CRLF, and what follows it. -/
def readLine : Octets → Option (Octets × Octets)
  | [] => none
  | b :: s =>
      if b = 13 then if s.head? = some 10 then some ([], s.tail) else none
      else if b = 10 then none
      else (readLine s).map fun p => (b :: p.1, p.2)

theorem readLine_crlf (rest : Octets) : readLine (13 :: 10 :: rest) = some ([], rest) := by
  simp [readLine]

/-- A line of text ends at its CRLF. -/
theorem readLine_text {line : Octets} (text : ∀ b ∈ line, textOctet b) (rest : Octets) :
    readLine (line ++ 13 :: 10 :: rest) = some (line, rest) := by
  induction line with
  | nil => exact readLine_crlf rest
  | cons b line ih =>
      have noCr : b ≠ 13 := by
        rintro rfl
        exact absurd (text 13 List.mem_cons_self) (by decide)
      have noLf : b ≠ 10 := by
        rintro rfl
        exact absurd (text 10 List.mem_cons_self) (by decide)
      have more := ih fun c hc => text c (List.mem_cons_of_mem b hc)
      rw [List.cons_append, readLine, if_neg noCr, if_neg noLf, more]
      rfl

/-! ### Numbers -/

/-- The value of a digit, below the base. -/
def digit (base : Nat) (b : UInt8) : Option Nat :=
  let d :=
    if 48 ≤ b ∧ b ≤ 57 then b.toNat - 48
    else if 97 ≤ b ∧ b ≤ 102 then b.toNat - 87
    else if 65 ≤ b ∧ b ≤ 70 then b.toNat - 55
    else base
  if d < base then some d else none

def readDigits (base : Nat) : Octets → Nat → Option Nat
  | [], n => some n
  | b :: s, n => (digit base b).bind fun d => readDigits base s (n * base + d)

/-- One digit or more. -/
def readNumber (base : Nat) (s : Octets) : Option Nat :=
  if s = [] then none else readDigits base s 0

/-- A number as it is written: lower-case digits, no leading zero. -/
def number (base n : Nat) : Octets := lit (String.ofList (Nat.toDigits base n))

theorem readDigits_append (base : Nat) (s t : Octets) (n : Nat) :
    readDigits base (s ++ t) n = (readDigits base s n).bind (readDigits base t) := by
  induction s generalizing n with
  | nil => rfl
  | cons b s ih =>
      rw [List.cons_append, readDigits, readDigits, Option.bind_assoc]
      exact congrArg _ (funext fun d => ih _)

theorem lit_ofList (cs : List Char) :
    lit (String.ofList cs) = cs.map fun c => c.toNat.toUInt8 := by
  rw [lit, String.toList_ofList]

theorem digit_digitChar {base d : Nat} (small : base ≤ 16) (lt : d < base) :
    digit base (Nat.digitChar d).toNat.toUInt8 = some d := by
  have all : ∀ base < 17, ∀ d < base,
      digit base (Nat.digitChar d).toNat.toUInt8 = some d := by
    decide +kernel
  exact all base (by omega) d lt

section Numbers

variable {base : Nat} (two : 1 < base)

include two

theorem number_ne_nil (n : Nat) : number base n ≠ [] := by
  rw [number, lit_ofList]
  by_cases lt : n < base
  · rw [Nat.toDigits_of_lt_base lt]
    simp
  · rw [Nat.toDigits_of_base_le two (by omega)]
    simp

variable (small : base ≤ 16)

include small

theorem readDigits_number (n : Nat) : readDigits base (number base n) 0 = some n := by
  induction n using Nat.strongRecOn with
  | _ n ih =>
      rw [number, lit_ofList]
      by_cases lt : n < base
      · rw [Nat.toDigits_of_lt_base lt, List.map_singleton, readDigits,
          digit_digitChar small lt]
        simp [readDigits]
      · have le : base ≤ n := by omega
        have earlier := ih (n / base) (Nat.div_lt_self (by omega) two)
        rw [number, lit_ofList] at earlier
        rw [Nat.toDigits_of_base_le two le, List.map_append, readDigits_append, earlier,
          List.map_singleton, Option.bind_some, readDigits,
          digit_digitChar small (Nat.mod_lt n (by omega)), Option.bind_some, readDigits]
        congr 1
        rw [Nat.mul_comm]
        exact Nat.div_add_mod n base

/-- A number is read back as it was written. -/
theorem readNumber_number (n : Nat) : readNumber base (number base n) = some n := by
  rw [readNumber, if_neg (number_ne_nil two n)]
  exact readDigits_number two small n

/-- A written number is made of digits. -/
theorem number_digits (n : Nat) : ∀ b ∈ number base n, (digit base b).isSome := by
  induction n using Nat.strongRecOn with
  | _ n ih =>
      rw [number, lit_ofList]
      by_cases lt : n < base
      · rw [Nat.toDigits_of_lt_base lt]
        intro b mem
        rw [List.map_singleton, List.mem_singleton] at mem
        rw [mem, digit_digitChar small lt]
        rfl
      · have earlier := ih (n / base) (Nat.div_lt_self (by omega) two)
        rw [number, lit_ofList] at earlier
        rw [Nat.toDigits_of_base_le two (by omega), List.map_append]
        intro b mem
        rcases List.mem_append.mp mem with mem | mem
        · exact earlier b mem
        · rw [List.map_singleton, List.mem_singleton] at mem
          rw [mem, digit_digitChar small (Nat.mod_lt n (by omega))]
          rfl

end Numbers

/-- Digits are visible and no blanks, commas or semicolons. -/
theorem digit_plain {base : Nat} {b : UInt8} (small : base ≤ 16) (h : (digit base b).isSome) :
    textOctet b ∧ isBlank b = false ∧ b ≠ 44 ∧ b ≠ 59 := by
  have all : ∀ n < 256, (digit 16 (UInt8.ofNat n)).isSome →
      textOctet (UInt8.ofNat n) ∧ isBlank (UInt8.ofNat n) = false ∧ UInt8.ofNat n ≠ 44 ∧
        UInt8.ofNat n ≠ 59 := by
    decide +kernel
  -- a digit of a smaller base is one of base 16
  have wide : (digit 16 b).isSome := by
    simp only [digit, Option.isSome_ite] at h ⊢
    split_ifs at h ⊢ <;> omega
  have at_ := all b.toNat b.toNat_lt
  rw [UInt8.ofNat_toNat] at at_
  exact at_ wide

/-! ### Fields -/

structure HttpField where
  name : Octets
  value : Octets
deriving DecidableEq, Repr

/-- A field as a reader keeps it. -/
def HttpField.stripped (f : HttpField) : HttpField := { f with value := strip f.value }

/-- A field that may be written: its name is a token and its value is text. -/
def HttpField.Legal (f : HttpField) : Prop :=
  f.name ≠ [] ∧ (∀ b ∈ f.name, tokenOctet b) ∧ ∀ b ∈ f.value, textOctet b

/-- A field line: a token, a colon right after it, and text. -/
def readField (line : Octets) : Option HttpField :=
  let name := line.takeWhile tokenOctet
  let rest := line.dropWhile tokenOctet
  if name ≠ [] ∧ rest.head? = some 58 ∧ rest.tail.all textOctet then
    some ⟨name, strip rest.tail⟩
  else none

/-- The field lines up to the empty one; `fuel` bounds their number. -/
def readFields : Nat → Octets → Option (List HttpField × Octets)
  | 0, _ => none
  | fuel + 1, s => (readLine s).bind fun p =>
      if p.1 = [] then some ([], p.2)
      else (readField p.1).bind fun f =>
        (readFields fuel p.2).map fun q => (f :: q.1, q.2)

/-- A field line as it is written. -/
def fieldLine (f : HttpField) : Octets := f.name ++ [58, 32] ++ f.value ++ [13, 10]

theorem tokenOctet_plain {b : UInt8} (h : tokenOctet b) : textOctet b ∧ b ≠ 58 := by
  have all : ∀ n < 256, tokenOctet (UInt8.ofNat n) →
      textOctet (UInt8.ofNat n) ∧ UInt8.ofNat n ≠ 58 := by
    decide +kernel
  have at_ := all b.toNat b.toNat_lt
  rw [UInt8.ofNat_toNat] at at_
  exact at_ h

theorem strip_blank (s : Octets) : strip (32 :: s) = strip s := rfl

section FieldLines

variable {f : HttpField} (legal : f.Legal)

include legal

theorem readField_legal : readField (f.name ++ [58, 32] ++ f.value) = some f.stripped := by
  obtain ⟨named, token, text⟩ := legal
  have colon : ¬ tokenOctet 58 = true := by decide
  have shape : f.name ++ [58, 32] ++ f.value = f.name ++ 58 :: 32 :: f.value := by simp
  have name : (f.name ++ 58 :: 32 :: f.value).takeWhile tokenOctet = f.name := by
    rw [List.takeWhile_append_of_pos token, List.takeWhile_cons_of_neg colon,
      List.append_nil]
  have rest : (f.name ++ 58 :: 32 :: f.value).dropWhile tokenOctet = 58 :: 32 :: f.value := by
    rw [List.dropWhile_append_of_pos token, List.dropWhile_cons_of_neg colon]
  have visible : (32 :: f.value).all textOctet := by
    rw [List.all_cons, List.all_eq_true.mpr text]
    decide
  rw [shape, readField, name, rest]
  exact if_pos ⟨named, rfl, visible⟩

theorem fieldLine_text : ∀ b ∈ f.name ++ [58, 32] ++ f.value, textOctet b := by
  obtain ⟨-, token, text⟩ := legal
  intro b mem
  rcases List.mem_append.mp mem with mem | mem
  · rcases List.mem_append.mp mem with mem | mem
    · exact (tokenOctet_plain (token b mem)).1
    · have colonOrBlank : b = 58 ∨ b = 32 := by simpa using mem
      rcases colonOrBlank with rfl | rfl <;> decide
  · exact text b mem

theorem readLine_fieldLine (rest : Octets) :
    readLine (fieldLine f ++ rest) = some (f.name ++ [58, 32] ++ f.value, rest) := by
  have line := readLine_text (fieldLine_text legal) rest
  rw [fieldLine, List.append_assoc]
  exact line

end FieldLines

/-- Legal field lines and the empty line are read back as the fields. -/
theorem readFields_lines {fs : List HttpField} (legal : ∀ f ∈ fs, f.Legal) (rest : Octets)
    {fuel : Nat} (enough : fs.length < fuel) :
    readFields fuel (fs.flatMap fieldLine ++ 13 :: 10 :: rest) =
      some (fs.map HttpField.stripped, rest) := by
  induction fs generalizing fuel with
  | nil =>
      cases fuel with
      | zero => exact absurd enough (Nat.not_lt_zero _)
      | succ fuel => simp [readFields, readLine_crlf]
  | cons f fs ih =>
      cases fuel with
      | zero => exact absurd enough (Nat.not_lt_zero _)
      | succ fuel =>
          have first := legal f List.mem_cons_self
          have more := ih (fun g mem => legal g (List.mem_cons_of_mem f mem))
            (Nat.lt_of_succ_lt_succ enough)
          have content : f.name ++ [58, 32] ++ f.value ≠ [] := by simp
          rw [List.flatMap_cons, List.append_assoc, readFields, readLine_fieldLine first,
            Option.bind_some, if_neg content, readField_legal first, Option.bind_some, more]
          rfl

/-- The values of the fields of a name. -/
def valuesOf (name : String) (fs : List HttpField) : List Octets :=
  (fs.filter fun f => sameToken f.name (lit name)).map HttpField.value

/-- The elements of the fields of a name, read as comma-separated lists. -/
def elementsOf (name : String) (fs : List HttpField) : List Octets :=
  ((valuesOf name fs).flatMap fun v => (splitAtSep 44 v).map strip).filter (· ≠ [])

/-- A token among the elements of the fields of a name. -/
def hasToken (name token : String) (fs : List HttpField) : Bool :=
  (elementsOf name fs).any fun e => sameToken e (lit token)

theorem elementsOf_append (name : String) (fs gs : List HttpField) :
    elementsOf name (fs ++ gs) = elementsOf name fs ++ elementsOf name gs := by
  simp only [elementsOf, valuesOf, List.filter_append, List.map_append, List.flatMap_append]

theorem valuesOf_append (name : String) (fs gs : List HttpField) :
    valuesOf name (fs ++ gs) = valuesOf name fs ++ valuesOf name gs := by
  simp only [valuesOf, List.filter_append, List.map_append]

/-- No field of the name, no values. -/
theorem valuesOf_absent {name : String} {fs : List HttpField}
    (absent : ∀ f ∈ fs, sameToken f.name (lit name) = false) : valuesOf name fs = [] := by
  have nothing : fs.filter (fun f => sameToken f.name (lit name)) = [] := by
    rw [List.filter_eq_nil_iff]
    intro f mem
    rw [absent f mem]
    exact Bool.false_ne_true
  rw [valuesOf, nothing, List.map_nil]

/-- A value without a comma is one element. -/
theorem elements_single {v : Octets} (full : v ≠ []) (solid : ∀ b ∈ v, isBlank b = false)
    (noComma : ∀ b ∈ v, b ≠ 44) : ((splitAtSep 44 v).map strip).filter (· ≠ []) = [v] := by
  have whole : splitAtSep 44 v = [v] := splitAtSep_none noComma
  rw [whole, List.map_singleton, strip_solid solid, List.filter_cons_of_pos (by simpa using full)]
  rfl

theorem elementsOf_absent {name : String} {fs : List HttpField}
    (absent : ∀ f ∈ fs, sameToken f.name (lit name) = false) : elementsOf name fs = [] := by
  rw [elementsOf, valuesOf_absent absent]
  rfl

/-! ### Where the content ends -/

inductive Framing where
  | empty
  | chunked
  | length (n : Nat)
  | untilClose
deriving DecidableEq, Repr

/-- Responses that have no content, whatever their fields are. -/
def contentless (isHead : Bool) (status : Nat) : Bool :=
  isHead || status / 100 == 1 || status == 204 || status == 304

/-- The length all elements agree on. -/
def agreedLength : List Octets → Option Framing
  | [] => none
  | v :: vs => if vs.all (· == v) then (readNumber 10 v).map .length else none

def framing (isHead : Bool) (status : Nat) (fs : List HttpField) : Option Framing :=
  if contentless isHead status then some .empty
  else if valuesOf "transfer-encoding" fs ≠ [] then
    if valuesOf "content-length" fs ≠ [] then none
    else if (elementsOf "transfer-encoding" fs).getLast?.any (sameToken · (lit "chunked")) then
      some .chunked
    else some .untilClose
  else if valuesOf "content-length" fs ≠ [] then agreedLength (elementsOf "content-length" fs)
  else some .untilClose

/-- A single length that is a written number is the length. -/
theorem agreedLength_number (n : Nat) : agreedLength [number 10 n] = some (.length n) := by
  rw [agreedLength, List.all_nil, if_pos rfl, readNumber_number (by omega) (by omega)]
  rfl

/-! ### Content -/

/-- The size on a chunk's line: hexadecimal digits before any extension. -/
def chunkSize (line : Octets) : Option Nat := readNumber 16 (line.takeWhile (· ≠ 59))

/-- Chunks up to the one of size zero and its trailers, which are read and dropped. -/
def readChunks : Nat → Octets → Option (Octets × Octets)
  | 0, _ => none
  | fuel + 1, s => (readLine s).bind fun p => (chunkSize p.1).bind fun n =>
      if n = 0 then (readFields (p.2.length + 1) p.2).map fun q => ([], q.2)
      else if (p.2.drop n).take 2 = [13, 10] then
        (readChunks fuel (p.2.drop (n + 2))).map fun q => (p.2.take n ++ q.1, q.2)
      else none

def readContent (fr : Framing) (s : Octets) : Option (Octets × Octets) :=
  match fr with
  | .empty => some ([], s)
  | .length n => if n ≤ s.length then some (s.take n, s.drop n) else none
  | .chunked => readChunks (s.length + 1) s
  | .untilClose => some (s, [])

/-- As much content as the length says is read, and no more. -/
theorem readContent_length (content rest : Octets) :
    readContent (.length content.length) (content ++ rest) = some (content, rest) := by
  have fits : content.length ≤ (content ++ rest).length := by simp
  rw [readContent, if_pos fits, List.take_left, List.drop_left]

/-- A chunk as it is written. -/
def chunk (data : Octets) : Octets := number 16 data.length ++ [13, 10] ++ data ++ [13, 10]

def lastChunk : Octets := lit "0" ++ [13, 10, 13, 10]

theorem readLine_number {base : Nat} (two : 1 < base) (small : base ≤ 16) (n : Nat)
    (rest : Octets) : readLine (number base n ++ 13 :: 10 :: rest) = some (number base n, rest) :=
  readLine_text (fun b mem => (digit_plain small (number_digits two small n b mem)).1) rest

theorem chunkSize_number (n : Nat) : chunkSize (number 16 n) = some n := by
  have whole : (number 16 n).takeWhile (· ≠ 59) = number 16 n := by
    rw [List.takeWhile_eq_self_iff]
    intro b mem
    exact decide_eq_true
      (digit_plain le_rfl (number_digits (by omega) le_rfl n b mem)).2.2.2
  rw [chunkSize, whole]
  exact readNumber_number (by omega) le_rfl n

theorem readChunks_last (fuel : Nat) (rest : Octets) :
    readChunks (fuel + 1) (lastChunk ++ rest) = some ([], rest) := by
  have text : ∀ b ∈ lit "0", textOctet b := by decide +kernel
  have line : readLine (lastChunk ++ rest) = some (lit "0", 13 :: 10 :: rest) :=
    readLine_text text _
  have zero : chunkSize (lit "0") = some 0 := by decide +kernel
  have noField : ∀ f ∈ ([] : List HttpField), f.Legal := by simp
  have trailers : readFields ((13 :: 10 :: rest).length + 1) (13 :: 10 :: rest) =
      some ([], rest) :=
    readFields_lines noField rest (Nat.succ_pos _)
  rw [readChunks, line, Option.bind_some, zero, Option.bind_some, if_pos rfl, trailers]
  rfl

/-- The first chunk is read, and the rest is left. -/
theorem readChunks_chunk {data : Octets} (full : data ≠ []) (fuel : Nat) (rest : Octets) :
    readChunks (fuel + 1) (chunk data ++ rest) =
      (readChunks fuel rest).map fun q => (data ++ q.1, q.2) := by
  have shape : chunk data ++ rest =
      number 16 data.length ++ 13 :: 10 :: (data ++ 13 :: 10 :: rest) := by
    simp [chunk]
  have size : data.length ≠ 0 := by
    rwa [Ne, List.length_eq_zero_iff]
  have ended : ((data ++ 13 :: 10 :: rest).drop data.length).take 2 = [13, 10] := by
    rw [List.drop_left]
    rfl
  have after : (data ++ 13 :: 10 :: rest).drop (data.length + 2) = rest := by
    rw [← List.drop_drop, List.drop_left]
    rfl
  rw [shape, readChunks, readLine_number (by omega) le_rfl, Option.bind_some, chunkSize_number,
    Option.bind_some, if_neg size, if_pos ended, after, List.take_left]

theorem readChunks_chunks {datas : List Octets} (full : ∀ data ∈ datas, data ≠ [])
    (rest : Octets) {fuel : Nat} (enough : datas.length < fuel) :
    readChunks fuel (datas.flatMap chunk ++ (lastChunk ++ rest)) =
      some (datas.flatten, rest) := by
  induction datas generalizing fuel with
  | nil =>
      cases fuel with
      | zero => exact absurd enough (Nat.not_lt_zero _)
      | succ fuel => exact readChunks_last fuel rest
  | cons data datas ih =>
      cases fuel with
      | zero => exact absurd enough (Nat.not_lt_zero _)
      | succ fuel =>
          have more := ih (fun d mem => full d (List.mem_cons_of_mem data mem))
            (Nat.lt_of_succ_lt_succ enough)
          rw [List.flatMap_cons, List.append_assoc,
            readChunks_chunk (full data List.mem_cons_self), more]
          rfl

theorem length_le_chunks (datas : List Octets) :
    datas.length ≤ (datas.flatMap chunk).length := by
  induction datas with
  | nil => exact le_rfl
  | cons data datas ih =>
      have one : 2 ≤ (chunk data).length := by
        rw [chunk, List.length_append]
        exact Nat.le_add_left _ _
      rw [List.flatMap_cons, List.length_append, List.length_cons]
      omega

/-- Chunks with something in them and the last one are read back as what they hold. -/
theorem readContent_chunked {datas : List Octets} (full : ∀ data ∈ datas, data ≠ [])
    (rest : Octets) :
    readContent .chunked (datas.flatMap chunk ++ (lastChunk ++ rest)) =
      some (datas.flatten, rest) := by
  have count := length_le_chunks datas
  have enough : datas.length < (datas.flatMap chunk ++ (lastChunk ++ rest)).length + 1 := by
    rw [List.length_append]
    omega
  exact readChunks_chunks full rest enough

/-! ### Responses -/

/-- The status of a line `HTTP/1.1 NNN reason`. -/
def readStatus (line : Octets) : Option Nat :=
  let rest := line.drop 12
  if line.take 9 = lit "HTTP/1.1 " ∧ rest.head? = some 32 ∧ rest.tail.all textOctet then
    readNumber 10 ((line.drop 9).take 3)
  else none

structure Response where
  status : Nat
  fields : List HttpField
  content : Octets
deriving DecidableEq, Repr

/-- One response, and what is left for the next. -/
def readResponse (isHead : Bool) (s : Octets) : Option (Response × Octets) :=
  (readLine s).bind fun line => (readStatus line.1).bind fun status =>
    (readFields (line.2.length + 1) line.2).bind fun fs =>
      (framing isHead status fs.1).bind fun fr =>
        (readContent fr fs.2).map fun c => (⟨status, fs.1, c.1⟩, c.2)

/-- A response's head as it is written. -/
def head (line : Octets) (fs : List HttpField) : Octets :=
  line ++ 13 :: 10 :: (fs.flatMap fieldLine ++ [13, 10])

theorem length_le_lines (fs : List HttpField) : fs.length ≤ (fs.flatMap fieldLine).length := by
  induction fs with
  | nil => exact le_rfl
  | cons f fs ih =>
      have one : 2 ≤ (fieldLine f).length := by
        rw [fieldLine, List.length_append]
        exact Nat.le_add_left _ _
      rw [List.flatMap_cons, List.length_append, List.length_cons]
      omega

/-- After a head of legal field lines, the content is read as the fields frame it. -/
theorem readResponse_head {line : Octets} (text : ∀ b ∈ line, textOctet b) {status : Nat}
    (code : readStatus line = some status) {fs : List HttpField} (legal : ∀ f ∈ fs, f.Legal)
    (isHead : Bool) (rest : Octets) :
    readResponse isHead (head line fs ++ rest) =
      (framing isHead status (fs.map HttpField.stripped)).bind fun fr =>
        (readContent fr rest).map fun c => (⟨status, fs.map HttpField.stripped, c.1⟩, c.2) := by
  have shape : head line fs ++ rest =
      line ++ 13 :: 10 :: (fs.flatMap fieldLine ++ 13 :: 10 :: rest) := by
    simp [head]
  have enough : fs.length < (fs.flatMap fieldLine ++ 13 :: 10 :: rest).length + 1 := by
    have count := length_le_lines fs
    rw [List.length_append]
    omega
  rw [shape, readResponse, readLine_text text, Option.bind_some, code, Option.bind_some,
    readFields_lines legal rest enough, Option.bind_some]

end NitroServer.Lib.HttpReader
