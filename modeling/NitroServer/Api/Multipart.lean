/-
`parseMultipart` (`multipart.dart`): the loop over the parts of a `multipart/form-data` body.

The positions come from searches that know nothing of each other: the blank line behind the
headers, the next delimiter behind that line, and then a look at the two bytes in front of the
delimiter. When the delimiter stands right behind the blank line, these two bytes are the line's
own, and the data would end before it starts.

* `indexOf_eq` — the search loop ends, and finds the first occurrence.
* `readParts_clean`, `readParts_range` — a run gives views that lie in the body, apart and in
  order, or a `FormatException`, or meets such a delimiter and throws a `RangeError`.
* `parse_clean_iff` — the same of whole calls: when nothing but a `FormatException` is thrown.
-/

import NitroServer.Api.Query
import NitroServer.Api.StaticFiles

namespace NitroServer.Api

open Bridge (DartString text dartTrim)
open Engine (Bytes)
open Lib

/-! ### Headers -/

/-- What the parser has of Dart's library that this development leaves open: lower case beyond
ASCII, and U+FFFD for bytes that are not UTF-8. -/
structure Unicode where
  toLowerCase : DartString → DartString
  /-- `utf8.decode` with `allowMalformed`, of bytes that are not UTF-8. -/
  malformed : Bytes → DartString

def colonUnit : UInt16 := 0x3a

def semicolonUnit : UInt16 := 0x3b

def quoteUnit : UInt16 := 0x22

/-- `split('\r\n')`. -/
def splitCrlf : DartString → List DartString
  | [] => [[]]
  | [u] => [[u]]
  | u :: v :: s =>
      if u = 13 ∧ v = 10 then [] :: splitCrlf s
      else match splitCrlf (v :: s) with
        | [] => [[u]]
        | line :: lines => (u :: line) :: lines

/-- The quotes around a value are taken off. -/
def unquoted (value : DartString) : DartString :=
  if 2 ≤ value.length ∧ value.head? = some quoteUnit ∧ value.getLast? = some quoteUnit then
    value.tail.dropLast
  else value

namespace Unicode

variable (lib : Unicode)

/-- `utf8.decode` with `allowMalformed`. -/
def decode (bytes : Bytes) : DartString := (utf8Decode bytes).getD (lib.malformed bytes)

/-- The body of the loop of `_param`. -/
def pieceValue (key piece : DartString) : Option DartString :=
  if equalsSign ∉ piece then none
  else if lib.toLowerCase (dartTrim (keyText piece)) ≠ key then none
  else some (unquoted (dartTrim (valueText piece)))

/-- `_param`. -/
def param (header key : DartString) : Option DartString :=
  ((splitAtSep semicolonUnit header).drop 1).findSome? (lib.pieceValue key)

/-- `_parseHeaders`. -/
def parseHeaders (head : DartString) : Table DartString DartString :=
  (splitCrlf head).foldl (fun out line =>
    if colonUnit ∉ line ∨ line.head? = some colonUnit then out
    else out.set (lib.toLowerCase (dartTrim (line.takeWhile (· ≠ colonUnit))))
      (dartTrim ((line.dropWhile (· ≠ colonUnit)).drop 1))) .empty

/-- `_boundaryOf`. -/
def boundaryOf (contentType : DartString) : Option DartString :=
  if (text "multipart/form-data").isPrefixOf (lib.toLowerCase contentType) then
    lib.param contentType (text "boundary")
  else none

end Unicode

/-- A unit of the class in `_bchars`, the space apart. -/
def isBchar (u : UInt16) : Bool :=
  (u >= 0x30 && u <= 0x39) || (u >= 0x41 && u <= 0x5a) || (u >= 0x61 && u <= 0x7a) ||
    (text "'()+_,-./:=?").contains u

/-- `_bchars.hasMatch`. -/
def isBchars (s : DartString) : Bool :=
  s.all (fun u => isBchar u || u == 0x20) && s.getLast?.any isBchar

/-! ### Bytes -/

inductive MultipartError where
  | format (message : DartString)
  | range
  /-- An `ArgumentError` of `ascii.encode`. -/
  | argument
deriving DecidableEq, Repr

/-- `ascii.encode`. -/
def asciiEncode (s : DartString) : Except MultipartError Bytes :=
  if s.all (· < 0x80) then .ok (s.map fun u => UInt8.ofNat u.toNat) else .error .argument

def crlfCrlf : Bytes := [13, 10, 13, 10]

/-- The loop of `_indexOf`; `hay.indexOf(first, i)` is the first such byte at `i` or after it. -/
def indexOfLoop (hay : Bytes) (first : UInt8) (rest : Bytes) : Nat → Nat → Option Nat
  | 0, _ => none
  | fuel + 1, i =>
      if hay.length < i + (rest.length + 1) then none
      else
        match (hay.drop i).idxOf? first with
        | none => none
        | some ahead =>
            let i := i + ahead
            if hay.length < i + (rest.length + 1) then none
            else if rest.isPrefixOf (hay.drop (i + 1)) then some i
            else indexOfLoop hay first rest fuel (i + 1)

/-- `_indexOf`, of a needle that is not empty. -/
def indexOf (hay needle : Bytes) (start : Nat) : Option Nat :=
  match needle with
  | [] => none
  | first :: rest => indexOfLoop hay first rest (hay.length + 1 - start) start

/-- Two bytes at a position, both within the body. -/
def pairAt (body : Bytes) (pos : Nat) (a b : UInt8) : Bool :=
  body[pos]? == some a && body[pos + 1]? == some b

/-- `_skipCrlf`. -/
def skipCrlf (body : Bytes) (pos : Nat) : Except MultipartError Nat :=
  if pairAt body pos 13 10 then .ok (pos + 2)
  else .error (.format (text "multipart: expected CRLF after boundary"))

/-- `sublist` and `sublistView`, which check their bounds. -/
def view (body : Bytes) (start stop : Nat) : Except MultipartError Bytes :=
  if start ≤ stop ∧ stop ≤ body.length then .ok ((body.drop start).take (stop - start))
  else .error .range

/-! ### The loop -/

/-- `MultipartPart`, with the bounds of its view into the body. -/
structure MultipartPart where
  name : DartString
  filename : Option DartString
  contentType : Option DartString
  start : Nat
  stop : Nat
  bytes : Bytes
deriving DecidableEq, Repr

/-- Where the data in front of a delimiter ends. -/
def dataEnd (body : Bytes) (next : Nat) : Nat :=
  if 2 ≤ next ∧ pairAt body (next - 2) 13 10 then next - 2 else next

section Loop

variable (lib : Unicode) (maxParts maxPartHeaderBytes : Nat) (body delimiter : Bytes)

/-- The part whose headers start at `pos`, and where the delimiter behind it is. -/
def readPart (pos : Nat) : Except MultipartError (MultipartPart × Nat) :=
  match indexOf body crlfCrlf pos with
  | none => .error (.format (text "multipart: unterminated part"))
  | some headEnd =>
      if maxPartHeaderBytes < headEnd - pos then
        .error (.format (text "multipart: part headers exceed " ++ intText maxPartHeaderBytes ++
          text " bytes"))
      else do
        let headers := lib.parseHeaders (lib.decode (← view body pos headEnd))
        match indexOf body delimiter (headEnd + 4) with
        | none => .error (.format (text "multipart: no closing boundary"))
        | some next =>
            let disposition := (headers.find (text "content-disposition")).getD []
            match lib.param disposition (text "name") with
            | none => .error (.format (text "multipart: part without a name"))
            | some name =>
                let bytes ← view body (headEnd + 4) (dataEnd body next)
                return ({ name := name, filename := lib.param disposition (text "filename")
                          contentType := headers.find (text "content-type")
                          start := headEnd + 4, stop := dataEnd body next, bytes := bytes }, next)

/-- What the loop appends to `parts`, from behind a delimiter on. `room` is `maxParts` less the
parts there are. -/
def readParts (room pos : Nat) : Except MultipartError (List MultipartPart) :=
  if pairAt body pos 0x2d 0x2d then .ok []
  else
    match skipCrlf body pos with
    | .error e => .error e
    | .ok pos =>
        match room with
        | 0 =>
            .error (.format (text "multipart: more than " ++ intText maxParts ++ text " parts"))
        | room + 1 =>
            match readPart lib maxPartHeaderBytes body delimiter pos with
            | .error e => .error e
            | .ok (part, next) => (readParts room (next + delimiter.length)).map (part :: ·)

end Loop

/-- The boundary passes its checks. -/
def boundaryValid (boundary : DartString) : Bool :=
  !(boundary.isEmpty || 70 < boundary.length || !isBchars boundary)

/-- `parseMultipart`. -/
def parseMultipart (lib : Unicode) (maxParts maxPartHeaderBytes : Nat) (body : Bytes)
    (contentType : DartString) : Except MultipartError (List MultipartPart) :=
  match lib.boundaryOf contentType with
  | none => .error (.format (text "not multipart/form-data: " ++ contentType))
  | some boundary =>
      if boundaryValid boundary = false then
        .error (.format (text "multipart: invalid boundary"))
      else do
        let delimiter ← asciiEncode (text "--" ++ boundary)
        match indexOf body delimiter 0 with
        | none => .error (.format (text "multipart: no opening boundary"))
        | some pos =>
            readParts lib maxParts maxPartHeaderBytes body delimiter maxParts
              (pos + delimiter.length)

/-! ### The search -/

/-- A needle needs its first byte. -/
theorem prefix_first {first : UInt8} {rest s : Bytes} :
    first :: rest <+: s ↔ s.head? = some first ∧ rest <+: s.tail := by
  cases s with
  | nil => simp
  | cons a s => simp [List.cons_prefix_cons, eq_comm]

theorem indexOfLoop_eq {hay : Bytes} {first : UInt8} {rest : Bytes} {fuel i : Nat}
    (enough : hay.length + 1 - i ≤ fuel) :
    indexOfLoop hay first rest fuel i =
      (findSub (first :: rest) (hay.drop i)).map (· + i) := by
  induction fuel generalizing i with
  | zero =>
      rw [findSub_short (by rw [List.length_drop, List.length_cons]; omega)]
      rfl
  | succ fuel ih =>
      rw [indexOfLoop]
      split
      · rw [findSub_short (by rw [List.length_drop, List.length_cons]; omega)]
        rfl
      rename_i room
      split
      · rename_i absent
        have none_ : findSub (first :: rest) (hay.drop i) = none := by
          rw [← Option.not_isSome_iff_eq_none, findSub_isSome]
          intro occurs
          exact List.idxOf?_eq_none_iff.mp absent (occurs.subset List.mem_cons_self)
        rw [none_]
        rfl
      rename_i ahead jump
      -- no candidate is passed on the way to the next first byte
      obtain ⟨lt, here, before⟩ := List.idxOf?_eq_some_iff.mp jump
      rw [List.length_drop] at lt
      have passed : ∀ j < ahead, ¬ first :: rest <+: (hay.drop i).drop j := by
        intro j less occurs
        refine before j less ?_
        have head := (prefix_first.mp occurs).1
        rw [List.head?_drop] at head
        exact (List.getElem?_eq_some_iff.mp head).2
      have next : (hay.drop i).drop ahead = first :: hay.drop (i + ahead + 1) := by
        rw [List.drop_eq_getElem_cons (by rw [List.length_drop]; exact lt), here, List.drop_drop,
          Nat.add_assoc]
      rw [findSub_skip (by rw [List.length_drop]; omega) passed, next, Option.map_map]
      dsimp only
      split
      · rename_i beyond
        rw [findSub_short (by rw [List.length_cons, List.length_cons, List.length_drop]; omega)]
        rfl
      split
      · rename_i occurs
        rw [findSub, if_pos (List.cons_prefix_cons.mpr ⟨rfl, List.isPrefixOf_iff_prefix.mp occurs⟩)]
        simp [Nat.add_comm]
      · rename_i other
        have not_here : ¬ first :: rest <+: first :: hay.drop (i + ahead + 1) := by
          intro occurs
          exact other (List.isPrefixOf_iff_prefix.mpr (List.cons_prefix_cons.mp occurs).2)
        rw [ih (by omega), findSub, if_neg not_here, Option.map_map]
        congr 1
        funext k
        dsimp only [Function.comp]
        omega

theorem indexOf_eq {needle : Bytes} (full : needle ≠ []) (hay : Bytes) (start : Nat) :
    indexOf hay needle start = (findSub needle (hay.drop start)).map (· + start) := by
  obtain ⟨first, rest, rfl⟩ := List.exists_cons_of_ne_nil full
  exact indexOfLoop_eq le_rfl

/-- A match stands where it was found, not before the start, and in the body. -/
theorem indexOf_bounds {hay needle : Bytes} {start i : Nat} (found : indexOf hay needle start = some i) :
    start ≤ i ∧ i + needle.length ≤ hay.length ∧ needle <+: hay.drop i := by
  cases needle with
  | nil => cases found
  | cons first rest =>
      rw [indexOf_eq (List.cons_ne_nil _ _)] at found
      obtain ⟨k, first_, rfl⟩ := Option.map_eq_some_iff.mp found
      have fits := findSub_le first_
      have here := (findSub_spec first_).1
      rw [List.length_drop, List.length_cons] at fits
      rw [List.drop_drop, Nat.add_comm start k] at here
      exact ⟨Nat.le_add_left start k, by rw [List.length_cons]; omega, here⟩

/-- What two bytes of a match are. -/
theorem getElem?_of_prefix {needle hay : Bytes} {i k : Nat} {b : UInt8}
    (here : needle <+: hay.drop i) (at_ : needle[k]? = some b) : hay[i + k]? = some b := by
  obtain ⟨more, whole⟩ := here
  have bound := (List.getElem?_eq_some_iff.mp at_).1
  rw [← List.getElem?_drop, ← whole, List.getElem?_append_left bound, at_]

/-! ### One turn -/

theorem view_ok {body : Bytes} {start stop : Nat} (ordered : start ≤ stop)
    (inside : stop ≤ body.length) :
    view body start stop = .ok ((body.drop start).take (stop - start)) :=
  if_pos ⟨ordered, inside⟩

theorem view_range {body : Bytes} {start stop : Nat} (reversed : stop < start) :
    view body start stop = .error .range :=
  if_neg fun bounds => by omega

section Loop

variable {lib : Unicode} {maxParts limit : Nat} {body delimiter : Bytes}

/-- The headers between two positions. -/
def headersAt (lib : Unicode) (body : Bytes) (pos headEnd : Nat) : Table DartString DartString :=
  lib.parseHeaders (lib.decode ((body.drop pos).take (headEnd - pos)))

def disposition (headers : Table DartString DartString) : DartString :=
  (headers.find (text "content-disposition")).getD []

/-- A part with a name, within the limit, as the searches find it from the start of its headers. -/
structure PartAt (lib : Unicode) (limit : Nat) (body delimiter : Bytes) (pos headEnd next : Nat)
    (name : DartString) : Prop where
  head : indexOf body crlfCrlf pos = some headEnd
  fits : headEnd - pos ≤ limit
  ends : indexOf body delimiter (headEnd + 4) = some next
  named : lib.param (disposition (headersAt lib body pos headEnd)) (text "name") = some name

/-- The part made of it. -/
def partOf (lib : Unicode) (body : Bytes) (pos headEnd next : Nat) (name : DartString) :
    MultipartPart :=
  let headers := headersAt lib body pos headEnd
  { name := name, filename := lib.param (disposition headers) (text "filename")
    contentType := headers.find (text "content-type")
    start := headEnd + 4, stop := dataEnd body next
    bytes := (body.drop (headEnd + 4)).take (dataEnd body next - (headEnd + 4)) }

theorem dataEnd_le (body : Bytes) (next : Nat) : dataEnd body next ≤ next := by
  unfold dataEnd
  split
  · exact Nat.sub_le next 2
  · exact le_rfl

namespace PartAt

variable {pos headEnd next : Nat} {name : DartString}

/-- The data ends before it starts exactly when the delimiter is right behind the blank line. -/
theorem dataEnd_lt_iff (part : PartAt lib limit body delimiter pos headEnd next name) :
    dataEnd body next < headEnd + 4 ↔ next = headEnd + 4 := by
  obtain ⟨-, -, blank⟩ := indexOf_bounds part.head
  have behind := (indexOf_bounds part.ends).1
  have two : body[headEnd + 2]? = some 13 := getElem?_of_prefix blank rfl
  have three : body[headEnd + 3]? = some 10 := getElem?_of_prefix blank rfl
  constructor
  · intro short
    by_contra later
    rw [dataEnd] at short
    split at short
    · rename_i line
      -- the line end would start inside the blank line
      have one : next = headEnd + 5 := by omega
      subst one
      have first := (Bool.and_eq_true_iff.mp line.2).1
      rw [show headEnd + 5 - 2 = headEnd + 3 from rfl, three] at first
      cases first
    · omega
  · rintro rfl
    have line : pairAt body (headEnd + 4 - 2) 13 10 = true := by
      rw [pairAt, show headEnd + 4 - 2 = headEnd + 2 from rfl, two, three]
      rfl
    rw [dataEnd, if_pos ⟨by omega, line⟩]
    omega

theorem readPart_eq (part : PartAt lib limit body delimiter pos headEnd next name) :
    readPart lib limit body delimiter pos =
      if next = headEnd + 4 then .error .range
      else .ok (partOf lib body pos headEnd next name, next) := by
  obtain ⟨after, room, -⟩ := indexOf_bounds part.head
  have inside := (indexOf_bounds part.ends).2.1
  have named := part.named
  rw [readPart, part.head]
  dsimp only
  rw [if_neg (Nat.not_lt.mpr part.fits), view_ok after (by omega)]
  simp only [bind, Except.bind, part.ends]
  rw [disposition, headersAt] at named
  simp only [named]
  by_cases abuts : next = headEnd + 4
  · rw [if_pos abuts, view_range (part.dataEnd_lt_iff.mpr abuts)]
  · rw [if_neg abuts]
    have ordered := Nat.le_of_not_lt (mt part.dataEnd_lt_iff.mp abuts)
    have stop := dataEnd_le body next
    rw [view_ok ordered (by omega)]
    rfl

end PartAt

/-- Anything else is refused. -/
theorem readPart_refused {pos : Nat}
    (none_ : ¬ ∃ headEnd next name, PartAt lib limit body delimiter pos headEnd next name) :
    ∃ message, readPart lib limit body delimiter pos = .error (.format message) := by
  rw [readPart]
  split
  · exact ⟨_, rfl⟩
  rename_i headEnd head
  split
  · exact ⟨_, rfl⟩
  rename_i fits
  obtain ⟨after, room, -⟩ := indexOf_bounds head
  rw [view_ok after (by omega)]
  simp only [bind, Except.bind]
  split
  · exact ⟨_, rfl⟩
  rename_i next ends
  split
  · exact ⟨_, rfl⟩
  rename_i name named
  exact absurd ⟨headEnd, next, name, head, Nat.le_of_not_lt fits, ends, named⟩ none_

/-! ### The whole run -/

/-- Within `room` parts, one has its delimiter right behind its blank line. -/
inductive AbutsFrom (lib : Unicode) (limit : Nat) (body delimiter : Bytes) : Nat → Nat → Prop
  | here {room pos headEnd : Nat} {name : DartString} (line : pairAt body pos 13 10 = true)
      (part : PartAt lib limit body delimiter (pos + 2) headEnd (headEnd + 4) name) :
      AbutsFrom lib limit body delimiter (room + 1) pos
  | later {room pos headEnd next : Nat} {name : DartString} (line : pairAt body pos 13 10 = true)
      (part : PartAt lib limit body delimiter (pos + 2) headEnd next name)
      (rest : AbutsFrom lib limit body delimiter room (next + delimiter.length)) :
      AbutsFrom lib limit body delimiter (room + 1) pos

/-- Views that lie in the body, apart and in order. -/
structure Views (body : Bytes) (parts : List MultipartPart) : Prop where
  inside : ∀ p ∈ parts, p.start ≤ p.stop ∧ p.stop ≤ body.length ∧
    p.bytes = (body.drop p.start).take (p.stop - p.start)
  apart : parts.Pairwise fun p q => p.stop ≤ q.start

theorem not_closed_of_line {pos : Nat} (line : pairAt body pos 13 10 = true) :
    pairAt body pos 0x2d 0x2d = false := by
  have first := (Bool.and_eq_true_iff.mp line).1
  rw [beq_iff_eq] at first
  rw [pairAt, first]
  rfl

/-- A turn that makes a part or meets the delimiter where it must not be. -/
theorem readParts_part {room pos headEnd next : Nat} {name : DartString}
    (line : pairAt body pos 13 10 = true)
    (part : PartAt lib limit body delimiter (pos + 2) headEnd next name) :
    readParts lib maxParts limit body delimiter (room + 1) pos =
      if next = headEnd + 4 then .error .range
      else (readParts lib maxParts limit body delimiter room (next + delimiter.length)).map
        (partOf lib body (pos + 2) headEnd next name :: ·) := by
  rw [readParts, not_closed_of_line line, if_neg Bool.false_ne_true, skipCrlf, if_pos line]
  dsimp only
  rw [part.readPart_eq]
  by_cases abuts : next = headEnd + 4
  · rw [if_pos abuts, if_pos abuts]
  · rw [if_neg abuts, if_neg abuts]

theorem readParts_range {room pos : Nat} (abuts : AbutsFrom lib limit body delimiter room pos) :
    readParts lib maxParts limit body delimiter room pos = .error .range := by
  induction abuts with
  | here line part => rw [readParts_part line part, if_pos rfl]
  | later line part rest ih =>
      rw [readParts_part line part, ih]
      split
      · rfl
      · rfl

/-- Parts behind one that ends in front of them. -/
theorem Views.cons {p : MultipartPart} {parts : List MultipartPart} (views : Views body parts)
    (ordered : p.start ≤ p.stop) (inside : p.stop ≤ body.length)
    (bytes : p.bytes = (body.drop p.start).take (p.stop - p.start))
    (behind : ∀ q ∈ parts, p.stop ≤ q.start) : Views body (p :: parts) where
  inside := List.forall_mem_cons.mpr ⟨⟨ordered, inside, bytes⟩, views.inside⟩
  apart := List.pairwise_cons.mpr ⟨behind, views.apart⟩

theorem readParts_clean (lib : Unicode) (maxParts limit : Nat) (body delimiter : Bytes)
    (room pos : Nat) :
    (∃ parts, readParts lib maxParts limit body delimiter room pos = .ok parts ∧
        Views body parts ∧ ∀ p ∈ parts, pos ≤ p.start) ∨
      (∃ message,
        readParts lib maxParts limit body delimiter room pos = .error (.format message)) ∨
      AbutsFrom lib limit body delimiter room pos := by
  induction room generalizing pos with
  | zero =>
      rw [readParts]
      split
      · exact .inl ⟨[], rfl, ⟨by simp, List.Pairwise.nil⟩, by simp⟩
      by_cases line : pairAt body pos 13 10 = true
      · rw [skipCrlf, if_pos line]
        exact .inr (.inl ⟨_, rfl⟩)
      · rw [skipCrlf, if_neg line]
        exact .inr (.inl ⟨_, rfl⟩)
  | succ room ih =>
      by_cases closed : pairAt body pos 0x2d 0x2d = true
      · rw [readParts, if_pos closed]
        exact .inl ⟨[], rfl, ⟨by simp, List.Pairwise.nil⟩, by simp⟩
      by_cases line : pairAt body pos 13 10 = true
      · by_cases found : ∃ headEnd next name,
            PartAt lib limit body delimiter (pos + 2) headEnd next name
        · obtain ⟨headEnd, next, name, part⟩ := found
          by_cases abuts : next = headEnd + 4
          · subst abuts
            exact .inr (.inr (.here line part))
          rw [readParts_part line part, if_neg abuts]
          obtain ⟨parts, rest, views, behind⟩ | ⟨message, rest⟩ | rest :=
            ih (next + delimiter.length)
          · left
            have ordered := Nat.le_of_not_lt (mt part.dataEnd_lt_iff.mp abuts)
            have stop := dataEnd_le body next
            have after := (indexOf_bounds part.head).1
            have inside := (indexOf_bounds part.ends).2.1
            refine ⟨_, by rw [rest]; rfl, views.cons ordered (by dsimp only [partOf]; omega) rfl ?_, ?_⟩
            · intro q mem
              have far := behind q mem
              dsimp only [partOf]
              omega
            · rw [List.forall_mem_cons]
              refine ⟨by dsimp only [partOf]; omega, fun q mem => ?_⟩
              have far := behind q mem
              omega
          · exact .inr (.inl ⟨message, by rw [rest]; rfl⟩)
          · exact .inr (.inr (.later line part rest))
        · obtain ⟨message, refused⟩ := readPart_refused found
          refine .inr (.inl ⟨message, ?_⟩)
          rw [readParts, if_neg closed, skipCrlf, if_pos line]
          dsimp only
          rw [refused]
      · rw [readParts, if_neg closed, skipCrlf, if_neg line]
        exact .inr (.inl ⟨_, rfl⟩)

end Loop

/-! ### Whole calls -/

/-- The delimiter of a valid boundary. -/
def delimiterOf (boundary : DartString) : Bytes :=
  (text "--" ++ boundary).map fun u => UInt8.ofNat u.toNat

theorem isBchar_plain {u : UInt16} (class_ : (isBchar u || u == 0x20) = true) :
    u < 0x80 ∧ u ≠ 13 ∧ u ≠ 10 ∧ u ≠ semicolonUnit := by
  have marks : ((text "'()+_,-./:=?").all fun u =>
      decide (u < 0x80) && u != 13 && u != 10 && u != semicolonUnit) = true := by decide
  by_cases mark : (text "'()+_,-./:=?").contains u = true
  · simpa [and_assoc] using List.all_eq_true.mp marks u (List.contains_iff_mem.mp mark)
  · rw [Bool.not_eq_true] at mark
    simp only [isBchar, mark, Bool.or_eq_true, Bool.and_eq_true, decide_eq_true_eq, beq_iff_eq,
      ge_iff_le, UInt16.le_iff_toNat_le, ← UInt16.toNat_inj, UInt16.reduceToNat,
      Bool.false_eq_true, or_false] at class_
    simp only [semicolonUnit, UInt16.lt_iff_toNat_lt, ne_eq, ← UInt16.toNat_inj,
      UInt16.reduceToNat]
    omega

/-- The units of a valid boundary. -/
theorem boundaryValid_plain {boundary : DartString} (valid : boundaryValid boundary = true) :
    ∀ u ∈ boundary, u < 0x80 ∧ u ≠ 13 ∧ u ≠ 10 ∧ u ≠ semicolonUnit := by
  rw [boundaryValid, Bool.not_eq_true', Bool.or_eq_false_iff, Bool.not_eq_false', isBchars,
    Bool.and_eq_true_iff] at valid
  exact fun u mem => isBchar_plain (List.all_eq_true.mp valid.2.1 u mem)

theorem asciiEncode_delimiter {boundary : DartString} (valid : boundaryValid boundary = true) :
    asciiEncode (text "--" ++ boundary) = .ok (delimiterOf boundary) := by
  have ascii : (text "--" ++ boundary).all (· < 0x80) = true := by
    rw [List.all_append, Bool.and_eq_true_iff]
    refine ⟨by decide, List.all_eq_true.mpr fun u mem => ?_⟩
    exact decide_eq_true (boundaryValid_plain valid u mem).1
  exact if_pos ascii

/-- A part of the body, read within the limits, has its delimiter right behind its blank line. -/
def Abuts (lib : Unicode) (maxParts limit : Nat) (body : Bytes) (contentType : DartString) : Prop :=
  ∃ boundary pos, lib.boundaryOf contentType = some boundary ∧ boundaryValid boundary = true ∧
    indexOf body (delimiterOf boundary) 0 = some pos ∧
    AbutsFrom lib limit body (delimiterOf boundary) maxParts (pos + (delimiterOf boundary).length)

/-- What a call may give: parts that are views into the body, or a `FormatException`. -/
inductive Clean (body : Bytes) : Except MultipartError (List MultipartPart) → Prop
  | parts {parts : List MultipartPart} (views : Views body parts) : Clean body (.ok parts)
  | refused (message : DartString) : Clean body (.error (.format message))

theorem not_clean_range {body : Bytes} : ¬ Clean body (.error .range) := nofun

/-- Nothing but a `FormatException` is thrown exactly when no delimiter stands right behind the
blank line of a part. -/
theorem parse_clean_iff (lib : Unicode) (maxParts limit : Nat) (body : Bytes)
    (contentType : DartString) :
    Clean body (parseMultipart lib maxParts limit body contentType) ↔
      ¬ Abuts lib maxParts limit body contentType := by
  constructor
  · rintro clean ⟨boundary, pos, named, valid, first, abuts⟩
    rw [parseMultipart, named] at clean
    dsimp only at clean
    rw [if_neg (by rw [valid]; exact Bool.noConfusion), asciiEncode_delimiter valid] at clean
    simp only [bind, Except.bind, first, readParts_range abuts] at clean
    exact not_clean_range clean
  · intro apart
    rw [parseMultipart]
    split
    · exact .refused _
    rename_i boundary named
    split
    · exact .refused _
    rename_i valid
    rw [Bool.not_eq_false] at valid
    rw [asciiEncode_delimiter valid]
    simp only [bind, Except.bind]
    split
    · exact .refused _
    rename_i pos first
    obtain ⟨parts, out, views, -⟩ | ⟨message, out⟩ | abuts :=
      readParts_clean lib maxParts limit body (delimiterOf boundary) maxParts
        (pos + (delimiterOf boundary).length)
    · rw [out]
      exact .parts views
    · rw [out]
      exact .refused message
    · exact absurd ⟨boundary, pos, named, valid, first, abuts⟩ apart

/-- Lower case of ASCII, and one U+FFFD for what is not UTF-8: enough for the requests below. -/
def asciiUnicode : Unicode where
  toLowerCase s := s.map lowerUnit
  malformed _ := [0xfffd]

/-- A body with an empty part, its delimiter right behind the blank line. -/
def abuttingBody : Bytes :=
  "--b\r\nContent-Disposition: form-data; name=\"a\"\r\n\r\n--b--\r\n".toUTF8.toList

theorem abutting_not_clean :
    ¬ Clean abuttingBody (parseMultipart asciiUnicode 1000 8192 abuttingBody
      (text "multipart/form-data; boundary=b")) := by
  have out : parseMultipart asciiUnicode 1000 8192 abuttingBody
      (text "multipart/form-data; boundary=b") = .error .range := by decide +kernel
  rw [out]
  exact not_clean_range

end NitroServer.Api
