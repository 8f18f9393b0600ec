/-
The round trip of a `multipart/form-data` body: parts written as RFC 2046 and RFC 7578 have it,
read by `parseMultipart`.

* `param_name`, `param_filename` — a quoted parameter comes back, unless a semicolon in it has
  `_param` cut it apart.
* `findSub_data` — the next delimiter is the one behind the data, unless the data holds its text.
* `readParts_after` — so the parts come back in order, and the first that is cut apart does not.
* `round_trip_iff` — the whole call.
-/

import NitroServer.Api.Multipart

namespace NitroServer.Api

open Bridge (DartString text charUnits dartTrim isSpace utf8Encode utf8Encode_text utf8Encode_low
  utf8Encode_append_ascii)
open Engine (Bytes)
open Lib

/-! ### The parts and their body -/

/-- A part to send. -/
structure FormPart where
  name : String
  filename : Option String := none
  contentType : Option String := none
  data : Bytes
deriving DecidableEq, Repr

def cr : UInt16 := 13

def newline : UInt16 := 10

/-- A text between quotes may not have quotes or line ends. -/
def Quotable (s : String) : Prop := ∀ u ∈ text s, u ≠ quoteUnit ∧ u ≠ cr ∧ u ≠ newline

namespace FormPart

/-- The value of `Content-Disposition`. -/
def dispositionText (p : FormPart) : String :=
  "form-data; name=\"" ++ p.name ++ "\"" ++
    p.filename.elim "" fun filename => "; filename=\"" ++ filename ++ "\""

/-- The header block. -/
def headText (p : FormPart) : String :=
  "Content-Disposition: " ++ p.dispositionText ++
    p.contentType.elim "" fun contentType => "\r\nContent-Type: " ++ contentType

def headBytes (p : FormPart) : Bytes := utf8Encode (text p.headText)

/-- What comes back of a part. -/
def fields (p : FormPart) : DartString × Option DartString × Option DartString × Bytes :=
  (text p.name, p.filename.map text, p.contentType.map text, p.data)

/-- A part that can be written, its header block within the limit. -/
structure Sendable (limit : Nat) (p : FormPart) : Prop where
  name : Quotable p.name
  filename : ∀ filename ∈ p.filename, Quotable filename
  contentType : ∀ contentType ∈ p.contentType,
    dartTrim (text contentType) = text contentType ∧ ∀ u ∈ text contentType, u ≠ cr ∧ u ≠ newline
  fits : p.headBytes.length ≤ limit

/-- Nothing in it is taken for a separator. -/
structure Whole (delimiter : Bytes) (p : FormPart) : Prop where
  name : semicolonUnit ∉ text p.name
  filename : ∀ filename ∈ p.filename, semicolonUnit ∉ text filename
  data : ¬ delimiter <:+: p.data

end FormPart

/-- What follows a delimiter. -/
def afterDelimiter (delimiter : Bytes) : List FormPart → Bytes
  | [] => [0x2d, 0x2d, 13, 10]
  | p :: parts =>
      13 :: 10 :: (p.headBytes ++ (crlfCrlf ++ (p.data ++
        (13 :: 10 :: (delimiter ++ afterDelimiter delimiter parts)))))

/-- The body. -/
def serialize (boundary : DartString) (parts : List FormPart) : Bytes :=
  delimiterOf boundary ++ afterDelimiter (delimiterOf boundary) parts

/-- The content type of the request. -/
def formContentType (boundary : DartString) : DartString :=
  text "multipart/form-data; boundary=\"" ++ (boundary ++ [quoteUnit])

def MultipartPart.fields (p : MultipartPart) :
    DartString × Option DartString × Option DartString × Bytes :=
  (p.name, p.filename, p.contentType, p.bytes)

/-- Lower case is the usual one on ASCII. -/
def Unicode.Lawful (lib : Unicode) : Prop :=
  ∀ s : DartString, (∀ u ∈ s, u < 0x80) → lib.toLowerCase s = s.map lowerUnit

/-! ### White space -/

theorem dartTrim_tight {s : DartString} (first : ∀ u ∈ s.head?, isSpace u = false)
    (last : ∀ u ∈ s.getLast?, isSpace u = false) : dartTrim s = s := by
  have front : s.dropWhile isSpace = s := by
    cases s with
    | nil => rfl
    | cons u s => exact List.dropWhile_cons_of_neg (Bool.eq_false_iff.mp (first u rfl))
  rw [dartTrim, front, List.rdropWhile_eq_self_iff]
  intro full
  exact Bool.eq_false_iff.mp (last _ (List.getLast?_eq_some_getLast full))

theorem dartTrim_space (s : DartString) : dartTrim (0x20 :: s) = dartTrim s := rfl

/-! ### Quotes -/

/-- A text between quotes. -/
def quoted (s : DartString) : DartString := quoteUnit :: (s ++ [quoteUnit])

theorem unquoted_quoted (s : DartString) : unquoted (dartTrim (quoted s)) = s := by
  have last : (quoted s).getLast? = some quoteUnit := by
    rw [quoted, ← List.cons_append, List.getLast?_concat]
  have tight : dartTrim (quoted s) = quoted s := by
    apply dartTrim_tight
    · rintro u ⟨⟩
      rfl
    · rw [last]
      rintro u ⟨⟩
      rfl
  rw [tight, unquoted, if_pos ⟨by simp [quoted], rfl, last⟩, quoted, List.tail_cons,
    List.dropLast_concat]

/-- A value that is cut behind its first quote keeps it. -/
theorem unquoted_cut {s : DartString} (free : quoteUnit ∉ s) :
    (unquoted (dartTrim (quoteUnit :: s))).head? = some quoteUnit := by
  obtain ⟨rest, trimmed, sub⟩ : ∃ rest, dartTrim (quoteUnit :: s) = quoteUnit :: rest ∧ rest <+: s := by
    have front : dartTrim (quoteUnit :: s) = (quoteUnit :: s).rdropWhile isSpace := rfl
    have pre : (quoteUnit :: s).rdropWhile isSpace <+: quoteUnit :: s := List.rdropWhile_prefix _ _
    cases shape : (quoteUnit :: s).rdropWhile isSpace with
    | nil =>
        have all := List.rdropWhile_eq_nil_iff.mp shape quoteUnit List.mem_cons_self
        cases all
    | cons u rest =>
        rw [shape] at pre
        obtain ⟨rfl, sub⟩ := List.cons_prefix_cons.mp pre
        exact ⟨rest, front.trans shape, sub⟩
  have open_ : ¬ (2 ≤ (quoteUnit :: rest).length ∧ (quoteUnit :: rest).head? = some quoteUnit ∧
      (quoteUnit :: rest).getLast? = some quoteUnit) := by
    rintro ⟨two, -, last⟩
    have full : rest ≠ [] := by
      rintro rfl
      exact absurd two (by decide)
    rw [List.getLast?_cons, List.getLast?_eq_some_getLast full, Option.getD_some] at last
    exact free (sub.subset (Option.some.inj last ▸ List.getLast_mem full))
  rw [trimmed, unquoted, if_neg open_]
  rfl

/-! ### Parameters -/

/-- A name that a parameter has: lower case, and neither a space nor a separator in it. -/
def Key (word : DartString) : Prop :=
  word.map lowerUnit = word ∧
    ∀ u ∈ word, u < 0x80 ∧ isSpace u = false ∧ u ≠ equalsSign ∧ u ≠ semicolonUnit

/-- A parameter's piece. -/
def pieceOf (word value : DartString) : DartString := 0x20 :: (word ++ equalsSign :: value)

section Parameters

variable {lib : Unicode} {word key value : DartString}

/-- The value, if it is the key that is looked for. -/
theorem pieceValue_eq (lawful : lib.Lawful) (plain : Key word) (key value : DartString) :
    lib.pieceValue key (pieceOf word value) =
      if word = key then some (unquoted (dartTrim value)) else none := by
  have stop : ∀ u ∈ 0x20 :: word, decide (u ≠ equalsSign) = true := by
    rw [List.forall_mem_cons]
    exact ⟨rfl, fun u mem => decide_eq_true (plain.2 u mem).2.2.1⟩
  have key_ : keyText (0x20 :: word ++ equalsSign :: value) = 0x20 :: word := by
    rw [keyText, List.takeWhile_append_of_pos stop, List.takeWhile_cons_of_neg (by simp),
      List.append_nil]
  have value_ : valueText (0x20 :: word ++ equalsSign :: value) = value := by
    rw [valueText, List.dropWhile_append_of_pos stop, List.dropWhile_cons_of_neg (by simp)]
    rfl
  rw [pieceOf, ← List.cons_append, Unicode.pieceValue, if_neg (by simp), key_, value_,
    dartTrim_space, dartTrim_plain fun u mem => (plain.2 u mem).2.1,
    lawful word fun u mem => (plain.2 u mem).1, plain.1]
  by_cases same : word = key
  · rw [if_neg (not_not.mpr same), if_pos same]
  · rw [if_pos same, if_neg same]

theorem pieceOf_free (plain : Key word) (free : semicolonUnit ∉ value) :
    ∀ u ∈ pieceOf word value, u ≠ semicolonUnit := by
  rw [pieceOf, List.forall_mem_cons, List.forall_mem_append, List.forall_mem_cons]
  refine ⟨by decide, fun u mem => (plain.2 u mem).2.2.2, by decide, ?_⟩
  rintro u mem rfl
  exact free mem

theorem quoted_free (free : semicolonUnit ∉ value) : semicolonUnit ∉ quoted value := by
  rw [quoted, List.mem_cons, List.mem_append, List.mem_singleton]
  rintro (same | mem | same)
  · exact absurd same (by decide)
  · exact free mem
  · exact absurd same (by decide)

/-- The pieces of a header in which the parameter comes next: its value is found, whole or cut at
its first semicolon. -/
theorem findSome_quoted (lawful : lib.Lawful) (plain : Key word) (free : quoteUnit ∉ value)
    {more : DartString} (ends : more = [] ∨ more.head? = some semicolonUnit) :
    ∃ found, (splitAtSep semicolonUnit (pieceOf word (quoted value) ++ more)).findSome?
        (lib.pieceValue word) = some found ∧ (found = value ↔ semicolonUnit ∉ value) := by
  by_cases cut : semicolonUnit ∈ value
  · obtain ⟨front, back, rfl, before⟩ := List.eq_append_cons_of_mem cut
    have shape : pieceOf word (quoted (front ++ semicolonUnit :: back)) ++ more =
        pieceOf word (quoteUnit :: front) ++ semicolonUnit :: (back ++ [quoteUnit] ++ more) := by
      simp [pieceOf, quoted]
    have first : ∀ u ∈ pieceOf word (quoteUnit :: front), u ≠ semicolonUnit :=
      pieceOf_free plain (by rw [List.mem_cons, not_or]; exact ⟨by decide, before⟩)
    rw [shape, splitAtSep_append, splitAtSep_none first, List.singleton_append,
      List.findSome?_cons, pieceValue_eq lawful plain, if_pos rfl]
    refine ⟨_, rfl, fun same => ?_, fun whole => absurd cut whole⟩
    have head := unquoted_cut (s := front) fun mem => free (List.mem_append_left _ mem)
    rw [same] at head
    exact absurd (List.mem_of_head? head) free
  · have first := pieceOf_free plain (quoted_free cut)
    refine ⟨value, ?_, by simp [cut]⟩
    obtain ⟨rest, pieces⟩ : ∃ rest, splitAtSep semicolonUnit (pieceOf word (quoted value) ++ more) =
        pieceOf word (quoted value) :: rest := by
      rcases ends with rfl | next
      · exact ⟨[], by rw [List.append_nil, splitAtSep_none first]⟩
      · obtain ⟨more, rfl⟩ : ∃ m, more = semicolonUnit :: m := List.head?_eq_some_iff.mp next
        exact ⟨_, by rw [splitAtSep_append, splitAtSep_none first]; rfl⟩
    rw [pieces, List.findSome?_cons, pieceValue_eq lawful plain, if_pos rfl, unquoted_quoted]

end Parameters

/-! ### The disposition -/

theorem text_append (s t : String) : text (s ++ t) = text s ++ text t := by
  rw [text, String.toList_append, List.flatMap_append]
  rfl

theorem key_of_all {word : DartString} (lower : word.map lowerUnit = word)
    (all : (word.all fun u =>
      decide (u < 0x80) && !isSpace u && u != equalsSign && u != semicolonUnit) = true) :
    Key word := by
  refine ⟨lower, fun u mem => ?_⟩
  simpa [and_assoc] using List.all_eq_true.mp all u mem

theorem key_name : Key (text "name") := key_of_all (by decide) (by decide)

theorem key_filename : Key (text "filename") := key_of_all (by decide) (by decide)

theorem key_boundary : Key (text "boundary") := key_of_all (by decide) (by decide)

namespace FormPart

/-- The second parameter, if there is one. -/
def filenamePiece (p : FormPart) : DartString :=
  p.filename.elim [] fun filename =>
    semicolonUnit :: pieceOf (text "filename") (quoted (text filename))

theorem text_disposition (p : FormPart) :
    text p.dispositionText = text "form-data" ++
      semicolonUnit :: (pieceOf (text "name") (quoted (text p.name)) ++ p.filenamePiece) := by
  have front : text "form-data; name=\"" =
      text "form-data" ++ semicolonUnit :: 0x20 :: (text "name" ++ [equalsSign, quoteUnit]) := by
    decide
  have next : text "; filename=\"" =
      semicolonUnit :: 0x20 :: (text "filename" ++ [equalsSign, quoteUnit]) := by decide
  have mark : text "\"" = [quoteUnit] := by decide
  have empty : text "" = [] := rfl
  have name : text "form-data; name=\"" ++ text p.name ++ text "\"" = text "form-data" ++
      semicolonUnit :: pieceOf (text "name") (quoted (text p.name)) := by
    rw [front, mark, pieceOf, quoted]
    simp only [List.append_assoc, List.cons_append, List.nil_append]
  unfold dispositionText
  rw [text_append, text_append, text_append, name, filenamePiece]
  cases p.filename with
  | none => rw [Option.elim_none, Option.elim_none, empty, List.append_nil, List.append_nil]
  | some filename =>
      rw [Option.elim_some, Option.elim_some, text_append, text_append, next, mark, pieceOf, quoted]
      simp only [pieceOf, quoted, List.append_assoc, List.cons_append, List.nil_append]

theorem filenamePiece_ends (p : FormPart) :
    p.filenamePiece = [] ∨ p.filenamePiece.head? = some semicolonUnit := by
  rw [filenamePiece]
  cases p.filename with
  | none => exact .inl rfl
  | some filename => exact .inr rfl

/-- The pieces behind the first. -/
theorem pieces_disposition (p : FormPart) :
    (splitAtSep semicolonUnit (text p.dispositionText)).drop 1 =
      splitAtSep semicolonUnit (pieceOf (text "name") (quoted (text p.name)) ++ p.filenamePiece) := by
  have whole : ∀ u ∈ text "form-data", u ≠ semicolonUnit := by
    have all : ((text "form-data").all fun u => u != semicolonUnit) = true := by decide
    intro u mem
    simpa using List.all_eq_true.mp all u mem
  rw [text_disposition, splitAtSep_append, splitAtSep_none whole]
  rfl

variable {lib : Unicode} {limit : Nat} {p : FormPart}

/-- A name is found, and it is the part's unless that has a semicolon. -/
theorem param_name (lawful : lib.Lawful) (quotable : Quotable p.name) :
    ∃ found, lib.param (text p.dispositionText) (text "name") = some found ∧
      (found = text p.name ↔ semicolonUnit ∉ text p.name) := by
  have free : quoteUnit ∉ text p.name := fun mem => (quotable quoteUnit mem).1 rfl
  rw [Unicode.param, pieces_disposition]
  exact findSome_quoted lawful key_name free p.filenamePiece_ends

/-- Behind a whole name, the filename likewise. -/
theorem param_filename (lawful : lib.Lawful) (whole : semicolonUnit ∉ text p.name)
    (quotable : ∀ filename ∈ p.filename, Quotable filename) :
    lib.param (text p.dispositionText) (text "filename") = p.filename.map text ↔
      ∀ filename ∈ p.filename, semicolonUnit ∉ text filename := by
  have other : text "name" ≠ text "filename" := by decide
  have first := pieceOf_free key_name (quoted_free whole)
  rw [Unicode.param, pieces_disposition, filenamePiece]
  cases given : p.filename with
  | none =>
      rw [Option.elim_none, List.append_nil, splitAtSep_none first, List.findSome?_cons,
        pieceValue_eq lawful key_name, if_neg other]
      simp
  | some filename =>
      have free : quoteUnit ∉ text filename := fun mem =>
        (quotable filename given quoteUnit mem).1 rfl
      obtain ⟨found, pieces, same⟩ := findSome_quoted lawful key_filename free (.inl rfl)
      rw [List.append_nil] at pieces
      rw [Option.elim_some, splitAtSep_append, splitAtSep_none first, List.singleton_append,
        List.findSome?_cons, pieceValue_eq lawful key_name, if_neg other, pieces, Option.map_some,
        Option.some_inj, same]
      simp

end FormPart

/-! ### The header block -/

/-- No line end starts in it. -/
def OneLineText (s : DartString) : Prop := ∀ u ∈ s, u ≠ cr

theorem splitCrlf_line {line : DartString} (single : OneLineText line) :
    splitCrlf line = [line] ∧
      ∀ more, splitCrlf (line ++ cr :: newline :: more) = line :: splitCrlf more := by
  induction line with
  | nil => exact ⟨rfl, fun more => by rw [List.nil_append, splitCrlf, if_pos ⟨rfl, rfl⟩]⟩
  | cons u line ih =>
      obtain ⟨here, later⟩ := List.forall_mem_cons.mp single
      obtain ⟨alone, followed⟩ := ih later
      have plain : ∀ v : UInt16, ¬ (u = 13 ∧ v = 10) := fun v both => here both.1
      constructor
      · cases line with
        | nil => rfl
        | cons v line => rw [splitCrlf, if_neg (plain v), alone]
      · intro more
        cases line with
        | nil =>
            rw [List.singleton_append, splitCrlf, if_neg (plain cr)]
            have next := followed more
            rw [List.nil_append] at next
            rw [next]
        | cons v line =>
            rw [List.cons_append, List.cons_append, splitCrlf, if_neg (plain v),
              ← List.cons_append, followed more]

/-- A line of a header. -/
def headerLine (name value : DartString) : DartString := name ++ colonUnit :: 0x20 :: value

section Headers

variable {lib : Unicode}

/-- One line of `_parseHeaders`. -/
theorem parseLine_eq (lawful : lib.Lawful) {name : DartString} (full : name ≠ [])
    (plain : ∀ u ∈ name, u < 0x80 ∧ isSpace u = false ∧ u ≠ colonUnit) (value : DartString)
    (out : Table DartString DartString) :
    (if colonUnit ∉ headerLine name value ∨ (headerLine name value).head? = some colonUnit then out
      else out.set (lib.toLowerCase
          (dartTrim ((headerLine name value).takeWhile (· ≠ colonUnit))))
        (dartTrim (((headerLine name value).dropWhile (· ≠ colonUnit)).drop 1))) =
      out.set (name.map lowerUnit) (dartTrim value) := by
  have stop : ∀ u ∈ name, decide (u ≠ colonUnit) = true :=
    fun u mem => decide_eq_true (plain u mem).2.2
  have first : (headerLine name value).head? ≠ some colonUnit := by
    obtain ⟨u, rest, rfl⟩ := List.exists_cons_of_ne_nil full
    intro head
    exact (plain u List.mem_cons_self).2.2 (Option.some.inj head)
  have absent : ¬ (colonUnit ∉ headerLine name value ∨
      (headerLine name value).head? = some colonUnit) := by
    rintro (none_ | head)
    · exact none_ (List.mem_append_right _ List.mem_cons_self)
    · exact first head
  rw [if_neg absent, headerLine, List.takeWhile_append_of_pos stop,
    List.dropWhile_append_of_pos stop, List.takeWhile_cons_of_neg (by simp),
    List.dropWhile_cons_of_neg (by simp), List.append_nil, List.drop_succ_cons, List.drop_zero,
    dartTrim_space, dartTrim_plain fun u mem => (plain u mem).2.1,
    lawful name fun u mem => (plain u mem).1]

end Headers

namespace FormPart

variable {lib : Unicode} {limit : Nat} {p : FormPart}

/-- The second line, if there is one, with the line end in front. -/
def typeLine (p : FormPart) : DartString :=
  p.contentType.elim [] fun contentType =>
    cr :: newline :: headerLine (text "Content-Type") (text contentType)

theorem text_headText (p : FormPart) :
    text p.headText =
      headerLine (text "Content-Disposition") (text p.dispositionText) ++ p.typeLine := by
  have first : text "Content-Disposition: " =
      text "Content-Disposition" ++ [colonUnit, 0x20] := by decide
  have second : text "\r\nContent-Type: " =
      cr :: newline :: (text "Content-Type" ++ [colonUnit, 0x20]) := by decide
  have empty : text "" = [] := rfl
  unfold headText
  rw [text_append, text_append, first, typeLine, headerLine]
  cases p.contentType with
  | none =>
      rw [Option.elim_none, Option.elim_none, empty, List.append_assoc]
      rfl
  | some contentType =>
      rw [Option.elim_some, Option.elim_some, text_append, second]
      simp only [headerLine, List.append_assoc, List.cons_append, List.nil_append]

theorem text_all {s : String} {p : UInt16 → Bool} (all : (text s).all p = true) :
    ∀ u ∈ text s, p u = true := List.all_eq_true.mp all

theorem oneLine_quoted {s : String} (quotable : Quotable s) : OneLineText (quoted (text s)) := by
  rw [OneLineText, quoted, List.forall_mem_cons, List.forall_mem_append, List.forall_mem_singleton]
  exact ⟨by decide, fun u mem => (quotable u mem).2.1, by decide⟩

theorem oneLine_piece {word value : DartString} (plain : OneLineText word)
    (single : OneLineText value) : OneLineText (pieceOf word value) := by
  rw [OneLineText, pieceOf, List.forall_mem_cons, List.forall_mem_append, List.forall_mem_cons]
  exact ⟨by decide, plain, by decide, single⟩

theorem oneLine_text {s : String} (all : ((text s).all fun u => u != cr) = true) :
    OneLineText (text s) := by
  intro u mem
  simpa using text_all all u mem

theorem oneLine_disposition (sendable : p.Sendable limit) : OneLineText (text p.dispositionText) := by
  have name : OneLineText (text "name") := oneLine_text (by decide)
  have filename : OneLineText (text "filename") := oneLine_text (by decide)
  have formData : OneLineText (text "form-data") := oneLine_text (by decide)
  rw [text_disposition, filenamePiece, OneLineText, List.forall_mem_append, List.forall_mem_cons,
    List.forall_mem_append]
  refine ⟨formData, by decide, oneLine_piece name (oneLine_quoted sendable.name), ?_⟩
  cases given : p.filename with
  | none => exact fun u mem => absurd mem List.not_mem_nil
  | some value =>
      rw [Option.elim_some, List.forall_mem_cons]
      exact ⟨by decide, oneLine_piece filename (oneLine_quoted (sendable.filename value given))⟩

theorem oneLine_headerLine {name value : DartString} (plain : OneLineText name)
    (single : OneLineText value) : OneLineText (headerLine name value) := by
  rw [OneLineText, headerLine, List.forall_mem_append, List.forall_mem_cons, List.forall_mem_cons]
  exact ⟨plain, by decide, by decide, single⟩

/-- Nothing is trimmed off the value. -/
theorem dartTrim_disposition (p : FormPart) :
    dartTrim (text p.dispositionText) = text p.dispositionText := by
  obtain ⟨front, last⟩ : ∃ front, text p.dispositionText = front ++ [quoteUnit] := by
    rw [text_disposition, filenamePiece]
    cases p.filename with
    | none =>
        exact ⟨text "form-data" ++ semicolonUnit :: pieceOf (text "name") (quoteUnit :: text p.name),
          by simp [pieceOf, quoted]⟩
    | some value =>
        exact ⟨text "form-data" ++ semicolonUnit :: (pieceOf (text "name") (quoted (text p.name)) ++
          semicolonUnit :: pieceOf (text "filename") (quoteUnit :: text value)),
          by simp [pieceOf, quoted]⟩
  have first : (text p.dispositionText).head? = some 0x66 := by
    have letter : (text "form-data").head? = some 0x66 := by decide
    rw [text_disposition, List.head?_append, letter]
    rfl
  apply dartTrim_tight
  · rw [first]
    rintro u ⟨⟩
    rfl
  · rw [last, List.getLast?_concat]
    rintro u ⟨⟩
    rfl

/-- The two headers are found again. -/
theorem parseHeaders_head (lawful : lib.Lawful) (sendable : p.Sendable limit) :
    (lib.parseHeaders (text p.headText)).find (text "content-disposition") =
        some (text p.dispositionText) ∧
      (lib.parseHeaders (text p.headText)).find (text "content-type") =
        p.contentType.map text := by
  have plain : ∀ name ∈ ["Content-Disposition", "Content-Type"],
      ∀ u ∈ text name, u < 0x80 ∧ isSpace u = false ∧ u ≠ colonUnit := by
    have all : (["Content-Disposition", "Content-Type"].all fun name => (text name).all fun u =>
        decide (u < 0x80) && !isSpace u && u != colonUnit) = true := by decide
    intro name mem u at_
    simpa [and_assoc] using List.all_eq_true.mp (List.all_eq_true.mp all name mem) u at_
  have lower : (text "Content-Disposition").map lowerUnit = text "content-disposition" ∧
      (text "Content-Type").map lowerUnit = text "content-type" := by decide
  have other : text "content-disposition" ≠ text "content-type" := by decide
  have first := oneLine_headerLine (oneLine_text (s := "Content-Disposition") (by decide))
    (oneLine_disposition sendable)
  have disposition := parseLine_eq lawful (by decide) (plain "Content-Disposition" (by simp))
    (text p.dispositionText) .empty
  rw [Unicode.parseHeaders, text_headText, typeLine]
  cases given : p.contentType with
  | none =>
      rw [Option.elim_none, List.append_nil, (splitCrlf_line first).1, List.foldl_cons,
        List.foldl_nil, disposition, lower.1, dartTrim_disposition]
      simp [other.symm]
  | some contentType =>
      obtain ⟨trimmed, units⟩ := sendable.contentType contentType given
      have second := oneLine_headerLine (oneLine_text (s := "Content-Type") (by decide))
        fun u mem => (units u mem).1
      rw [Option.elim_some, (splitCrlf_line first).2, (splitCrlf_line second).1, List.foldl_cons,
        List.foldl_cons, List.foldl_nil, disposition,
        parseLine_eq lawful (by decide) (plain "Content-Type" (by simp)), lower.1, lower.2,
        dartTrim_disposition, trimmed]
      simp [other]

/-! ### The header block in bytes -/

/-- The decoder gives the block back. -/
theorem decode_headBytes (lib : Unicode) (p : FormPart) :
    lib.decode p.headBytes = text p.headText := by
  have chars : p.headText.toList ≠ [] ∧ ∀ c ∈ p.headText.toList.head?, c = 'C' := by
    unfold headText
    rw [String.toList_append, String.toList_append]
    exact ⟨by simp, by simp⟩
  have unmarked : withoutBom p.headText.toList = p.headText.toList := by
    obtain ⟨full, first⟩ := chars
    obtain ⟨c, cs, shape⟩ := List.exists_cons_of_ne_nil full
    rw [shape] at first ⊢
    rw [first c rfl]
    rfl
  rw [Unicode.decode, utf8Decode, headBytes, utf8Encode_text, utf8Chars_eq_some_iff.mpr rfl,
    Option.map_some, unmarked, Option.getD_some]
  rfl

theorem utf8Encode_oneLine {s : DartString} (single : OneLineText s) : ∀ b ∈ utf8Encode s, b ≠ 13 := by
  rintro b mem rfl
  obtain ⟨u, at_, same⟩ := utf8Encode_low (by decide) mem
  exact single u at_ (UInt16.toNat_inj.mp same)

/-- A line end in the block has more than a line end behind it. -/
theorem headBytes_lines (sendable : p.Sendable limit) {j : Nat} (at_ : p.headBytes[j]? = some 13) :
    ∃ b, p.headBytes[j + 2]? = some b ∧ b ≠ 13 := by
  have first := oneLine_headerLine (oneLine_text (s := "Content-Disposition") (by decide))
    (oneLine_disposition sendable)
  have front := utf8Encode_oneLine first
  rw [headBytes, text_headText, typeLine] at at_ ⊢
  cases given : p.contentType with
  | none =>
      rw [given, Option.elim_none, List.append_nil] at at_
      exact absurd rfl (front 13 (List.mem_of_getElem? at_))
  | some contentType =>
      have second := oneLine_headerLine (oneLine_text (s := "Content-Type") (by decide))
        fun u mem => ((sendable.contentType contentType given).2 u mem).1
      have back := utf8Encode_oneLine second
      have bytes : ∀ line : DartString, utf8Encode (line ++ cr :: newline ::
          headerLine (text "Content-Type") (text contentType)) = utf8Encode line ++ 13 :: 10 ::
            utf8Encode (headerLine (text "Content-Type") (text contentType)) := by
        intro line
        rw [utf8Encode_append_ascii (by decide), Bridge.utf8Encode_cons_ascii (by decide)]
        rfl
      have letter : ∃ rest, utf8Encode (headerLine (text "Content-Type") (text contentType)) =
          0x43 :: rest := by
        have units : text "Content-Type" = 0x43 :: text "ontent-Type" := by decide
        rw [headerLine, units, List.cons_append, Bridge.utf8Encode_cons_ascii (by decide)]
        exact ⟨_, rfl⟩
      rw [given, Option.elim_some, bytes] at at_
      rw [Option.elim_some, bytes]
      -- the one line end is between the lines
      generalize utf8Encode (headerLine (text "Content-Disposition") (text p.dispositionText)) = l
        at front at_ ⊢
      generalize utf8Encode (headerLine (text "Content-Type") (text contentType)) = m
        at back letter at_ ⊢
      obtain ⟨rest, rfl⟩ := letter
      by_cases before : j < l.length
      · rw [List.getElem?_append_left before] at at_
        exact absurd rfl (front 13 (List.mem_of_getElem? at_))
      · obtain ⟨k, rfl⟩ : ∃ k, j = l.length + k := ⟨j - l.length, by omega⟩
        rw [List.getElem?_append_right (by omega), Nat.add_sub_cancel_left] at at_
        rw [Nat.add_assoc, List.getElem?_append_right (by omega), Nat.add_sub_cancel_left]
        match k with
        | 0 => exact ⟨0x43, rfl, by decide⟩
        | 1 => exact absurd (Option.some.inj at_) (by decide)
        | k + 2 => exact absurd rfl (back 13 (List.mem_of_getElem? at_))

end FormPart

/-- The blank line behind a block is the first one. -/
theorem findSub_blank {head : Bytes} (more : Bytes)
    (lines : ∀ j, head[j]? = some (13 : UInt8) → ∃ b, head[j + 2]? = some b ∧ b ≠ 13) :
    findSub crlfCrlf (head ++ (crlfCrlf ++ more)) = some head.length := by
  apply findSub_eq_some (by simp)
  · rw [List.drop_left]
    exact List.prefix_append _ _
  · intro j before occurs
    have one : (head ++ (crlfCrlf ++ more))[j]? = some 13 :=
      getElem?_of_prefix (k := 0) occurs rfl
    have three : (head ++ (crlfCrlf ++ more))[j + 2]? = some 13 := getElem?_of_prefix occurs rfl
    rw [List.getElem?_append_left before] at one
    obtain ⟨b, next, other⟩ := lines j one
    have inside := (List.getElem?_eq_some_iff.mp next).1
    rw [List.getElem?_append_left inside, next] at three
    exact other (Option.some.inj three)

/-- The delimiter behind the data is the next one, if the data does not hold its text. -/
theorem findSub_data {delimiter data : Bytes} (more : Bytes)
    (free : ∀ b ∈ delimiter, b ≠ 13 ∧ b ≠ 10) (full : delimiter ≠ [])
    (absent : ¬ delimiter <:+: data) :
    findSub delimiter (data ++ 13 :: 10 :: (delimiter ++ more)) = some (data.length + 2) := by
  have shape : data ++ 13 :: 10 :: (delimiter ++ more) = (data ++ [13, 10]) ++ (delimiter ++ more) := by
    simp
  have length : (data ++ [13, 10]).length = data.length + 2 := by simp
  have outside : ¬ delimiter <:+: data ++ [13, 10] := by
    rw [infix_around fun mem => (free 13 mem).1 rfl]
    rintro (inside | ⟨front, back, whole⟩)
    · exact absent inside
    · obtain ⟨b, rest, rfl⟩ := List.exists_cons_of_ne_nil full
      have mem : b ∈ [(10 : UInt8)] := by
        rw [← whole]
        simp
      exact (free b List.mem_cons_self).2 (List.mem_singleton.mp mem)
  rw [shape, ← length]
  apply findSub_eq_some (by simp)
  · rw [List.drop_left]
    exact List.prefix_append _ _
  · intro j before occurs
    by_cases fits : j + delimiter.length ≤ (data ++ [(13 : UInt8), 10]).length
    · rw [List.drop_append_of_le_length (by omega)] at occurs
      have inside : delimiter <+: (data ++ [13, 10]).drop j :=
        List.prefix_of_prefix_length_le occurs (List.prefix_append _ _)
          (by rw [List.length_drop]; omega)
      exact outside (inside.isInfix.trans (List.drop_suffix j _).isInfix)
    · -- it would reach beyond the line end
      rw [length] at before fits
      obtain ⟨k, last⟩ : ∃ k, data.length + 1 = j + k := ⟨data.length + 1 - j, by omega⟩
      have bound : k < delimiter.length := by omega
      have at_ := getElem?_of_prefix occurs (List.getElem?_eq_getElem bound)
      rw [← last, List.append_assoc, List.getElem?_append_right (by omega)] at at_
      have ten : (10 : UInt8) = delimiter[k] := by
        have index : data.length + 1 - data.length = 1 := by omega
        rw [index] at at_
        exact Option.some.inj at_
      exact (free _ (List.getElem_mem bound)).2 ten.symm

/-! ### One turn -/

theorem indexOf_behind {needle : Bytes} (full : needle ≠ []) (front tail : Bytes) {k : Nat}
    (found : findSub needle tail = some k) :
    indexOf (front ++ tail) needle front.length = some (front.length + k) := by
  rw [indexOf_eq full, List.drop_left, found, Option.map_some, Nat.add_comm]

theorem pairAt_of_drop {body more : Bytes} {pos : Nat} {a b : UInt8}
    (here : body.drop pos = a :: b :: more) : pairAt body pos a b = true := by
  have pair : [a, b] <+: body.drop pos := ⟨more, by rw [here]; rfl⟩
  have first : body[pos]? = some a := getElem?_of_prefix (k := 0) pair rfl
  have second : body[pos + 1]? = some b := getElem?_of_prefix pair rfl
  rw [pairAt, first, second]
  simp

section Turn

variable {lib : Unicode} {maxParts limit : Nat} {delimiter : Bytes} {p : FormPart}

/-- What the search for the end of the data finds. -/
theorem findSub_end (more : Bytes) (free : ∀ b ∈ delimiter, b ≠ 13 ∧ b ≠ 10)
    (full : delimiter ≠ []) (data : Bytes) :
    ∃ k, findSub delimiter (data ++ 13 :: 10 :: (delimiter ++ more)) = some k ∧
      (¬ delimiter <:+: data → k = data.length + 2) ∧ (delimiter <:+: data → k < data.length) := by
  by_cases inside : delimiter <:+: data
  · obtain ⟨k, found⟩ := Option.isSome_iff_exists.mp (findSub_isSome.mpr inside)
    have fits := findSub_le found
    have some_ := List.length_pos_of_ne_nil full
    exact ⟨k, findSub_append _ found, fun absent => absurd inside absent, fun _ => by omega⟩
  · exact ⟨_, findSub_data more free full inside, fun _ => rfl, fun occurs => absurd occurs inside⟩

/-- The part behind a delimiter, and what is made of it: itself, if it is whole. -/
theorem partAt_after (lawful : lib.Lawful) (sendable : p.Sendable limit)
    (free : ∀ b ∈ delimiter, b ≠ 13 ∧ b ≠ 10) (full : delimiter ≠ []) (front more : Bytes) :
    let body := front ++ 13 :: 10 :: (p.headBytes ++ (crlfCrlf ++ (p.data ++
      13 :: 10 :: (delimiter ++ more))))
    let start := front.length + 2 + p.headBytes.length + 4
    ∃ next name,
      PartAt lib limit body delimiter (front.length + 2) (front.length + 2 + p.headBytes.length)
        next name ∧
      (p.Whole delimiter → next = start + (p.data.length + 2)) ∧
      (next ≠ start → ((partOf lib body (front.length + 2)
        (front.length + 2 + p.headBytes.length) next name).fields = p.fields ↔
          p.Whole delimiter)) := by
  intro body start
  obtain ⟨k, found, far, near⟩ := findSub_end more free full p.data
  obtain ⟨name, named, whole⟩ := FormPart.param_name lawful sendable.name
  have headers : headersAt lib body (front.length + 2) (front.length + 2 + p.headBytes.length) =
      lib.parseHeaders (text p.headText) := by
    have block : (body.drop (front.length + 2)).take p.headBytes.length = p.headBytes := by
      have behind : body.drop (front.length + 2) = p.headBytes ++ (crlfCrlf ++ (p.data ++
          13 :: 10 :: (delimiter ++ more))) := by
        rw [← List.drop_drop, List.drop_left]
        rfl
      rw [behind, List.take_left]
    rw [headersAt, Nat.add_sub_cancel_left, block, FormPart.decode_headBytes]
  obtain ⟨dispositionFound, typeFound⟩ := FormPart.parseHeaders_head lawful sendable
  have value : disposition (headersAt lib body (front.length + 2)
      (front.length + 2 + p.headBytes.length)) = text p.dispositionText := by
    rw [disposition, headers, dispositionFound, Option.getD_some]
  have head : indexOf body crlfCrlf (front.length + 2) =
      some (front.length + 2 + p.headBytes.length) := by
    have shape : body = (front ++ [13, 10]) ++ (p.headBytes ++ (crlfCrlf ++ (p.data ++
        13 :: 10 :: (delimiter ++ more)))) := by simp [body]
    have at_ := indexOf_behind (by decide) (front ++ [13, 10]) _
      (findSub_blank (p.data ++ 13 :: 10 :: (delimiter ++ more)) fun j here =>
        FormPart.headBytes_lines sendable here)
    rw [← shape, List.length_append] at at_
    exact at_
  have tail : body = (front ++ 13 :: 10 :: (p.headBytes ++ crlfCrlf)) ++ (p.data ++
      13 :: 10 :: (delimiter ++ more)) := by simp [body]
  have length : (front ++ 13 :: 10 :: (p.headBytes ++ crlfCrlf)).length = start := by
    simp [start, crlfCrlf]
    omega
  have ends : indexOf body delimiter start = some (start + k) := by
    have at_ := indexOf_behind full (front ++ 13 :: 10 :: (p.headBytes ++ crlfCrlf)) _ found
    rwa [← tail, length] at at_
  have part : PartAt lib limit body delimiter (front.length + 2)
      (front.length + 2 + p.headBytes.length) (start + k) name :=
    ⟨head, by rw [Nat.add_sub_cancel_left]; exact sendable.fits, ends, by rw [value]; exact named⟩
  refine ⟨start + k, name, part, fun isWhole => by rw [far isWhole.data], fun apart => ?_⟩
  have drop : body.drop start = p.data ++ 13 :: 10 :: (delimiter ++ more) := by
    rw [tail, ← length, List.drop_left]
  rw [MultipartPart.fields, FormPart.fields, partOf]
  dsimp only
  rw [value, headers, typeFound, Prod.mk.injEq, Prod.mk.injEq, Prod.mk.injEq, whole]
  constructor
  · rintro ⟨name_, filename, -, bytes⟩
    refine ⟨name_, (FormPart.param_filename lawful name_ sendable.filename).mp filename, ?_⟩
    intro inside
    have cut := near inside
    have stop := dataEnd_le body (start + k)
    have length_ := congrArg List.length bytes
    rw [List.length_take] at length_
    omega
  · intro isWhole
    refine ⟨isWhole.name, (FormPart.param_filename lawful isWhole.name sendable.filename).mpr
      isWhole.filename, rfl, ?_⟩
    have line : pairAt body (start + p.data.length) 13 10 = true := by
      apply pairAt_of_drop
      rw [← List.drop_drop, drop, List.drop_left]
    have stop : dataEnd body (start + k) = start + p.data.length := by
      rw [far isWhole.data, dataEnd, ← Nat.add_assoc, Nat.add_sub_cancel, if_pos ⟨by omega, line⟩]
    rw [stop]
    change (body.drop start).take (start + p.data.length - start) = p.data
    rw [drop, Nat.add_sub_cancel_left, List.take_left]

/-! ### The whole body -/

theorem map_cons_eq_ok {out : Except MultipartError (List MultipartPart)} {part : MultipartPart}
    {first : DartString × Option DartString × Option DartString × Bytes}
    {rest : List (DartString × Option DartString × Option DartString × Bytes)} :
    (out.map (part :: ·)).map (·.map MultipartPart.fields) = .ok (first :: rest) ↔
      part.fields = first ∧ out.map (·.map MultipartPart.fields) = .ok rest := by
  cases out with
  | error e => simp [Except.map]
  | ok parts => simp [Except.map]

/-- Behind a delimiter, the parts come back exactly when all of them are whole. -/
theorem readParts_after (lawful : lib.Lawful) (free : ∀ b ∈ delimiter, b ≠ 13 ∧ b ≠ 10)
    (full : delimiter ≠ []) {parts : List FormPart} (sendable : ∀ p ∈ parts, p.Sendable limit)
    {room : Nat} (enough : parts.length ≤ room) (front : Bytes) :
    (readParts lib maxParts limit (front ++ afterDelimiter delimiter parts) delimiter room
        front.length).map (·.map MultipartPart.fields) = .ok (parts.map FormPart.fields) ↔
      ∀ p ∈ parts, p.Whole delimiter := by
  induction parts generalizing room front with
  | nil =>
      have closed : pairAt (front ++ afterDelimiter delimiter []) front.length 0x2d 0x2d = true := by
        apply pairAt_of_drop
        rw [List.drop_left]
        rfl
      rw [readParts, if_pos closed]
      simp [Except.map]
  | cons p parts ih =>
      obtain ⟨room, rfl⟩ : ∃ r, room = r + 1 := ⟨room - 1, by
        rw [List.length_cons] at enough
        omega⟩
      obtain ⟨here, later⟩ := List.forall_mem_cons.mp sendable
      obtain ⟨next, name, part, far, same⟩ :=
        partAt_after lawful here free full front (afterDelimiter delimiter parts)
      have line : pairAt (front ++ afterDelimiter delimiter (p :: parts)) front.length 13 10 =
          true := by
        apply pairAt_of_drop
        rw [List.drop_left]
        rfl
      rw [List.forall_mem_cons, List.map_cons, afterDelimiter]
      rw [afterDelimiter] at line
      rw [readParts_part line part]
      by_cases abuts : next = front.length + 2 + p.headBytes.length + 4
      · rw [if_pos abuts]
        constructor
        · intro out
          cases out
        · intro all
          have away := far all.1
          omega
      · rw [if_neg abuts]
        rw [map_cons_eq_ok, same abuts]
        refine and_congr_right fun isWhole => ?_
        have shape : front ++ 13 :: 10 :: (p.headBytes ++ (crlfCrlf ++ (p.data ++
            13 :: 10 :: (delimiter ++ afterDelimiter delimiter parts)))) =
              (front ++ 13 :: 10 :: (p.headBytes ++ (crlfCrlf ++ (p.data ++ 13 :: 10 :: delimiter)))) ++
                afterDelimiter delimiter parts := by simp
        have length : next + delimiter.length =
            (front ++ 13 :: 10 :: (p.headBytes ++ (crlfCrlf ++ (p.data ++
              13 :: 10 :: delimiter)))).length := by
          rw [far isWhole]
          simp [crlfCrlf]
          omega
        rw [shape, length]
        exact ih later (Nat.le_of_succ_le_succ enough) _

end Turn

/-! ### The whole call -/

theorem delimiterOf_free {boundary : DartString} (valid : boundaryValid boundary = true) :
    ∀ b ∈ delimiterOf boundary, b ≠ 13 ∧ b ≠ 10 := by
  have dashes : ∀ u ∈ text "--", u < 0x80 ∧ u ≠ 13 ∧ u ≠ 10 := by
    have all : ((text "--").all fun u => decide (u < 0x80) && u != 13 && u != 10) = true := by
      decide
    intro u mem
    simpa [and_assoc] using List.all_eq_true.mp all u mem
  have plain : ∀ u ∈ text "--" ++ boundary, u < 0x80 ∧ u ≠ 13 ∧ u ≠ 10 := by
    rw [List.forall_mem_append]
    refine ⟨dashes, fun u mem => ?_⟩
    obtain ⟨low, cr_, lf_, -⟩ := boundaryValid_plain valid u mem
    exact ⟨low, cr_, lf_⟩
  rw [delimiterOf, List.forall_mem_map]
  intro u mem
  obtain ⟨low, cr_, lf_⟩ := plain u mem
  have small : u.toNat < 0x100 := Nat.lt_trans low (by decide)
  simp only [ne_eq, ← UInt8.toNat_inj, ← UInt16.toNat_inj, UInt16.reduceToNat] at cr_ lf_ ⊢
  rw [UInt8.toNat_ofNat_of_lt' small]
  exact ⟨cr_, lf_⟩

/-- The boundary is read out of the content type. -/
theorem boundaryOf_formContentType {lib : Unicode} (lawful : lib.Lawful) {boundary : DartString}
    (valid : boundaryValid boundary = true) :
    lib.boundaryOf (formContentType boundary) = some boundary := by
  have plain := boundaryValid_plain valid
  have shape : formContentType boundary = text "multipart/form-data" ++
      semicolonUnit :: pieceOf (text "boundary") (quoted boundary) := by
    have front : text "multipart/form-data; boundary=\"" = text "multipart/form-data" ++
        semicolonUnit :: 0x20 :: (text "boundary" ++ [equalsSign, quoteUnit]) := by decide
    rw [formContentType, front, pieceOf, quoted]
    simp only [List.append_assoc, List.cons_append, List.nil_append]
  have media : ∀ u ∈ text "multipart/form-data", u < 0x80 ∧ u ≠ semicolonUnit := by
    have all : ((text "multipart/form-data").all fun u =>
        decide (u < 0x80) && u != semicolonUnit) = true := by decide
    intro u mem
    simpa using List.all_eq_true.mp all u mem
  have ascii : ∀ u ∈ formContentType boundary, u < 0x80 := by
    rw [shape, List.forall_mem_append, List.forall_mem_cons, pieceOf, List.forall_mem_cons,
      List.forall_mem_append, List.forall_mem_cons, quoted, List.forall_mem_cons,
      List.forall_mem_append, List.forall_mem_singleton]
    exact ⟨fun u mem => (media u mem).1, by decide, by decide, fun u mem => (key_boundary.2 u mem).1,
      by decide, by decide, fun u mem => (plain u mem).1, by decide⟩
  have front : (text "multipart/form-data").isPrefixOf (lib.toLowerCase (formContentType boundary)) =
      true := by
    have lower : (text "multipart/form-data").map lowerUnit = text "multipart/form-data" := by decide
    rw [lawful _ ascii, shape, List.map_append, lower, List.isPrefixOf_iff_prefix]
    exact List.prefix_append _ _
  have free : semicolonUnit ∉ boundary := fun mem => (plain semicolonUnit mem).2.2.2 rfl
  rw [Unicode.boundaryOf, if_pos front, Unicode.param, shape, splitAtSep_append,
    splitAtSep_none fun u mem => (media u mem).2, splitAtSep_none (pieceOf_free key_boundary (quoted_free free)),
    List.singleton_append, List.drop_succ_cons, List.drop_zero, List.findSome?_cons,
    pieceValue_eq lawful key_boundary, if_pos rfl, unquoted_quoted]

/-- The parts of a body come back exactly when no name has a semicolon and no data the text of the
delimiter. -/
theorem round_trip_iff {lib : Unicode} (lawful : lib.Lawful) {boundary : DartString}
    (valid : boundaryValid boundary = true) {maxParts limit : Nat} {parts : List FormPart}
    (few : parts.length ≤ maxParts) (sendable : ∀ p ∈ parts, p.Sendable limit) :
    (parseMultipart lib maxParts limit (serialize boundary parts) (formContentType boundary)).map
        (·.map MultipartPart.fields) = .ok (parts.map FormPart.fields) ↔
      ∀ p ∈ parts, p.Whole (delimiterOf boundary) := by
  have full : delimiterOf boundary ≠ [] := by
    rw [delimiterOf, ne_eq, List.map_eq_nil_iff, List.append_eq_nil_iff]
    exact fun empty => absurd empty.1 (by decide)
  have first : indexOf (serialize boundary parts) (delimiterOf boundary) 0 = some 0 := by
    have here := indexOf_behind full [] (serialize boundary parts)
      (findSub_eq_some (Nat.zero_le _) (by
        rw [List.drop_zero, serialize]
        exact List.prefix_append _ _) fun j lt => absurd lt (Nat.not_lt_zero j))
    exact here
  rw [parseMultipart, boundaryOf_formContentType lawful valid]
  dsimp only
  rw [if_neg (by rw [valid]; exact Bool.noConfusion), asciiEncode_delimiter valid]
  simp only [bind, Except.bind, first]
  rw [Nat.zero_add]
  exact readParts_after lawful (delimiterOf_free valid) full sendable few (delimiterOf boundary)

/-! ### Examples of both -/

theorem asciiUnicode_lawful : asciiUnicode.Lawful := fun _ _ => rfl

theorem quotable_of_all {s : String}
    (all : ((text s).all fun u => u != quoteUnit && u != cr && u != newline) = true) :
    Quotable s := by
  intro u mem
  simpa [and_assoc] using List.all_eq_true.mp all u mem

/-- A field whose name has a semicolon. -/
def cutPart : FormPart := { name := "a;b", data := [0x78] }

/-- A file. -/
def filePart : FormPart :=
  { name := "f", filename := some "x.txt", contentType := some "text/plain", data := [13, 10, 0x2d] }

theorem sendable_cutPart : cutPart.Sendable 8192 where
  name := quotable_of_all (by decide)
  filename := nofun
  contentType := nofun
  fits := by decide +kernel

theorem sendable_filePart : filePart.Sendable 8192 where
  name := quotable_of_all (by decide)
  filename := by
    rintro filename ⟨⟩
    exact quotable_of_all (by decide)
  contentType := by
    have all : ((text "text/plain").all fun u => u != cr && u != newline) = true := by decide
    rintro contentType ⟨⟩
    refine ⟨by decide, fun u mem => ?_⟩
    simpa using List.all_eq_true.mp all u mem
  fits := by decide +kernel

/-- The file comes back. -/
theorem filePart_returns :
    (parseMultipart asciiUnicode 1000 8192 (serialize (text "b") [filePart])
      (formContentType (text "b"))).map (·.map MultipartPart.fields) = .ok [filePart.fields] := by
  have whole : ∀ p ∈ [filePart], p.Whole (delimiterOf (text "b")) := by
    rw [List.forall_mem_singleton]
    refine ⟨by decide, ?_, by decide⟩
    rintro filename ⟨⟩
    decide
  exact (round_trip_iff asciiUnicode_lawful (by decide) (by decide)
    (List.forall_mem_singleton.mpr sendable_filePart)).mpr whole

/-- The field comes back with another name. -/
theorem cutPart_lost :
    boundaryValid (text "b") = true ∧ cutPart.Sendable 8192 ∧
      ¬ 13 :: 10 :: delimiterOf (text "b") <:+: cutPart.data ∧
      (parseMultipart asciiUnicode 1000 8192 (serialize (text "b") [cutPart])
        (formContentType (text "b"))).map (·.map MultipartPart.fields) ≠ .ok [cutPart.fields] := by
  refine ⟨by decide, sendable_cutPart, by decide, ?_⟩
  intro same
  have names := congrArg (fun out => out.toOption.map (·.map Prod.fst)) same
  exact absurd names (by decide +kernel)

end NitroServer.Api
