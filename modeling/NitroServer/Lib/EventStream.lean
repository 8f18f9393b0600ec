/-
The text/event-stream format, read as the WHATWG standard interprets it: lines that end in CRLF,
CR or LF, fields in lines, a blank line at the end of each block.

* `pieces` — a text cut at the three line ends; `intercalate_pieces` has the pieces joined by LF
  be `unified`, the text with every line end written as LF.
* `blocks` — the interpreter, one `Block` for each event that is dispatched.
* `blocks_append` — lines that end in a blank one can be read on their own.
-/

import NitroServer.Lib.Decimal

namespace NitroServer.Lib.EventStream

open Decimal (Digit digitsValue digitUnit unitDigit? unitDigit?_digitUnit)

abbrev Units := List UInt16

def lf : UInt16 := 10

def cr : UInt16 := 13

/-! ### Lines -/

def isEol (u : UInt16) : Bool := u == cr || u == lf

/-- The text cut at CRLF, CR and LF. -/
def pieces : Units → List Units
  | [] => [[]]
  | [u] => if isEol u then [[], []] else [[u]]
  | u :: v :: s =>
      if u = cr ∧ v = lf then [] :: pieces s
      else if isEol u then [] :: pieces (v :: s)
      else (pieces (v :: s)).modifyHead (u :: ·)

/-- Every line end written as LF. -/
def unified : Units → Units
  | [] => []
  | [u] => if isEol u then [lf] else [u]
  | u :: v :: s =>
      if u = cr ∧ v = lf then lf :: unified s
      else if isEol u then lf :: unified (v :: s)
      else u :: unified (v :: s)

def OneLine (line : Units) : Prop := ∀ u ∈ line, isEol u = false

instance : DecidablePred OneLine := fun _ => inferInstanceAs (Decidable (∀ _ ∈ _, _))

theorem pieces_ne_nil (s : Units) : pieces s ≠ [] := by
  induction s using pieces.induct with
  | case1 => exact List.cons_ne_nil _ _
  | case2 u eol =>
      rw [pieces, if_pos eol]
      exact List.cons_ne_nil _ _
  | case3 u plain =>
      rw [pieces, if_neg plain]
      exact List.cons_ne_nil _ _
  | case4 u v s both =>
      rw [pieces, if_pos both]
      exact List.cons_ne_nil _ _
  | case5 u v s both eol =>
      rw [pieces, if_neg both, if_pos eol]
      exact List.cons_ne_nil _ _
  | case6 u v s both plain ih =>
      rw [pieces, if_neg both, if_neg plain]
      intro empty
      exact ih (List.modifyHead_eq_nil_iff.mp empty)

theorem pieces_lf (s : Units) : pieces (lf :: s) = [] :: pieces s := by
  cases s with
  | nil => rfl
  | cons v s => rw [pieces, if_neg fun both => absurd both.1 (by decide),
        if_pos (by decide)]

theorem pieces_plain {u : UInt16} (plain : isEol u = false) (s : Units) :
    pieces (u :: s) = (pieces s).modifyHead (u :: ·) := by
  have inside : ¬ isEol u = true := Bool.eq_false_iff.mp plain
  cases s with
  | nil => exact if_neg inside
  | cons v s =>
      have other : ¬ (u = cr ∧ v = lf) := by
        rintro ⟨rfl, -⟩
        exact inside rfl
      rw [pieces, if_neg other, if_neg inside]

/-- A line and its LF in front. -/
theorem pieces_line {line : Units} (free : OneLine line) (s : Units) :
    pieces (line ++ lf :: s) = line :: pieces s := by
  induction line with
  | nil => exact pieces_lf s
  | cons u line ih =>
      rw [List.cons_append, pieces_plain (free u List.mem_cons_self),
        ih fun v mem => free v (List.mem_cons_of_mem u mem)]
      rfl

/-- Lines, each with its LF. -/
def terminated (lines : List Units) : Units := lines.flatMap (· ++ [lf])

theorem terminated_append (lines more : List Units) :
    terminated (lines ++ more) = terminated lines ++ terminated more := List.flatMap_append

theorem terminated_toList {α : Type*} (o : Option α) (f : α → Units) :
    terminated (o.toList.map f) = o.elim [] fun a => f a ++ [lf] := by
  cases o with
  | none => rfl
  | some a => exact List.append_nil _

/-- It starts as its first line does, or with the LF of a blank one. -/
theorem head?_terminated {lines : List Units} {u : UInt16} (other : u ≠ lf)
    (never : ∀ line ∈ lines, line.head? ≠ some u) : (terminated lines).head? ≠ some u := by
  cases lines with
  | nil => exact nofun
  | cons line lines =>
      rw [terminated, List.flatMap_cons, List.append_assoc]
      cases line with
      | nil => exact fun same => other (Option.some.inj same).symm
      | cons v line =>
          have first : some v ≠ some u := never (v :: line) List.mem_cons_self
          exact first

theorem pieces_terminated {lines : List Units} (free : ∀ line ∈ lines, OneLine line) (s : Units) :
    pieces (terminated lines ++ s) = lines ++ pieces s := by
  induction lines with
  | nil => rfl
  | cons line lines ih =>
      rw [List.forall_mem_cons] at free
      have rest := ih free.2
      rw [terminated] at rest ⊢
      rw [List.flatMap_cons, List.append_assoc, List.append_assoc, List.singleton_append,
        pieces_line free.1, rest, List.cons_append]

theorem oneLine_pieces (s : Units) : ∀ line ∈ pieces s, OneLine line := by
  have blank : OneLine [] := fun u mem => absurd mem List.not_mem_nil
  induction s using pieces.induct with
  | case1 =>
      rw [pieces, List.forall_mem_singleton]
      exact blank
  | case2 u eol =>
      rw [pieces, if_pos eol, List.forall_mem_cons, List.forall_mem_singleton]
      exact ⟨blank, blank⟩
  | case3 u plain =>
      rw [pieces, if_neg plain, List.forall_mem_singleton, OneLine, List.forall_mem_singleton]
      exact Bool.eq_false_iff.mpr plain
  | case4 u v s both ih =>
      rw [pieces, if_pos both, List.forall_mem_cons]
      exact ⟨blank, ih⟩
  | case5 u v s both eol ih =>
      rw [pieces, if_neg both, if_pos eol, List.forall_mem_cons]
      exact ⟨blank, ih⟩
  | case6 u v s both plain ih =>
      rw [pieces, if_neg both, if_neg plain]
      obtain ⟨line, lines, cut⟩ := List.exists_cons_of_ne_nil (pieces_ne_nil (v :: s))
      rw [cut, List.forall_mem_cons] at ih
      rw [cut, List.modifyHead_cons, List.forall_mem_cons, OneLine, List.forall_mem_cons]
      exact ⟨⟨Bool.eq_false_iff.mpr plain, ih.1⟩, ih.2⟩

theorem intercalate_empty_cons {lines : List Units} (full : lines ≠ []) :
    [lf].intercalate ([] :: lines) = lf :: [lf].intercalate lines := by
  obtain ⟨line, lines, rfl⟩ := List.exists_cons_of_ne_nil full
  rfl

theorem intercalate_modifyHead {lines : List Units} (full : lines ≠ []) (u : UInt16) :
    [lf].intercalate (lines.modifyHead (u :: ·)) = u :: [lf].intercalate lines := by
  obtain ⟨line, lines, rfl⟩ := List.exists_cons_of_ne_nil full
  cases lines with
  | nil => rfl
  | cons next lines => rfl

/-- Joined by LF the pieces are the text with its line ends unified. -/
theorem intercalate_pieces (s : Units) : [lf].intercalate (pieces s) = unified s := by
  induction s using pieces.induct with
  | case1 => rfl
  | case2 u eol => rw [pieces, unified, if_pos eol, if_pos eol]; rfl
  | case3 u plain => rw [pieces, unified, if_neg plain, if_neg plain]; rfl
  | case4 u v s both ih =>
      rw [pieces, unified, if_pos both, if_pos both, intercalate_empty_cons (pieces_ne_nil s), ih]
  | case5 u v s both eol ih =>
      rw [pieces, unified, if_neg both, if_neg both, if_pos eol, if_pos eol,
        intercalate_empty_cons (pieces_ne_nil _), ih]
  | case6 u v s both plain ih =>
      rw [pieces, unified, if_neg both, if_neg both, if_neg plain, if_neg plain,
        intercalate_modifyHead (pieces_ne_nil _), ih]

theorem terminated_eq {lines : List Units} (full : lines ≠ []) :
    terminated lines = [lf].intercalate lines ++ [lf] := by
  induction lines with
  | nil => exact absurd rfl full
  | cons line lines ih =>
      cases lines with
      | nil => simp [terminated]
      | cons next lines =>
          have rest := ih (List.cons_ne_nil _ _)
          rw [terminated] at rest ⊢
          rw [List.flatMap_cons, rest]
          simp [List.intercalate]

/-! ### Fields -/

def colon : UInt16 := 0x3a

def space : UInt16 := 0x20

def word (s : String) : Units := s.toList.map fun c => UInt16.ofNat c.toNat

/-- A value of digits only. -/
def number? (value : Units) : Option Nat :=
  if value = [] then none else (value.mapM unitDigit?).map digitsValue

theorem number?_digits {ds : List Digit} (full : ds ≠ []) :
    number? (ds.map digitUnit) = some (digitsValue ds) := by
  have all : (ds.map digitUnit).mapM unitDigit? = some ds := by
    clear full
    induction ds with
    | nil => rfl
    | cons d ds ih => rw [List.map_cons, List.mapM_cons, unitDigit?_digitUnit, ih]; rfl
  rw [number?, if_neg (by simpa using full), all, Option.map_some]

/-- What the fields of a block have set. In `data` each value is followed by LF until the block
is dispatched. -/
structure Block where
  data : Units
  event : Option Units
  id : Option Units
  retry : Option Nat
deriving DecidableEq, Repr

namespace Block

def blank : Block := ⟨[], none, none, none⟩

/-- An id with U+0000 in it is ignored, and so is a retry that is not a number. -/
def field (b : Block) (name value : Units) : Block :=
  if name = word "event" then { b with event := some value }
  else if name = word "data" then { b with data := b.data ++ value ++ [lf] }
  else if name = word "id" then if 0 ∈ value then b else { b with id := some value }
  else if name = word "retry" then { b with retry := (number? value).or b.retry }
  else b

/-- One space behind the colon is not part of the value. -/
def afterSpace : Units → Units
  | [] => []
  | u :: s => if u = space then s else u :: s

/-- A line that is not blank. One that starts with a colon is a comment: its name is empty. -/
def line (b : Block) (line : Units) : Block :=
  b.field (line.takeWhile (· ≠ colon)) (afterSpace ((line.dropWhile (· ≠ colon)).drop 1))

/-- A block without data is not dispatched. -/
def dispatch (b : Block) : Option Block :=
  if b.data = [] then none else some { b with data := b.data.dropLast }

theorem line_field (b : Block) {name : Units} (plain : ∀ u ∈ name, u ≠ colon) (value : Units) :
    b.line (name ++ colon :: space :: value) = b.field name value := by
  have take : (name ++ colon :: space :: value).takeWhile (· ≠ colon) = name := by
    rw [List.takeWhile_append_of_pos (by simpa using plain)]
    simp
  have drop : (name ++ colon :: space :: value).dropWhile (· ≠ colon) = colon :: space :: value := by
    rw [List.dropWhile_append_of_pos (by simpa using plain)]
    simp
  rw [line, take, drop]
  rfl

@[simp] theorem field_event (b : Block) (value : Units) :
    b.field (word "event") value = { b with event := some value } := rfl

@[simp] theorem field_data (b : Block) (value : Units) :
    b.field (word "data") value = { b with data := b.data ++ value ++ [lf] } := rfl

@[simp] theorem field_id (b : Block) (value : Units) :
    b.field (word "id") value = if 0 ∈ value then b else { b with id := some value } := rfl

@[simp] theorem field_retry (b : Block) (value : Units) :
    b.field (word "retry") value = { b with retry := (number? value).or b.retry } := rfl

/-- Data lines one behind the other. -/
theorem foldl_data (b : Block) (values : List Units) :
    values.foldl (fun b value => b.field (word "data") value) b =
      { b with data := b.data ++ terminated values } := by
  induction values generalizing b with
  | nil => simp [terminated]
  | cons value values ih =>
      rw [List.foldl_cons, ih, field_data]
      simp [terminated]

end Block

/-! ### The interpreter -/

def interpret : Block → List Units → List Block
  | _, [] => []
  | b, [] :: lines => b.dispatch.toList ++ interpret .blank lines
  | b, (u :: line) :: lines => interpret (b.line (u :: line)) lines

/-- A byte order mark in front does not count. -/
def withoutMark : Units → Units
  | [] => []
  | u :: s => if u = 0xfeff then s else u :: s

/-- The events of a stream that has ended. What follows the last line end is not a line, and a
block without its blank line is discarded. -/
def blocks (stream : Units) : List Block :=
  interpret .blank (pieces (withoutMark stream)).dropLast

theorem interpret_block (b : Block) {fields : List Units} (full : ∀ line ∈ fields, line ≠ [])
    (lines : List Units) :
    interpret b (fields ++ [] :: lines) =
      (fields.foldl Block.line b).dispatch.toList ++ interpret .blank lines := by
  induction fields generalizing b with
  | nil => rfl
  | cons line fields ih =>
      rw [List.forall_mem_cons] at full
      obtain ⟨u, line, rfl⟩ := List.exists_cons_of_ne_nil full.1
      rw [List.cons_append, interpret, ih _ full.2, List.foldl_cons]

theorem blocks_terminated {lines : List Units} (free : ∀ line ∈ lines, OneLine line)
    (unmarked : (terminated lines).head? ≠ some 0xfeff) :
    blocks (terminated lines) = interpret .blank lines := by
  have same : withoutMark (terminated lines) = terminated lines := by
    cases shape : terminated lines with
    | nil => rfl
    | cons u s =>
        rw [shape] at unmarked
        exact if_neg fun mark => unmarked (congrArg some mark)
  have cut := pieces_terminated free []
  rw [List.append_nil] at cut
  rw [blocks, same, cut, pieces, List.dropLast_concat]

end NitroServer.Lib.EventStream
