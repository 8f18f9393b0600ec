/-
Server-sent events: what `SseEvent.encode` (`context.dart`) writes, read by the interpreter of
the event-stream standard.

* `encode_eq` — the text of an event is its fields, a line each, and a blank line.
* `blocks_encode` — events one behind the other give one block each, in order; of what an event
  was given, only an id with U+0000 in it is lost.
* `sse_round_trip_iff` — so the events come back exactly when no id holds U+0000. `encode` strips
  the line ends of `event` and `id`, but not this one unit, at which a reader ignores the id.
-/

import NitroServer.Api.Text
import NitroServer.Lib.EventStream

namespace NitroServer.Api

open Bridge (DartString text)
open Lib Lib.EventStream

/-! ### The encoder -/

/-- `Duration.inMilliseconds` of a duration in microseconds. -/
def inMilliseconds (micros : Int) : Int := micros.tdiv 1000

/-- `SseEvent`, with `retry` in microseconds. -/
structure SseEvent where
  data : DartString
  event : Option DartString := none
  id : Option DartString := none
  retry : Option Int := none
deriving DecidableEq, Repr

/-- `replaceAll(_crlf, '')`. -/
def withoutCrlf (s : DartString) : DartString := s.filter fun u => !isEol u

namespace SseEvent

/-- `SseEvent.encode`. -/
def encode (e : SseEvent) : DartString :=
  let ev := e.event.map withoutCrlf
  let eid := e.id.map withoutCrlf
  (ev.elim [] fun ev => text "event: " ++ ev ++ [lf]) ++
    (eid.elim [] fun eid => text "id: " ++ eid ++ [lf]) ++
    (e.retry.elim [] fun retry => text "retry: " ++ intText (inMilliseconds retry) ++ [lf]) ++
    (pieces e.data).flatMap (fun line => text "data: " ++ line ++ [lf]) ++ [lf]

/-- The block an event stands for. -/
def block (e : SseEvent) : Block :=
  { data := unified e.data, event := e.event.map withoutCrlf, id := e.id.map withoutCrlf
    retry := e.retry.map fun retry => (inMilliseconds retry).toNat }

/-- The block a reader makes of it. -/
def readBlock (e : SseEvent) : Block :=
  { e.block with id := (e.id.map withoutCrlf).filter fun eid => decide (0 ∉ eid) }

/-! ### The lines of an event -/

/-- A line with a field. -/
def fieldLine (name : String) (value : DartString) : DartString :=
  word name ++ colon :: space :: value

/-- The fields of an event with their values. -/
def fields (e : SseEvent) : List (String × DartString) :=
  (e.event.toList.map fun ev => ("event", withoutCrlf ev)) ++
    (e.id.toList.map fun eid => ("id", withoutCrlf eid)) ++
    (e.retry.toList.map fun retry => ("retry", intText (inMilliseconds retry))) ++
    (pieces e.data).map fun line => ("data", line)

/-- The lines of an event, the blank one last. -/
def lines (e : SseEvent) : List DartString := (e.fields.map fun f => fieldLine f.1 f.2) ++ [[]]

theorem encode_eq (e : SseEvent) : e.encode = terminated e.lines := by
  have event : text "event: " = word "event" ++ [colon, space] := by decide
  have id_ : text "id: " = word "id" ++ [colon, space] := by decide
  have retry : text "retry: " = word "retry" ++ [colon, space] := by decide
  have data : text "data: " = word "data" ++ [colon, space] := by decide
  have line : ∀ name value, word name ++ [colon, space] ++ value = fieldLine name value :=
    fun name value => List.append_assoc ..
  have blank : terminated [[]] = [lf] := rfl
  rw [lines, fields]
  simp only [List.map_append, List.map_map, terminated_append, Function.comp_def,
    terminated_toList, blank]
  rw [encode, event, id_, retry, data]
  simp only [line, Option.elim_map, Function.comp_def]
  rw [terminated, List.flatMap_map]

theorem oneLine_withoutCrlf (s : DartString) : OneLine (withoutCrlf s) := by
  intro u mem
  have kept := (List.mem_filter.mp mem).2
  simpa using kept

theorem oneLine_intText (n : Int) : OneLine (intText n) := by
  have digit : ∀ d, isEol (Decimal.digitUnit d) = false := by decide
  intro u mem
  obtain rfl | ⟨d, rfl⟩ := mem_intText mem
  · rfl
  · exact digit d

/-- The four names are free of colons and line ends, and no value brings a line end. -/
theorem fields_clean (e : SseEvent) :
    ∀ f ∈ e.fields, f.1 ∈ ["event", "id", "retry", "data"] ∧ OneLine f.2 := by
  intro f mem
  simp only [fields, List.mem_append, List.mem_map] at mem
  rcases mem with ((⟨ev, -, rfl⟩ | ⟨eid, -, rfl⟩) | ⟨retry, -, rfl⟩) | ⟨line, piece, rfl⟩
  · exact ⟨by simp, oneLine_withoutCrlf ev⟩
  · exact ⟨by simp, oneLine_withoutCrlf eid⟩
  · exact ⟨by simp, oneLine_intText _⟩
  · exact ⟨by simp, oneLine_pieces e.data line piece⟩

theorem names_plain : ∀ name ∈ ["event", "id", "retry", "data"],
    ∀ u ∈ word name, u ≠ colon ∧ isEol u = false := by
  have plain : (["event", "id", "retry", "data"].all fun name =>
      (word name).all fun u => u != colon && !isEol u) = true := by decide
  intro name mem u at_
  have unit := List.all_eq_true.mp (List.all_eq_true.mp plain name mem) u at_
  simpa using unit

theorem oneLine_lines (e : SseEvent) : ∀ line ∈ e.lines, OneLine line := by
  rw [lines, List.forall_mem_append, List.forall_mem_map]
  constructor
  · intro f mem u at_
    obtain ⟨name, value⟩ := e.fields_clean f mem
    rcases List.mem_append.mp at_ with at_ | at_
    · exact (names_plain _ name u at_).2
    rcases List.mem_cons.mp at_ with rfl | at_
    · rfl
    rcases List.mem_cons.mp at_ with rfl | at_
    · rfl
    · exact value u at_
  · simp [OneLine]

/-- No line starts with a byte order mark. -/
theorem unmarked_lines (e : SseEvent) : ∀ line ∈ e.lines, line.head? ≠ some 0xfeff := by
  have first : ∀ name ∈ ["event", "id", "retry", "data"], ∀ value,
      (fieldLine name value).head? ≠ some 0xfeff := by
    simp only [List.forall_mem_cons, List.not_mem_nil, false_implies, implies_true, and_true]
    exact ⟨fun _ => nofun, fun _ => nofun, fun _ => nofun, fun _ => nofun⟩
  rw [lines, List.forall_mem_append, List.forall_mem_map]
  constructor
  · intro f mem
    exact first f.1 (e.fields_clean f mem).1 f.2
  · exact List.forall_mem_singleton.mpr nofun

/-! ### Reading them -/

theorem line_fieldLine (b : Block) {f : String × DartString}
    (name : f.1 ∈ ["event", "id", "retry", "data"]) :
    b.line (fieldLine f.1 f.2) = b.field (word f.1) f.2 :=
  b.line_field (fun u mem => (names_plain f.1 name u mem).1) f.2

theorem number?_inMilliseconds {retry : Int} (positive : 0 ≤ retry) :
    number? (intText (inMilliseconds retry)) = some (inMilliseconds retry).toNat := by
  have whole : 0 ≤ inMilliseconds retry := Int.tdiv_nonneg positive (by decide)
  rw [intText, if_neg (not_lt.mpr whole), List.nil_append,
    number?_digits (Decimal.plain_decimalDigits _).1, Decimal.digitsValue_decimalDigits]
  congr 1
  omega

/-- What the fields of an event leave, before the blank line. -/
theorem foldl_fields (e : SseEvent) (positive : ∀ retry ∈ e.retry, 0 ≤ retry) :
    e.fields.foldl (fun b f => b.field (word f.1) f.2) .blank =
      { e.readBlock with data := unified e.data ++ [lf] } := by
  have data : terminated (pieces e.data) = unified e.data ++ [lf] := by
    rw [terminated_eq (pieces_ne_nil _), intercalate_pieces]
  have event : (e.event.toList).foldl (fun b ev => Block.field b (word "event") (withoutCrlf ev))
      .blank = { Block.blank with event := e.event.map withoutCrlf } := by
    cases e.event with
    | none => rfl
    | some ev => rfl
  have id_ : ∀ b : Block, b.id = none →
      (e.id.toList).foldl (fun b eid => Block.field b (word "id") (withoutCrlf eid)) b =
        { b with id := (e.id.map withoutCrlf).filter fun eid => decide (0 ∉ eid) } := by
    intro b unset
    cases e.id with
    | none =>
        obtain ⟨data, event, eid, retry⟩ := b
        cases unset
        rfl
    | some eid =>
        rw [Option.toList_some, List.foldl_cons, List.foldl_nil, Block.field_id, Option.map_some,
          Option.filter_some]
        by_cases nul : 0 ∈ withoutCrlf eid
        · simp only [nul, if_true, not_true_eq_false, decide_false, Bool.false_eq_true, if_false,
            ← unset]
        · simp only [nul, if_false, not_false_eq_true, decide_true, if_true]
  have retry : ∀ b : Block, b.retry = none →
      (e.retry.toList).foldl
          (fun b retry => Block.field b (word "retry") (intText (inMilliseconds retry))) b =
        { b with retry := e.retry.map fun retry => (inMilliseconds retry).toNat } := by
    intro b unset
    cases given : e.retry with
    | none =>
        obtain ⟨data, event, eid, retry⟩ := b
        cases unset
        rfl
    | some retry =>
        rw [Option.toList_some, List.foldl_cons, List.foldl_nil, Block.field_retry,
          number?_inMilliseconds (positive retry given)]
        rfl
  rw [fields]
  simp only [List.foldl_append, List.foldl_map]
  rw [event, id_ _ rfl, retry _ rfl, Block.foldl_data, data]
  rfl

/-- One event, and what follows it. -/
theorem interpret_lines (e : SseEvent) (positive : ∀ retry ∈ e.retry, 0 ≤ retry)
    (more : List DartString) :
    interpret .blank (e.lines ++ more) = e.readBlock :: interpret .blank more := by
  have full : ∀ line ∈ e.fields.map fun f => fieldLine f.1 f.2, line ≠ [] := by
    rw [List.forall_mem_map]
    intro f _ empty
    exact absurd (List.append_eq_nil_iff.mp empty).2 (List.cons_ne_nil _ _)
  have named : (e.fields.map fun f => fieldLine f.1 f.2).foldl Block.line .blank =
      e.fields.foldl (fun b f => b.field (word f.1) f.2) .blank := by
    rw [List.foldl_map]
    apply List.foldl_ext
    intro b f mem
    exact line_fieldLine b (e.fields_clean f mem).1
  have dispatched : Block.dispatch { e.readBlock with data := unified e.data ++ [lf] } =
      some e.readBlock := by
    rw [Block.dispatch, if_neg (by simp)]
    congr 2
    exact List.dropLast_concat
  rw [lines, List.append_assoc, List.singleton_append, interpret_block _ full, named,
    foldl_fields e positive, dispatched]
  rfl

end SseEvent

/-- The text of a list of events. -/
def encodeAll (events : List SseEvent) : DartString := events.flatMap SseEvent.encode

/-- Each event is read as one block, in order, with what it was given except for an id with
U+0000 in it. -/
theorem blocks_encode {events : List SseEvent}
    (positive : ∀ e ∈ events, ∀ retry ∈ e.retry, 0 ≤ retry) :
    blocks (encodeAll events) = events.map SseEvent.readBlock := by
  have text : encodeAll events = terminated (events.flatMap SseEvent.lines) := by
    rw [encodeAll, terminated, List.flatMap_assoc]
    exact List.flatMap_congr fun e _ => e.encode_eq
  have free : ∀ line ∈ events.flatMap SseEvent.lines, OneLine line := by
    intro line mem
    obtain ⟨e, -, mem⟩ := List.mem_flatMap.mp mem
    exact e.oneLine_lines line mem
  have unmarked : (terminated (events.flatMap SseEvent.lines)).head? ≠ some 0xfeff := by
    apply head?_terminated (by decide)
    intro line mem
    obtain ⟨e, -, mem⟩ := List.mem_flatMap.mp mem
    exact e.unmarked_lines line mem
  rw [text, blocks_terminated free unmarked]
  clear text free unmarked
  induction events with
  | nil => rfl
  | cons e events ih =>
      rw [List.forall_mem_cons] at positive
      rw [List.flatMap_cons, e.interpret_lines positive.1, ih positive.2, List.map_cons]

theorem SseEvent.readBlock_eq_iff (e : SseEvent) :
    e.readBlock = e.block ↔ ∀ eid ∈ e.id, 0 ∉ eid := by
  have kept : ∀ eid : DartString, 0 ∈ withoutCrlf eid ↔ 0 ∈ eid := by
    intro eid
    rw [withoutCrlf, List.mem_filter]
    exact and_iff_left rfl
  rw [readBlock, block]
  cases e.id with
  | none => simp
  | some eid =>
      by_cases nul : 0 ∈ eid
      · simp [kept, nul]
      · simp [kept, nul]

/-- For every list of events, reading their text gives back one block each, in order, with the
data, event, id and retry that were given, if and only if no id has U+0000 in it. -/
theorem sse_round_trip_iff {events : List SseEvent}
    (positive : ∀ e ∈ events, ∀ retry ∈ e.retry, 0 ≤ retry) :
    blocks (encodeAll events) = events.map SseEvent.block ↔
      ∀ e ∈ events, ∀ eid ∈ e.id, 0 ∉ eid := by
  rw [blocks_encode positive, List.map_inj_left]
  exact forall₂_congr fun e _ => e.readBlock_eq_iff

/-- Two lines of data, and a comment and a field in what a client sent. -/
def chatEvents : List SseEvent :=
  [⟨text "a\r\nb\r", some (text "chat\nid: 9"), some (text " 7"), some 1500000⟩,
    ⟨text ": x\n\ndata: y", none, none, none⟩]

theorem sse_round_trip_chat :
    blocks (encodeAll chatEvents) = chatEvents.map SseEvent.block ↔
      ∀ e ∈ chatEvents, ∀ eid ∈ e.id, 0 ∉ eid :=
  sse_round_trip_iff (by decide)

/-- An id with U+0000 in it. -/
def nulEvent : SseEvent := { data := text "x", id := some [0x61, 0, 0x62] }

/-- A reader ignores the id. -/
theorem sse_id_lost :
    blocks (encodeAll [nulEvent]) = [⟨text "x", none, none, none⟩] ∧
      blocks (encodeAll [nulEvent]) ≠ [nulEvent].map SseEvent.block := by
  decide

end NitroServer.Api
