/-
Templated arrays: the native loop against the array written record by record, and the Dart
method that fills its tables.

* `emitTemplate_data` — what the loop appends.
* `template_eq_rows` — the same as `begin_array`, one raw value for each record, `end_array`.
* `templated_array` — the method gives exactly that, with the tables of earlier calls, and
  throws before anything is written when the lengths do not match.
-/

import NitroServer.Json.Escape
import NitroServer.Json.Numbers

namespace NitroServer.Json

open Engine (Bytes)

/-! ### Records -/

/-- The value of the column in that row, as `writeInt` and `writeDouble` render it. -/
def Column.render (row : Nat) : Column → Bytes
  | .ints values => (jwNew.writeInt (values.getD row 0)).data
  | .doubles values => (jwNew.writeDouble (values.getD row (.zero false))).data

/-- One record: the segments with the values between them. -/
def record (row : Nat) : List Bytes → List Column → Bytes
  | segment :: segments, column :: columns =>
      segment ++ column.render row ++ record row segments columns
  | segment :: _, [] => segment
  | [], _ => []

namespace NitroJsonWriter

variable (w : NitroJsonWriter)

/-- The array, record by record. -/
def arrayOfRecords (n : Nat) (segments : List Bytes) (columns : List Column) : NitroJsonWriter :=
  ((List.range n).foldl (fun w row => w.jwRaw (record row segments columns))
    w.jwBeginArray).jwEndArray

/-! ### The loop over the columns -/

theorem writeInt_render (v : Int64) : (w.writeInt v).data = w.data ++ (jwNew.writeInt v).data := by
  have nothing : jwNew.data = [] := rfl
  rw [writeInt_data, writeInt_data, nothing, List.nil_append]

theorem writeDouble_render (d : Double) :
    (w.writeDouble d).data = w.data ++ (jwNew.writeDouble d).data := by
  have nothing : jwNew.data = [] := rfl
  rw [writeDouble_data, writeDouble_data, nothing, List.nil_append]

theorem writeColumn_data (row : Nat) (column : Column) :
    (w.writeColumn row (some column)).data = w.data ++ column.render row := by
  cases column with
  | ints values => exact writeInt_render w _
  | doubles values => exact writeDouble_render w _

/-- The turns of the loop over the columns, from column `c` on. -/
def emitColumns (segments : List Bytes) (columns : List Column) (row : Nat) (cs : List Nat) :
    NitroJsonWriter :=
  cs.foldl (fun w c => (w.putN (segments.getD c [])).writeColumn row columns[c]?) w

theorem emitRow_eq (k : Nat) (segments : List Bytes) (columns : List Column) (row : Nat) :
    w.emitRow k segments columns row =
      (w.emitColumns segments columns row (List.range k)).putN (segments.getD k []) :=
  rfl

/-- One record is appended. -/
theorem emitRow_data {segments : List Bytes} {columns : List Column}
    (lengths : segments.length = columns.length + 1) (row : Nat) :
    (w.emitRow columns.length segments columns row).data = w.data ++ record row segments columns := by
  induction columns generalizing segments w with
  | nil =>
      obtain ⟨segment, rfl⟩ := List.length_eq_one_iff.mp lengths
      exact w.putN_data segment
  | cons column columns ih =>
      cases segments with
      | nil => cases lengths
      | cons segment segments =>
          have rest := ih ((w.putN segment).writeColumn row (some column))
            (Nat.succ.inj lengths)
          have turns : w.emitRow (column :: columns).length (segment :: segments)
                (column :: columns) row =
              ((w.putN segment).writeColumn row (some column)).emitRow columns.length segments
                columns row := by
            rw [emitRow_eq, emitRow_eq, List.length_cons, List.range_succ_eq_map, emitColumns,
              List.foldl_cons, List.foldl_map]
            rfl
          rw [turns, rest, writeColumn_data, putN_data, record]
          simp only [List.append_assoc]

/-! ### The loop over the rows -/

/-- The records of the array, a comma in front of each but the first. -/
def recordsOf (segments : List Bytes) (columns : List Column) (rows : List Nat) : Bytes :=
  rows.flatMap fun row =>
    (if row = 0 then [] else [0x2c]) ++ record row segments columns

theorem recordsOf_cons (segments : List Bytes) (columns : List Column) (row : Nat)
    (rows : List Nat) :
    recordsOf segments columns (row :: rows) =
      (if row = 0 then [] else [0x2c]) ++ record row segments columns ++
        recordsOf segments columns rows :=
  List.flatMap_cons

theorem emitRows_data {segments : List Bytes} {columns : List Column}
    (lengths : segments.length = columns.length + 1) (rows : List Nat) :
    (rows.foldl (fun w row =>
        (if row = 0 then w else w.put 0x2c).emitRow columns.length segments columns row) w).data =
      w.data ++ recordsOf segments columns rows := by
  induction rows generalizing w with
  | nil => exact (List.append_nil _).symm
  | cons row rows ih =>
      rw [List.foldl_cons, ih, emitRow_data _ lengths, recordsOf_cons]
      split
      · simp only [List.nil_append, List.append_assoc]
      · simp only [put_data, List.append_assoc]

/-- Raw values behind each other: the comma flag is clear for the first only. -/
theorem rawRows_data {segments : List Bytes} {columns : List Column} {rows : List Nat} {first : Nat}
    (up : ∀ row ∈ rows, row ≠ 0) (comma : w.needComma = decide (first ≠ 0)) :
    ((first :: rows).foldl (fun w row => w.jwRaw (record row segments columns)) w).data =
      w.data ++ recordsOf segments columns (first :: rows) := by
  induction rows generalizing w first with
  | nil =>
      rw [List.foldl_cons, List.foldl_nil, recordsOf, List.flatMap_singleton]
      simp [jwRaw, NitroJsonWriter.comma, comma]
  | cons row rows ih =>
      have next := @ih (w.jwRaw (record first segments columns)) row
        (fun r mem => up r (List.mem_cons_of_mem row mem))
        (by simpa [jwRaw] using up row List.mem_cons_self)
      rw [List.foldl_cons, next, recordsOf_cons segments columns first]
      simp [jwRaw, NitroJsonWriter.comma, comma]

theorem emitTemplate_data {segments : List Bytes} {columns : List Column}
    (lengths : segments.length = columns.length + 1) (n : Nat) :
    (w.jwEmitTemplate n columns.length segments columns).data =
      w.data ++ w.comma ++ [0x5b] ++ recordsOf segments columns (List.range n) ++ [0x5d] := by
  rw [jwEmitTemplate, setComma_data, put_data, emitRows_data _ lengths, put_data, sep_data]

theorem arrayOfRecords_data (n : Nat) (segments : List Bytes) (columns : List Column) :
    (w.arrayOfRecords n segments columns).data =
      w.data ++ w.comma ++ [0x5b] ++ recordsOf segments columns (List.range n) ++ [0x5d] := by
  have start : w.jwBeginArray.data = w.data ++ w.comma ++ [0x5b] := by
    rw [jwBeginArray, setComma_data, put_data, sep_data]
  rw [arrayOfRecords, jwEndArray, setComma_data, put_data, ← start]
  congr 1
  cases n with
  | zero => exact (List.append_nil _).symm
  | succ n =>
      rw [List.range_succ_eq_map]
      apply rawRows_data
      · intro row mem
        obtain ⟨r, -, rfl⟩ := List.mem_map.mp mem
        exact Nat.succ_ne_zero r
      · rfl

/-- The native loop leaves the writer as the tokens do. -/
theorem template_eq_rows {segments : List Bytes} {columns : List Column}
    (lengths : segments.length = columns.length + 1) (n : Nat) :
    (w.jwEmitTemplate n columns.length segments columns).data =
        (w.arrayOfRecords n segments columns).data ∧
      (w.jwEmitTemplate n columns.length segments columns).needComma =
        (w.arrayOfRecords n segments columns).needComma :=
  ⟨by rw [emitTemplate_data w lengths, arrayOfRecords_data], rfl⟩

/-! ### Tables that are too long -/

/-- The loop reads the first entries of its tables only. -/
theorem emitTemplate_tables {segments segTable : List Bytes} {columns colTable : List Column}
    (n : Nat)
    (segs : segTable.take (columns.length + 1) = segments)
    (cols : colTable.take columns.length = columns) :
    w.jwEmitTemplate n columns.length segTable colTable =
      w.jwEmitTemplate n columns.length segments columns := by
  have segment : ∀ c < columns.length + 1, segTable.getD c [] = segments.getD c [] := by
    intro c inside
    rw [List.getD_eq_getElem?_getD, List.getD_eq_getElem?_getD, ← segs, List.getElem?_take,
      if_pos inside]
  have column : ∀ c < columns.length, colTable[c]? = columns[c]? := by
    intro c inside
    conv_rhs => rw [← cols, List.getElem?_take, if_pos inside]
  have row : ∀ (w : NitroJsonWriter) (row : Nat),
      w.emitRow columns.length segTable colTable row =
        w.emitRow columns.length segments columns row := by
    intro w row
    have turns : w.emitColumns segTable colTable row (List.range columns.length) =
        w.emitColumns segments columns row (List.range columns.length) := by
      apply List.foldl_ext
      intro w' c mem
      have inside := List.mem_range.mp mem
      rw [segment c (Nat.lt_succ_of_lt inside), column c inside]
    rw [emitRow_eq, emitRow_eq, turns, segment _ (Nat.lt_succ_self _)]
  simp only [jwEmitTemplate, row]

end NitroJsonWriter

/-! ### The Dart method -/

/-- Up to column `c` the tables hold this call's entries. -/
structure Tabled (segments : List Bytes) (columns : List Column) (c : Nat) (w : JsonWriter) :
    Prop where
  segRoom : columns.length + 1 ≤ w.segTable.length
  colRoom : columns.length ≤ w.colTable.length
  segs : w.segTable.take c = segments.take c
  cols : w.colTable.take c = columns.take c

theorem take_set {α : Type} {l : List α} {c : Nat} (inside : c < l.length) (x : α) :
    (l.set c x).take (c + 1) = l.take c ++ [x] := by
  rw [List.take_succ_eq_append_getElem (by simpa using inside), List.take_set_of_le le_rfl,
    List.getElem_set_self]

theorem take_getD {segments : List Bytes} {c : Nat} (inside : c < segments.length) :
    segments.take (c + 1) = segments.take c ++ [segments.getD c []] := by
  rw [List.take_succ_eq_append_getElem inside, List.getD_eq_getElem _ _ inside]

/-- The tables with the entries of column `c`. -/
def JsonWriter.table (w : JsonWriter) (c : Nat) (segment : Bytes) (column : Column) : JsonWriter :=
  { w with segTable := w.segTable.set c segment, colTable := w.colTable.set c column }

theorem fillTables_step {segments : List Bytes} {n : Nat} {column : Column} (even : column.length = n)
    (c : Nat) (columns : List Column) (w : JsonWriter) :
    fillTables segments n c (column :: columns) w =
      fillTables segments n (c + 1) columns (w.table c (segments.getD c []) column) := by
  rw [fillTables]
  simp only [even, ne_eq, not_true_eq_false, if_false]
  rfl

theorem fillTables_throw {segments : List Bytes} {n : Nat} {column : Column}
    (odd : column.length ≠ n) (c : Nat) (columns : List Column) (w : JsonWriter) :
    fillTables segments n c (column :: columns) w =
      .error (.argument
        s!"every column must be the same length (column {c} has {column.length}, expected {n})")
        { w with segTable := w.segTable.set c (segments.getD c []) } := by
  rw [fillTables]
  simp only [ne_eq, odd, not_false_eq_true, if_true]
  rfl

theorem fillTables_ok {segments : List Bytes} {columns done left : List Column} {n : Nat}
    {w : JsonWriter} (split : columns = done ++ left)
    (lengths : segments.length = columns.length + 1) (even : ∀ column ∈ left, column.length = n)
    (h : Tabled segments columns done.length w) :
    ∃ w', fillTables segments n done.length left w = .ok () w' ∧
      Tabled segments columns columns.length w' ∧ w'.native = w.native := by
  induction left generalizing done w with
  | nil =>
      rw [List.append_nil] at split
      exact ⟨w, rfl, split ▸ h, rfl⟩
  | cons column left ih =>
      have inside : done.length < columns.length := by
        rw [split, List.length_append, List.length_cons]
        omega
      have here : columns.take (done.length + 1) = columns.take done.length ++ [column] := by
        rw [split, List.take_left' rfl, List.append_cons, List.take_left' (by simp)]
      have next : Tabled segments columns (done ++ [column]).length
          (w.table done.length (segments.getD done.length []) column) := by
        rw [List.length_append, List.length_singleton]
        constructor
        · rw [JsonWriter.table, List.length_set]
          exact h.segRoom
        · rw [JsonWriter.table, List.length_set]
          exact h.colRoom
        · rw [JsonWriter.table, take_set (by have := h.segRoom; omega), h.segs,
            take_getD (by omega)]
        · rw [JsonWriter.table, take_set (by have := h.colRoom; omega), h.cols, here]
      have split' : columns = (done ++ [column]) ++ left := by rw [split, List.append_cons]
      obtain ⟨w', run, filled, native⟩ := ih split'
        (fun col mem => even col (List.mem_cons_of_mem column mem)) next
      refine ⟨w', ?_, filled, native⟩
      rw [fillTables_step (even column List.mem_cons_self), ← run, List.length_append,
        List.length_singleton]

theorem fillTables_odd {segments : List Bytes} {n c : Nat} {columns : List Column} {w : JsonWriter}
    (odd : ∃ column ∈ columns, column.length ≠ n) :
    ∃ message w', fillTables segments n c columns w = .error (.argument message) w' ∧
      w'.native = w.native := by
  induction columns generalizing c w with
  | nil =>
      obtain ⟨column, mem, -⟩ := odd
      cases mem
  | cons column columns ih =>
      by_cases even : column.length = n
      · obtain ⟨col, mem, differs⟩ := odd
        have later : col ∈ columns := by
          rcases List.mem_cons.mp mem with rfl | later
          · exact absurd even differs
          · exact later
        rw [fillTables_step even]
        exact ih ⟨col, later, differs⟩
      · rw [fillTables_throw even]
        exact ⟨_, _, rfl, rfl⟩

/-- The lengths that the method asks for. -/
structure Matches (segments : List Bytes) (columns : List Column) : Prop where
  segments : segments.length = columns.length + 1
  columns : ∀ column ∈ columns, column.length = columns.head?.elim 0 Column.length

/-- The tables, grown when they are too short. -/
def JsonWriter.grown (w : JsonWriter) (k : Nat) : JsonWriter :=
  { w with
    segTable := if k + 1 > w.segTable.length then List.replicate (k + 1) [] else w.segTable
    colTable := if k > w.colTable.length then List.replicate k (.ints []) else w.colTable }

theorem grown_tabled (w : JsonWriter) (segments : List Bytes) (columns : List Column) :
    Tabled segments columns 0 (w.grown columns.length) := by
  constructor
  · rw [JsonWriter.grown]
    dsimp only
    split
    · rw [List.length_replicate]
    · omega
  · rw [JsonWriter.grown]
    dsimp only
    split
    · rw [List.length_replicate]
    · omega
  · rfl
  · rfl

theorem writeTemplatedArray_eq {segments : List Bytes} {columns : List Column}
    (lengths : segments.length = columns.length + 1) (w : JsonWriter) :
    writeTemplatedArray segments columns w =
      (fillTables segments (columns.head?.elim 0 Column.length) 0 columns >>= fun _ => do
        modify fun w => { w with
          segTable := w.segTable.set columns.length (segments.getD columns.length []) }
        modify fun w => { w with
          native := w.native.jwEmitTemplate (columns.head?.elim 0 Column.length) columns.length
            w.segTable w.colTable }) (w.grown columns.length) := by
  rw [writeTemplatedArray]
  simp only [lengths, ne_eq, not_true_eq_false, if_false]
  rfl

theorem writeTemplatedArray_ok {segments : List Bytes} {columns : List Column}
    (fits : Matches segments columns) (w : JsonWriter) :
    ∃ w', writeTemplatedArray segments columns w = .ok () w' ∧
      w'.native = w.native.jwEmitTemplate (columns.head?.elim 0 Column.length) columns.length
        segments columns := by
  have split : columns = [] ++ columns := rfl
  obtain ⟨w₁, run, filled, native⟩ := fillTables_ok split fits.segments fits.columns
    (grown_tabled w segments columns)
  have segRoom := filled.segRoom
  have segs : (w₁.segTable.set columns.length (segments.getD columns.length [])).take
      (columns.length + 1) = segments := by
    rw [take_set (by omega), filled.segs, ← take_getD (by have := fits.segments; omega),
      List.take_of_length_le fits.segments.le]
  have cols : w₁.colTable.take columns.length = columns := by
    rw [filled.cols, List.take_length]
  refine ⟨_, (writeTemplatedArray_eq fits.segments w).trans (bind_ok run), ?_⟩
  have tables := w₁.native.emitTemplate_tables (columns.head?.elim 0 Column.length) segs cols
  have same : (w.grown columns.length).native = w.native := rfl
  rw [← same, ← native]
  exact tables

theorem writeTemplatedArray_throws {segments : List Bytes} {columns : List Column}
    (misfit : ¬ Matches segments columns) (w : JsonWriter) :
    ∃ message w', writeTemplatedArray segments columns w = .error (.argument message) w' ∧
      w'.native = w.native := by
  by_cases lengths : segments.length = columns.length + 1
  · have odd : ∃ column ∈ columns, column.length ≠ columns.head?.elim 0 Column.length := by
      by_contra even
      apply misfit
      refine ⟨lengths, ?_⟩
      intro column mem
      by_contra differs
      exact even ⟨column, mem, differs⟩
    obtain ⟨message, w', run, native⟩ :=
      @fillTables_odd segments _ 0 columns (w.grown columns.length) odd
    refine ⟨message, w', ?_, native⟩
    rw [writeTemplatedArray_eq lengths]
    simp only [bind, EStateM.bind, run]
  · have run : writeTemplatedArray segments columns w =
        .error (.argument (s!"writeTemplatedArray needs one more segment than columns " ++
          s!"({segments.length} segments, {columns.length} columns)")) w := by
      rw [writeTemplatedArray]
      simp only [ne_eq, lengths, not_false_eq_true, if_true]
      rfl
    exact ⟨_, w, run, rfl⟩

end NitroServer.Json
