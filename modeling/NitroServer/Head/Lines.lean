/-
The lines of a request head, and what the parser makes of them.

A `FieldLine` is a name and what stands behind its colon; a `Shape` is a request line and
field lines. `Taken` says which of them the parser takes.

* `parseField_iff` — a field line is taken exactly when it is one.
* `parseFields_iff` — so are the lines behind the request line.
* `parseHead_taken` — what the parser makes of a shape it takes.
* `parseHead_ok` — what it takes has a shape.
-/

import NitroServer.Chunked.Grammar

namespace NitroServer.Head

open NitroServer.Engine NitroServer.Lib NitroServer.Chunked

/-! ### Cutting at a byte -/

section Cut

variable {c : UInt8} {s a b : Bytes} {i : Nat}

theorem findIdx_cut (absent : c ∉ a) : (a ++ c :: b).findIdx? (· == c) = some a.length := by
  induction a with
  | nil => simp [List.findIdx?_cons]
  | cons x a ih =>
      have other : x ≠ c := fun same => absent (same ▸ List.mem_cons_self)
      have later := ih fun mem => absent (List.mem_cons_of_mem x mem)
      rw [List.cons_append, List.findIdx?_cons, if_neg (by simpa using other), later]
      rfl

theorem findIdx_none (absent : c ∉ s) : s.findIdx? (· == c) = none := by
  rw [List.findIdx?_eq_none_iff]
  intro x mem
  rw [beq_eq_false_iff_ne]
  rintro rfl
  exact absent mem

/-- The first occurrence of a byte cuts the string in two. -/
theorem cut_of_findIdx (found : s.findIdx? (· == c) = some i) :
    s = s.take i ++ c :: s.drop (i + 1) ∧ c ∉ s.take i ∧ (s.take i).length = i := by
  obtain ⟨lt, here, before⟩ := List.findIdx?_eq_some_iff_getElem.mp found
  have length : (s.take i).length = i := by
    rw [List.length_take]
    omega
  refine ⟨?_, fun mem => ?_, length⟩
  · rw [← eq_of_beq here, ← List.drop_eq_getElem_cons lt, List.take_append_drop]
  · obtain ⟨j, inside, same⟩ := List.getElem_of_mem mem
    rw [List.getElem_take] at same
    have lt_ : j < i := by
      rw [length] at inside
      exact inside
    exact absurd (beq_iff_eq.mpr same) (by simpa using before j lt_)

end Cut

/-! ### Field lines -/

/-- A field line, its value as it stands behind the colon. -/
structure FieldLine where
  name : Bytes
  value : Bytes
deriving DecidableEq, Repr

namespace FieldLine

def text (l : FieldLine) : Bytes := l.name ++ 58 :: l.value

/-- The field as the parser keeps it. -/
def header (l : FieldLine) : Header := ⟨l.name, trim l.value⟩

/-- The parser takes the line. -/
structure Taken (l : FieldLine) : Prop where
  named : l.name ≠ []
  ascii : ∀ b ∈ l.name, b < 0x80
  noColon : 58 ∉ l.name
  first : ∀ b, l.name.head? = some b → isBlank b = false
  last : ∀ b, l.name.getLast? = some b → isBlank b = false
  clean : ∀ b ∈ l.text, b < 0x20 → b = 9
  utf8 : Ws.validUtf8 (trim l.value) = true

end FieldLine

theorem getLast_eq {s : Bytes} (full : s ≠ []) (rest : Bytes) :
    (s ++ rest).getD (s.length - 1) 0 = s.getLast full := by
  have pos := List.length_pos_of_ne_nil full
  have lt : s.length - 1 < s.length := Nat.sub_lt pos Nat.one_pos
  rw [List.getD_eq_getElem?_getD, List.getElem?_append_left lt, List.getElem?_eq_getElem lt,
    Option.getD_some, List.getLast_eq_getElem]

theorem parseField_taken {l : FieldLine} (taken : l.Taken) : parseField l.text = some l.header := by
  have controls : ¬ (l.text.any fun b => b < 0x20 && b != 9) = true := by
    rw [List.any_eq_true]
    rintro ⟨b, mem, bad⟩
    simp only [Bool.and_eq_true, decide_eq_true_eq, bne_iff_ne] at bad
    exact bad.2 (taken.clean b mem bad.1)
  have head : l.text.head? = l.name.head? := by
    rw [FieldLine.text, List.head?_append_of_ne_nil _ taken.named]
  have fold : ¬ l.text.head?.any isBlank = true := by
    rw [head]
    cases here : l.name.head? with
    | none => exact Bool.false_ne_true
    | some b =>
        intro blank
        exact Bool.false_ne_true ((taken.first b here).symm.trans blank)
  have colon : l.text.findIdx? (· == 58) = some l.name.length := findIdx_cut taken.noColon
  have pos := List.length_pos_of_ne_nil taken.named
  have last : isBlank (l.text.getD (l.name.length - 1) 0) = false := by
    rw [FieldLine.text, getLast_eq taken.named]
    exact taken.last _ (List.getLast?_eq_getLast_of_ne_nil taken.named)
  have name : l.text.take l.name.length = l.name := List.take_left' rfl
  have value : l.text.drop (l.name.length + 1) = l.value := by
    rw [FieldLine.text, ← List.drop_drop, List.drop_left' rfl]
    rfl
  have octets : ¬ (l.name.any fun b => 0x80 ≤ b) = true := by
    rw [List.any_eq_true]
    rintro ⟨b, mem, big⟩
    have small := taken.ascii b mem
    simp only [decide_eq_true_eq] at big
    exact absurd (UInt8.lt_of_lt_of_le small big) (UInt8.lt_irrefl b)
  obtain ⟨n, size⟩ : ∃ n, l.name.length = n + 1 := ⟨l.name.length - 1, by omega⟩
  rw [size] at colon last name value
  rw [parseField, if_neg controls, if_neg fold, colon]
  change (if isBlank (l.text.getD (n + 1 - 1) 0) = true then none
    else if (!Ws.validUtf8 (trim (l.text.drop (n + 1 + 1)))) = true then none
    else if ((l.text.take (n + 1)).any fun b => 0x80 ≤ b) = true then none
    else some ⟨l.text.take (n + 1), trim (l.text.drop (n + 1 + 1))⟩) = some l.header
  rw [last, if_neg Bool.false_ne_true, value, name, if_neg (by simp [taken.utf8]), if_neg octets]
  rfl

theorem parseField_some {line : Bytes} {h : Header} (field : parseField line = some h) :
    ∃ l : FieldLine, l.Taken ∧ line = l.text ∧ h = l.header := by
  unfold parseField at field
  split at field
  · cases field
  rename_i controls
  split at field
  · cases field
  rename_i fold
  split at field
  · cases field
  · cases field
  rename_i colon beyond found
  split at field
  · cases field
  rename_i blank
  dsimp only at field
  split at field
  · cases field
  rename_i utf8
  split at field
  · cases field
  rename_i octets
  obtain ⟨cut, absent, length⟩ := cut_of_findIdx found
  have full : line.take colon ≠ [] := by
    rw [Ne, ← List.length_eq_zero_iff, length]
    exact beyond
  refine ⟨⟨line.take colon, line.drop (colon + 1)⟩, ?_, cut, (Option.some.inj field).symm⟩
  refine ⟨full, fun b mem => ?_, absent, fun b here => ?_, fun b here => ?_, fun b mem low => ?_, ?_⟩
  · by_contra big
    exact octets (List.any_eq_true.mpr ⟨b, mem, by simpa using big⟩)
  · rw [Bool.eq_false_iff]
    intro bad
    refine fold ?_
    rw [cut, List.head?_append_of_ne_nil _ full, here]
    exact bad
  · rw [Bool.eq_false_iff]
    intro bad
    refine blank ?_
    have last := getLast_eq full (58 :: line.drop (colon + 1))
    rw [← cut, length] at last
    rw [List.getLast?_eq_getLast_of_ne_nil full] at here
    rw [last, Option.some.inj here]
    exact bad
  · by_contra other
    refine controls (List.any_eq_true.mpr ⟨b, cut ▸ mem, ?_⟩)
    simp [low, other]
  · simpa using utf8

/-- The parser takes a field line exactly when it is one, and keeps its header. -/
theorem parseField_iff {line : Bytes} {h : Header} :
    parseField line = some h ↔ ∃ l : FieldLine, l.Taken ∧ line = l.text ∧ h = l.header := by
  constructor
  · exact parseField_some
  · rintro ⟨l, taken, rfl, rfl⟩
    exact parseField_taken taken

/-! ### The lines behind the request line -/

theorem noCrlf_of_cr {s : Bytes} (noCr : 13 ∉ s) : NoCrlf s := by
  cases found : findSub crlf s with
  | none => exact found
  | some i =>
      obtain ⟨here, -⟩ := findSub_spec found
      have mem : (13 : UInt8) ∈ s.drop i := here.subset (by decide)
      exact absurd (List.mem_of_mem_drop mem) noCr

theorem FieldLine.Taken.noCrlf {l : FieldLine} (taken : l.Taken) : NoCrlf l.text :=
  noCrlf_of_cr fun mem => absurd (taken.clean 13 mem (by decide)) (by decide)

theorem FieldLine.text_pos (l : FieldLine) : 0 < l.text.length := by
  rw [FieldLine.text, List.length_append, List.length_cons]
  omega

/-- Field lines behind another line. -/
def joined (lines : List FieldLine) : Bytes := lines.flatMap fun l => crlf ++ l.text

/-- No empty line stands in the bytes, nor at their end. -/
def Blankless (s : Bytes) : Prop := ∀ i < s.length, ¬ crlf2 <+: (s ++ crlf2).drop i

theorem Blankless.suffix {a b : Bytes} (h : Blankless (a ++ b)) : Blankless b := by
  intro i lt start
  refine h (a.length + i) (by rw [List.length_append]; omega) ?_
  rw [List.append_assoc, ← List.drop_drop, List.drop_left' rfl]
  exact start

theorem Blankless.line {rest : Bytes} (h : Blankless (crlf ++ rest)) :
    rest ≠ [] ∧ findSub crlf rest ≠ some 0 := by
  have start : ∀ s : Bytes, crlf2 <+: crlf ++ (crlf ++ s) := fun s => ⟨s, rfl⟩
  have first : ¬ crlf2 <+: crlf ++ rest ++ crlf2 := by
    have pos : 0 < (crlf ++ rest).length := by
      rw [List.length_append]
      exact Nat.lt_add_right _ (by decide)
    exact h 0 pos
  constructor
  · rintro rfl
    exact first (start crlf)
  · intro zero
    obtain ⟨⟨more, same⟩, -⟩ := findSub_spec zero
    rw [List.drop_zero] at same
    rw [← same, List.append_assoc, List.append_assoc] at first
    exact first (start _)

/-- Fuel that is enough for a byte string is enough. -/
theorem parseFields_fuel {m n : Nat} {rest : Bytes} (hm : rest.length < m) (hn : rest.length < n) :
    parseFields m rest = parseFields n rest := by
  induction m generalizing n rest with
  | zero => omega
  | succ m ih =>
      obtain ⟨n, rfl⟩ : ∃ k, n = k + 1 := ⟨n - 1, by omega⟩
      rw [parseFields, parseFields]
      split
      · rfl
      · rfl
      · rename_i eol _ found
        have inside := findSub_le found
        have two : crlf.length = 2 := rfl
        rw [ih (n := n) (by rw [List.length_drop]; omega) (by rw [List.length_drop]; omega)]

theorem parseFields_taken {l : FieldLine} {ls : List FieldLine} {fuel : Nat}
    (taken : ∀ m ∈ l :: ls, m.Taken) (room : (l.text ++ joined ls).length < fuel) :
    parseFields fuel (l.text ++ joined ls) = some ((l :: ls).map FieldLine.header) := by
  have here := taken l List.mem_cons_self
  have pos := l.text_pos
  induction ls generalizing l fuel with
  | nil =>
      obtain ⟨fuel, rfl⟩ : ∃ n, fuel = n + 1 := ⟨fuel - 1, by omega⟩
      have whole : l.text ++ joined [] = l.text := List.append_nil _
      have full : l.text ≠ [] := List.ne_nil_of_length_pos pos
      rw [whole, parseFields, here.noCrlf]
      dsimp only
      rw [if_neg full, parseField_taken here]
      rfl
  | cons m ms ih =>
      obtain ⟨fuel, rfl⟩ : ∃ n, fuel = n + 1 := ⟨fuel - 1, by omega⟩
      have whole : l.text ++ joined (m :: ms) = l.text ++ crlf ++ (m.text ++ joined ms) := by
        simp only [joined, List.flatMap_cons, List.append_assoc]
      obtain ⟨n, size⟩ : ∃ n, l.text.length = n + 1 := ⟨l.text.length - 1, by omega⟩
      have found := findSub_line here.noCrlf (m.text ++ joined ms)
      have next := taken m (List.mem_cons_of_mem l List.mem_cons_self)
      have rest := @ih m fuel (fun k mem => taken k (List.mem_cons_of_mem l mem))
        (by rw [whole, List.length_append, List.length_append] at room; omega) next m.text_pos
      have front : (l.text ++ crlf ++ (m.text ++ joined ms)).take (n + 1) = l.text := by
        rw [List.append_assoc, List.take_left' size]
      have back : (l.text ++ crlf ++ (m.text ++ joined ms)).drop (n + 1 + 2) =
          m.text ++ joined ms := by
        rw [List.append_assoc, ← List.drop_drop, List.drop_left' size]
        rfl
      rw [size] at found
      rw [whole, parseFields, found]
      change (do
        let h ← parseField ((l.text ++ crlf ++ (m.text ++ joined ms)).take (n + 1))
        let hs ← parseFields fuel ((l.text ++ crlf ++ (m.text ++ joined ms)).drop (n + 1 + 2))
        return h :: hs) = _
      rw [front, back, parseField_taken here, rest]
      rfl

theorem parseFields_some {fuel : Nat} {rest : Bytes} {hs : List Header} (room : rest.length < fuel)
    (blankless : Blankless (crlf ++ rest)) (parsed : parseFields fuel rest = some hs) :
    ∃ lines : List FieldLine, (∀ l ∈ lines, l.Taken) ∧ crlf ++ rest = joined lines ∧
      hs = lines.map FieldLine.header := by
  induction fuel generalizing rest hs with
  | zero => omega
  | succ fuel ih =>
      obtain ⟨full, line⟩ := blankless.line
      rw [parseFields] at parsed
      split at parsed
      · rw [if_neg full, Option.map_eq_some_iff] at parsed
        obtain ⟨h, field, rfl⟩ := parsed
        obtain ⟨l, taken, rfl, rfl⟩ := parseField_some field
        exact ⟨[l], fun m mem => List.mem_singleton.mp mem ▸ taken, (List.append_nil _).symm, rfl⟩
      · rename_i zero
        exact absurd zero line
      · rename_i eol _ found
        obtain ⟨-, -, split⟩ := split_line found
        obtain ⟨h, field, hs', more, rfl⟩ : ∃ h, parseField (rest.take eol) = some h ∧
            ∃ hs', parseFields fuel (rest.drop (eol + 2)) = some hs' ∧ hs = h :: hs' := by
          simp only [Option.bind_eq_bind, Option.bind_eq_some_iff, Option.pure_def,
            Option.some.injEq] at parsed
          obtain ⟨h, field, hs', more, same⟩ := parsed
          exact ⟨h, field, hs', more, same.symm⟩
        obtain ⟨l, taken, text, rfl⟩ := parseField_some field
        have later : Blankless (crlf ++ rest.drop (eol + 2)) := by
          rw [split, ← List.append_assoc, ← List.append_assoc, List.append_assoc _ crlf] at blankless
          exact blankless.suffix
        have shorter : (rest.drop (eol + 2)).length < fuel := by
          have inside := findSub_le found
          have two : crlf.length = 2 := rfl
          rw [List.length_drop]
          omega
        obtain ⟨lines, takens, tail, rfl⟩ := ih shorter later more
        refine ⟨l :: lines, ?_, ?_, rfl⟩
        · intro m mem
          rcases List.mem_cons.mp mem with rfl | mem
          · exact taken
          · exact takens m mem
        · rw [joined, List.flatMap_cons, ← text, ← joined, ← tail, List.append_assoc,
            ← List.append_assoc _ crlf, ← split]

/-! ### The request line -/

/-- A head: the parts of its request line, and its field lines. -/
structure Shape where
  method : Bytes
  target : Bytes
  version : Bytes
  lines : List FieldLine
deriving DecidableEq, Repr

def requestLine (method target version : Bytes) : Bytes :=
  method ++ 32 :: (target ++ 32 :: version)

def Shape.text (s : Shape) : Bytes := requestLine s.method s.target s.version ++ joined s.lines

/-- Visible ASCII. -/
def visible (b : UInt8) : Prop := 0x21 ≤ b ∧ b < 0x7f

instance (b : UInt8) : Decidable (visible b) := inferInstanceAs (Decidable (_ ∧ _))

/-- A request line: a method and a target of visible bytes, and a version of the two. -/
structure Framed (method target version : Bytes) : Prop where
  method_ne : method ≠ []
  method_visible : ∀ b ∈ method, visible b
  target_ne : target ≠ []
  target_visible : ∀ b ∈ target, visible b
  version : version = ascii "HTTP/1.1" ∨ version = ascii "HTTP/1.0"

/-- The parser takes the head. -/
structure Shape.Taken (s : Shape) : Prop where
  framed : Framed s.method s.target s.version
  target : (reduceTarget s.target).isSome = true
  lines : ∀ l ∈ s.lines, l.Taken

/-- What the parser makes of it. -/
def Shape.parsed (s : Shape) : ParsedHead where
  method := (parseMethod s.method).1
  customMethod := (parseMethod s.method).2
  version := s.version
  target := (reduceTarget s.target).getD []
  headers := s.lines.map FieldLine.header
  ok := true

theorem visible_noSpace {s : Bytes} (all : ∀ b ∈ s, visible b) : 32 ∉ s := fun mem =>
  absurd (all 32 mem).1 (by decide)

theorem visible_noCr {s : Bytes} (all : ∀ b ∈ s, visible b) : 13 ∉ s := fun mem =>
  absurd (all 13 mem).1 (by decide)

section Line

variable {method target version : Bytes}

/-- The literals of a request line are visible. -/
theorem literals_visible : ∀ s ∈ [ascii "HTTP/1.1", ascii "HTTP/1.0", ascii "http://",
    ascii "https://"], ∀ b ∈ s, visible b := by
  intro s mem
  simp only [List.mem_cons, List.not_mem_nil, or_false] at mem
  rcases mem with rfl | rfl | rfl | rfl
  all_goals
    rw [ascii_ofList]
    simp [visible]

theorem Framed.version_visible (h : Framed method target version) : ∀ b ∈ version, visible b := by
  refine literals_visible version ?_
  rcases h.version with rfl | rfl
  · simp
  · simp

theorem Framed.noCrlf (h : Framed method target version) :
    NoCrlf (requestLine method target version) := by
  apply noCrlf_of_cr
  simp only [requestLine, List.mem_append, List.mem_cons, not_or]
  exact ⟨visible_noCr h.method_visible, by decide, visible_noCr h.target_visible, by decide,
    visible_noCr h.version_visible⟩

theorem Framed.lineOk (h : Framed method target version) :
    requestLineOk (requestLine method target version) = true := by
  have plain : ∀ b, visible b → (!((b < 0x21 && b != 32) || 0x7f ≤ b)) = true := by
    intro b vis
    simp [UInt8.not_lt.mpr vis.1, vis.2]
  rw [requestLineOk, List.all_eq_true]
  intro b mem
  simp only [requestLine, List.mem_append, List.mem_cons] at mem
  rcases mem with mem | rfl | mem | rfl | mem
  · exact plain b (h.method_visible b mem)
  · decide
  · exact plain b (h.target_visible b mem)
  · decide
  · exact plain b (h.version_visible b mem)

/-- The fields of what stands behind a request line, its CRLF included. -/
def fieldsBehind (rest : Bytes) : Option (List Header) :=
  if rest = [] then some [] else parseFields (rest.length + 1) (rest.drop 2)

/-- The parser on a request line, whatever lines follow. -/
theorem parseHead_framed (h : Framed method target version) {rest : Bytes}
    (more : rest = [] ∨ crlf <+: rest) :
    parseHead (requestLine method target version ++ rest) =
      (reduceTarget target).elim
        { method := (parseMethod method).1, customMethod := (parseMethod method).2, version }
        fun reduced => (fieldsBehind rest).elim
          { method := (parseMethod method).1, customMethod := (parseMethod method).2, version,
            target := reduced }
          fun headers =>
            { method := (parseMethod method).1, customMethod := (parseMethod method).2, version,
              target := reduced, headers, ok := true } := by
  have pos := List.length_pos_of_ne_nil h.method_ne
  have pos' := List.length_pos_of_ne_nil h.target_ne
  have sp1 : (requestLine method target version).findIdx? (· == 32) = some method.length :=
    findIdx_cut (visible_noSpace h.method_visible)
  have behind : (requestLine method target version).drop (method.length + 1) =
      target ++ 32 :: version := by
    rw [requestLine, ← List.drop_drop, List.drop_left' rfl]
    rfl
  have sp2 : (target ++ 32 :: version).findIdx? (· == 32) = some target.length :=
    findIdx_cut (visible_noSpace h.target_visible)
  have version_ : (requestLine method target version).drop
      (method.length + 1 + target.length + 1) = version := by
    rw [Nat.add_assoc (method.length + 1), ← List.drop_drop, behind, ← List.drop_drop,
      List.drop_left' rfl]
    rfl
  have method_ : (requestLine method target version).take method.length = method :=
    List.take_left' rfl
  have target_ : (target ++ 32 :: version).take target.length = target := List.take_left' rfl
  have known : ¬ (version ≠ ascii "HTTP/1.1" ∧ version ≠ ascii "HTTP/1.0") := fun ⟨new, old⟩ =>
    h.version.elim new old
  have full : ¬ (method.length = 0 ∨ target.length = 0) := by omega
  have lineEnd : findSub crlf (requestLine method target version ++ rest) =
      if rest = [] then none else some (requestLine method target version).length := by
    rcases more with rfl | ⟨rest, rfl⟩
    · rw [List.append_nil, h.noCrlf, if_pos rfl]
    · rw [← List.append_assoc, findSub_line h.noCrlf, if_neg (by simp [crlf])]
  have front : (requestLine method target version ++ rest).take
      (requestLine method target version).length = requestLine method target version :=
    List.take_left' rfl
  unfold parseHead
  rw [lineEnd]
  by_cases none_ : rest = []
  · rw [none_, List.append_nil]
    simp only [if_true, h.lineOk, Bool.not_true, Bool.false_eq_true, if_false, sp1, behind, sp2,
      if_neg full, method_, target_, version_, if_neg known, fieldsBehind]
    cases reduceTarget target with
    | none => rfl
    | some reduced => rfl
  · have tail : (requestLine method target version ++ rest).drop
        ((requestLine method target version).length + 2) = rest.drop 2 := by
      rw [← List.drop_drop, List.drop_left' rfl]
    have fuel : parseFields ((requestLine method target version ++ rest).length + 1) (rest.drop 2) =
        parseFields (rest.length + 1) (rest.drop 2) := by
      refine parseFields_fuel ?_ ?_
      · simp only [List.length_drop, List.length_append]
        omega
      · rw [List.length_drop]
        omega
    simp only [if_neg none_, front, h.lineOk, Bool.not_true, Bool.false_eq_true, if_false, sp1,
      behind, sp2, if_neg full, method_, target_, version_, if_neg known, tail, fuel, fieldsBehind]
    cases reduceTarget target with
    | none => rfl
    | some reduced =>
        cases parseFields (rest.length + 1) (rest.drop 2) with
        | none => rfl
        | some headers => rfl

end Line

theorem joined_start (lines : List FieldLine) : joined lines = [] ∨ crlf <+: joined lines := by
  cases lines with
  | nil => exact .inl rfl
  | cons l ls => exact .inr ⟨l.text ++ joined ls, (List.append_assoc ..).symm⟩

/-- What the parser makes of a head it takes. -/
theorem parseHead_taken {s : Shape} (taken : s.Taken) : parseHead s.text = s.parsed := by
  obtain ⟨reduced, target⟩ := Option.isSome_iff_exists.mp taken.target
  have fields : fieldsBehind (joined s.lines) =
      some (s.lines.map FieldLine.header) := by
    cases lines : s.lines with
    | nil => rfl
    | cons l ls =>
        have behind : joined (l :: ls) = crlf ++ (l.text ++ joined ls) := List.append_assoc ..
        have full : joined (l :: ls) ≠ [] := by
          rw [behind]
          exact List.cons_ne_nil _ _
        have drop : (joined (l :: ls)).drop 2 = l.text ++ joined ls := by
          rw [behind]
          rfl
        rw [fieldsBehind, if_neg full, drop]
        refine parseFields_taken (fun m mem => taken.lines m (lines ▸ mem)) ?_
        rw [behind]
        simp only [List.length_append]
        omega
  rw [Shape.text, parseHead_framed taken.framed (joined_start s.lines), target, Option.elim_some,
    fields, Option.elim_some, Shape.parsed, target, Option.getD_some]

/-- The line up to the first CRLF, and what stands behind it, the CRLF included. -/
def firstLine (head : Bytes) : Bytes × Bytes :=
  match findSub crlf head with
  | none => (head, [])
  | some e => (head.take e, head.drop e)

theorem firstLine_append (head : Bytes) : (firstLine head).1 ++ (firstLine head).2 = head := by
  unfold firstLine
  split
  · exact List.append_nil _
  · exact List.take_append_drop ..

theorem firstLine_rest (head : Bytes) : (firstLine head).2 = [] ∨ crlf <+: (firstLine head).2 := by
  unfold firstLine
  split
  · exact .inl rfl
  · rename_i e found
    exact .inr (findSub_spec found).1

/-- A line cut at its first two spaces, as the parser takes it. -/
theorem framed_of_cuts {line : Bytes} {sp1 len : Nat} (lineOk : requestLineOk line = true)
    (found₁ : line.findIdx? (· == 32) = some sp1)
    (found₂ : (line.drop (sp1 + 1)).findIdx? (· == 32) = some len) (full : ¬ (sp1 = 0 ∨ len = 0))
    (known : ¬ (line.drop (sp1 + 1 + len + 1) ≠ ascii "HTTP/1.1" ∧
      line.drop (sp1 + 1 + len + 1) ≠ ascii "HTTP/1.0")) :
    ∃ method target version, Framed method target version ∧
      line = requestLine method target version := by
  obtain ⟨cut₁, absent₁, length₁⟩ := cut_of_findIdx found₁
  obtain ⟨cut₂, absent₂, length₂⟩ := cut_of_findIdx found₂
  have all : ∀ b ∈ line, b ≠ 32 → visible b := by
    intro b mem other
    have plain := List.all_eq_true.mp lineOk b mem
    simp only [Bool.not_eq_true', Bool.or_eq_false_iff, Bool.and_eq_false_iff,
      decide_eq_false_iff_not, bne_eq_false_iff_eq, UInt8.not_lt, UInt8.not_le] at plain
    exact ⟨plain.1.resolve_right other, plain.2⟩
  have version : line.drop (sp1 + 1 + len + 1) = (line.drop (sp1 + 1)).drop (len + 1) := by
    rw [List.drop_drop, Nat.add_assoc]
  rw [version] at known
  refine ⟨line.take sp1, (line.drop (sp1 + 1)).take len, (line.drop (sp1 + 1)).drop (len + 1),
    ⟨?_, fun b mem => ?_, ?_, fun b mem => ?_, ?_⟩, ?_⟩
  · rintro none_
    rw [none_] at length₁
    exact full (.inl length₁.symm)
  · exact all b (List.mem_of_mem_take mem) fun same => absent₁ (same ▸ mem)
  · rintro none_
    rw [none_] at length₂
    exact full (.inr length₂.symm)
  · exact all b (List.mem_of_mem_drop (List.mem_of_mem_take mem)) fun same => absent₂ (same ▸ mem)
  · by_contra neither
    exact known (not_or.mp neither)
  · rw [requestLine, ← cut₂, ← cut₁]

/-- A head that is taken begins with a request line. -/
theorem framed_of_ok {head : Bytes} (ok : (parseHead head).ok = true) :
    ∃ method target version, Framed method target version ∧
      (firstLine head).1 = requestLine method target version := by
  unfold parseHead at ok
  unfold firstLine
  cases lineEnd : findSub crlf head with
  | _ =>
      simp only [lineEnd] at ok ⊢
      split at ok
      · cases ok
      rename_i lineOk
      split at ok
      · cases ok
      rename_i sp1 found₁
      split at ok
      · cases ok
      rename_i len found₂
      split at ok
      · cases ok
      rename_i full
      split at ok
      · cases ok
      rename_i known
      exact framed_of_cuts (by simpa using lineOk) found₁ found₂ full known

/-- What it takes has a shape. -/
theorem parseHead_ok {head : Bytes} (blankless : Blankless head) (ok : (parseHead head).ok = true) :
    ∃ s : Shape, s.Taken ∧ head = s.text := by
  obtain ⟨method, target, version, framed, line⟩ := framed_of_ok ok
  have whole := firstLine_append head
  have more := firstLine_rest head
  rw [line] at whole
  generalize (firstLine head).2 = rest at *
  rw [← whole, parseHead_framed framed more] at ok
  cases reduced : reduceTarget target with
  | none =>
      rw [reduced] at ok
      cases ok
  | some t =>
      rw [reduced, Option.elim_some] at ok
      cases fields : fieldsBehind rest with
      | none =>
          rw [fields] at ok
          cases ok
      | some headers =>
          have taken : (reduceTarget target).isSome = true := by
            rw [reduced]
            rfl
          rcases more with rfl | ⟨tail, rfl⟩
          · exact ⟨⟨method, target, version, []⟩, ⟨framed, taken, fun l mem => by cases mem⟩,
              whole.symm⟩
          · have full : crlf ++ tail ≠ [] := List.cons_ne_nil _ _
            rw [fieldsBehind, if_neg full] at fields
            have blankless' : Blankless (crlf ++ tail) := by
              rw [← whole] at blankless
              exact blankless.suffix
            obtain ⟨lines, takens, joins, -⟩ := parseFields_some
              (by simp only [List.length_append]; omega) blankless' fields
            exact ⟨⟨method, target, version, lines⟩, ⟨framed, taken, takens⟩,
              whole.symm.trans (congrArg _ joins)⟩

end NitroServer.Head
