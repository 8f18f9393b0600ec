/-
JSON texts (RFC 8259): values, the compact text of a value, a reader, and their UTF-8 form.

The numbers are of any type that says which numeral each of them is and reads it back
(`Numbers`).

* `compact` — the text without blanks; control characters are escaped by the short forms
  where there are any.
* `parse` — the reader, of every spelling the grammar has: blanks, all escapes, surrogate
  pairs.
* `parse_compact` — the compact text of a value is read as that value; `parseBytes_utf8` from
  its bytes.
-/

import NitroServer.Lib.Decimal

namespace NitroServer.Lib.Json

open Decimal (Text Numeral Stops digit?)

/-! ### Values -/

inductive Value (N : Type) where
  | null
  | bool (b : Bool)
  | number (n : N)
  | string (s : String)
  | array (items : List (Value N))
  | object (members : List (String × Value N))

/-- Induction over the parts. -/
theorem Value.induct {N : Type} {motive : Value N → Prop}
    (null : motive .null) (bool : ∀ b, motive (.bool b)) (number : ∀ n, motive (.number n))
    (string : ∀ s, motive (.string s))
    (array : ∀ items, (∀ v ∈ items, motive v) → motive (.array items))
    (object : ∀ members, (∀ m ∈ members, motive m.2) → motive (.object members)) :
    ∀ v, motive v
  | .null => null
  | .bool b => bool b
  | .number n => number n
  | .string s => string s
  | .array items =>
      array items fun v _ => Value.induct null bool number string array object v
  | .object members =>
      object members fun m _ => Value.induct null bool number string array object m.2
termination_by v => sizeOf v
decreasing_by
  · rename_i mem
    have smaller := List.sizeOf_lt_of_mem mem
    simp only [Value.array.sizeOf_spec]
    omega
  · rename_i mem
    have smaller := List.sizeOf_lt_of_mem mem
    have part : sizeOf m.2 < sizeOf m := by
      cases m
      simp
    simp only [Value.object.sizeOf_spec]
    omega

/-- Numbers with their numerals. -/
structure Numbers (N : Type) where
  numeral : N → Numeral
  read : Numeral → Option N
  proper : ∀ n, (numeral n).Proper
  read_numeral : ∀ n, read (numeral n) = some n

/-! ### Text -/

def hexChar (n : Nat) : Char := if n < 10 then Char.ofNat (48 + n) else Char.ofNat (87 + n)

def escape (c : Char) : Text :=
  if c = '\x22' then ['\\', '\x22']
  else if c = '\\' then ['\\', '\\']
  else if c = '\x08' then ['\\', 'b']
  else if c = '\x0c' then ['\\', 'f']
  else if c = '\n' then ['\\', 'n']
  else if c = '\r' then ['\\', 'r']
  else if c = '\t' then ['\\', 't']
  else if c.toNat < 0x20 then
    ['\\', 'u', '0', '0', hexChar (c.toNat / 16), hexChar (c.toNat % 16)]
  else [c]

def quote (s : String) : Text := '\x22' :: (s.toList.flatMap escape ++ ['\x22'])

section Compact

variable {N : Type} (numbers : Numbers N)

mutual

def compact : Value N → Text
  | .null => ['n', 'u', 'l', 'l']
  | .bool true => ['t', 'r', 'u', 'e']
  | .bool false => ['f', 'a', 'l', 's', 'e']
  | .number n => (numbers.numeral n).text
  | .string s => quote s
  | .array items => '[' :: (compactItems items ++ [']'])
  | .object members => '{' :: (compactMembers members ++ ['}'])

def compactItems : List (Value N) → Text
  | [] => []
  | v :: items => compact v ++ compactMore items

def compactMore : List (Value N) → Text
  | [] => []
  | v :: items => ',' :: (compact v ++ compactMore items)

def compactMembers : List (String × Value N) → Text
  | [] => []
  | (name, v) :: members => quote name ++ ':' :: (compact v ++ compactMoreMembers members)

def compactMoreMembers : List (String × Value N) → Text
  | [] => []
  | (name, v) :: members =>
      ',' :: (quote name ++ ':' :: (compact v ++ compactMoreMembers members))

end

end Compact

/-! ### Reading strings -/

def hex? (c : Char) : Option Nat :=
  let n := c.toNat
  if 48 ≤ n ∧ n < 58 then some (n - 48)
  else if 97 ≤ n ∧ n < 103 then some (n - 87)
  else if 65 ≤ n ∧ n < 71 then some (n - 55)
  else none

/-- The code unit of an escape of one letter. -/
def shortEscape? (c : Char) : Option Nat :=
  if c = '\x22' ∨ c = '\\' ∨ c = '/' then some c.toNat
  else if c = 'b' then some 0x08
  else if c = 'f' then some 0x0c
  else if c = 'n' then some 0x0a
  else if c = 'r' then some 0x0d
  else if c = 't' then some 0x09
  else none

/-- The code unit of an escape, behind its backslash. -/
def readEscape : Text → Option (Nat × Text)
  | 'u' :: a :: b :: c :: d :: cs => do
      let a ← hex? a
      let b ← hex? b
      let c ← hex? c
      let d ← hex? d
      some (a * 4096 + b * 256 + c * 16 + d, cs)
  | c :: cs => (shortEscape? c).map fun unit => (unit, cs)
  | [] => none

/-- The character of a unit; the first half of a pair takes the second from what follows. -/
def readUnit (unit : Nat) (cs : Text) : Option (Char × Text) :=
  if 0xd800 ≤ unit ∧ unit < 0xdc00 then
    if cs.head? = some '\\' then do
      let (low, cs) ← readEscape cs.tail
      if 0xdc00 ≤ low ∧ low < 0xe000 then
        some (Char.ofNat ((unit - 0xd800) * 0x400 + (low - 0xdc00) + 0x10000), cs)
      else none
    else none
  else if 0xdc00 ≤ unit ∧ unit < 0xe000 then none
  else some (Char.ofNat unit, cs)

/-- Behind the opening quote. -/
def readString : Nat → Text → Option (Text × Text)
  | 0, _ => none
  | _ + 1, [] => none
  | fuel + 1, c :: cs =>
      if c = '\x22' then some ([], cs)
      else if c = '\\' then do
        let (unit, cs) ← readEscape cs
        let (c, cs) ← readUnit unit cs
        let (s, rest) ← readString fuel cs
        some (c :: s, rest)
      else if c.toNat < 0x20 then none
      else do
        let (s, rest) ← readString fuel cs
        some (c :: s, rest)

/-! ### Reading values -/

def isBlank (c : Char) : Bool := c = ' ' || c = '\t' || c = '\n' || c = '\r'

def skipBlanks (cs : Text) : Text := cs.dropWhile isBlank

/-- A literal name. -/
def readName (name cs : Text) : Option Text :=
  if name.isPrefixOf cs then some (cs.drop name.length) else none

section Read

variable {N : Type} (numbers : Numbers N)

mutual

def readValue : Nat → Text → Option (Value N × Text)
  | 0, _ => none
  | fuel + 1, cs =>
      match skipBlanks cs with
      | [] => none
      | c :: cs =>
          if c = '\x22' then do
            let (s, rest) ← readString (cs.length + 1) cs
            some (.string (String.ofList s), rest)
          else if c = '[' then
            if (skipBlanks cs).head? = some ']' then some (.array [], (skipBlanks cs).tail)
            else do
              let (items, rest) ← readItems fuel cs
              some (.array items, rest)
          else if c = '{' then
            if (skipBlanks cs).head? = some '}' then some (.object [], (skipBlanks cs).tail)
            else do
              let (members, rest) ← readMembers fuel cs
              some (.object members, rest)
          else if c = 'n' then (readName ['u', 'l', 'l'] cs).map fun rest => (.null, rest)
          else if c = 't' then (readName ['r', 'u', 'e'] cs).map fun rest => (.bool true, rest)
          else if c = 'f' then
            (readName ['a', 'l', 's', 'e'] cs).map fun rest => (.bool false, rest)
          else do
            let (numeral, rest) ← Decimal.read (c :: cs)
            let n ← numbers.read numeral
            some (.number n, rest)

def readItems : Nat → Text → Option (List (Value N) × Text)
  | 0, _ => none
  | fuel + 1, cs => do
      let (v, cs) ← readValue fuel cs
      match skipBlanks cs with
      | ',' :: cs => do
          let (items, rest) ← readItems fuel cs
          some (v :: items, rest)
      | ']' :: rest => some ([v], rest)
      | _ => none

def readMembers : Nat → Text → Option (List (String × Value N) × Text)
  | 0, _ => none
  | fuel + 1, cs =>
      match skipBlanks cs with
      | '\x22' :: cs => do
          let (name, cs) ← readString (cs.length + 1) cs
          match skipBlanks cs with
          | ':' :: cs => do
              let (v, cs) ← readValue fuel cs
              match skipBlanks cs with
              | ',' :: cs => do
                  let (members, rest) ← readMembers fuel cs
                  some ((String.ofList name, v) :: members, rest)
              | '}' :: rest => some ([(String.ofList name, v)], rest)
              | _ => none
          | _ => none
      | _ => none

end

/-- The value that the whole text is. -/
def parse (cs : Text) : Option (Value N) := do
  let (v, rest) ← readValue numbers (cs.length + 1) cs
  if skipBlanks rest = [] then some v else none

end Read

/-! ### A string is read back -/

theorem hex?_hexChar : ∀ n < 16, hex? (hexChar n) = some n := by decide

theorem readUnit_char (c : Char) (cs : Text) : readUnit c.toNat cs = some (c, cs) := by
  have scalar : c.toNat < 0xd800 ∨ 0xdfff < c.toNat ∧ c.toNat < 0x110000 := c.valid
  rw [readUnit, if_neg (by omega), if_neg (by omega), Char.ofNat_toNat]

/-- An escape stands for its character. -/
theorem readString_unit {e rest : Text} {c : Char}
    (unit : readEscape (e ++ rest) = some (c.toNat, rest)) (fuel : Nat) :
    readString (fuel + 1) ('\\' :: (e ++ rest)) =
      (readString fuel rest).map fun p => (c :: p.1, p.2) := by
  rw [readString, if_neg (by decide), if_pos rfl, unit]
  simp only [Option.bind_eq_bind, Option.bind_some, readUnit_char]
  cases readString fuel rest <;> rfl

theorem readString_escape (fuel : Nat) (c : Char) (rest : Text) :
    readString (fuel + 1) (escape c ++ rest) =
      (readString fuel rest).map fun p => (c :: p.1, p.2) := by
  unfold escape
  split
  · subst c
    exact readString_unit (e := ['\x22']) rfl fuel
  split
  · subst c
    exact readString_unit (e := ['\\']) rfl fuel
  split
  · subst c
    exact readString_unit (e := ['b']) rfl fuel
  split
  · subst c
    exact readString_unit (e := ['f']) rfl fuel
  split
  · subst c
    exact readString_unit (e := ['n']) rfl fuel
  split
  · subst c
    exact readString_unit (e := ['r']) rfl fuel
  split
  · subst c
    exact readString_unit (e := ['t']) rfl fuel
  split
  · rename_i control
    have zero : hex? '0' = some 0 := by decide
    have high := hex?_hexChar (c.toNat / 16) (by omega)
    have low := hex?_hexChar (c.toNat % 16) (by omega)
    have number : c.toNat / 16 * 16 + c.toNat % 16 = c.toNat := by omega
    apply readString_unit (e := ['u', '0', '0', hexChar (c.toNat / 16), hexChar (c.toNat % 16)])
    simp only [List.cons_append, List.nil_append, readEscape, zero, high, low,
      Option.bind_eq_bind, Option.bind_some, Nat.zero_mul, Nat.zero_add, number]
  · rename_i notQuote notBackslash _ _ _ _ _ notControl
    rw [List.singleton_append, readString, if_neg notQuote, if_neg notBackslash,
      if_neg notControl]
    cases readString fuel rest <;> rfl

theorem escape_ne_nil (c : Char) : escape c ≠ [] := by
  unfold escape
  repeat' split
  all_goals exact List.cons_ne_nil _ _

theorem length_le_escaped (cs : Text) : cs.length ≤ (cs.flatMap escape).length := by
  induction cs with
  | nil => exact le_rfl
  | cons c cs ih =>
      have pos := List.length_pos_of_ne_nil (escape_ne_nil c)
      rw [List.flatMap_cons, List.length_append, List.length_cons]
      omega

theorem readString_quoted (cs : Text) {fuel : Nat} (room : cs.length < fuel) (rest : Text) :
    readString fuel (cs.flatMap escape ++ '\x22' :: rest) = some (cs, rest) := by
  induction cs generalizing fuel with
  | nil =>
      obtain ⟨fuel, rfl⟩ : ∃ n, fuel = n + 1 := ⟨fuel - 1, by omega⟩
      rw [List.flatMap_nil, List.nil_append, readString, if_pos rfl]
  | cons c cs ih =>
      rw [List.length_cons] at room
      obtain ⟨fuel, rfl⟩ : ∃ n, fuel = n + 1 := ⟨fuel - 1, by omega⟩
      rw [List.flatMap_cons, List.append_assoc, readString_escape, ih (by omega)]
      rfl

/-- Behind the opening quote of a quoted string. -/
theorem readString_quote (s : String) (rest : Text) :
    readString ((s.toList.flatMap escape ++ '\x22' :: rest).length + 1)
      (s.toList.flatMap escape ++ '\x22' :: rest) = some (s.toList, rest) := by
  apply readString_quoted
  have short := length_le_escaped s.toList
  rw [List.length_append]
  omega

/-! ### A value is read back -/

theorem skipBlanks_cons {c : Char} (solid : isBlank c = false) (cs : Text) :
    skipBlanks (c :: cs) = c :: cs := by
  rw [skipBlanks, List.dropWhile_cons, solid]
  rfl

section RoundTrip

variable {N : Type} (numbers : Numbers N)

/-- What a number's text starts with. -/
theorem number_first {n : Numeral} (proper : n.Proper) :
    ∃ c cs, n.text = c :: cs ∧ isBlank c = false ∧
      c ∉ ['\x22', '[', ']', '{', '}', 'n', 't', 'f'] := by
  obtain ⟨negative, whole, fraction, exponent⟩ := n
  cases negative with
  | true => exact ⟨_, _, rfl, by decide, by decide⟩
  | false =>
      cases whole with
      | nil => exact absurd rfl proper.1
      | cons d ds =>
          have every : ∀ d, isBlank (Decimal.digitChar d) = false ∧
              Decimal.digitChar d ∉ ['\x22', '[', ']', '{', '}', 'n', 't', 'f'] := by decide
          exact ⟨_, _, rfl, every d⟩

/-- What a value's text starts with. -/
theorem compact_first (v : Value N) :
    ∃ c cs, compact numbers v = c :: cs ∧ isBlank c = false ∧ c ≠ ']' := by
  cases v with
  | null => exact ⟨_, _, rfl, by decide, by decide⟩
  | bool b => cases b <;> exact ⟨_, _, rfl, by decide, by decide⟩
  | number n =>
      obtain ⟨c, cs, text, solid, other⟩ := number_first (numbers.proper n)
      refine ⟨c, cs, text, solid, ?_⟩
      rintro rfl
      exact other (by decide)
  | string s => exact ⟨_, _, rfl, by decide, by decide⟩
  | array items => exact ⟨_, _, rfl, by decide, by decide⟩
  | object members => exact ⟨_, _, rfl, by decide, by decide⟩

/-- The value is read from its text, in front of anything that does not continue a number. -/
def Reads (v : Value N) : Prop :=
  ∀ fuel rest, (compact numbers v).length ≤ fuel → Stops rest →
    readValue numbers fuel (compact numbers v ++ rest) = some (v, rest)

variable {numbers}

theorem stops_cons {c : Char} (other : digit? c = none ∧ c ≠ '.' ∧ c ≠ 'e' ∧ c ≠ 'E')
    (rest : Text) : Stops (c :: rest) := by
  rintro d hd
  obtain rfl : c = d := Option.some.inj hd
  exact other

theorem readItems_compact {v : Value N} {items : List (Value N)}
    (reads : ∀ u ∈ v :: items, Reads numbers u) {fuel : Nat} (rest : Text)
    (room : (compactItems numbers (v :: items)).length < fuel) :
    readItems numbers fuel (compactItems numbers (v :: items) ++ ']' :: rest) =
      some (v :: items, rest) := by
  induction items generalizing v fuel with
  | nil =>
      obtain ⟨fuel, rfl⟩ : ∃ n, fuel = n + 1 := ⟨fuel - 1, by omega⟩
      rw [compactItems, compactMore, List.append_nil] at room ⊢
      have first := reads v List.mem_cons_self fuel (']' :: rest) (by omega)
        (stops_cons (by decide) rest)
      have solid := skipBlanks_cons (c := ']') (by decide) rest
      simp only [readItems, first, solid, Option.bind_eq_bind, Option.bind_some]
  | cons u items ih =>
      obtain ⟨fuel, rfl⟩ : ∃ n, fuel = n + 1 := ⟨fuel - 1, by omega⟩
      have more : compactItems numbers (v :: u :: items) =
          compact numbers v ++ ',' :: compactItems numbers (u :: items) := by
        rw [compactItems, compactMore, compactItems]
      rw [more, List.length_append, List.length_cons] at room
      have first := reads v List.mem_cons_self fuel
        (',' :: (compactItems numbers (u :: items) ++ ']' :: rest)) (by omega)
        (stops_cons (by decide) _)
      have solid := skipBlanks_cons (c := ',') (by decide)
        (compactItems numbers (u :: items) ++ ']' :: rest)
      have others : readItems numbers fuel (compactItems numbers (u :: items) ++ ']' :: rest) =
          some (u :: items, rest) :=
        ih (fun w mem => reads w (List.mem_cons_of_mem v mem)) (by omega)
      rw [more, List.append_assoc, List.cons_append]
      simp only [readItems, first, solid, others, Option.bind_eq_bind, Option.bind_some]

theorem readMembers_compact {m : String × Value N} {members : List (String × Value N)}
    (reads : ∀ u ∈ m :: members, Reads numbers u.2) {fuel : Nat} (rest : Text)
    (room : (compactMembers numbers (m :: members)).length < fuel) :
    readMembers numbers fuel (compactMembers numbers (m :: members) ++ '}' :: rest) =
      some (m :: members, rest) := by
  induction members generalizing m fuel with
  | nil =>
      obtain ⟨fuel, rfl⟩ : ∃ n, fuel = n + 1 := ⟨fuel - 1, by omega⟩
      obtain ⟨name, v⟩ := m
      rw [compactMembers, compactMoreMembers, List.append_nil] at room ⊢
      rw [List.length_append, List.length_cons] at room
      have first := reads (name, v) List.mem_cons_self fuel ('}' :: rest)
        (by dsimp only; omega) (stops_cons (by decide) rest)
      have opened := skipBlanks_cons (c := '\x22') (by decide)
        (name.toList.flatMap escape ++ '\x22' :: ':' :: (compact numbers v ++ '}' :: rest))
      have colon := skipBlanks_cons (c := ':') (by decide) (compact numbers v ++ '}' :: rest)
      have closed := skipBlanks_cons (c := '}') (by decide) rest
      have string := readString_quote name (':' :: (compact numbers v ++ '}' :: rest))
      simp only [quote, List.cons_append, List.append_assoc, List.nil_append, readMembers, opened,
        string, colon, first, closed, Option.bind_eq_bind, Option.bind_some, String.ofList_toList]
  | cons u members ih =>
      obtain ⟨fuel, rfl⟩ : ∃ n, fuel = n + 1 := ⟨fuel - 1, by omega⟩
      obtain ⟨name, v⟩ := m
      have more : compactMembers numbers ((name, v) :: u :: members) =
          quote name ++ ':' :: (compact numbers v ++ ',' :: compactMembers numbers (u :: members)) := by
        rw [compactMembers, compactMoreMembers, compactMembers]
      rw [more, List.length_append, List.length_cons, List.length_append, List.length_cons] at room
      have first := reads (name, v) List.mem_cons_self fuel
        (',' :: (compactMembers numbers (u :: members) ++ '}' :: rest))
        (by dsimp only; omega) (stops_cons (by decide) _)
      have opened := skipBlanks_cons (c := '\x22') (by decide)
        (name.toList.flatMap escape ++ '\x22' :: ':' :: (compact numbers v ++
          ',' :: (compactMembers numbers (u :: members) ++ '}' :: rest)))
      have colon := skipBlanks_cons (c := ':') (by decide)
        (compact numbers v ++ ',' :: (compactMembers numbers (u :: members) ++ '}' :: rest))
      have comma := skipBlanks_cons (c := ',') (by decide)
        (compactMembers numbers (u :: members) ++ '}' :: rest)
      have string := readString_quote name (':' :: (compact numbers v ++
        ',' :: (compactMembers numbers (u :: members) ++ '}' :: rest)))
      have others : readMembers numbers fuel
          (compactMembers numbers (u :: members) ++ '}' :: rest) = some (u :: members, rest) :=
        ih (fun w mem => reads w (List.mem_cons_of_mem _ mem)) (by omega)
      rw [more]
      simp only [quote, List.cons_append, List.append_assoc, List.nil_append, readMembers, opened,
        string, colon, first, comma, others, Option.bind_eq_bind, Option.bind_some,
        String.ofList_toList]

theorem readValue_compact (v : Value N) : Reads numbers v := by
  induction v using Value.induct with
  | null =>
      intro fuel rest room stop
      obtain ⟨fuel, rfl⟩ : ∃ n, fuel = n + 1 := ⟨fuel - 1, by simp [compact] at room; omega⟩
      rfl
  | bool b =>
      intro fuel rest room stop
      obtain ⟨fuel, rfl⟩ : ∃ n, fuel = n + 1 :=
        ⟨fuel - 1, by cases b <;> simp [compact] at room <;> omega⟩
      cases b with
      | false => rfl
      | true => rfl
  | number n =>
      intro fuel rest room stop
      obtain ⟨c, cs, text, solid, other⟩ := number_first (numbers.proper n)
      have read := Decimal.read_text (numbers.proper n) stop
      rw [compact, text] at room ⊢
      rw [text] at read
      obtain ⟨fuel, rfl⟩ : ∃ n, fuel = n + 1 := ⟨fuel - 1, by simp at room; omega⟩
      simp only [List.mem_cons, List.not_mem_nil, or_false, not_or] at other
      obtain ⟨quoted, array, -, object, -, null, true_, false_⟩ := other
      rw [List.cons_append] at read
      rw [List.cons_append, readValue, skipBlanks_cons solid]
      simp only [if_neg quoted, if_neg array, if_neg object, if_neg null, if_neg true_,
        if_neg false_, read, numbers.read_numeral, Option.bind_eq_bind, Option.bind_some]
  | string s =>
      intro fuel rest room stop
      obtain ⟨fuel, rfl⟩ : ∃ n, fuel = n + 1 := ⟨fuel - 1, by simp [compact, quote] at room; omega⟩
      have read := readString_quote s rest
      rw [compact, quote, List.cons_append, List.append_assoc, List.singleton_append, readValue,
        skipBlanks_cons (by decide)]
      simp only [if_true, read, Option.bind_eq_bind, Option.bind_some, String.ofList_toList]
  | array items ih =>
      intro fuel rest room stop
      rw [compact, List.length_cons, List.length_append, List.length_singleton] at room
      obtain ⟨fuel, rfl⟩ : ∃ n, fuel = n + 1 := ⟨fuel - 1, by omega⟩
      rw [compact, List.cons_append, List.append_assoc, List.singleton_append, readValue,
        skipBlanks_cons (by decide)]
      simp only [show ¬ '[' = '\x22' by decide, if_false, if_true]
      cases items with
      | nil =>
          rw [compactItems, List.nil_append, skipBlanks_cons (by decide), List.head?_cons, if_pos rfl]
          rfl
      | cons v items =>
          obtain ⟨c, cs, text, solid, other⟩ := compact_first numbers v
          have read : readItems numbers fuel (compactItems numbers (v :: items) ++ ']' :: rest) =
              some (v :: items, rest) := readItems_compact ih rest (by omega)
          have start : skipBlanks (compactItems numbers (v :: items) ++ ']' :: rest) =
              compactItems numbers (v :: items) ++ ']' :: rest := by
            rw [compactItems, text, List.cons_append, List.cons_append, skipBlanks_cons solid]
          have head : (compactItems numbers (v :: items) ++ ']' :: rest).head? ≠ some ']' := by
            rw [compactItems, text, List.cons_append, List.cons_append, List.head?_cons]
            intro same
            exact other (Option.some.inj same)
          rw [start, if_neg head, read]
          rfl
  | object members ih =>
      intro fuel rest room stop
      rw [compact, List.length_cons, List.length_append, List.length_singleton] at room
      obtain ⟨fuel, rfl⟩ : ∃ n, fuel = n + 1 := ⟨fuel - 1, by omega⟩
      rw [compact, List.cons_append, List.append_assoc, List.singleton_append, readValue,
        skipBlanks_cons (by decide)]
      simp only [show ¬ '{' = '\x22' by decide, show ¬ '{' = '[' by decide, if_false, if_true]
      cases members with
      | nil =>
          rw [compactMembers, List.nil_append, skipBlanks_cons (by decide), List.head?_cons, if_pos rfl]
          rfl
      | cons m members =>
          have read : readMembers numbers fuel
              (compactMembers numbers (m :: members) ++ '}' :: rest) = some (m :: members, rest) :=
            readMembers_compact ih rest (by omega)
          have start : skipBlanks (compactMembers numbers (m :: members) ++ '}' :: rest) =
              compactMembers numbers (m :: members) ++ '}' :: rest :=
            skipBlanks_cons (by decide) _
          have head : (compactMembers numbers (m :: members) ++ '}' :: rest).head? ≠ some '}' := by
            rw [compactMembers, quote, List.cons_append, List.cons_append, List.head?_cons]
            decide
          rw [start, if_neg head, read]
          rfl

/-- The compact text of a value is read as that value. -/
theorem parse_compact (v : Value N) : parse numbers (compact numbers v) = some v := by
  have reads : Reads numbers v := readValue_compact v
  have read := reads ((compact numbers v).length + 1) []
    (Nat.le_succ _) Decimal.stops_nil
  rw [List.append_nil] at read
  rw [parse, read]
  rfl

end RoundTrip

/-! ### Bytes -/

def utf8 (cs : Text) : List UInt8 := cs.flatMap String.utf8EncodeChar

def decodeUtf8 (bs : List UInt8) : Option Text := bs.toByteArray.utf8Decode?.map Array.toList

theorem decodeUtf8_utf8 (cs : Text) : decodeUtf8 (utf8 cs) = some cs := by
  have same : (utf8 cs).toByteArray = cs.utf8Encode := rfl
  rw [decodeUtf8, same, List.utf8Decode?_utf8Encode]
  rfl

/-- The value that the whole document is. -/
def parseBytes {N : Type} (numbers : Numbers N) (bs : List UInt8) : Option (Value N) :=
  (decodeUtf8 bs).bind (parse numbers)

theorem parseBytes_utf8 {N : Type} (numbers : Numbers N) (v : Value N) :
    parseBytes numbers (utf8 (compact numbers v)) = some v := by
  rw [parseBytes, decodeUtf8_utf8, Option.bind_some, parse_compact]

@[simp] theorem utf8_append (cs ds : Text) : utf8 (cs ++ ds) = utf8 cs ++ utf8 ds :=
  List.flatMap_append

@[simp] theorem utf8_cons (c : Char) (cs : Text) :
    utf8 (c :: cs) = String.utf8EncodeChar c ++ utf8 cs :=
  List.flatMap_cons

/-- An ASCII character is its own byte. -/
theorem utf8_ascii {c : Char} (low : c.toNat < 0x80) :
    String.utf8EncodeChar c = [UInt8.ofNat c.toNat] := by
  have small : c.val.toNat ≤ 0x7f := Nat.le_of_lt_succ low
  rw [String.utf8EncodeChar]
  exact if_pos small

end NitroServer.Lib.Json
