/-
JSON values and the JSON Schema 2020-12 reading of a schema document, for the keywords
`type`, `enum`, `properties`, `required`, `additionalProperties` and `items`. Other keywords
assert nothing (`format` is an annotation by default).

Strings are of any type; a `Vocabulary` says how they spell the keywords. A number is an
integer when it is held as one, which is how a decoder that tells them apart hands it over.

* `conforms` — the check, by recursion on the document.
* `holdsAll_cons`, `holdsAll_append` — a schema object is the conjunction of its keywords;
  `holds_type`, `holds_enum`, … have what each of them asserts.
* `holdsEach_iff` — `properties`, member by member.
* `same_str`, `same_null` — equality with a value that has no parts.
-/

import Mathlib

namespace NitroServer.Lib.JsonSchema

variable {σ : Type} [DecidableEq σ]

/-! ### Values -/

/-- A decoded number with a fraction or an exponent; an exponent can overflow. -/
inductive Double where
  | finite (value : ℚ)
  | infinite (negative : Bool)
deriving DecidableEq

inductive Json (σ : Type) where
  | null
  | bool (b : Bool)
  | int (n : Int)
  | double (x : Double)
  | str (s : σ)
  | arr (elements : List (Json σ))
  | obj (members : List (σ × Json σ))

/-- The member of that name. -/
def member (name : σ) : List (σ × Json σ) → Option (Json σ)
  | [] => none
  | (other, value) :: members => if other = name then some value else member name members

mutual

/-- JSON equality: numbers by value, objects regardless of order. -/
def same : Json σ → Json σ → Bool
  | .null, .null => true
  | .bool a, .bool b => a == b
  | .int a, .int b => a == b
  | .int a, .double b => b = .finite a
  | .double a, .int b => a = .finite b
  | .double a, .double b => a = b
  | .str a, .str b => a = b
  | .arr a, .arr b => sameElements a b
  | .obj a, .obj b => a.length == b.length && sameMembers a b
  | _, _ => false

def sameElements : List (Json σ) → List (Json σ) → Bool
  | [], [] => true
  | x :: xs, y :: ys => same x y && sameElements xs ys
  | _, _ => false

def sameMembers : List (σ × Json σ) → List (σ × Json σ) → Bool
  | [], _ => true
  | (name, x) :: xs, ys =>
      (match member name ys with
        | some y => same x y
        | none => false) && sameMembers xs ys

end

/-! ### Documents -/

inductive Keyword where
  | type | enum | properties | required | additionalProperties | items
deriving DecidableEq

inductive TypeName where
  | null | boolean | integer | number | string | array | object
deriving DecidableEq

/-- How strings spell keywords and type names. -/
structure Vocabulary (σ : Type) where
  keyword : σ → Option Keyword
  typeName : σ → Option TypeName

variable (voc : Vocabulary σ)

/-- The types a value has. -/
def TypeName.has : TypeName → Json σ → Bool
  | .null, .null => true
  | .boolean, .bool _ => true
  | .integer, .int _ => true
  | .number, .int _ => true
  | .number, .double _ => true
  | .string, .str _ => true
  | .array, .arr _ => true
  | .object, .obj _ => true
  | _, _ => false

/-- A type by its name. -/
def hasType (value name : Json σ) : Bool :=
  match name with
  | .str s => (voc.typeName s).any fun t => t.has value
  | _ => false

/-- The argument of `type`: one name or several. -/
def holdsType (arg value : Json σ) : Bool :=
  match arg with
  | .arr names => names.any (hasType voc value)
  | name => hasType voc value name

def holdsEnum (arg value : Json σ) : Bool :=
  match arg with
  | .arr values => values.any fun v => same v value
  | _ => false

def holdsRequired (arg value : Json σ) : Bool :=
  match arg, value with
  | .arr names, .obj members =>
      names.all fun
        | .str name => (member name members).isSome
        | _ => false
  | .arr _, _ => true
  | _, _ => false

/-- The parts of an object; another value has none. -/
def membersOf : Json σ → List (σ × Json σ)
  | .obj members => members
  | _ => []

def elementsOf : Json σ → List (Json σ)
  | .arr elements => elements
  | _ => []

/-- The names that the sibling keyword `properties` lists. -/
def listed : List (σ × Json σ) → List σ
  | [] => []
  | (name, arg) :: rest =>
      if voc.keyword name = some .properties then (membersOf arg).map Prod.fst else listed rest

mutual

/-- The value conforms to the schema document. -/
def conforms : Json σ → Json σ → Bool
  | .bool b, _ => b
  | .obj keywords, value => holdsAll (listed voc keywords) keywords value
  | _, _ => false

/-- All keywords of a schema object hold; `names` are its listed properties. -/
def holdsAll (names : List σ) : List (σ × Json σ) → Json σ → Bool
  | [], _ => true
  | (name, arg) :: keywords, value =>
      (match voc.keyword name with
        | some .type => holdsType voc arg value
        | some .enum => holdsEnum arg value
        | some .required => holdsRequired arg value
        | some .properties => holdsProperties arg value
        | some .additionalProperties =>
            (membersOf value).all fun m => decide (m.1 ∈ names) || conforms arg m.2
        | some .items => (elementsOf value).all (conforms arg)
        | none => true) && holdsAll names keywords value

/-- The argument of `properties`: schemas by name. -/
def holdsProperties : Json σ → Json σ → Bool
  | .obj properties, value => holdsEach properties value
  | _, _ => false

/-- Each listed property that the value has conforms to its schema. -/
def holdsEach : List (σ × Json σ) → Json σ → Bool
  | [], _ => true
  | (name, schema) :: properties, value =>
      ((member name (membersOf value)).all fun child => conforms schema child) &&
        holdsEach properties value

end

/-! ### Keyword by keyword -/

variable {voc} {names : List σ} {name : σ} {arg value : Json σ}
  {keywords more properties : List (σ × Json σ)}

/-- One keyword with its argument. -/
def holds (voc : Vocabulary σ) (names : List σ) (name : σ) (arg value : Json σ) : Bool :=
  holdsAll voc names [(name, arg)] value

theorem holdsAll_cons : holdsAll voc names ((name, arg) :: keywords) value =
    (holds voc names name arg value && holdsAll voc names keywords value) := by
  simp only [holds, holdsAll, Bool.and_true]

theorem holdsAll_append : holdsAll voc names (keywords ++ more) value =
    (holdsAll voc names keywords value && holdsAll voc names more value) := by
  induction keywords with
  | nil => rw [List.nil_append, holdsAll, Bool.true_and]
  | cons keyword keywords ih => rw [List.cons_append, holdsAll_cons, ih, holdsAll_cons, Bool.and_assoc]

theorem conforms_obj : conforms voc (.obj keywords) value =
    holdsAll voc (listed voc keywords) keywords value := by
  rw [conforms]

theorem holdsAll_nil : holdsAll voc names [] value = true := by
  rw [holdsAll]

theorem holdsAll_single : holdsAll voc names [(name, arg)] value = holds voc names name arg value :=
  rfl

omit [DecidableEq σ] in
theorem listed_append (other : ∀ e ∈ keywords, voc.keyword e.1 ≠ some .properties) :
    listed voc (keywords ++ more) = listed voc more := by
  induction keywords with
  | nil => rfl
  | cons e keywords ih =>
      obtain ⟨name, arg⟩ := e
      rw [List.forall_mem_cons] at other
      rw [List.cons_append, listed, if_neg other.1, ih other.2]

theorem holds_none (h : voc.keyword name = none) : holds voc names name arg value = true := by
  simp only [holds, holdsAll, h, Bool.and_true]

theorem holds_type (h : voc.keyword name = some .type) :
    holds voc names name arg value = holdsType voc arg value := by
  simp only [holds, holdsAll, h, Bool.and_true]

theorem holds_enum (h : voc.keyword name = some .enum) :
    holds voc names name arg value = holdsEnum arg value := by
  simp only [holds, holdsAll, h, Bool.and_true]

theorem holds_required (h : voc.keyword name = some .required) :
    holds voc names name arg value = holdsRequired arg value := by
  simp only [holds, holdsAll, h, Bool.and_true]

theorem holds_properties (h : voc.keyword name = some .properties) :
    holds voc names name (.obj properties) value = holdsEach voc properties value := by
  simp only [holds, holdsAll, h, holdsProperties, Bool.and_true]

/-- `additionalProperties` with a boolean schema. -/
theorem holds_additional (h : voc.keyword name = some .additionalProperties) (b : Bool) :
    holds voc names name (.bool b) value =
      (membersOf value).all fun m => decide (m.1 ∈ names) || b := by
  simp only [holds, holdsAll, h, Bool.and_true, conforms]

theorem holds_items (h : voc.keyword name = some .items) :
    holds voc names name arg value = (elementsOf value).all (conforms voc arg) := by
  simp only [holds, holdsAll, h, Bool.and_true]

theorem holdsEach_iff : holdsEach voc properties value = true ↔
    ∀ p ∈ properties, ∀ child, member p.1 (membersOf value) = some child →
      conforms voc p.2 child = true := by
  induction properties with
  | nil =>
      rw [holdsEach]
      constructor
      · intro _ p none
        cases none
      · exact fun _ => rfl
  | cons p properties ih =>
      obtain ⟨name, schema⟩ := p
      rw [holdsEach, Bool.and_eq_true, ih, Option.all_eq_true, List.forall_mem_cons]

/-! ### Members and equality -/

/-- An object that is given by its names. -/
theorem member_map (f : σ → Json σ) (names : List σ) (name : σ) :
    member name (names.map fun n => (n, f n)) = if name ∈ names then some (f name) else none := by
  induction names with
  | nil => rfl
  | cons n names ih =>
      rw [List.map_cons, member, ih]
      by_cases here : n = name
      · rw [if_pos here, if_pos (here ▸ List.mem_cons_self), here]
      · rw [if_neg here]
        simp only [List.mem_cons, Ne.symm here, false_or]

theorem member_mem {members : List (σ × Json σ)} (found : member name members = some value) :
    ∃ m ∈ members, m.1 = name := by
  induction members with
  | nil => cases found
  | cons m members ih =>
      obtain ⟨other, child⟩ := m
      rw [member] at found
      split at found
      · rename_i here
        exact ⟨(other, child), List.mem_cons_self, here⟩
      · obtain ⟨m, hm, same⟩ := ih found
        exact ⟨m, List.mem_cons_of_mem _ hm, same⟩

theorem same_str (v : Json σ) (s : σ) : same v (.str s) = true ↔ v = .str s := by
  cases v with
  | str t => simp [same]
  | _ => simp [same]

theorem same_null (v : Json σ) : same v .null = true ↔ v = .null := by
  cases v with
  | null => simp [same]
  | _ => simp [same]

end NitroServer.Lib.JsonSchema
