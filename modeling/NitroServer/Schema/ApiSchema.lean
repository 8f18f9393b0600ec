/-
`ApiSchema` (`schema.dart`): one declaration, read as a document (`toJson`) and as a check
(`validate`).

* `validate_string`, `validate_object`, … — when the check has no errors, constructor by
  constructor; the path only shows in the errors.
* `conforms_string`, `conforms_object`, … — when the document takes a value.
* `ApiSchema.induct` — induction over the schemas of properties and items.
-/

import NitroServer.Lib.JsonSchema
import NitroServer.Bridge.Text

namespace NitroServer.Schema

open Bridge (DartString text)
open Lib.JsonSchema

/-- A decoded JSON value. -/
abbrev Value := Json DartString

/-! ### Declarations -/

/-- A schema, by its public constructor. -/
inductive ApiSchema where
  | string (format : Option DartString) (enumValues : Option (List Value)) (nullable : Bool)
      (description : Option DartString)
  | integer (nullable : Bool) (description : Option DartString)
  | number (nullable : Bool) (description : Option DartString)
  | boolean (nullable : Bool) (description : Option DartString)
  | object (properties : List (DartString × ApiSchema)) (required : List DartString)
      (additionalProperties nullable : Bool) (description : Option DartString)
  | array (items : ApiSchema) (nullable : Bool) (description : Option DartString)
  | ref (name : DartString)

/-- Induction over the schemas of properties and items. -/
theorem ApiSchema.induct {motive : ApiSchema → Prop}
    (string : ∀ format enumValues nullable description,
      motive (.string format enumValues nullable description))
    (integer : ∀ nullable description, motive (.integer nullable description))
    (number : ∀ nullable description, motive (.number nullable description))
    (boolean : ∀ nullable description, motive (.boolean nullable description))
    (object : ∀ properties required additionalProperties nullable description,
      (∀ p ∈ properties, motive p.2) →
      motive (.object properties required additionalProperties nullable description))
    (array : ∀ items nullable description, motive items →
      motive (.array items nullable description))
    (ref : ∀ name, motive (.ref name)) : ∀ schema, motive schema
  | .string format enumValues nullable description => string format enumValues nullable description
  | .integer nullable description => integer nullable description
  | .number nullable description => number nullable description
  | .boolean nullable description => boolean nullable description
  | .object properties required additionalProperties nullable description =>
      object properties required additionalProperties nullable description fun p _ =>
        ApiSchema.induct string integer number boolean object array ref p.2
  | .array items nullable description =>
      array items nullable description
        (ApiSchema.induct string integer number boolean object array ref items)
  | .ref name => ref name
termination_by schema => sizeOf schema
decreasing_by
  · rename_i hp
    have smaller := List.sizeOf_lt_of_mem hp
    have part : sizeOf p.2 < sizeOf p := by
      cases p
      simp
    simp only [ApiSchema.object.sizeOf_spec]
    omega
  · simp only [ApiSchema.array.sizeOf_spec]
    omega

/-! ### The document -/

/-- The map literal of `toJson` without its last entries, `rest`. -/
def schemaObject (type : String) (nullable : Bool) (description format : Option DartString)
    (enumValues : Option (List Value)) (rest : List (DartString × Value)) : Value :=
  .obj ((text "type",
      if nullable then .arr [.str (text type), .str (text "null")] else .str (text type)) ::
    (description.toList.map fun d => (text "description", .str d)) ++
    (format.toList.map fun f => (text "format", .str f)) ++
    (enumValues.toList.map fun values => (text "enum", .arr values)) ++ rest)

mutual

/-- `ApiSchema.toJson`. -/
def ApiSchema.toJson : ApiSchema → Value
  | .string format enumValues nullable description =>
      schemaObject "string" nullable description format enumValues []
  | .integer nullable description => schemaObject "integer" nullable description none none []
  | .number nullable description => schemaObject "number" nullable description none none []
  | .boolean nullable description => schemaObject "boolean" nullable description none none []
  | .object properties required additionalProperties nullable description =>
      schemaObject "object" nullable description none none
        ((text "properties", .obj (ApiSchema.toJsonEach properties)) ::
          (if required = [] then [] else [(text "required", .arr (required.map .str))]) ++
          [(text "additionalProperties", .bool additionalProperties)])
  | .array items nullable description =>
      schemaObject "array" nullable description none none [(text "items", items.toJson)]
  | .ref name => .obj [(text "$ref", .str (text "#/components/schemas/" ++ name))]

def ApiSchema.toJsonEach : List (DartString × ApiSchema) → List (DartString × Value)
  | [] => []
  | (key, schema) :: properties => (key, schema.toJson) :: ApiSchema.toJsonEach properties

end

/-! ### The check -/

/-- The null check at the head of `validate`; `errors` are those of a value that is there. -/
def orNull (nullable : Bool) (kind : String) (path : DartString) (value : Value)
    (errors : List DartString) : List DartString :=
  match value with
  | .null => if nullable then [] else [path ++ text (": expected " ++ kind ++ ", got null")]
  | _ => errors

/-- `==` with a string. -/
def isText (value : DartString) : Value → Bool
  | .str s => s = value
  | _ => false

/-- `enumValues!.contains(value)` for a string. -/
def listsString (enumValues : List Value) (value : DartString) : Bool :=
  enumValues.any (isText value)

variable (render : List Value → DartString)

mutual

/-- `ApiSchema.validate`; `render` is the enum's `toString`. -/
def ApiSchema.validate : ApiSchema → Value → DartString → List DartString
  | .ref _, value, path => orNull false "ref" path value []
  | .string _ enumValues nullable _, value, path =>
      orNull nullable "string" path value <|
        match value with
        | .str s =>
            match enumValues with
            | some values =>
                if listsString values s then []
                else [path ++ text ": \"" ++ s ++ text "\" not in " ++ render values]
            | none => []
        | _ => [path ++ text ": expected string"]
  | .integer nullable _, value, path =>
      orNull nullable "integer" path value <|
        if TypeName.has .integer value then [] else [path ++ text ": expected integer"]
  | .number nullable _, value, path =>
      orNull nullable "number" path value <|
        if TypeName.has .number value then [] else [path ++ text ": expected number"]
  | .boolean nullable _, value, path =>
      orNull nullable "boolean" path value <|
        if TypeName.has .boolean value then [] else [path ++ text ": expected boolean"]
  | .array items nullable _, value, path =>
      orNull nullable "array" path value <|
        match value with
        | .arr elements =>
            elements.zipIdx.flatMap fun e =>
              items.validate e.1 (path ++ text "[" ++ text (toString e.2) ++ text "]")
        | _ => [path ++ text ": expected array"]
  | .object properties required additionalProperties nullable _, value, path =>
      orNull nullable "object" path value <|
        match value with
        | .obj members =>
            (required.filter fun key => (member key members).isNone).map
                (fun key => path ++ text "." ++ key ++ text ": required") ++
              ApiSchema.validateEach properties members path ++
              if additionalProperties then []
              else
                ((members.map Prod.fst).filter fun key => key ∉ properties.map Prod.fst).map
                  fun key => path ++ text "." ++ key ++ text ": unexpected property"
        | _ => [path ++ text ": expected object"]

/-- The loop over `properties`. -/
def ApiSchema.validateEach :
    List (DartString × ApiSchema) → List (DartString × Value) → DartString → List DartString
  | [], _, _ => []
  | (key, schema) :: properties, members, path =>
      (match member key members with
        | some value => schema.validate value (path ++ text "." ++ key)
        | none => []) ++ ApiSchema.validateEach properties members path

end

example (path : DartString) :
    (ApiSchema.array (.boolean true none) false none).validate render (.arr [.null]) path = [] := by
  rw [ApiSchema.validate, List.zipIdx_singleton]
  simp only [orNull, List.flatMap_singleton, ApiSchema.validate, if_true]

/-! ### When the check has no errors -/

section Check

variable {render} {value : Value} {path : DartString} {nullable additionalProperties : Bool}
  {format description : Option DartString} {enumValues : Option (List Value)}
  {properties : List (DartString × ApiSchema)} {required : List DartString} {items : ApiSchema}
  {members : List (DartString × Value)}

theorem orNull_nil {kind : String} {errors : List DartString} :
    orNull nullable kind path value errors = [] ↔
      value = .null ∧ nullable = true ∨ value ≠ .null ∧ errors = [] := by
  cases value with
  | null => simp [orNull]
  | _ => simp [orNull]

theorem validate_string : (ApiSchema.string format enumValues nullable description).validate render
      value path = [] ↔ value = .null ∧ nullable = true ∨
    ∃ s, value = .str s ∧ ∀ values, enumValues = some values → listsString values s = true := by
  cases value with
  | str s =>
      cases enumValues with
      | none =>
          rw [ApiSchema.validate, orNull_nil]
          simp
      | some values =>
          rw [ApiSchema.validate, orNull_nil]
          simp
  | _ =>
      rw [ApiSchema.validate, orNull_nil]
      · simp
      · simp

theorem validate_integer : (ApiSchema.integer nullable description).validate render value path = [] ↔
    value = .null ∧ nullable = true ∨ TypeName.has .integer value = true := by
  rw [ApiSchema.validate, orNull_nil]
  cases value with
  | _ => simp [TypeName.has]

theorem validate_number : (ApiSchema.number nullable description).validate render value path = [] ↔
    value = .null ∧ nullable = true ∨ TypeName.has .number value = true := by
  rw [ApiSchema.validate, orNull_nil]
  cases value with
  | _ => simp [TypeName.has]

theorem validate_boolean : (ApiSchema.boolean nullable description).validate render value path = [] ↔
    value = .null ∧ nullable = true ∨ TypeName.has .boolean value = true := by
  rw [ApiSchema.validate, orNull_nil]
  cases value with
  | _ => simp [TypeName.has]

theorem validate_array : (ApiSchema.array items nullable description).validate render value path = [] ↔
    value = .null ∧ nullable = true ∨ ∃ elements, value = .arr elements ∧
      ∀ e ∈ elements.zipIdx, items.validate render e.1
        (path ++ text "[" ++ text (toString e.2) ++ text "]") = [] := by
  cases value with
  | arr elements =>
      rw [ApiSchema.validate, orNull_nil]
      simp
  | _ =>
      rw [ApiSchema.validate, orNull_nil]
      · simp only [reduceCtorEq, false_and, true_and, ne_eq, not_true_eq_false, not_false_eq_true,
          List.cons_ne_nil, and_false, and_self, or_false, or_self, exists_const]
      · exact nofun

theorem validateEach_nil : ApiSchema.validateEach render properties members path = [] ↔
    ∀ p ∈ properties, ∀ child, member p.1 members = some child →
      p.2.validate render child (path ++ text "." ++ p.1) = [] := by
  induction properties with
  | nil => simp [ApiSchema.validateEach]
  | cons p properties ih =>
      obtain ⟨key, schema⟩ := p
      rw [ApiSchema.validateEach, List.append_eq_nil_iff, ih, List.forall_mem_cons]
      cases found : member key members with
      | none => simp
      | some child => simp

theorem validate_object : (ApiSchema.object properties required additionalProperties nullable
      description).validate render value path = [] ↔ value = .null ∧ nullable = true ∨
    ∃ members, value = .obj members ∧ (∀ key ∈ required, (member key members).isSome = true) ∧
      (∀ p ∈ properties, ∀ child, member p.1 members = some child →
        p.2.validate render child (path ++ text "." ++ p.1) = []) ∧
      ∀ m ∈ members, m.1 ∈ properties.map Prod.fst ∨ additionalProperties = true := by
  cases value with
  | obj members =>
      rw [ApiSchema.validate, orNull_nil, List.append_eq_nil_iff, List.append_eq_nil_iff,
        validateEach_nil, List.map_eq_nil_iff, List.filter_eq_nil_iff, and_assoc]
      cases additionalProperties with
      | true =>
          simp only [reduceCtorEq, false_and, ne_eq, not_false_eq_true, Option.isNone_iff_eq_none,
            ↓reduceIte, and_true, true_and, false_or, Json.obj.injEq, Option.isSome_iff_ne_none,
            or_true, implies_true, exists_eq_left']
      | false =>
          simp only [reduceCtorEq, false_and, ne_eq, not_false_eq_true, Option.isNone_iff_eq_none,
            Bool.false_eq_true, ↓reduceIte, decide_not, List.map_eq_nil_iff,
            List.filter_eq_nil_iff, Bool.not_eq_eq_eq_not, Bool.not_true, decide_eq_false_iff_not,
            not_not, List.forall_mem_map, true_and, false_or, Json.obj.injEq,
            Option.isSome_iff_ne_none, or_false, exists_eq_left']
  | _ =>
      rw [ApiSchema.validate, orNull_nil]
      · simp only [reduceCtorEq, false_and, true_and, ne_eq, not_true_eq_false, not_false_eq_true,
          List.cons_ne_nil, and_false, and_self, or_false, or_self, exists_const]
      · exact nofun

end Check

/-! ### When the document takes a value -/

def keywordName : Keyword → String
  | .type => "type"
  | .enum => "enum"
  | .properties => "properties"
  | .required => "required"
  | .additionalProperties => "additionalProperties"
  | .items => "items"

def typeNameText : TypeName → String
  | .null => "null"
  | .boolean => "boolean"
  | .integer => "integer"
  | .number => "number"
  | .string => "string"
  | .array => "array"
  | .object => "object"

/-- The words of JSON Schema 2020-12. -/
def words : Vocabulary DartString where
  keyword s :=
    [Keyword.type, .enum, .properties, .required, .additionalProperties, .items].find?
      fun k => text (keywordName k) = s
  typeName s :=
    [TypeName.null, .boolean, .integer, .number, .string, .array, .object].find?
      fun t => text (typeNameText t) = s

@[simp] theorem keyword_keywordName (k : Keyword) :
    words.keyword (text (keywordName k)) = some k := by
  cases k with
  | _ => decide +kernel

@[simp] theorem typeName_typeNameText (t : TypeName) :
    words.typeName (text (typeNameText t)) = some t := by
  cases t with
  | _ => decide +kernel

theorem keyword_description : words.keyword (text "description") = none := by decide +kernel

theorem keyword_format : words.keyword (text "format") = none := by decide +kernel

section Document

variable {value : Value} {nullable additionalProperties : Bool}
  {format description : Option DartString} {enumValues : Option (List Value)}
  {properties : List (DartString × ApiSchema)} {required : List DartString} {items : ApiSchema}
  {rest : List (DartString × Value)}

/-- The argument of `type`. -/
def typeArg (t : TypeName) (nullable : Bool) : Value :=
  if nullable then .arr [.str (text (typeNameText t)), .str (text "null")]
  else .str (text (typeNameText t))

theorem has_null : TypeName.has .null value = true ↔ value = .null := by
  cases value with
  | _ => simp [TypeName.has]

theorem holdsType_typeArg (t : TypeName) : holdsType words (typeArg t nullable) value = true ↔
    value = .null ∧ nullable = true ∨ t.has value = true := by
  have null : hasType words value (.str (text "null")) = TypeName.has .null value := by
    rw [hasType, show text "null" = text (typeNameText .null) from rfl, typeName_typeNameText]
    rfl
  have own : hasType words value (.str (text (typeNameText t))) = t.has value := by
    rw [hasType, typeName_typeNameText]
    rfl
  cases nullable with
  | false =>
      rw [typeArg, if_neg (by decide), holdsType, own]
      · simp
      · simp
  | true =>
      rw [typeArg, if_pos rfl, holdsType, List.any_cons, List.any_cons, List.any_nil, null, own,
        Bool.or_false, Bool.or_eq_true, has_null]
      simp [or_comm]

/-- The entries of `schemaObject` that assert something, before `rest`. -/
def asserted (t : TypeName) (nullable : Bool) (enumValues : Option (List Value)) (value : Value) :
    Prop :=
  (value = .null ∧ nullable = true ∨ t.has value = true) ∧
    ∀ values, enumValues = some values → holdsEnum (.arr values) value = true

theorem conforms_schemaObject (t : TypeName) (rest : List (DartString × Value)) :
    conforms words (schemaObject (typeNameText t) nullable description format enumValues rest)
        value = true ↔
      asserted t nullable enumValues value ∧ holdsAll words (listed words rest) rest value = true := by
  have type : words.keyword (text "type") = some .type := keyword_keywordName .type
  have enum : words.keyword (text "enum") = some .enum := keyword_keywordName .enum
  have optional : ∀ (o : Option DartString) (name : DartString), words.keyword name = none →
      (∀ e ∈ o.toList.map fun d => (name, Json.str d), words.keyword e.1 ≠ some .properties) ∧
      ∀ names, holdsAll words names (o.toList.map fun d => (name, Json.str d)) value = true := by
    intro o name none
    cases o with
    | none => simp [holdsAll]
    | some d => simp [holdsAll_single, holds_none none, none]
  have values : (∀ e ∈ enumValues.toList.map fun values => (text "enum", Json.arr values),
      words.keyword e.1 ≠ some .properties) ∧
      ∀ names, holdsAll words names
        (enumValues.toList.map fun values => (text "enum", Json.arr values)) value = true ↔
        ∀ values, enumValues = some values → holdsEnum (.arr values) value = true := by
    cases enumValues with
    | none => simp [holdsAll]
    | some values => simp [holdsAll_single, holds_enum enum, enum]
  obtain ⟨silent₁, holds₁⟩ := optional description (text "description") keyword_description
  obtain ⟨silent₂, holds₂⟩ := optional format (text "format") keyword_format
  obtain ⟨silent₃, holds₃⟩ := values
  have silent₀ : ∀ e ∈ [(text "type", typeArg t nullable)], words.keyword e.1 ≠ some .properties := by
    simp [type]
  have names : listed words ([(text "type", typeArg t nullable)] ++
      (description.toList.map fun d => (text "description", .str d)) ++
      (format.toList.map fun f => (text "format", .str f)) ++
      (enumValues.toList.map fun values => (text "enum", .arr values)) ++ rest) =
      listed words rest := by
    rw [List.append_assoc, List.append_assoc, List.append_assoc, listed_append silent₀,
      listed_append silent₁, listed_append silent₂, listed_append silent₃]
  show conforms words (.obj ([(text "type", typeArg t nullable)] ++ _ ++ _ ++ _ ++ rest)) value =
    true ↔ _
  rw [conforms_obj, names, holdsAll_append, holdsAll_append, holdsAll_append, holdsAll_append,
    holdsAll_single, holds_type type, holds₁, holds₂, Bool.and_true, Bool.and_true,
    Bool.and_eq_true, Bool.and_eq_true, holdsType_typeArg, holds₃]
  rfl

theorem asserted_plain {t : TypeName} : asserted t nullable none value ↔
    value = .null ∧ nullable = true ∨ t.has value = true := by
  simp [asserted]

theorem conforms_string : conforms words (ApiSchema.string format enumValues nullable
      description).toJson value = true ↔ asserted .string nullable enumValues value := by
  rw [ApiSchema.toJson]
  exact (conforms_schemaObject .string []).trans (and_iff_left holdsAll_nil)

theorem conforms_integer : conforms words (ApiSchema.integer nullable description).toJson value =
    true ↔ value = .null ∧ nullable = true ∨ TypeName.has .integer value = true := by
  rw [ApiSchema.toJson]
  exact ((conforms_schemaObject .integer []).trans (and_iff_left holdsAll_nil)).trans asserted_plain

theorem conforms_number : conforms words (ApiSchema.number nullable description).toJson value =
    true ↔ value = .null ∧ nullable = true ∨ TypeName.has .number value = true := by
  rw [ApiSchema.toJson]
  exact ((conforms_schemaObject .number []).trans (and_iff_left holdsAll_nil)).trans asserted_plain

theorem conforms_boolean : conforms words (ApiSchema.boolean nullable description).toJson value =
    true ↔ value = .null ∧ nullable = true ∨ TypeName.has .boolean value = true := by
  rw [ApiSchema.toJson]
  exact ((conforms_schemaObject .boolean []).trans (and_iff_left holdsAll_nil)).trans asserted_plain

theorem conforms_array : conforms words (ApiSchema.array items nullable description).toJson value =
    true ↔ value = .null ∧ nullable = true ∨
      ∃ elements, value = .arr elements ∧ ∀ e ∈ elements, conforms words items.toJson e = true := by
  have keyword : words.keyword (text "items") = some .items := keyword_keywordName .items
  rw [ApiSchema.toJson]
  refine (conforms_schemaObject .array _).trans ?_
  rw [asserted_plain, holdsAll_single, holds_items keyword]
  cases value with
  | arr elements => simp [TypeName.has, elementsOf]
  | _ => simp [TypeName.has, elementsOf]

theorem mem_toJsonEach {f : DartString × Value} : f ∈ ApiSchema.toJsonEach properties ↔
    ∃ p ∈ properties, f = (p.1, p.2.toJson) := by
  induction properties with
  | nil => simp [ApiSchema.toJsonEach]
  | cons p properties ih =>
      obtain ⟨key, schema⟩ := p
      rw [ApiSchema.toJsonEach, List.mem_cons, ih, List.exists_mem_cons_iff]

theorem toJsonEach_names : (ApiSchema.toJsonEach properties).map Prod.fst =
    properties.map Prod.fst := by
  induction properties with
  | nil => rfl
  | cons p properties ih =>
      obtain ⟨key, schema⟩ := p
      rw [ApiSchema.toJsonEach, List.map_cons, ih, List.map_cons]

theorem holdsRequired_names {members : List (DartString × Value)} :
    holdsRequired (.arr (required.map .str)) (.obj members) = true ↔
      ∀ key ∈ required, (member key members).isSome = true := by
  simp [holdsRequired]

theorem conforms_object : conforms words (ApiSchema.object properties required
      additionalProperties nullable description).toJson value = true ↔
    value = .null ∧ nullable = true ∨
    ∃ members, value = .obj members ∧ (∀ key ∈ required, (member key members).isSome = true) ∧
      (∀ p ∈ properties, ∀ child, member p.1 members = some child →
        conforms words p.2.toJson child = true) ∧
      ∀ m ∈ members, m.1 ∈ properties.map Prod.fst ∨ additionalProperties = true := by
  have listing : words.keyword (text "properties") = some .properties := keyword_keywordName .properties
  have requiring : words.keyword (text "required") = some .required := keyword_keywordName .required
  have adding : words.keyword (text "additionalProperties") = some .additionalProperties :=
    keyword_keywordName .additionalProperties
  have names : ∀ rest, listed words ((text "properties",
      .obj (ApiSchema.toJsonEach properties)) :: rest) = properties.map Prod.fst := by
    intro rest
    rw [listed, if_pos listing, membersOf, toJsonEach_names]
  have need : ∀ names, holdsAll words names (if required = [] then []
      else [(text "required", .arr (required.map .str))]) value = true ↔
        required = [] ∨ holdsRequired (.arr (required.map .str)) value = true := by
    intro names
    split
    · rename_i none
      simp [none, holdsAll]
    · rename_i some
      simp [some, holdsAll_single, holds_required requiring]
  have each : holdsEach words (ApiSchema.toJsonEach properties) value = true ↔
      ∀ p ∈ properties, ∀ child, member p.1 (membersOf value) = some child →
        conforms words p.2.toJson child = true := by
    rw [holdsEach_iff]
    constructor
    · intro all p hp
      exact all (p.1, p.2.toJson) (mem_toJsonEach.mpr ⟨p, hp, rfl⟩)
    · intro all f hf
      obtain ⟨p, hp, rfl⟩ := mem_toJsonEach.mp hf
      exact all p hp
  rw [ApiSchema.toJson]
  refine (conforms_schemaObject .object _).trans ?_
  rw [asserted_plain, List.cons_append, names, holdsAll_cons, holds_properties listing,
    holdsAll_append, holdsAll_single, holds_additional adding, Bool.and_eq_true, Bool.and_eq_true,
    each, need]
  cases value with
  | obj members =>
      have all : required = [] ∨ holdsRequired (.arr (required.map .str)) (.obj members) = true ↔
          ∀ key ∈ required, (member key members).isSome = true := by
        rw [holdsRequired_names]
        constructor
        · rintro (rfl | all)
          · intro key none
            cases none
          · exact all
        · exact Or.inr
      rw [all]
      simp [TypeName.has, membersOf, and_left_comm]
  | null => simp [TypeName.has, membersOf, holdsRequired, member]
  | _ =>
      simp only [reduceCtorEq, false_and, TypeName.has, Bool.false_eq_true, or_self, exists_const]

end Document

end NitroServer.Schema
