/-
The document and the check of an `ApiSchema` side by side.

They differ in one place. `validate` lets null through at every nullable schema, before it
looks at `enumValues`; in the document `type` takes null and `enum` does not, unless null is
listed. `stray` says that a value has null at such a place, `drifts` that some value accepted
by the check has.

* `conforms_iff` — the document takes what the check takes, without the stray nulls.
* `possible_iff` — `possible` decides whether the check accepts any value.
* `drifts_iff` — `drifts` decides whether it accepts one with a stray null.
* `documented_iff_accepted` — the two readings coincide exactly for schemas that do not drift.
-/

import NitroServer.Schema.ApiSchema

namespace NitroServer.Schema

open Bridge (DartString text)
open Lib.JsonSchema

/-! ### Schemas without references -/

mutual

/-- No `ref`, and property maps have distinct keys, as every map. -/
def ApiSchema.plain : ApiSchema → Bool
  | .ref _ => false
  | .object properties _ _ _ _ =>
      decide (properties.map Prod.fst).Nodup && ApiSchema.plainEach properties
  | .array items _ _ => items.plain
  | .string .. => true
  | .integer .. => true
  | .number .. => true
  | .boolean .. => true

def ApiSchema.plainEach : List (DartString × ApiSchema) → Bool
  | [] => true
  | (_, schema) :: properties => schema.plain && ApiSchema.plainEach properties

end

/-! ### Null where the enum does not list it -/

def isNull : Value → Bool
  | .null => true
  | _ => false

def isString : Value → Bool
  | .str _ => true
  | _ => false

/-- There is an enum, and null is not in it. -/
def lacksNull (enumValues : Option (List Value)) : Bool :=
  enumValues.any fun values => !values.any isNull

mutual

/-- The value has null where the schema is a nullable string whose enum lacks it. -/
def ApiSchema.stray : ApiSchema → Value → Bool
  | .string _ enumValues nullable _, value => nullable && lacksNull enumValues && isNull value
  | .object properties _ _ _ _, value => ApiSchema.strayEach properties (membersOf value)
  | .array items _ _, value => (elementsOf value).any items.stray
  | .integer .., _ => false
  | .number .., _ => false
  | .boolean .., _ => false
  | .ref _, _ => false

def ApiSchema.strayEach :
    List (DartString × ApiSchema) → List (DartString × Value) → Bool
  | [], _ => false
  | (key, schema) :: properties, members =>
      ((member key members).any fun child => schema.stray child) ||
        ApiSchema.strayEach properties members

end

mutual

/-- Some value passes the check. -/
def ApiSchema.possible : ApiSchema → Bool
  | .string _ enumValues nullable _ => nullable || enumValues.all fun values => values.any isString
  | .object properties required additionalProperties nullable _ =>
      nullable || required.all fun key => ApiSchema.possibleAt properties key additionalProperties
  | .array .. => true
  | .integer .. => true
  | .number .. => true
  | .boolean .. => true
  | .ref _ => true

/-- Some value passes the check as the member `key`. -/
def ApiSchema.possibleAt : List (DartString × ApiSchema) → DartString → Bool → Bool
  | [], _, additionalProperties => additionalProperties
  | (other, schema) :: properties, key, additionalProperties =>
      if other = key then schema.possible
      else ApiSchema.possibleAt properties key additionalProperties

end

mutual

/-- Some value with a stray null passes the check. -/
def ApiSchema.drifts : ApiSchema → Bool
  | .string _ enumValues nullable _ => nullable && lacksNull enumValues
  | .object properties required additionalProperties _ _ =>
      ApiSchema.driftsEach properties &&
        required.all fun key => ApiSchema.possibleAt properties key additionalProperties
  | .array items _ _ => items.drifts
  | .integer .. => false
  | .number .. => false
  | .boolean .. => false
  | .ref _ => false

def ApiSchema.driftsEach : List (DartString × ApiSchema) → Bool
  | [] => false
  | (_, schema) :: properties => schema.drifts || ApiSchema.driftsEach properties

end

example (role : Value) :
    (ApiSchema.array (.string none (some [role]) false none) false none).plain = true ∧
      (ApiSchema.array (.string none (some [role]) false none) false none).drifts = false ∧
      (ApiSchema.array (.string none (some [role]) false none) false none).possible = true ∧
      (ApiSchema.array (.string none (some [role]) false none) false none).stray (.arr [.null]) =
        false := by
  simp [ApiSchema.plain, ApiSchema.drifts, ApiSchema.possible, ApiSchema.stray, elementsOf]

variable {render : List Value → DartString} {properties : List (DartString × ApiSchema)}
  {members : List (DartString × Value)} {enumValues : Option (List Value)}

theorem plainEach_iff :
    ApiSchema.plainEach properties = true ↔ ∀ p ∈ properties, p.2.plain = true := by
  induction properties with
  | nil => simp [ApiSchema.plainEach]
  | cons p properties ih =>
      obtain ⟨key, schema⟩ := p
      rw [ApiSchema.plainEach, Bool.and_eq_true, ih, List.forall_mem_cons]

theorem strayEach_iff : ApiSchema.strayEach properties members = true ↔
    ∃ p ∈ properties, ∃ child, member p.1 members = some child ∧ p.2.stray child = true := by
  induction properties with
  | nil => simp [ApiSchema.strayEach]
  | cons p properties ih =>
      obtain ⟨key, schema⟩ := p
      rw [ApiSchema.strayEach, Bool.or_eq_true, ih, List.exists_mem_cons_iff, Option.any_eq_true]

theorem strayEach_nil : ApiSchema.strayEach properties [] = false := by
  rw [Bool.eq_false_iff, Ne, strayEach_iff]
  rintro ⟨p, _, child, none, _⟩
  cases none

theorem driftsEach_iff :
    ApiSchema.driftsEach properties = true ↔ ∃ p ∈ properties, p.2.drifts = true := by
  induction properties with
  | nil => simp [ApiSchema.driftsEach]
  | cons p properties ih =>
      obtain ⟨key, schema⟩ := p
      rw [ApiSchema.driftsEach, Bool.or_eq_true, ih, List.exists_mem_cons_iff]

theorem isNull_iff {value : Value} : isNull value = true ↔ value = .null := by
  cases value with
  | _ => simp [isNull]

/-! ### One reading inside the other -/

theorem listsString_iff {values : List Value} {s : DartString} :
    listsString values s = true ↔ holdsEnum (.arr values) (.str s) = true := by
  have each : ∀ v : Value, same v (.str s) = isText s v := by
    intro v
    cases v with
    | _ => simp [same, isText]
  simp only [listsString, holdsEnum, each]

theorem lacksNull_iff : lacksNull enumValues = false ↔
    ∀ values, enumValues = some values → holdsEnum (.arr values) .null = true := by
  have each : ∀ v : Value, same v .null = isNull v := by
    intro v
    cases v with
    | _ => simp [same, isNull]
  cases enumValues with
  | none => simp [lacksNull]
  | some values => simp only [lacksNull, holdsEnum, each]; simp

theorem exists_mem_zipIdx {elements : List Value} {e : Value} (he : e ∈ elements) :
    ∃ i, (e, i) ∈ elements.zipIdx := by
  rw [← List.zipIdx_map_fst 0 elements] at he
  obtain ⟨⟨e, i⟩, hi, rfl⟩ := List.mem_map.mp he
  exact ⟨i, hi⟩

/-- The document takes what the check takes, without the stray nulls. -/
theorem conforms_iff (render : List Value → DartString) (schema : ApiSchema)
    (plain : schema.plain = true) (value : Value) (path : DartString) :
    conforms words schema.toJson value = true ↔
      schema.validate render value path = [] ∧ schema.stray value = false := by
  induction schema using ApiSchema.induct generalizing value path with
  | string format enumValues nullable description =>
      rw [conforms_string, validate_string, ApiSchema.stray, asserted]
      cases value with
      | null =>
          rw [← lacksNull_iff]
          cases nullable with
          | true => simp [isNull]
          | false => simp [TypeName.has]
      | str s => simp [TypeName.has, isNull, listsString_iff]
      | _ => simp [TypeName.has]
  | integer nullable description =>
      rw [conforms_integer, validate_integer, ApiSchema.stray, and_iff_left rfl]
  | number nullable description =>
      rw [conforms_number, validate_number, ApiSchema.stray, and_iff_left rfl]
  | boolean nullable description =>
      rw [conforms_boolean, validate_boolean, ApiSchema.stray, and_iff_left rfl]
  | object properties required additionalProperties nullable description ih =>
      rw [ApiSchema.plain, Bool.and_eq_true, plainEach_iff] at plain
      have each : ∀ members, (∀ p ∈ properties, ∀ child, member p.1 members = some child →
          conforms words p.2.toJson child = true) ↔
          (∀ p ∈ properties, ∀ child, member p.1 members = some child →
            p.2.validate render child (path ++ text "." ++ p.1) = []) ∧
          ApiSchema.strayEach properties members = false := by
        intro members
        rw [Bool.eq_false_iff, Ne, strayEach_iff]
        constructor
        · intro all
          constructor
          · intro p hp child found
            exact ((ih p hp (plain.2 p hp) child _).mp (all p hp child found)).1
          · rintro ⟨p, hp, child, found, bad⟩
            have good := ((ih p hp (plain.2 p hp) child path).mp (all p hp child found)).2
            rw [bad] at good
            cases good
        · rintro ⟨valid, none⟩ p hp child found
          refine (ih p hp (plain.2 p hp) child _).mpr ⟨valid p hp child found, ?_⟩
          rw [Bool.eq_false_iff]
          exact fun bad => none ⟨p, hp, child, found, bad⟩
      rw [conforms_object, validate_object, ApiSchema.stray]
      cases value with
      | obj members =>
          constructor
          · rintro (⟨none, -⟩ | ⟨m, same, req, all, add⟩)
            · cases none
            · cases same
              obtain ⟨valid, clean⟩ := (each members).mp all
              exact ⟨Or.inr ⟨members, rfl, req, valid, add⟩, clean⟩
          · rintro ⟨⟨none, -⟩ | ⟨m, same, req, valid, add⟩, clean⟩
            · cases none
            · cases same
              exact Or.inr ⟨members, rfl, req, (each members).mpr ⟨valid, clean⟩, add⟩
      | _ => simp only [membersOf, strayEach_nil, and_true, reduceCtorEq, false_and, exists_false]
  | array items nullable description ih =>
      rw [ApiSchema.plain] at plain
      have each : ∀ elements : List Value,
          (∀ e ∈ elements, conforms words items.toJson e = true) ↔
          (∀ e ∈ elements.zipIdx, items.validate render e.1
            (path ++ text "[" ++ text (toString e.2) ++ text "]") = []) ∧
          elements.any items.stray = false := by
        intro elements
        rw [List.any_eq_false]
        constructor
        · intro all
          constructor
          · intro e he
            exact ((ih plain e.1 _).mp (all e.1 (List.fst_mem_of_mem_zipIdx he))).1
          · intro e he
            rw [((ih plain e path).mp (all e he)).2]
            decide
        · rintro ⟨valid, none⟩ e he
          obtain ⟨i, hi⟩ := exists_mem_zipIdx he
          exact (ih plain e _).mpr ⟨valid (e, i) hi, Bool.eq_false_iff.mpr (none e he)⟩
      rw [conforms_array, validate_array, ApiSchema.stray]
      cases value with
      | arr elements => simp [each, elementsOf]
      | _ => simp [elementsOf]
  | ref name => cases plain

/-! ### Schemas that some value passes -/

theorem possibleAt_of {key : DartString} {additionalProperties : Bool}
    (each : ∀ p ∈ properties, p.1 = key → p.2.possible = true)
    (other : key ∉ properties.map Prod.fst → additionalProperties = true) :
    ApiSchema.possibleAt properties key additionalProperties = true := by
  induction properties with
  | nil =>
      rw [ApiSchema.possibleAt]
      exact other List.not_mem_nil
  | cons p properties ih =>
      obtain ⟨name, schema⟩ := p
      rw [ApiSchema.possibleAt]
      split
      · rename_i here
        exact each (name, schema) List.mem_cons_self here
      · rename_i apart
        apply ih
        · exact fun p hp => each p (List.mem_cons_of_mem _ hp)
        · intro absent
          apply other
          rw [List.map_cons, List.mem_cons, not_or]
          exact ⟨Ne.symm apart, absent⟩

theorem possibleAt_property {p : DartString × ApiSchema} {additionalProperties : Bool}
    (distinct : (properties.map Prod.fst).Nodup) (hp : p ∈ properties)
    (possible : ApiSchema.possibleAt properties p.1 additionalProperties = true) :
    p.2.possible = true := by
  induction properties with
  | nil => cases hp
  | cons q properties ih =>
      obtain ⟨name, schema⟩ := q
      rw [List.map_cons, List.nodup_cons] at distinct
      rw [ApiSchema.possibleAt] at possible
      rcases List.mem_cons.mp hp with rfl | later
      · rw [if_pos rfl] at possible
        exact possible
      · have apart : name ≠ p.1 := by
          rintro rfl
          exact distinct.1 (List.mem_map.mpr ⟨p, later, rfl⟩)
        rw [if_neg apart] at possible
        exact ih distinct.2 later possible

theorem possibleAt_additional {key : DartString} {additionalProperties : Bool}
    (absent : key ∉ properties.map Prod.fst)
    (possible : ApiSchema.possibleAt properties key additionalProperties = true) :
    additionalProperties = true := by
  induction properties with
  | nil => exact possible
  | cons q properties ih =>
      obtain ⟨name, schema⟩ := q
      rw [List.map_cons, List.mem_cons, not_or] at absent
      rw [ApiSchema.possibleAt, if_neg (Ne.symm absent.1)] at possible
      exact ih absent.2 possible

/-- The required keys of an object that passes are possible. -/
theorem required_possible {required : List DartString} {additionalProperties : Bool}
    (ih : ∀ p ∈ properties, ∀ value path, p.2.validate render value path = [] → p.2.possible = true)
    (req : ∀ key ∈ required, (member key members).isSome = true) (path : DartString)
    (valid : ∀ p ∈ properties, ∀ child, member p.1 members = some child →
      p.2.validate render child (path ++ text "." ++ p.1) = [])
    (add : ∀ m ∈ members, m.1 ∈ properties.map Prod.fst ∨ additionalProperties = true) :
    (required.all fun key => ApiSchema.possibleAt properties key additionalProperties) = true := by
  rw [List.all_eq_true]
  intro key hk
  obtain ⟨child, found⟩ := Option.isSome_iff_exists.mp (req key hk)
  apply possibleAt_of
  · rintro p hp rfl
    exact ih p hp child _ (valid p hp child found)
  · intro absent
    obtain ⟨m, hm, rfl⟩ := member_mem found
    exact (add m hm).resolve_left absent

theorem possible_of_valid (schema : ApiSchema) (value : Value) (path : DartString)
    (valid : schema.validate render value path = []) : schema.possible = true := by
  induction schema using ApiSchema.induct generalizing value path with
  | string format enumValues nullable description =>
      rw [ApiSchema.possible, Bool.or_eq_true]
      rcases validate_string.mp valid with ⟨-, null⟩ | ⟨s, rfl, listed⟩
      · exact Or.inl null
      · right
        cases enumValues with
        | none => rfl
        | some values =>
            obtain ⟨v, hv, text⟩ := List.any_eq_true.mp (listed values rfl)
            refine List.any_eq_true.mpr ⟨v, hv, ?_⟩
            cases v with
            | str t => rfl
            | _ => cases text
  | object properties required additionalProperties nullable description ih =>
      rw [ApiSchema.possible, Bool.or_eq_true]
      rcases validate_object.mp valid with ⟨-, null⟩ | ⟨members, rfl, req, each, add⟩
      · exact Or.inl null
      · exact Or.inr (required_possible ih req path each add)
  | array items nullable description ih => rw [ApiSchema.possible]
  | integer nullable description => rw [ApiSchema.possible]
  | number nullable description => rw [ApiSchema.possible]
  | boolean nullable description => rw [ApiSchema.possible]
  | ref name => rw [ApiSchema.possible]

/-- An object given by its names passes when each member does. -/
theorem validate_filled {required : List DartString} {additionalProperties nullable : Bool}
    {description : Option DartString} (names : List DartString) (f : DartString → Value)
    (req : ∀ key ∈ required, key ∈ names)
    (each : ∀ p ∈ properties, p.1 ∈ names → ∀ path, p.2.validate render (f p.1) path = [])
    (add : ∀ key ∈ names, key ∈ properties.map Prod.fst ∨ additionalProperties = true)
    (path : DartString) :
    (ApiSchema.object properties required additionalProperties nullable description).validate render
      (.obj (names.map fun n => (n, f n))) path = [] := by
  refine validate_object.mpr (Or.inr ⟨_, rfl, ?_, ?_, ?_⟩)
  · intro key hk
    rw [member_map, if_pos (req key hk)]
    rfl
  · intro p hp child found
    rw [member_map] at found
    split at found
    · rename_i named
      exact Option.some.inj found ▸ each p hp named _
    · cases found
  · intro m hm
    obtain ⟨key, hk, rfl⟩ := List.mem_map.mp hm
    exact add key hk

/-- Values for the required keys. -/
theorem exists_fill (render : List Value → DartString) {required : List DartString} {additionalProperties : Bool}
    (distinct : (properties.map Prod.fst).Nodup)
    (ih : ∀ p ∈ properties, p.2.possible = true →
      ∃ value, ∀ path, p.2.validate render value path = [])
    (possible : (required.all fun key =>
      ApiSchema.possibleAt properties key additionalProperties) = true) :
    ∃ f : DartString → Value, ∀ p ∈ properties, p.1 ∈ required → ∀ path,
      p.2.validate render (f p.1) path = [] := by
  have each : ∀ key, ∃ value : Value, ∀ p ∈ properties, p.1 = key → key ∈ required → ∀ path,
      p.2.validate render value path = [] := by
    intro key
    by_cases here : ∃ p ∈ properties, p.1 = key ∧ key ∈ required
    · obtain ⟨p, hp, rfl, hk⟩ := here
      obtain ⟨value, valid⟩ := ih p hp
        (possibleAt_property distinct hp (List.all_eq_true.mp possible p.1 hk))
      refine ⟨value, fun q hq same _ => ?_⟩
      rw [List.inj_on_of_nodup_map distinct hq hp same]
      exact valid
    · refine ⟨.null, fun p hp same hk => ?_⟩
      exact absurd ⟨p, hp, same, hk⟩ here
  choose f hf using each
  exact ⟨f, fun p hp hk => hf p.1 p hp rfl hk⟩

theorem object_additional {required : List DartString} {additionalProperties : Bool}
    (possible : (required.all fun key =>
      ApiSchema.possibleAt properties key additionalProperties) = true) :
    ∀ key ∈ required, key ∈ properties.map Prod.fst ∨ additionalProperties = true := by
  intro key hk
  by_cases listed : key ∈ properties.map Prod.fst
  · exact Or.inl listed
  · exact Or.inr (possibleAt_additional listed (List.all_eq_true.mp possible key hk))

theorem exists_valid (schema : ApiSchema) (plain : schema.plain = true)
    (possible : schema.possible = true) :
    ∃ value, ∀ path, schema.validate render value path = [] := by
  induction schema using ApiSchema.induct with
  | string format enumValues nullable description =>
      rw [ApiSchema.possible, Bool.or_eq_true] at possible
      rcases possible with null | strings
      · exact ⟨.null, fun path => validate_string.mpr (Or.inl ⟨rfl, null⟩)⟩
      · cases enumValues with
        | none => exact ⟨.str [], fun path => validate_string.mpr (Or.inr ⟨[], rfl, by simp⟩)⟩
        | some values =>
            obtain ⟨v, hv, string⟩ := List.any_eq_true.mp strings
            cases v with
            | str s =>
                have listed : listsString values s = true :=
                  List.any_eq_true.mpr ⟨.str s, hv, decide_eq_true rfl⟩
                refine ⟨.str s, fun path => validate_string.mpr (Or.inr ⟨s, rfl, ?_⟩)⟩
                intro others same
                exact Option.some.inj same ▸ listed
            | _ => cases string
  | object properties required additionalProperties nullable description ih =>
      rw [ApiSchema.plain, Bool.and_eq_true, decide_eq_true_eq, plainEach_iff] at plain
      rw [ApiSchema.possible, Bool.or_eq_true] at possible
      rcases possible with null | possible
      · exact ⟨.null, fun path => validate_object.mpr (Or.inl ⟨rfl, null⟩)⟩
      · obtain ⟨f, each⟩ := exists_fill render plain.1 (fun p hp => ih p hp (plain.2 p hp)) possible
        exact ⟨_, validate_filled required f (fun key hk => hk) each (object_additional possible)⟩
  | array items nullable description ih =>
      exact ⟨.arr [], fun path => validate_array.mpr (Or.inr ⟨[], rfl, by simp⟩)⟩
  | integer nullable description => exact ⟨.int 0, fun path => validate_integer.mpr (Or.inr rfl)⟩
  | number nullable description => exact ⟨.int 0, fun path => validate_number.mpr (Or.inr rfl)⟩
  | boolean nullable description =>
      exact ⟨.bool false, fun path => validate_boolean.mpr (Or.inr rfl)⟩
  | ref name => cases plain

/-! ### Schemas that drift -/

theorem drifts_of_stray (schema : ApiSchema) (value : Value) (path : DartString)
    (valid : schema.validate render value path = []) (bad : schema.stray value = true) :
    schema.drifts = true := by
  induction schema using ApiSchema.induct generalizing value path with
  | string format enumValues nullable description =>
      rw [ApiSchema.stray, Bool.and_eq_true] at bad
      rw [ApiSchema.drifts]
      exact bad.1
  | object properties required additionalProperties nullable description ih =>
      rw [ApiSchema.stray] at bad
      rw [ApiSchema.drifts, Bool.and_eq_true, driftsEach_iff]
      rcases validate_object.mp valid with ⟨rfl, -⟩ | ⟨members, rfl, req, each, add⟩
      · have none : ApiSchema.strayEach properties [] = true := bad
        rw [strayEach_nil] at none
        cases none
      · obtain ⟨p, hp, child, found, bad⟩ := strayEach_iff.mp bad
        exact ⟨⟨p, hp, ih p hp child _ (each p hp child found) bad⟩,
          required_possible (fun p _ => possible_of_valid p.2) req path each add⟩
  | array items nullable description ih =>
      rw [ApiSchema.stray] at bad
      rw [ApiSchema.drifts]
      rcases validate_array.mp valid with ⟨rfl, -⟩ | ⟨elements, rfl, each⟩
      · cases bad
      · obtain ⟨e, he, bad⟩ := List.any_eq_true.mp bad
        obtain ⟨i, hi⟩ := exists_mem_zipIdx he
        exact ih e _ (each (e, i) hi) bad
  | integer nullable description => cases bad
  | number nullable description => cases bad
  | boolean nullable description => cases bad
  | ref name => cases bad

theorem exists_stray (schema : ApiSchema) (plain : schema.plain = true)
    (drifts : schema.drifts = true) :
    ∃ value, (∀ path, schema.validate render value path = []) ∧ schema.stray value = true := by
  induction schema using ApiSchema.induct with
  | string format enumValues nullable description =>
      rw [ApiSchema.drifts] at drifts
      have null := (Bool.and_eq_true _ _ ▸ drifts).1
      refine ⟨.null, fun path => validate_string.mpr (Or.inl ⟨rfl, null⟩), ?_⟩
      rw [ApiSchema.stray, drifts]
      rfl
  | object properties required additionalProperties nullable description ih =>
      rw [ApiSchema.plain, Bool.and_eq_true, decide_eq_true_eq, plainEach_iff] at plain
      rw [ApiSchema.drifts, Bool.and_eq_true, driftsEach_iff] at drifts
      obtain ⟨⟨p, hp, drift⟩, possible⟩ := drifts
      obtain ⟨value, valid, bad⟩ := ih p hp (plain.2 p hp) drift
      obtain ⟨f, each⟩ := exists_fill render plain.1
        (fun q hq => exists_valid q.2 (plain.2 q hq)) possible
      refine ⟨_, validate_filled (p.1 :: required)
        (fun key => if key = p.1 then value else f key) (fun key hk => List.mem_cons_of_mem _ hk)
        ?_ ?_, ?_⟩
      · intro q hq named
        by_cases here : q.1 = p.1
        · rw [if_pos here, List.inj_on_of_nodup_map plain.1 hq hp here]
          exact valid
        · rw [if_neg here]
          exact each q hq ((List.mem_cons.mp named).resolve_left here)
      · intro key hk
        rcases List.mem_cons.mp hk with rfl | hk
        · exact Or.inl (List.mem_map_of_mem hp)
        · exact object_additional possible key hk
      · rw [ApiSchema.stray, membersOf, strayEach_iff]
        refine ⟨p, hp, value, ?_, bad⟩
        rw [member_map, if_pos List.mem_cons_self, if_pos rfl]
  | array items nullable description ih =>
      rw [ApiSchema.plain] at plain
      rw [ApiSchema.drifts] at drifts
      obtain ⟨value, valid, bad⟩ := ih plain drifts
      refine ⟨.arr [value], fun path => validate_array.mpr (Or.inr ⟨[value], rfl, ?_⟩), ?_⟩
      · intro e he
        rw [List.mem_singleton.mp (List.fst_mem_of_mem_zipIdx he)]
        exact valid _
      · rw [ApiSchema.stray, elementsOf, List.any_cons, bad]
        rfl
  | integer nullable description => cases drifts
  | number nullable description => cases drifts
  | boolean nullable description => cases drifts
  | ref name => cases drifts

/-- `drifts` decides whether the check accepts a value that the document does not. -/
theorem drifts_iff (render : List Value → DartString) (schema : ApiSchema)
    (plain : schema.plain = true) (path : DartString) :
    schema.drifts = true ↔
      ∃ value, schema.validate render value path = [] ∧ schema.stray value = true := by
  constructor
  · intro drifts
    obtain ⟨value, valid, bad⟩ := exists_stray schema plain drifts
    exact ⟨value, valid path, bad⟩
  · rintro ⟨value, valid, bad⟩
    exact drifts_of_stray schema value path valid bad

/-- Documented and accepted shapes coincide exactly when the schema does not drift; and in any
schema they coincide on a value without a stray null. -/
theorem documented_iff_accepted (render : List Value → DartString) (schema : ApiSchema)
    (plain : schema.plain = true) (path : DartString) :
    ((∀ value, schema.validate render value path = [] ↔
        conforms words schema.toJson value = true) ↔ schema.drifts = false) ∧
      ∀ value, schema.stray value = false →
        (schema.validate render value path = [] ↔ conforms words schema.toJson value = true) := by
  have same : ∀ value, schema.stray value = false →
      (schema.validate render value path = [] ↔ conforms words schema.toJson value = true) := by
    intro value clean
    rw [conforms_iff render schema plain value path, and_iff_left clean]
  refine ⟨?_, same⟩
  rw [Bool.eq_false_iff, Ne, drifts_iff render schema plain path]
  constructor
  · rintro coincide ⟨value, valid, bad⟩
    have clean := ((conforms_iff render schema plain value path).mp ((coincide value).mp valid)).2
    rw [bad] at clean
    cases clean
  · intro none value
    constructor
    · intro valid
      refine (conforms_iff render schema plain value path).mpr ⟨valid, ?_⟩
      rw [Bool.eq_false_iff]
      exact fun bad => none ⟨value, valid, bad⟩
    · intro documented
      exact ((conforms_iff render schema plain value path).mp documented).1

theorem documented_iff_accepted_role :
    ((∀ value, (ApiSchema.string none (some [.str (text "admin"), .null]) true none).validate
          (fun _ => []) value (text "$") = [] ↔
        conforms words (ApiSchema.string none (some [.str (text "admin"), .null]) true none).toJson
          value = true) ↔
      (ApiSchema.string none (some [.str (text "admin"), .null]) true none).drifts = false) ∧
      ∀ value, (ApiSchema.string none (some [.str (text "admin"), .null]) true none).stray value =
          false →
        ((ApiSchema.string none (some [.str (text "admin"), .null]) true none).validate
            (fun _ => []) value (text "$") = [] ↔
          conforms words
            (ApiSchema.string none (some [.str (text "admin"), .null]) true none).toJson value =
            true) :=
  documented_iff_accepted _ _ (by decide +kernel) _

/-- `ApiSchema.string(enumValues: ['admin', 'user'], nullable: true)` accepts null, and its
document does not. -/
theorem nullable_enum_drifts :
    (ApiSchema.string none (some [.str (text "admin"), .str (text "user")]) true none).validate
        (fun _ => []) .null (text "$") = [] ∧
      conforms words (ApiSchema.string none (some [.str (text "admin"), .str (text "user")]) true
        none).toJson .null = false := by
  decide +kernel

end NitroServer.Schema
