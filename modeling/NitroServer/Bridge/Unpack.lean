/-
Request headers on their way to the handler: `BridgeEmitter::emitHead`
(`HybridNitroServer.cpp`) packs them into one string, `unpackHeaders` (`context.dart`) takes
it apart.

The packed form has no counts and no lengths: NUL ends a name and separates a value from
the next pair. `Packable` is what makes that unambiguous, and `parseRequestHead` establishes
it (`parseRequestHead_packable`); `unpack_pack` has the map that the handler sees.

Dart strings are their UTF-8 bytes here. NUL is a byte of its own there, and a name is ASCII,
so neither the cut nor `toLowerCase` looks inside a character.
-/

import NitroServer.Engine.HttpParse
import NitroServer.Lib.Table

namespace NitroServer.Bridge

open Engine (Bytes Header ascii)
open Lib

/-! ### Packing -/

/-- The loop of `emitHead`: `name\0value` pairs joined by `\0`. -/
def packHeaders (headers : List Header) : Bytes :=
  headers.foldl (fun packed h =>
    (if packed = [] then packed else packed ++ [0]) ++ h.name ++ [0] ++ h.value) []

/-! ### Unpacking -/

/-- `_lowerHeaderName`. -/
def lowerHeaderName (name : Bytes) : Bytes :=
  if name.any fun b => 0x41 ≤ b && b ≤ 0x5a then name.map Engine.lower else name

/-- `(out[name] ??= []).add(value)`. -/
def addValue (out : Table Bytes (List Bytes)) (name value : Bytes) : Table Bytes (List Bytes) :=
  out.set name ((out.find name).getD [] ++ [value])

/-- The loop of `unpackHeaders`, at `rest = packed.substring(start)`; a turn for each pair. -/
def unpackLoop : Nat → Table Bytes (List Bytes) → Bytes → Table Bytes (List Bytes)
  | 0, out, _ => out
  | turns + 1, out, rest =>
      match rest.findIdx? (· == 0) with
      | none => out
      | some nameEnd =>
          let name := lowerHeaderName (rest.take nameEnd)
          let tail := rest.drop (nameEnd + 1)
          match tail.findIdx? (· == 0) with
          | none => addValue out name tail
          | some valueEnd =>
              unpackLoop turns (addValue out name (tail.take valueEnd)) (tail.drop (valueEnd + 1))

/-- `unpackHeaders`. -/
def unpackHeaders (packed : Bytes) : Table Bytes (List Bytes) :=
  if packed = [] then .empty else unpackLoop packed.length .empty packed

/-! ### Round trip -/

/-- A header that survives the packing. -/
structure Packable (h : Header) : Prop where
  name : 0 ∉ h.name
  value : 0 ∉ h.value

variable {h : Header} {hs : List Header} {out : Table Bytes (List Bytes)}

theorem findIdx?_cut {a : Bytes} (free : 0 ∉ a) (b : Bytes) :
    (a ++ 0 :: b).findIdx? (· == 0) = some a.length := by
  induction a with
  | nil => rfl
  | cons x a ih =>
      rw [List.mem_cons, not_or] at free
      rw [List.cons_append, List.findIdx?_cons, if_neg (by simpa using Ne.symm free.1), ih free.2]
      rfl

theorem findIdx?_free {a : Bytes} (free : 0 ∉ a) : a.findIdx? (· == 0) = none := by
  rw [List.findIdx?_eq_none_iff]
  intro x hx
  simpa using fun same : x = 0 => free (same ▸ hx)

/-- The pairs, each behind its separator. -/
def pairs (hs : List Header) : Bytes := hs.flatMap fun h => 0 :: h.name ++ 0 :: h.value

theorem packHeaders_cons (h : Header) (hs : List Header) :
    packHeaders (h :: hs) = h.name ++ 0 :: h.value ++ pairs hs := by
  have rest : ∀ (hs : List Header) (packed : Bytes), packed ≠ [] →
      hs.foldl (fun packed h =>
        (if packed = [] then packed else packed ++ [0]) ++ h.name ++ [0] ++ h.value) packed =
        packed ++ pairs hs := by
    intro hs
    induction hs with
    | nil => exact fun packed _ => (List.append_nil packed).symm
    | cons h hs ih =>
        intro packed some
        rw [List.foldl_cons, ih _ (by simp), if_neg some]
        simp [pairs]
  rw [packHeaders, List.foldl_cons, rest _ _ (by simp)]
  simp

/-- The last pair. -/
theorem unpackLoop_last {turns : Nat} (ok : Packable h) :
    unpackLoop (turns + 1) out (h.name ++ 0 :: h.value) =
      addValue out (lowerHeaderName h.name) h.value := by
  have tail : (h.name ++ 0 :: h.value).drop (h.name.length + 1) = h.value := by simp
  rw [unpackLoop, findIdx?_cut ok.name]
  simp only [tail, findIdx?_free ok.value, List.take_left']

/-- A pair that others follow. -/
theorem unpackLoop_pair {turns : Nat} (ok : Packable h) (rest : Bytes) :
    unpackLoop (turns + 1) out (h.name ++ 0 :: h.value ++ 0 :: rest) =
      unpackLoop turns (addValue out (lowerHeaderName h.name) h.value) rest := by
  have whole : h.name ++ 0 :: h.value ++ 0 :: rest = h.name ++ 0 :: (h.value ++ 0 :: rest) := by simp
  have tail : (h.name ++ 0 :: (h.value ++ 0 :: rest)).drop (h.name.length + 1) =
      h.value ++ 0 :: rest := by simp
  have behind : (h.value ++ 0 :: rest).drop (h.value.length + 1) = rest := by simp
  rw [whole, unpackLoop, findIdx?_cut ok.name]
  simp only [tail, findIdx?_cut ok.value, List.take_left', behind]

/-- What the loop makes of all pairs. -/
theorem unpackLoop_pairs (ok : Packable h) (oks : ∀ x ∈ hs, Packable x) {turns : Nat}
    (enough : hs.length < turns) :
    unpackLoop turns out (h.name ++ 0 :: h.value ++ pairs hs) =
      (h :: hs).foldl (fun out h => addValue out (lowerHeaderName h.name) h.value) out := by
  induction hs generalizing h turns out with
  | nil =>
      obtain ⟨turns, rfl⟩ := Nat.exists_eq_add_one_of_ne_zero (Nat.ne_of_gt enough)
      rw [pairs, List.flatMap_nil, List.append_nil, unpackLoop_last ok]
      rfl
  | cons x hs ih =>
      obtain ⟨turns, rfl⟩ := Nat.exists_eq_add_one_of_ne_zero (Nat.ne_zero_of_lt enough)
      have next : pairs (x :: hs) = 0 :: (x.name ++ 0 :: x.value ++ pairs hs) := by simp [pairs]
      rw [next, unpackLoop_pair ok, ih (oks x List.mem_cons_self)
        (fun y hy => oks y (List.mem_cons_of_mem x hy)) (Nat.lt_of_succ_lt_succ enough)]
      rfl

/-- The values of a name, in order of arrival. -/
def valuesOf (hs : List Header) (name : Bytes) : List Bytes :=
  (hs.filter fun h => h.name.map Engine.lower = name).map Header.value

theorem lowerHeaderName_eq (name : Bytes) : lowerHeaderName name = name.map Engine.lower := by
  rw [lowerHeaderName]
  split
  · rfl
  · rename_i low
    have same : ∀ b ∈ name, Engine.lower b = b := by
      intro b hb
      rw [Engine.lower, if_neg]
      intro upper
      exact low (List.any_eq_true.mpr ⟨b, hb, by simpa using upper⟩)
    exact ((List.map_congr_left same).trans (List.map_id name)).symm

/-- The map after any number of pairs. -/
theorem find_addValues (name : Bytes) :
    (hs.foldl (fun out h => addValue out (lowerHeaderName h.name) h.value) out).find name =
      if valuesOf hs name = [] then out.find name
      else some ((out.find name).getD [] ++ valuesOf hs name) := by
  induction hs generalizing out with
  | nil => rfl
  | cons h hs ih =>
      rw [List.foldl_cons, ih, addValue, Table.find_set, lowerHeaderName_eq]
      by_cases here : h.name.map Engine.lower = name
      · have own : valuesOf (h :: hs) name = h.value :: valuesOf hs name := by
          simp [valuesOf, here]
        rw [own, here, if_pos rfl]
        by_cases last : valuesOf hs name = []
        · simp [last]
        · simp [last]
      · have other : valuesOf (h :: hs) name = valuesOf hs name := by simp [valuesOf, here]
        rw [other, if_neg (Ne.symm here)]

theorem unpack_pack (ok : ∀ h ∈ hs, Packable h) (name : Bytes) :
    (unpackHeaders (packHeaders hs)).find name =
      if valuesOf hs name = [] then none else some (valuesOf hs name) := by
  cases hs with
  | nil => rfl
  | cons h hs =>
      have long : hs.length < (packHeaders (h :: hs)).length := by
        have each : hs.length ≤ (pairs hs).length := by
          clear ok
          induction hs with
          | nil => exact le_rfl
          | cons x hs ih =>
              simp only [pairs, List.flatMap_cons, List.length_append, List.length_cons] at ih ⊢
              omega
        rw [packHeaders_cons]
        simp only [List.length_append, List.length_cons]
        omega
      rw [unpackHeaders, if_neg (List.ne_nil_of_length_pos (Nat.zero_lt_of_lt long))]
      rw [packHeaders_cons] at long ⊢
      rw [unpackLoop_pairs (ok h List.mem_cons_self)
        (fun x hx => ok x (List.mem_cons_of_mem h hx)) long, find_addValues]
      rfl

/-! ### What the parser lets through -/

theorem mem_trim {b : UInt8} {s : Bytes} (h : b ∈ Engine.trim s) : b ∈ s := by
  rw [Engine.trim, List.mem_reverse] at h
  have inner := (List.dropWhile_sublist _).subset h
  rw [List.mem_reverse] at inner
  exact (List.dropWhile_sublist _).subset inner

theorem parseField_packable {line : Bytes} (parsed : Engine.parseField line = some h) :
    Packable h := by
  rw [Engine.parseField] at parsed
  split at parsed
  · cases parsed
  rename_i clean
  have free : 0 ∉ line := by
    intro nul
    exact clean (List.any_eq_true.mpr ⟨0, nul, rfl⟩)
  split at parsed
  · cases parsed
  split at parsed
  · cases parsed
  · cases parsed
  · rename_i colon _ _
    split at parsed
    · cases parsed
    dsimp only at parsed
    split at parsed
    · cases parsed
    split at parsed
    · cases parsed
    · cases parsed
      exact ⟨fun nul => free ((List.take_sublist _ _).subset nul),
        fun nul => free ((List.drop_sublist _ _).subset (mem_trim nul))⟩

theorem parseFields_packable (fuel : Nat) {rest : Bytes}
    (parsed : Engine.parseFields fuel rest = some hs) : ∀ h ∈ hs, Packable h := by
  induction fuel generalizing rest hs with
  | zero =>
      cases parsed
      intro h none
      cases none
  | succ fuel ih =>
      rw [Engine.parseFields] at parsed
      split at parsed
      · split at parsed
        · cases parsed
          intro h none
          cases none
        · obtain ⟨h, field, rfl⟩ := Option.map_eq_some_iff.mp parsed
          intro x hx
          rw [List.mem_singleton.mp hx]
          exact parseField_packable field
      · cases parsed
        intro h none
        cases none
      · obtain ⟨h, field, parsed⟩ := Option.bind_eq_some_iff.mp parsed
        obtain ⟨hs', fields, parsed⟩ := Option.bind_eq_some_iff.mp parsed
        cases parsed
        intro x hx
        rcases List.mem_cons.mp hx with rfl | hx
        · exact parseField_packable field
        · exact ih fields x hx

theorem parseRequestHead_packable (raw : Bytes) (headEnd : Nat) :
    ∀ h ∈ (Engine.parseRequestHead raw headEnd).headers, Packable h := by
  have none : ∀ h ∈ ([] : List Header), Packable h := fun h nil => by cases nil
  unfold Engine.parseRequestHead Engine.parseHead
  dsimp only
  repeat' split
  all_goals first
    | exact none
    | exact parseFields_packable _ ‹_›
    | exact Option.some.inj ‹some [] = some _› ▸ none

/-- The handler's map of a request: the values of every name, whatever its case, in order of
arrival, and no other entry. -/
theorem request_headers_cross (raw : Bytes) (headEnd : Nat) (name : Bytes) :
    (unpackHeaders (packHeaders (Engine.parseRequestHead raw headEnd).headers)).find name =
      if valuesOf (Engine.parseRequestHead raw headEnd).headers name = [] then none
      else some (valuesOf (Engine.parseRequestHead raw headEnd).headers name) :=
  unpack_pack (parseRequestHead_packable raw headEnd) name

example : (unpackHeaders (packHeaders (Engine.parseRequestHead
      (ascii "GET / HTTP/1.1\r\nCookie: a=1\r\ncookie: b=2\r\nX-Empty:\r\n\r\n") 50).headers)).entries =
    [(ascii "cookie", [ascii "a=1", ascii "b=2"]), (ascii "x-empty", [[]])] := by
  decide +kernel

end NitroServer.Bridge
