/-
`_relativePath` (`static_files.dart`): the path of a static file, below the mount point.

The engine matches a path by its segments: empty ones are dropped, and a parameter takes any. The
function takes the mount point off as text, the pattern up to its `*`. Where the path does not
start with that text (`//files/a`, `/u/7/a` for `/u/:id/*`, `/files` for `/files/*`), nothing is
taken off, and the file's path starts with the mount point.

* `split_utf8Encode` — the engine's segments are the ones the function walks over.
* `relativeSegments_ok`, `relativeSegments_null`, `relativeSegments_throws` — what a walk gives.
* `relative_path_iff` — when a call gives null or the decoded segments below the mount point. It
  also throws: escapes that are not UTF-8 are a `FormatException`, which is not caught.
-/

import NitroServer.Api.Query
import NitroServer.Api.Text
import NitroServer.Bridge.Subprotocol
import NitroServer.Router.Match

namespace NitroServer.Api

open Bridge (DartString text utf8Encode utf8Encode_append_ascii utf8Encode_cons_ascii
  utf8Encode_ne_nil utf8Encode_first utf8Encode_low)
open Engine (Bytes)
open Lib
open Routing (split splitFrom validPattern slotOf Answered)

/-! ### `Uri.decodeComponent` -/

/-- The loop of `_uriDecode`; `none` is the `ArgumentError`. -/
def componentBytes : DartString → Option Bytes
  | [] => some []
  | u :: s =>
      if 127 < u then none
      else if u = percent then
        match s with
        | a :: b :: s =>
            match hexDigit? a, hexDigit? b with
            | some high, some low => (componentBytes s).map (UInt8.ofNat (16 * high + low) :: ·)
            | _, _ => none
        | _ => none
      else (componentBytes s).map (UInt8.ofNat u.toNat :: ·)

/-- `Uri.decodeComponent`. -/
def decodeComponent (s : DartString) : Except DecodeError DartString :=
  if s.all fun u => u ≤ 127 && u != percent then .ok s
  else
    match componentBytes s with
    | none => .error .argument
    | some bytes =>
        match utf8Decode bytes with
        | none => .error .format
        | some decoded => .ok decoded

/-! ### The function -/

def slashUnit : UInt16 := 0x2f

def starUnit : UInt16 := 0x2a

def dot : UInt16 := 0x2e

def backslash : UInt16 := 0x5c

/-- What the loop does with a piece. -/
inductive Turn where
  | skip
  | keep (segment : DartString)
  | refuse
  | throw
deriving DecidableEq, Repr

/-- The body of the loop. -/
def turn (dotfiles : Bool) (raw : DartString) : Turn :=
  if raw = [] then .skip
  else
    match decodeComponent raw with
    | .error .argument => .refuse
    | .error .format => .throw
    | .ok segment =>
        if segment = [] ∨ segment = [dot] then .skip
        else if segment = [dot, dot] ∨ slashUnit ∈ segment ∨ backslash ∈ segment ∨ 0 ∈ segment then
          .refuse
        else if dotfiles = false ∧ segment.head? = some dot then .refuse
        else .keep segment

/-- What the loop adds to `segments`; null when it returns. -/
def relativeSegments (dotfiles : Bool) :
    List DartString → Except DecodeError (Option (List DartString))
  | [] => .ok (some [])
  | raw :: rest =>
      match turn dotfiles raw with
      | .skip => relativeSegments dotfiles rest
      | .keep segment => (relativeSegments dotfiles rest).map (·.map (segment :: ·))
      | .refuse => .ok none
      | .throw => .error .format

/-- The path starts with the text of the pattern up to its `*`. -/
def Stripped (pattern path : DartString) : Prop :=
  pattern.getLast? = some starUnit ∧ pattern.dropLast <+: path

instance (pattern path : DartString) : Decidable (Stripped pattern path) :=
  inferInstanceAs (Decidable (_ ∧ _))

/-- The path without that text. -/
def belowMount (pattern path : DartString) : DartString :=
  if Stripped pattern path then path.drop pattern.dropLast.length else path

/-- `_relativePath`. -/
def relativePath (pattern path : DartString) (dotfiles : Bool) :
    Except DecodeError (Option DartString) :=
  (relativeSegments dotfiles (splitAtSep slashUnit (belowMount pattern path))).map
    (·.map [slashUnit].intercalate)

/-! ### What it is to give -/

/-- The segments of a path. -/
def segmentsOf (path : DartString) : List DartString :=
  (splitAtSep slashUnit path).filter fun raw => decide (raw ≠ [])

/-- How many segments the engine takes for the mount point. -/
def fixedSegments (pattern : DartString) : Nat := (split (utf8Encode pattern)).length - 1

/-- A segment that names a file or a directory below another. -/
structure CleanSegment (dotfiles : Bool) (s : DartString) : Prop where
  full : s ≠ []
  here : s ≠ [dot]
  up : s ≠ [dot, dot]
  slash : slashUnit ∉ s
  backslash : backslash ∉ s
  nul : 0 ∉ s
  hidden : dotfiles = false → s.head? ≠ some dot

/-- It decodes to "." or to nothing. -/
def Dropped (raw : DartString) : Prop :=
  decodeComponent raw = .ok [] ∨ decodeComponent raw = .ok [dot]

/-- Decoded once each, without the ones that are dropped. -/
inductive Decodes : List DartString → List DartString → Prop
  | nil : Decodes [] []
  | drop {raw : DartString} {raws segments : List DartString} (dropped : Dropped raw)
      (rest : Decodes raws segments) : Decodes (raw :: raws) segments
  | keep {raw segment : DartString} {raws segments : List DartString}
      (out : decodeComponent raw = .ok segment) (full : segment ≠ []) (here : segment ≠ [dot])
      (rest : Decodes raws segments) : Decodes (raw :: raws) (segment :: segments)

/-- The outcomes of a call. -/
inductive Derived (dotfiles : Bool) (pattern path : DartString) :
    Except DecodeError (Option DartString) → Prop
  | refused : Derived dotfiles pattern path (.ok none)
  | below {segments : List DartString} (clean : ∀ s ∈ segments, CleanSegment dotfiles s)
      (decodes : Decodes ((segmentsOf path).drop (fixedSegments pattern)) segments) :
      Derived dotfiles pattern path (.ok (some ([slashUnit].intercalate segments)))

/-! ### Walks -/

/-- A piece at which the walk returns null. -/
def Refused (dotfiles : Bool) (raw : DartString) : Prop := turn dotfiles raw = .refuse

/-- A piece whose escapes are not UTF-8. -/
def BadComponent (raw : DartString) : Prop := decodeComponent raw = .error .format

/-- No piece is met whose escapes are not UTF-8. -/
def Safe (dotfiles : Bool) (raws : List DartString) : Prop :=
  ∀ before raw after, raws = before ++ raw :: after → BadComponent raw →
    ∃ r ∈ before, Refused dotfiles r

variable {dotfiles : Bool}

theorem turn_eq_throw {raw : DartString} : turn dotfiles raw = .throw ↔ BadComponent raw := by
  rw [BadComponent, turn]
  by_cases empty : raw = []
  · subst empty
    rw [if_pos rfl]
    exact iff_of_false nofun nofun
  · rw [if_neg empty]
    split
    · rename_i out
      exact iff_of_false nofun (by rw [out]; nofun)
    · rename_i out
      exact iff_of_true rfl out
    · rename_i segment out
      rw [out]
      refine iff_of_false ?_ nofun
      split
      · nofun
      split
      · nofun
      split
      · nofun
      · nofun

/-- A piece that is kept decodes to a clean segment. -/
theorem turn_eq_keep {raw segment : DartString} (keep : turn dotfiles raw = .keep segment) :
    decodeComponent raw = .ok segment ∧ CleanSegment dotfiles segment := by
  rw [turn] at keep
  split at keep
  · cases keep
  split at keep
  · cases keep
  · cases keep
  rename_i decoded out
  split at keep
  · cases keep
  rename_i plain
  split at keep
  · cases keep
  rename_i inside
  split at keep
  · cases keep
  rename_i shown
  cases keep
  simp only [not_or] at plain inside
  exact ⟨out, plain.1, plain.2, inside.1, inside.2.1, inside.2.2.1, inside.2.2.2,
    fun off head => shown ⟨off, head⟩⟩

/-- A piece that is skipped decodes to "." or to nothing. -/
theorem turn_eq_skip {raw : DartString} (skip : turn dotfiles raw = .skip) (full : raw ≠ []) :
    Dropped raw := by
  rw [turn, if_neg full] at skip
  split at skip
  · cases skip
  · cases skip
  rename_i decoded out
  split at skip
  · rename_i dropped
    rw [Dropped, out]
    exact dropped.imp (congrArg _) (congrArg _)
  split at skip
  · cases skip
  split at skip
  · cases skip
  · cases skip

theorem Safe.tail {raw : DartString} {raws : List DartString} (safe : Safe dotfiles (raw :: raws))
    (passed : ¬ Refused dotfiles raw) : Safe dotfiles raws := by
  rintro before bad after rfl bad_
  obtain ⟨r, mem, refused⟩ := safe (raw :: before) bad after rfl bad_
  rcases List.mem_cons.mp mem with rfl | mem
  · exact absurd refused passed
  · exact ⟨r, mem, refused⟩

theorem Safe.head {raw : DartString} {raws : List DartString} (safe : Safe dotfiles (raw :: raws)) :
    ¬ BadComponent raw := by
  intro bad
  obtain ⟨r, mem, -⟩ := safe [] raw raws rfl bad
  cases mem

theorem safe_cons {raw : DartString} {raws : List DartString} (good : ¬ BadComponent raw)
    (rest : Refused dotfiles raw ∨ Safe dotfiles raws) : Safe dotfiles (raw :: raws) := by
  intro before bad after shape bad_
  cases before with
  | nil =>
      obtain ⟨rfl, -⟩ := List.cons.inj shape
      exact absurd bad_ good
  | cons first before =>
      obtain ⟨rfl, later⟩ := List.cons.inj shape
      rcases rest with refused | safe
      · exact ⟨raw, List.mem_cons_self, refused⟩
      · obtain ⟨r, mem, refused⟩ := safe before bad after later bad_
        exact ⟨r, List.mem_cons_of_mem raw mem, refused⟩

/-- A walk throws when it meets escapes that are not UTF-8. -/
theorem relativeSegments_throws {raws : List DartString} (unsafe_ : ¬ Safe dotfiles raws) :
    relativeSegments dotfiles raws = .error .format := by
  induction raws with
  | nil =>
      refine absurd ?_ unsafe_
      intro before raw after shape
      exact absurd (congrArg List.length shape) (by simp)
  | cons raw raws ih =>
      rw [relativeSegments]
      by_cases bad : BadComponent raw
      · rw [turn_eq_throw.mpr bad]
      cases out : turn dotfiles raw with
      | throw => rfl
      | refuse => exact absurd (safe_cons bad (.inl out)) unsafe_
      | skip => exact ih fun safe => unsafe_ (safe_cons bad (.inr safe))
      | keep segment =>
          rw [ih fun safe => unsafe_ (safe_cons bad (.inr safe))]
          rfl

/-- It returns null when it meets a piece that is refused. -/
theorem relativeSegments_null {raws : List DartString} (safe : Safe dotfiles raws)
    (refused : ∃ r ∈ raws, Refused dotfiles r) : relativeSegments dotfiles raws = .ok none := by
  induction raws with
  | nil =>
      obtain ⟨r, mem, -⟩ := refused
      cases mem
  | cons raw raws ih =>
      have later : ¬ Refused dotfiles raw → ∃ r ∈ raws, Refused dotfiles r := by
        intro passed
        obtain ⟨r, mem, refused⟩ := refused
        rcases List.mem_cons.mp mem with rfl | mem
        · exact absurd refused passed
        · exact ⟨r, mem, refused⟩
      rw [relativeSegments]
      cases out : turn dotfiles raw with
      | refuse => rfl
      | throw => exact absurd (turn_eq_throw.mp out) safe.head
      | skip =>
          have passed : ¬ Refused dotfiles raw := by rw [Refused, out]; exact nofun
          exact ih (safe.tail passed) (later passed)
      | keep segment =>
          have passed : ¬ Refused dotfiles raw := by rw [Refused, out]; exact nofun
          rw [ih (safe.tail passed) (later passed)]
          rfl

/-- Otherwise it returns the decoded segments. -/
theorem relativeSegments_ok {raws : List DartString} (safe : Safe dotfiles raws)
    (passed : ∀ r ∈ raws, ¬ Refused dotfiles r) :
    ∃ segments, relativeSegments dotfiles raws = .ok (some segments) ∧
      (∀ s ∈ segments, CleanSegment dotfiles s) ∧
      Decodes (raws.filter fun raw => decide (raw ≠ [])) segments := by
  induction raws with
  | nil => exact ⟨[], rfl, fun s mem => absurd mem List.not_mem_nil, .nil⟩
  | cons raw raws ih =>
      obtain ⟨here, later⟩ := List.forall_mem_cons.mp passed
      obtain ⟨segments, rest, clean, decodes⟩ := ih (safe.tail here) later
      rw [relativeSegments]
      cases out : turn dotfiles raw with
      | refuse => exact absurd out here
      | throw => exact absurd (turn_eq_throw.mp out) safe.head
      | skip =>
          refine ⟨segments, rest, clean, ?_⟩
          by_cases empty : raw = []
          · rw [List.filter_cons_of_neg (by simp [empty])]
            exact decodes
          · rw [List.filter_cons_of_pos (by simp [empty])]
            exact .drop (turn_eq_skip out empty) decodes
      | keep segment =>
          obtain ⟨decoded, clean_⟩ := turn_eq_keep out
          have full : raw ≠ [] := by
            rintro rfl
            rw [turn, if_pos rfl] at out
            cases out
          rw [List.filter_cons_of_pos (by simp [full])]
          exact ⟨segment :: segments, by simp only [rest]; rfl,
            List.forall_mem_cons.mpr ⟨clean_, clean⟩, .keep decoded clean_.full clean_.here decodes⟩

/-! ### Segments -/

theorem segmentsOf_append (a b : DartString) :
    segmentsOf (a ++ slashUnit :: b) = segmentsOf a ++ segmentsOf b := by
  rw [segmentsOf, splitAtSep_append, List.filter_append]
  rfl

theorem segmentsOf_single {s : DartString} (free : slashUnit ∉ s) :
    segmentsOf s = if s = [] then [] else [s] := by
  have pieces : splitAtSep slashUnit s = [s] := by
    apply splitAtSep_none
    rintro u mem rfl
    exact free mem
  rw [segmentsOf, pieces]
  by_cases empty : s = []
  · rw [if_pos empty, List.filter_cons_of_neg (by simp [empty]), List.filter_nil]
  · rw [if_neg empty, List.filter_cons_of_pos (by simp [empty]), List.filter_nil]

/-- Joined segments are found again. -/
theorem segmentsOf_join {segments : List DartString}
    (clean : ∀ s ∈ segments, s ≠ [] ∧ slashUnit ∉ s) :
    segmentsOf ([slashUnit].intercalate segments) = segments := by
  cases segments with
  | nil => rfl
  | cons s segments =>
      rw [segmentsOf, splitAtSep_intercalate (List.cons_ne_nil _ _) fun t mem => (clean t mem).2,
        List.filter_eq_self]
      exact fun t mem => decide_eq_true (clean t mem).1

theorem join_injective {segments others : List DartString}
    (clean : ∀ s ∈ segments, CleanSegment dotfiles s) (clean' : ∀ s ∈ others, CleanSegment dotfiles s)
    (same : [slashUnit].intercalate segments = [slashUnit].intercalate others) :
    segments = others := by
  rw [← segmentsOf_join fun s mem => ⟨(clean s mem).full, (clean s mem).slash⟩, same,
    segmentsOf_join fun s mem => ⟨(clean' s mem).full, (clean' s mem).slash⟩]

/-! ### Decoding -/

theorem decodes_append {raws more segments : List DartString} :
    Decodes (raws ++ more) segments ↔
      ∃ first last, Decodes raws first ∧ Decodes more last ∧ segments = first ++ last := by
  constructor
  · intro decodes
    induction raws generalizing segments with
    | nil => exact ⟨[], segments, .nil, decodes, rfl⟩
    | cons raw raws ih =>
        cases decodes with
        | drop dropped rest =>
            obtain ⟨first, last, front, back, rfl⟩ := ih rest
            exact ⟨first, last, .drop dropped front, back, rfl⟩
        | keep out full here rest =>
            obtain ⟨first, last, front, back, rfl⟩ := ih rest
            exact ⟨_ :: first, last, .keep out full here front, back, rfl⟩
  · rintro ⟨first, last, front, back, rfl⟩
    induction front with
    | nil => exact back
    | drop dropped rest ih => exact .drop dropped ih
    | keep out full here rest ih => exact .keep out full here ih

theorem not_dropped {raw segment : DartString} (out : decodeComponent raw = .ok segment)
    (full : segment ≠ []) (here : segment ≠ [dot]) : ¬ Dropped raw := by
  rw [Dropped, out]
  rintro (same | same)
  · exact full (Except.ok.inj same)
  · exact here (Except.ok.inj same)

theorem decodes_unique {raws segments others : List DartString} (one : Decodes raws segments)
    (two : Decodes raws others) : segments = others := by
  induction one generalizing others with
  | nil => cases two; rfl
  | drop dropped rest ih =>
      cases two with
      | drop _ rest' => exact ih rest'
      | keep out full here rest' => exact absurd dropped (not_dropped out full here)
  | keep out full here rest ih =>
      cases two with
      | drop dropped _ => exact absurd dropped (not_dropped out full here)
      | keep out' _ _ rest' =>
          rw [out] at out'
          rw [Except.ok.inj out', ih rest']

theorem decodes_nil_iff {raws : List DartString} : Decodes raws [] ↔ ∀ raw ∈ raws, Dropped raw := by
  constructor
  · intro decodes
    generalize shape : ([] : List DartString) = segments at decodes
    induction decodes with
    | nil => exact fun raw mem => absurd mem List.not_mem_nil
    | drop dropped rest ih => exact List.forall_mem_cons.mpr ⟨dropped, ih shape⟩
    | keep => cases shape
  · intro dropped
    induction raws with
    | nil => exact .nil
    | cons raw raws ih =>
        obtain ⟨here, later⟩ := List.forall_mem_cons.mp dropped
        exact .drop here (ih later)

/-! ### The engine's segments -/

theorem splitFrom_eq (seg path : Bytes) (free : Routing.slash ∉ seg) :
    splitFrom seg path =
      ((splitAtSep Routing.slash path).modifyHead (seg ++ ·)).filter fun s => decide (s ≠ []) := by
  induction path generalizing seg with
  | nil =>
      rw [splitFrom, splitAtSep, List.modifyHead_cons, List.append_nil]
      by_cases empty : seg = []
      · rw [if_pos empty, List.filter_cons_of_neg (by simp [empty]), List.filter_nil]
      · rw [if_neg empty, List.filter_cons_of_pos (by simp [empty]), List.filter_nil]
  | cons b path ih =>
      rw [splitFrom, splitAtSep]
      by_cases cut : b = Routing.slash
      · rw [if_pos cut, if_pos cut, ih [] List.not_mem_nil, List.modifyHead_cons, List.append_nil]
        have same : (splitAtSep Routing.slash path).modifyHead (([] : Bytes) ++ ·) =
            splitAtSep Routing.slash path := by
          cases splitAtSep Routing.slash path with
          | nil => rfl
          | cons piece pieces => rfl
        rw [same]
        by_cases empty : seg = []
        · rw [if_pos empty, List.filter_cons_of_neg (by simp [empty])]
        · rw [if_neg empty, List.filter_cons_of_pos (by simp [empty])]
      · rw [if_neg cut, if_neg cut, ih (seg ++ [b])]
        · cases pieces : splitAtSep Routing.slash path with
          | nil => exact absurd pieces (splitAtSep_ne_nil _ _)
          | cons piece pieces =>
              simp only [List.modifyHead_cons, List.append_assoc, List.singleton_append]
        · rw [List.mem_append, List.mem_singleton]
          rintro (mem | same)
          · exact free mem
          · exact cut same.symm

theorem splitAtSep_utf8Encode (s : DartString) :
    splitAtSep Routing.slash (utf8Encode s) = (splitAtSep slashUnit s).map utf8Encode := by
  have free : ∀ t : DartString, slashUnit ∉ t → Routing.slash ∉ utf8Encode t := by
    intro t absent mem
    obtain ⟨u, at_, same⟩ := utf8Encode_low (by decide) mem
    have unit : u = slashUnit := UInt16.toNat_inj.mp same
    exact absent (unit ▸ at_)
  have whole : ∀ t : DartString, slashUnit ∉ t →
      splitAtSep Routing.slash (utf8Encode t) = (splitAtSep slashUnit t).map utf8Encode := by
    intro t absent
    have bytes : ∀ b ∈ utf8Encode t, b ≠ Routing.slash := by
      rintro b mem rfl
      exact free t absent mem
    have units : ∀ u ∈ t, u ≠ slashUnit := by
      rintro u mem rfl
      exact absent mem
    rw [splitAtSep_none bytes, splitAtSep_none units, List.map_singleton]
  induction hs : s.length using Nat.strong_induction_on generalizing s with
  | _ n ih =>
      by_cases cut : slashUnit ∈ s
      · obtain ⟨a, b, rfl, absent⟩ := List.eq_append_cons_of_mem cut
        have shorter : b.length < n := by
          rw [← hs, List.length_append, List.length_cons]
          omega
        have byte : UInt8.ofNat slashUnit.toNat = Routing.slash := rfl
        rw [utf8Encode_append_ascii (by decide), byte, splitAtSep_append, splitAtSep_append,
          List.map_append, whole a absent, ih b.length shorter b rfl]
      · exact whole s cut

/-- The engine's segments of a text are the text's. -/
theorem split_utf8Encode (s : DartString) : split (utf8Encode s) = (segmentsOf s).map utf8Encode := by
  have same : ∀ pieces : List Bytes, pieces.modifyHead (([] : Bytes) ++ ·) = pieces := by
    intro pieces
    cases pieces with
    | nil => rfl
    | cons piece pieces => rfl
  have full : ∀ t : DartString, decide (utf8Encode t ≠ []) = decide (t ≠ []) := by
    intro t
    rw [decide_eq_decide]
    constructor
    · rintro encoded rfl
      exact encoded rfl
    · exact utf8Encode_ne_nil
  rw [split, splitFrom_eq [] _ List.not_mem_nil, same, splitAtSep_utf8Encode, segmentsOf,
    List.filter_map]
  congr 1
  exact List.filter_congr fun t _ => full t

/-- A pattern that ends in `*`, its last segment: what is in front of the `*` ends in a slash and
has all the other segments. -/
theorem segmentsOf_mount {pattern : DartString} (valid : validPattern (utf8Encode pattern) = true)
    (wild : (split (utf8Encode pattern)).getLast? = some [Routing.star])
    (last : pattern.getLast? = some starUnit) :
    ∃ front, pattern.dropLast = front ++ [slashUnit] ∧
      (segmentsOf front).length = fixedSegments pattern := by
  have head : pattern.head? = some slashUnit := by
    rw [validPattern, Bool.and_eq_true_iff, decide_eq_true_eq] at valid
    obtain ⟨u, first, same⟩ := utf8Encode_first (by decide) valid.1
    have unit : u = slashUnit := UInt16.toNat_inj.mp same
    rw [first, unit]
  -- the last slash
  obtain ⟨tail, front, back, free⟩ := List.eq_append_cons_of_mem
    (List.mem_reverse.mpr (List.mem_of_head? head))
  have shape : pattern = front.reverse ++ slashUnit :: tail.reverse := by
    rw [← List.reverse_reverse pattern, back]
    simp
  have ends : tail.reverse ≠ [] := by
    intro empty
    rw [shape, empty, List.getLast?_concat] at last
    exact absurd (Option.some.inj last) (by decide)
  have segments : segmentsOf pattern = segmentsOf front.reverse ++ [tail.reverse] := by
    rw [shape, segmentsOf_append, segmentsOf_single fun mem => free (List.mem_reverse.mp mem),
      if_neg ends]
  have star : tail.reverse = [starUnit] := by
    rw [split_utf8Encode, segments, List.map_append, List.map_singleton, List.getLast?_concat] at wild
    have encoded := Option.some.inj wild
    obtain ⟨u, first, same⟩ := utf8Encode_first (b := Routing.star) (by decide)
      (s := tail.reverse) (by rw [encoded]; rfl)
    have unit : u = starUnit := UInt16.toNat_inj.mp same
    obtain ⟨rest, whole⟩ : ∃ rest, tail.reverse = starUnit :: rest :=
      List.head?_eq_some_iff.mp (unit ▸ first)
    rw [whole, utf8Encode_cons_ascii (by decide)] at encoded
    have nothing : rest = [] := by
      by_contra more
      exact utf8Encode_ne_nil more (List.cons.inj encoded).2
    rw [whole, nothing]
  refine ⟨front.reverse, ?_, ?_⟩
  · have two : pattern = (front.reverse ++ [slashUnit]) ++ [starUnit] := by
      rw [shape, star, List.append_assoc]
      rfl
    rw [two, List.dropLast_concat]
  · rw [fixedSegments, split_utf8Encode, List.length_map, segments, List.length_append,
      List.length_singleton, Nat.add_sub_cancel]

/-! ### Calls -/

/-- The pieces that the loop walks over. -/
def walked (pattern path : DartString) : List DartString :=
  splitAtSep slashUnit (belowMount pattern path)

/-- Every segment the engine takes for the mount point is one that is dropped. -/
def MountDropped (pattern path : DartString) : Prop :=
  ∀ raw ∈ (segmentsOf path).take (fixedSegments pattern), Dropped raw

/-- The outcome of a call for a wildcard pattern that the router accepts. It is as it is to be
exactly when no escapes are met that are not UTF-8, and a piece is refused, or the mount point is
there as the pattern has it, or all of it is dropped. -/
theorem relative_path_iff (dotfiles : Bool) {pattern : DartString} (path : DartString)
    (valid : validPattern (utf8Encode pattern) = true)
    (wild : (split (utf8Encode pattern)).getLast? = some [Routing.star]) :
    Derived dotfiles pattern path (relativePath pattern path dotfiles) ↔
      Safe dotfiles (walked pattern path) ∧
        ((∃ raw ∈ walked pattern path, Refused dotfiles raw) ∨ Stripped pattern path ∨
          MountDropped pattern path) := by
  rw [relativePath, ← walked]
  by_cases safe : Safe dotfiles (walked pattern path)
  · rw [and_iff_right safe]
    by_cases refused : ∃ raw ∈ walked pattern path, Refused dotfiles raw
    · rw [relativeSegments_null safe refused]
      exact iff_of_true .refused (.inl refused)
    have passed : ∀ raw ∈ walked pattern path, ¬ Refused dotfiles raw :=
      fun raw mem at_ => refused ⟨raw, mem, at_⟩
    obtain ⟨segments, out, clean, decodes⟩ := relativeSegments_ok safe passed
    rw [out, or_iff_right refused]
    by_cases stripped : Stripped pattern path
    · refine iff_of_true (.below clean ?_) (.inl stripped)
      obtain ⟨front, mount, count⟩ := segmentsOf_mount valid wild stripped.1
      obtain ⟨rest, whole⟩ := stripped.2
      have below : belowMount pattern path = rest := by
        rw [belowMount, if_pos stripped, ← whole, List.drop_left]
      have segments_ : (segmentsOf path).drop (fixedSegments pattern) = segmentsOf rest := by
        rw [← whole, mount, List.append_assoc, List.singleton_append, segmentsOf_append, ← count,
          List.drop_left]
      rw [segments_, segmentsOf, ← below]
      exact decodes
    · rw [or_iff_right stripped]
      have all : Decodes (segmentsOf path) segments := by
        rw [walked, belowMount, if_neg stripped] at decodes
        exact decodes
      rw [← List.take_append_drop (fixedSegments pattern) (segmentsOf path)] at all
      obtain ⟨first, last, mount, below, rfl⟩ := decodes_append.mp all
      rw [MountDropped, ← decodes_nil_iff]
      constructor
      · intro derived
        generalize shape : Except.map (·.map [slashUnit].intercalate)
          (Except.ok (some (first ++ last)) : Except DecodeError (Option (List DartString))) = call
            at derived
        cases derived with
        | refused => cases shape
        | below clean' decodes' =>
            have same := join_injective clean clean' (Option.some.inj (Except.ok.inj shape))
            rw [decodes_unique decodes' below, List.append_left_eq_self] at same
            exact same ▸ mount
      · intro nothing
        obtain rfl := decodes_unique mount nothing
        exact .below clean below
  · rw [relativeSegments_throws safe]
    refine iff_of_false ?_ fun both => safe both.1
    exact nofun

theorem relative_path_iff_files :
    Derived false (text "/files/*") (text "/files/a.txt")
        (relativePath (text "/files/*") (text "/files/a.txt") false) ↔
      Safe false (walked (text "/files/*") (text "/files/a.txt")) ∧
        ((∃ raw ∈ walked (text "/files/*") (text "/files/a.txt"), Refused false raw) ∨
          Stripped (text "/files/*") (text "/files/a.txt") ∨
          MountDropped (text "/files/*") (text "/files/a.txt")) :=
  relative_path_iff false (text "/files/a.txt") (by decide +kernel) (by decide +kernel)

/-- The bare mount point, which the engine matches, is taken for a file below it; and an escape
that is not UTF-8 is thrown. -/
theorem mount_served :
    Answered (slotOf (utf8Encode (text "/files/*"))) (split (utf8Encode (text "/files"))) = true ∧
      ¬ Derived false (text "/files/*") (text "/files")
        (relativePath (text "/files/*") (text "/files") false) ∧
      relativePath (text "/files/*") (text "/files/%ff") false = .error .format := by
  have out : relativePath (text "/files/*") (text "/files") false = .ok (some (text "files")) := by
    decide +kernel
  have below : (segmentsOf (text "/files")).drop (fixedSegments (text "/files/*")) = [] := by
    decide +kernel
  refine ⟨by decide +kernel, ?_, by decide +kernel⟩
  rw [out]
  intro derived
  generalize shape : (Except.ok (some (text "files")) : Except DecodeError (Option DartString)) = call
    at derived
  cases derived with
  | refused => cases shape
  | below clean decodes =>
      rw [below] at decodes
      cases decodes
      have same := Option.some.inj (Except.ok.inj shape)
      exact absurd same (by decide)

end NitroServer.Api
