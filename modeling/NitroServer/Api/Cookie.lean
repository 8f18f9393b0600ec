/-
`SetCookie` (`context.dart`): what `toHeaderValue` writes of a cookie that passes its check, read
back as RFC 6265, section 5.2, has a user agent do it.

* `readSetCookie` — the reader: pieces between semicolons, each cut at its first equals sign,
  white space trimmed.
* `toHeaderValue_eq` — the header is the pair and the attributes, joined by "; ".
* `setCookie_read` — an accepted cookie is read back with its name, its value and exactly the
  attributes it was built with, `Domain` and `Path` without the spaces around them: the check
  lets spaces pass there, and a reader drops them (`path_trimmed`).
-/

import NitroServer.Api.Text
import NitroServer.Lib.Search

namespace NitroServer.Api

open Bridge (DartString text)
open Lib
open Lib.Decimal (decimalDigits digitUnit)

/-! ### The reader -/

def semicolon : UInt16 := 0x3b

def equals : UInt16 := 0x3d

def isWsp (u : UInt16) : Bool := u == 0x20 || u == 9

/-- Leading and trailing white space removed. -/
def trimWsp (s : DartString) : DartString := (s.dropWhile isWsp).rdropWhile isWsp

/-- A name and a value around the first equals sign, trimmed; without one, a name. -/
def readPair (s : DartString) : DartString × DartString :=
  (trimWsp (s.takeWhile (· ≠ equals)), trimWsp ((s.dropWhile (· ≠ equals)).drop 1))

/-- What a user agent reads of a `set-cookie` value. A pair without an equals sign, or without a
name, has the whole value ignored. -/
def readSetCookie (s : DartString) :
    Option ((DartString × DartString) × List (DartString × DartString)) :=
  match splitAtSep semicolon s with
  | [] => none
  | pair :: attributes =>
      if equals ∉ pair ∨ (readPair pair).1 = [] then none
      else some (readPair pair, attributes.map readPair)

/-! ### The cookie -/

inductive SameSite where
  | strict | lax | none
deriving DecidableEq, Repr

/-- `_sameSiteNames`. -/
def sameSiteName : SameSite → DartString
  | .strict => text "Strict"
  | .lax => text "Lax"
  | .none => text "None"

/-- `SetCookie`. `maxAge` is in microseconds. -/
structure SetCookie where
  name : DartString
  value : DartString
  maxAge : Option Int := none
  expires : Option UtcTime := none
  domain : Option DartString := none
  path : DartString := text "/"
  secure : Bool := false
  httpOnly : Bool := false
  sameSite : Option SameSite := none
deriving DecidableEq, Repr

/-- `Duration.inSeconds` of a duration in microseconds. -/
def inSeconds (micros : Int) : Int := micros.tdiv 1000000

/-- `token` of `validationError`. -/
def isTokenUnit (c : UInt16) : Bool :=
  (c >= 0x30 && c <= 0x39) || (c >= 0x41 && c <= 0x5a) || (c >= 0x61 && c <= 0x7a) ||
    c == 0x21 || (c >= 0x23 && c <= 0x27) || c == 0x2a || c == 0x2b || c == 0x2d || c == 0x2e ||
    c == 0x5e || c == 0x5f || c == 0x60 || c == 0x7c || c == 0x7e

/-- `octet` of `validationError`. -/
def isCookieOctet (c : UInt16) : Bool :=
  c == 0x21 || (c >= 0x23 && c <= 0x2b) || (c >= 0x2d && c <= 0x3a) || (c >= 0x3c && c <= 0x5b) ||
    (c >= 0x5d && c <= 0x7e)

/-- A unit that `domain` and `path` may not have. -/
def isBarred (c : UInt16) : Bool := c < 0x20 || c == 0x7f || c == 0x3b

namespace SetCookie

/-- `validationError`. -/
def validationError (c : SetCookie) : Option DartString :=
  if c.name = [] then some (text "empty cookie name")
  else if c.name.all isTokenUnit = false then
    some (text "cookie name \"" ++ c.name ++ text "\" is not a token")
  else if c.value.all isCookieOctet = false then
    some (text "cookie \"" ++ c.name ++ text "\" value has a byte that is not a cookie-octet")
  else if (c.domain.toList ++ [c.path]).any (·.any isBarred) then
    some (text "cookie \"" ++ c.name ++ text "\" attribute has a control byte or \";\"")
  else none

/-- `toHeaderValue`. -/
def toHeaderValue (c : SetCookie) : DartString :=
  c.name ++ text "=" ++ c.value ++
    (c.expires.elim [] fun expires => text "; Expires=" ++ httpDate expires) ++
    (c.maxAge.elim [] fun maxAge => text "; Max-Age=" ++ intText (inSeconds maxAge)) ++
    (c.domain.elim [] fun domain => text "; Domain=" ++ domain) ++
    text "; Path=" ++ c.path ++
    (if c.secure then text "; Secure" else []) ++
    (if c.httpOnly then text "; HttpOnly" else []) ++
    (c.sameSite.elim [] fun sameSite => text "; SameSite=" ++ sameSiteName sameSite)

/-- The attributes a cookie was built with; a flag has no value. `Domain` and `Path` are given
as `adjust` has them. -/
def attributes (c : SetCookie) (adjust : DartString → DartString) :
    List (String × Option DartString) :=
  (c.expires.toList.map fun expires => ("Expires", some (httpDate expires))) ++
    (c.maxAge.toList.map fun maxAge => ("Max-Age", some (intText (inSeconds maxAge)))) ++
    (c.domain.toList.map fun domain => ("Domain", some (adjust domain))) ++
    [("Path", some (adjust c.path))] ++
    (if c.secure then [("Secure", none)] else []) ++
    (if c.httpOnly then [("HttpOnly", none)] else []) ++
    (c.sameSite.toList.map fun sameSite => ("SameSite", some (sameSiteName sameSite)))

/-- The seven names. -/
def attributeNames : List String :=
  ["Expires", "Max-Age", "Domain", "Path", "Secure", "HttpOnly", "SameSite"]

/-- No attribute occurs twice. -/
theorem attributes_nodup (c : SetCookie) (adjust : DartString → DartString) :
    ((c.attributes adjust).map Prod.fst).Nodup := by
  have one : ∀ {α : Type} (o : Option α) (name : String) (f : α → Option DartString),
      ((o.toList.map fun a => (name, f a)).map Prod.fst).Sublist [name] := by
    intro α o name f
    cases o with
    | none => exact List.nil_sublist _
    | some a => exact List.Sublist.refl _
  have flag : ∀ (b : Bool) (name : String),
      ((if b then [(name, (none : Option DartString))] else []).map Prod.fst).Sublist [name] := by
    intro b name
    cases b with
    | false => exact List.nil_sublist _
    | true => exact List.Sublist.refl _
  have names : ((c.attributes adjust).map Prod.fst).Sublist attributeNames := by
    rw [attributes]
    simp only [List.map_append]
    exact ((((((one _ _ _).append (one _ _ _)).append (one _ _ _)).append
      (List.Sublist.refl ["Path"])).append (flag _ _)).append (flag _ _)).append (one _ _ _)
  exact names.nodup (by decide)

end SetCookie

/-- An attribute in the header. -/
def attributeText (a : String × Option DartString) : DartString :=
  text a.1 ++ a.2.elim [] (equals :: ·)

/-- An attribute as it is read. -/
def asRead (a : String × Option DartString) : DartString × DartString := (text a.1, a.2.getD [])

/-! ### The header in pieces -/

theorem flatMap_toList {α β : Type*} (o : Option α) (f : α → List β) :
    o.toList.flatMap f = o.elim [] f := by
  cases o with
  | none => rfl
  | some a => exact List.append_nil _

theorem flatMap_flag {α β : Type*} (b : Bool) (a : α) (f : α → List β) :
    (if b then [a] else []).flatMap f = if b then f a else [] := by
  cases b with
  | false => rfl
  | true => exact List.append_nil _

theorem toHeaderValue_eq (c : SetCookie) :
    c.toHeaderValue = (c.name ++ equals :: c.value) ++
      (c.attributes id).flatMap fun a => semicolon :: 0x20 :: attributeText a := by
  have expires : text "; Expires=" = semicolon :: 0x20 :: (text "Expires" ++ [equals]) := by decide
  have maxAge : text "; Max-Age=" = semicolon :: 0x20 :: (text "Max-Age" ++ [equals]) := by decide
  have domain : text "; Domain=" = semicolon :: 0x20 :: (text "Domain" ++ [equals]) := by decide
  have path : text "; Path=" = semicolon :: 0x20 :: (text "Path" ++ [equals]) := by decide
  have secure : text "; Secure" = semicolon :: 0x20 :: text "Secure" := by decide
  have httpOnly : text "; HttpOnly" = semicolon :: 0x20 :: text "HttpOnly" := by decide
  have sameSite : text "; SameSite=" = semicolon :: 0x20 :: (text "SameSite" ++ [equals]) := by
    decide
  have pair : text "=" = [equals] := by decide
  rw [SetCookie.toHeaderValue, SetCookie.attributes, expires, maxAge, domain, path, secure,
    httpOnly, sameSite, pair]
  simp only [List.flatMap_append, List.flatMap_map, flatMap_toList, flatMap_flag,
    List.flatMap_cons, attributeText, Option.elim_some, Option.elim_none,
    List.append_nil, List.append_assoc, List.cons_append, List.nil_append, id_eq]

/-- Cut at the semicolons, the header is the pair and the attributes. -/
theorem splitAtSep_pieces {sep : UInt16} {first : DartString} {rest : List DartString}
    (free : ∀ u ∈ first, u ≠ sep) (others : ∀ piece ∈ rest, ∀ u ∈ piece, u ≠ sep) :
    splitAtSep sep (first ++ rest.flatMap (sep :: ·)) = first :: rest := by
  induction rest generalizing first with
  | nil =>
      rw [List.flatMap_nil, List.append_nil]
      exact splitAtSep_none free
  | cons piece rest ih =>
      rw [List.forall_mem_cons] at others
      rw [List.flatMap_cons, List.cons_append, splitAtSep_append, splitAtSep_none free,
        ih others.1 others.2]
      rfl

/-! ### Reading one piece -/

/-- No white space at either end. -/
def Tight (s : DartString) : Prop :=
  (∀ u ∈ s.head?, isWsp u = false) ∧ ∀ u ∈ s.getLast?, isWsp u = false

theorem Tight.of_forall {s : DartString} (plain : ∀ u ∈ s, isWsp u = false) : Tight s :=
  ⟨fun u mem => plain u (List.mem_of_head? mem), fun u mem => plain u (List.mem_of_getLast? mem)⟩

theorem trimWsp_tight {s : DartString} (tight : Tight s) : trimWsp s = s := by
  have front : s.dropWhile isWsp = s := by
    cases s with
    | nil => rfl
    | cons u s => exact List.dropWhile_cons_of_neg (Bool.eq_false_iff.mp (tight.1 u rfl))
  rw [trimWsp, front, List.rdropWhile_eq_self_iff]
  intro full
  exact Bool.eq_false_iff.mp (tight.2 _ (List.getLast?_eq_some_getLast full))

theorem trimWsp_space (s : DartString) : trimWsp (0x20 :: s) = trimWsp s := rfl

/-- A name and a value behind one space. -/
theorem readPair_value {name : DartString} (plain : ∀ u ∈ name, u ≠ equals ∧ isWsp u = false)
    (value : DartString) :
    readPair (name ++ equals :: value) = (name, trimWsp value) := by
  have stop : ∀ u ∈ name, decide (u ≠ equals) = true := fun u mem => by simp [(plain u mem).1]
  rw [readPair, List.takeWhile_append_of_pos stop, List.dropWhile_append_of_pos stop]
  simp only [ne_eq, List.takeWhile_cons, not_true_eq_false, decide_false, Bool.false_eq_true,
    if_false, List.append_nil, List.dropWhile_cons, List.drop_succ_cons, List.drop_zero,
    trimWsp_tight (.of_forall fun u mem => (plain u mem).2)]

theorem readPair_flag {name : DartString} (plain : ∀ u ∈ name, u ≠ equals ∧ isWsp u = false) :
    readPair name = (name, []) := by
  have stop : ∀ u ∈ name, decide (u ≠ equals) = true := fun u mem => by simp [(plain u mem).1]
  rw [readPair, List.takeWhile_eq_self_iff.mpr stop, List.dropWhile_eq_nil_iff.mpr stop,
    trimWsp_tight (.of_forall fun u mem => (plain u mem).2)]
  rfl

theorem readPair_space (s : DartString) : readPair (0x20 :: s) = readPair s := rfl

/-! ### What an accepted cookie is made of -/

theorem isTokenUnit_plain {u : UInt16} (token : isTokenUnit u = true) :
    isBarred u = false ∧ u ≠ equals ∧ isWsp u = false := by
  simp only [isTokenUnit, isBarred, isWsp, equals, Bool.or_eq_true, Bool.and_eq_true,
    decide_eq_true_eq, beq_iff_eq, ge_iff_le, UInt16.le_iff_toNat_le, UInt16.lt_iff_toNat_lt,
    ← UInt16.toNat_inj, Bool.or_eq_false_iff, decide_eq_false_iff_not, beq_eq_false_iff_ne, ne_eq,
    UInt16.reduceToNat] at token ⊢
  omega

theorem isCookieOctet_plain {u : UInt16} (octet : isCookieOctet u = true) : isBarred u = false := by
  simp only [isCookieOctet, isBarred, Bool.or_eq_true, Bool.and_eq_true, decide_eq_true_eq,
    beq_iff_eq, ge_iff_le, UInt16.le_iff_toNat_le, UInt16.lt_iff_toNat_lt, ← UInt16.toNat_inj,
    Bool.or_eq_false_iff, decide_eq_false_iff_not, beq_eq_false_iff_ne, ne_eq,
    UInt16.reduceToNat] at octet ⊢
  omega

theorem isCookieOctet_unspaced {u : UInt16} (octet : isCookieOctet u = true) : isWsp u = false := by
  simp only [isCookieOctet, isWsp, Bool.or_eq_true, Bool.and_eq_true, decide_eq_true_eq,
    beq_iff_eq, ge_iff_le, UInt16.le_iff_toNat_le, ← UInt16.toNat_inj,
    Bool.or_eq_false_iff, beq_eq_false_iff_ne, ne_eq, UInt16.reduceToNat] at octet ⊢
  omega

/-- No unit that could end the attribute or the header. -/
def Unbarred (s : DartString) : Prop := ∀ u ∈ s, isBarred u = false

theorem Unbarred.append {s t : DartString} (hs : Unbarred s) (ht : Unbarred t) :
    Unbarred (s ++ t) :=
  List.forall_mem_append.mpr ⟨hs, ht⟩

/-- A literal. -/
theorem unbarred_of_all {s : DartString} (all : (s.all fun u => !isBarred u) = true) :
    Unbarred s := by
  intro u mem
  simpa using List.all_eq_true.mp all u mem

theorem unbarred_intText (n : Int) : Unbarred (intText n) := by
  have digit : ∀ d, isBarred (digitUnit d) = false := by decide
  intro u mem
  obtain rfl | ⟨d, rfl⟩ := mem_intText mem
  · rfl
  · exact digit d

theorem tight_intText (n : Int) : Tight (intText n) := by
  have digit : ∀ d, isWsp (digitUnit d) = false := by decide
  apply Tight.of_forall
  intro u mem
  obtain rfl | ⟨d, rfl⟩ := mem_intText mem
  · rfl
  · exact digit d

theorem unbarred_httpDate (utc : UtcTime) : Unbarred (httpDate utc) := by
  have weekday : ∀ d : Fin 7, Unbarred (text (weekdays.getD d "")) := by
    have all : ∀ d : Fin 7, ((text (weekdays.getD d "")).all fun u => !isBarred u) = true := by
      decide
    exact fun d => unbarred_of_all (all d)
  have month : ∀ m : Fin 12, Unbarred (text (months.getD m "")) := by
    have all : ∀ m : Fin 12, ((text (months.getD m "")).all fun u => !isBarred u) = true := by
      decide
    exact fun m => unbarred_of_all (all m)
  have two : ∀ n : Nat, Unbarred (two n) := by
    intro n
    apply Unbarred.append
    · intro u mem
      rw [List.eq_of_mem_replicate mem]
      rfl
    · exact unbarred_intText n
  have literal : Unbarred (text ", ") ∧ Unbarred (text " ") ∧ Unbarred (text ":") ∧
      Unbarred (text " GMT") := by
    refine ⟨unbarred_of_all ?_, unbarred_of_all ?_, unbarred_of_all ?_, unbarred_of_all ?_⟩
    all_goals decide
  obtain ⟨comma, blank, colon, gmt⟩ := literal
  rw [httpDate]
  exact ((((((((((((weekday _).append comma).append (two _)).append blank).append
    (month _)).append blank).append (unbarred_intText _)).append blank).append (two _)).append
    colon).append (two _)).append colon).append (two _) |>.append gmt

theorem tight_httpDate (utc : UtcTime) : Tight (httpDate utc) := by
  constructor
  · have first : ∀ d : Fin 7, ∃ u s, text (weekdays.getD d "") = u :: s ∧ isWsp u = false := by
      have heads : ∀ d : Fin 7, ((text (weekdays.getD d "")).head?.all fun u => !isWsp u) = true ∧
          text (weekdays.getD d "") ≠ [] := by decide
      intro d
      obtain ⟨letter, full⟩ := heads d
      obtain ⟨u, s, shape⟩ := List.exists_cons_of_ne_nil full
      refine ⟨u, s, shape, ?_⟩
      rw [shape, List.head?_cons, Option.all_some] at letter
      simpa using letter
    obtain ⟨u, s, shape, letter⟩ := first utc.weekday
    rw [httpDate, shape]
    intro v head
    obtain rfl := Option.some.inj head
    exact letter
  · have gmt : text " GMT" = text " GM" ++ [0x54] := by decide
    rw [httpDate, gmt, ← List.append_assoc, List.getLast?_concat]
    intro v last
    obtain rfl := Option.some.inj last
    rfl

/-! ### The whole header -/

namespace SetCookie

/-- What the check lets pass. -/
structure Accepted (c : SetCookie) : Prop where
  named : c.name ≠ []
  name : ∀ u ∈ c.name, isTokenUnit u = true
  value : ∀ u ∈ c.value, isCookieOctet u = true
  domain : ∀ domain ∈ c.domain, Unbarred domain
  path : Unbarred c.path

theorem accepted_of_validationError {c : SetCookie} (none_ : c.validationError = none) :
    c.Accepted := by
  unfold validationError at none_
  split at none_
  · cases none_
  rename_i named
  split at none_
  · cases none_
  rename_i name
  split at none_
  · cases none_
  rename_i value
  split at none_
  · cases none_
  rename_i attributes
  rw [Bool.not_eq_false, List.all_eq_true] at name value
  have clean : ∀ s ∈ c.domain.toList ++ [c.path], Unbarred s := by
    intro s mem u at_
    rw [Bool.not_eq_true, List.any_eq_false] at attributes
    have unit := attributes s mem
    rw [Bool.not_eq_true, List.any_eq_false] at unit
    exact Bool.eq_false_iff.mpr (unit u at_)
  rw [List.forall_mem_append, List.forall_mem_singleton] at clean
  exact ⟨named, name, value, fun domain mem => clean.1 domain (Option.mem_toList.mpr mem), clean.2⟩

theorem sameSiteName_plain (sameSite : SameSite) :
    ∀ u ∈ sameSiteName sameSite, isBarred u = false ∧ isWsp u = false := by
  have plain : ((sameSiteName sameSite).all fun u => !isBarred u && !isWsp u) = true := by
    cases sameSite <;> decide
  intro u mem
  simpa using List.all_eq_true.mp plain u mem

/-- Every attribute of an accepted cookie has a value that stays inside it. -/
theorem attributes_unbarred {c : SetCookie} (accepted : c.Accepted) :
    ∀ a ∈ c.attributes id, a.1 ∈ attributeNames ∧ ∀ value ∈ a.2, Unbarred value := by
  rw [attributes]
  simp only [List.forall_mem_append, List.forall_mem_map, Option.mem_toList,
    List.forall_mem_singleton, Option.mem_some, forall_eq', id_eq]
  refine ⟨⟨⟨⟨⟨⟨?_, ?_⟩, ?_⟩, ?_⟩, ?_⟩, ?_⟩, ?_⟩
  · exact fun expires _ => ⟨by simp [attributeNames], unbarred_httpDate expires⟩
  · exact fun maxAge _ => ⟨by simp [attributeNames], unbarred_intText _⟩
  · exact fun domain given => ⟨by simp [attributeNames], accepted.domain domain given⟩
  · exact ⟨by simp [attributeNames], accepted.path⟩
  · cases c.secure <;> simp [attributeNames]
  · cases c.httpOnly <;> simp [attributeNames]
  · exact fun sameSite _ => ⟨by simp [attributeNames], fun u mem => (sameSiteName_plain _ u mem).1⟩

/-- The names of the attributes, as they are written. -/
theorem attributeNames_plain : ∀ name ∈ attributeNames,
    ∀ u ∈ text name, isBarred u = false ∧ u ≠ equals ∧ isWsp u = false := by
  have plain : (attributeNames.all fun name =>
      (text name).all fun u => !isBarred u && u != equals && !isWsp u) = true := by decide
  intro name mem u at_
  simpa [and_assoc] using List.all_eq_true.mp (List.all_eq_true.mp plain name mem) u at_

theorem unbarred_attributeText {c : SetCookie} (accepted : c.Accepted) :
    ∀ a ∈ c.attributes id, Unbarred (attributeText a) := by
  intro a mem
  obtain ⟨name, value⟩ := attributes_unbarred accepted a mem
  apply Unbarred.append
  · exact fun u at_ => (attributeNames_plain a.1 name u at_).1
  · cases given : a.2 with
    | none => exact fun u none_ => absurd none_ List.not_mem_nil
    | some v => exact List.forall_mem_cons.mpr ⟨rfl, value v given⟩

theorem unbarred_pair {c : SetCookie} (accepted : c.Accepted) :
    Unbarred (c.name ++ equals :: c.value) := by
  apply Unbarred.append
  · exact fun u mem => (isTokenUnit_plain (accepted.name u mem)).1
  · exact List.forall_mem_cons.mpr ⟨rfl, fun u mem => isCookieOctet_plain (accepted.value u mem)⟩

/-- Each attribute is read with its name and its trimmed value. -/
theorem readPair_attributes (c : SetCookie) :
    (c.attributes id).map (fun a => readPair (0x20 :: attributeText a)) =
      (c.attributes trimWsp).map asRead := by
  have value : ∀ name ∈ attributeNames, ∀ v,
      readPair (0x20 :: attributeText (name, some v)) = asRead (name, some (trimWsp v)) :=
    fun name mem v =>
      readPair_value (fun u at_ => (attributeNames_plain name mem u at_).2) v
  have flag : ∀ name ∈ attributeNames,
      readPair (0x20 :: attributeText (name, none)) = asRead (name, none) := by
    intro name mem
    rw [readPair_space, attributeText, Option.elim_none, List.append_nil]
    exact readPair_flag fun u at_ => (attributeNames_plain name mem u at_).2
  have sameSite : ∀ sameSite, trimWsp (sameSiteName sameSite) = sameSiteName sameSite :=
    fun sameSite => trimWsp_tight (.of_forall fun u mem => (sameSiteName_plain sameSite u mem).2)
  simp only [attributeNames, List.forall_mem_cons, List.not_mem_nil, false_implies, implies_true,
    and_true] at value flag
  rw [attributes, attributes]
  simp only [List.map_append, List.map_map, Function.comp_def, apply_ite (List.map _),
    List.map_cons, List.map_nil, id_eq, value, flag, sameSite, trimWsp_tight (tight_httpDate _),
    trimWsp_tight (tight_intText _)]

end SetCookie

/-- Of every cookie that passes the check, the header is read back as its name, its value and the
attributes it was built with, each once, where a domain and a path lose the spaces around them;
and nothing in the header is a line end or U+0000. -/
theorem setCookie_read {c : SetCookie} (none_ : c.validationError = none) :
    readSetCookie c.toHeaderValue =
        some ((c.name, c.value), (c.attributes trimWsp).map asRead) ∧
      ((c.attributes trimWsp).map Prod.fst).Nodup ∧
      ∀ u ∈ c.toHeaderValue, u ≠ 0 ∧ u ≠ 10 ∧ u ≠ 13 := by
  have accepted := SetCookie.accepted_of_validationError none_
  have inside : ∀ {s : DartString}, Unbarred s → ∀ u ∈ s, u ≠ semicolon := by
    intro s free u mem same
    rw [same] at mem
    exact absurd (free _ mem) (by decide)
  have pair := SetCookie.unbarred_pair accepted
  have others := SetCookie.unbarred_attributeText accepted
  refine ⟨?_, c.attributes_nodup trimWsp, ?_⟩
  · have cut : splitAtSep semicolon c.toHeaderValue =
        (c.name ++ equals :: c.value) :: (c.attributes id).map fun a => 0x20 :: attributeText a := by
      have free : ∀ piece ∈ (c.attributes id).map fun a => 0x20 :: attributeText a,
          ∀ u ∈ piece, u ≠ semicolon := by
        rw [List.forall_mem_map]
        intro a mem
        exact List.forall_mem_cons.mpr ⟨by decide, inside (others a mem)⟩
      rw [toHeaderValue_eq, ← splitAtSep_pieces (inside pair) free, List.flatMap_map]
    have named : readPair (c.name ++ equals :: c.value) = (c.name, c.value) := by
      rw [readPair_value fun u mem => (isTokenUnit_plain (accepted.name u mem)).2,
        trimWsp_tight (.of_forall fun u mem => isCookieOctet_unspaced (accepted.value u mem))]
    have whole : ¬ (equals ∉ c.name ++ equals :: c.value ∨ c.name = []) := by
      rintro (missing | empty)
      · exact missing (List.mem_append_right _ List.mem_cons_self)
      · exact accepted.named empty
    rw [readSetCookie, cut]
    simp only [named, if_neg whole, List.map_map, Function.comp_def]
    rw [SetCookie.readPair_attributes]
  · have unbarred : ∀ u ∈ c.toHeaderValue, isBarred u = false ∨ u = semicolon := by
      intro u mem
      rw [toHeaderValue_eq] at mem
      rcases List.mem_append.mp mem with mem | mem
      · exact .inl (pair u mem)
      · obtain ⟨a, at_, mem⟩ := List.mem_flatMap.mp mem
        rcases List.mem_cons.mp mem with rfl | mem
        · exact .inr rfl
        · rcases List.mem_cons.mp mem with rfl | mem
          · exact .inl rfl
          · exact .inl (others a at_ u mem)
    intro u mem
    refine ⟨?_, ?_, ?_⟩
    all_goals
      rintro rfl
      rcases unbarred _ mem with free | same
      · exact absurd free (by decide)
      · exact absurd same (by decide)

/-- A cookie with every attribute. -/
def sessionCookie : SetCookie :=
  { name := text "id", value := text "a=b", maxAge := some (-3600000000)
    expires := some sampleTime, domain := some (text "example.com ")
    path := text "/a", secure := true, httpOnly := true, sameSite := some .lax }

theorem setCookie_read_session :
    readSetCookie sessionCookie.toHeaderValue =
        some ((text "id", text "a=b"),
          [(text "Expires", text "Sun, 06 Nov 1994 08:49:37 GMT"), (text "Max-Age", text "-3600"),
            (text "Domain", text "example.com"), (text "Path", text "/a"), (text "Secure", []),
            (text "HttpOnly", []), (text "SameSite", text "Lax")]) ∧
      ((sessionCookie.attributes trimWsp).map Prod.fst).Nodup ∧
      ∀ u ∈ sessionCookie.toHeaderValue, u ≠ 0 ∧ u ≠ 10 ∧ u ≠ 13 := by
  have attributes : (sessionCookie.attributes trimWsp).map asRead =
      [(text "Expires", text "Sun, 06 Nov 1994 08:49:37 GMT"), (text "Max-Age", text "-3600"),
        (text "Domain", text "example.com"), (text "Path", text "/a"), (text "Secure", []),
        (text "HttpOnly", []), (text "SameSite", text "Lax")] := by decide +kernel
  rw [← attributes]
  exact setCookie_read (by decide +kernel)

/-- The check lets spaces pass in a path, and a reader drops them. -/
theorem path_trimmed :
    SetCookie.validationError { name := text "a", value := [], path := text " /" } = none ∧
      readSetCookie (SetCookie.toHeaderValue
          { name := text "a", value := [], path := text " /" }) =
        some ((text "a", []), [(text "Path", text "/")]) ∧
      SetCookie.attributes { name := text "a", value := [], path := text " /" } id =
        [("Path", some (text " /"))] := by
  decide

end NitroServer.Api
