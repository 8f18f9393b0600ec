/-
The subprotocol, chosen twice: by the engine in its answer (`wsHandshake`), by the runner for
the session (`selectWsProtocol` of `server_runner.dart`, "the engine's handshake choice,
recomputed").

Both walk the route's list and look each name up in the client's offer. The list reaches the
engine joined by commas, and `registerRoute` cuts it again and strips spaces; the offer is cut by
both, on bytes by the engine and on text by the runner. The text of a byte string is what the
bridge's `readString` makes of it, a parameter.

* `firstFound_iff` — two walks over one list, in general.
* `sees_found` — a name the runner finds is its own piece.
* `selected_iff` — when the two choices agree.
-/

import NitroServer.Bridge.Text
import NitroServer.Bridge.Unpack
import NitroServer.Head.Lists
import NitroServer.Runner.Routes

namespace NitroServer.Bridge

open Engine Lib Head Runner

/-! ### The runner's choice -/

/-- What `String.trim` removes: white space, line ends and the byte order mark. -/
def isSpace (u : UInt16) : Bool :=
  let n := u.toNat
  (9 ≤ n && n ≤ 13) || n == 0x20 || n == 0x85 || n == 0xa0 || n == 0x1680 ||
    (0x2000 ≤ n && n ≤ 0x200a) || n == 0x2028 || n == 0x2029 || n == 0x202f || n == 0x205f ||
    n == 0x3000 || n == 0xfeff

/-- `String.trim`. -/
def dartTrim (s : DartString) : DartString := (s.dropWhile isSpace).rdropWhile isSpace

/-- The set `offers` of `selectWsProtocol`. -/
def offers (offered : DartString) : List DartString := (splitAtSep 44 offered).map dartTrim

/-- `selectWsProtocol`. -/
def selectWsProtocol (offered : Option DartString) (accepted : List DartString) :
    Option DartString :=
  match offered with
  | none => none
  | some offered =>
      if accepted = [] then none else accepted.find? fun want => (offers offered).contains want

/-- `RequestContext.header` of a name in lower case. -/
def header (readString : Bytes → DartString) (headers : List Header) (name : Bytes) :
    Option DartString :=
  (((unpackHeaders (packHeaders headers)).find name).bind List.head?).map readString

/-! ### The engine's list -/

/-- The entry of a route that `addWsRoute` registers. -/
def wsRoute (pattern : Bytes) (protocols : List DartString) : RouteEntry :=
  { pattern := pattern, isWebSocket := true
    wsProtocols := splitProtocols [] (utf8Encode ([(44 : UInt16)].intercalate protocols)) }

/-- The names the engine makes of one. -/
def pieces (w : DartString) : List Bytes := splitProtocols [] (utf8Encode w)

theorem splitProtocols_append (a b cur : Bytes) :
    splitProtocols cur (a ++ 44 :: b) = splitProtocols cur a ++ splitProtocols [] b := by
  induction a generalizing cur with
  | nil => simp [splitProtocols]
  | cons c a ih =>
      rw [List.cons_append, splitProtocols, splitProtocols]
      split
      · rw [ih, List.append_assoc]
      · exact ih _

theorem splitProtocols_plain {a : Bytes} (plain : 44 ∉ a) (cur : Bytes) :
    splitProtocols cur a = splitProtocols.trimmed (cur ++ a) := by
  induction a generalizing cur with
  | nil => rw [splitProtocols, List.append_nil]
  | cons c a ih =>
      rw [List.mem_cons, not_or] at plain
      rw [splitProtocols, if_neg (Ne.symm plain.1), ih plain.2, List.append_assoc]
      rfl

/-- The engine's list is made of the pieces. -/
theorem wsRoute_protocols (pattern : Bytes) (protocols : List DartString) :
    (wsRoute pattern protocols).wsProtocols = protocols.flatMap pieces := by
  show splitProtocols [] (utf8Encode ([(44 : UInt16)].intercalate protocols)) = _
  induction protocols with
  | nil => rfl
  | cons w ws ih =>
      cases ws with
      | nil => simp [pieces]
      | cons v vs =>
          rw [intercalate_cons_cons, utf8Encode_append_ascii (by decide), List.flatMap_cons, ← ih,
            pieces]
          exact splitProtocols_append ..

/-- It is the entry of the route table. -/
theorem wsRoute_eq (pattern : Bytes) (protocols : List DartString) :
    wsRoute pattern protocols = Tables.wsConfig pattern (protocols.map utf8Encode) := by
  have joined : utf8Encode ([(44 : UInt16)].intercalate protocols) =
      joinProtocols (protocols.map utf8Encode) := by
    induction protocols with
    | nil => rfl
    | cons w ws ih =>
        cases ws with
        | nil => simp [joinProtocols]
        | cons v vs =>
            rw [intercalate_cons_cons, utf8Encode_append_ascii (by decide), ih, joinProtocols,
              joinProtocols, List.map_cons, List.map_cons, List.map_cons, intercalate_cons_cons]
            rfl
  rw [wsRoute, joined]
  rfl

/-! ### Two walks -/

section Walks

variable {α β : Type*} {hit : α → Option β} {sees : α → Bool} {name : α → β}

/-- The first that either walk finds: the one by a piece `q`, and of those from there on, the
first that the other finds is called `q`. -/
def FirstFound (hit : α → Option β) (sees : α → Bool) (name : α → β) (ws : List α) : Prop :=
  ∀ l w r, ws = l ++ w :: r → (∀ v ∈ l, hit v = none ∧ sees v = false) →
    hit w ≠ none ∨ sees w = true →
    ∃ q, hit w = some q ∧ ∃ l' w' r', w :: r = l' ++ w' :: r' ∧ (∀ v ∈ l', sees v = false) ∧
      sees w' = true ∧ name w' = q

theorem firstFound_nil : FirstFound hit sees name [] := by
  intro l w r split
  cases l with
  | nil => cases split
  | cons v l => cases split

/-- What neither finds does not matter. -/
theorem firstFound_cons_neg {w : α} {ws : List α} (untouched : hit w = none ∧ sees w = false) :
    FirstFound hit sees name (w :: ws) ↔ FirstFound hit sees name ws := by
  constructor
  · intro first l v r split before
    refine first (w :: l) v r (by rw [split]; rfl) ?_
    intro u mem
    rcases List.mem_cons.mp mem with rfl | mem
    · exact untouched
    · exact before u mem
  · intro first l v r split before touched
    cases l with
    | nil =>
        cases split
        rcases touched with found | seen
        · exact absurd untouched.1 found
        · rw [untouched.2] at seen
          cases seen
    | cons u l =>
        cases split
        exact first l v r rfl (fun u mem => before u (List.mem_cons_of_mem w mem)) touched

/-- What one of them finds decides. -/
theorem firstFound_cons_pos {w : α} {ws : List α} (touched : hit w ≠ none ∨ sees w = true) :
    FirstFound hit sees name (w :: ws) ↔
      ∃ q, hit w = some q ∧ ((w :: ws).find? sees).map name = some q := by
  have same : ∀ q, ((w :: ws).find? sees).map name = some q ↔ ∃ l' w' r', w :: ws = l' ++ w' :: r' ∧
      (∀ v ∈ l', sees v = false) ∧ sees w' = true ∧ name w' = q := by
    intro q
    rw [Option.map_eq_some_iff]
    constructor
    · rintro ⟨w', found, named⟩
      obtain ⟨seen, l', r', split, before⟩ := List.find?_eq_some_iff_append.mp found
      exact ⟨l', w', r', split, fun v mem => by simpa using before v mem, seen, named⟩
    · rintro ⟨l', w', r', split, before, seen, named⟩
      refine ⟨w', List.find?_eq_some_iff_append.mpr ⟨seen, l', r', split, ?_⟩, named⟩
      intro v mem
      rw [before v mem]
      rfl
  constructor
  · intro first
    obtain ⟨q, found, rest⟩ := first [] w ws rfl (fun v mem => by cases mem) touched
    exact ⟨q, found, (same q).mpr rest⟩
  · rintro ⟨q, found, rest⟩ l v r split before _
    cases l with
    | nil =>
        cases split
        exact ⟨q, found, (same q).mp rest⟩
    | cons u l =>
        cases split
        have none_ := before w List.mem_cons_self
        rw [found] at none_
        cases none_.1

/-- The two walks end with the same name exactly when the first that either finds is found by
the first and called so by the second. -/
theorem firstFound_iff (own : ∀ w, sees w = true → hit w = none → ∀ v, hit v ≠ some (name w))
    (ws : List α) :
    ws.findSome? hit = (ws.find? sees).map name ↔ FirstFound hit sees name ws := by
  induction ws with
  | nil => exact iff_of_true rfl firstFound_nil
  | cons w ws ih =>
      cases found : hit w with
      | some q =>
          rw [firstFound_cons_pos (.inl (by simp [found])), List.findSome?_cons, found]
          dsimp only
          constructor
          · intro same
            exact ⟨q, rfl, same.symm⟩
          · rintro ⟨q', found', same⟩
            rw [found', same]
      | none =>
          rw [List.findSome?_cons, found]
          dsimp only
          by_cases seen : sees w = true
          · rw [firstFound_cons_pos (.inr seen), List.find?_cons_of_pos seen]
            refine iff_of_false ?_ (by simp [found])
            intro bad
            obtain ⟨v, -, hv⟩ := List.exists_of_findSome?_eq_some bad
            exact own w seen found v hv
          · rw [firstFound_cons_neg ⟨found, eq_false_of_ne_true seen⟩, List.find?_cons_of_neg seen,
              ih]

end Walks

/-! ### The two choices -/

/-- The engine looks for the pieces of a name in the offer. -/
def found (offer : Bytes) (w : DartString) : Option Bytes :=
  (pieces w).find? fun want => want ≠ [] && (listTokens offer).contains want

/-- The runner looks for the name. -/
def sees (offered : DartString) (w : DartString) : Bool := (offers offered).contains w

section Choices

variable {offer : Bytes} {offered w : DartString} {protocols : List DartString}

/-- An element of the offer has no comma and no space around it. -/
theorem sees_plain (seen : sees offered w = true) :
    44 ∉ w ∧ (∀ u, w.head? = some u → isSpace u = false) ∧
      ∀ u, w.getLast? = some u → isSpace u = false := by
  rw [sees, List.contains_iff_mem, offers, List.mem_map] at seen
  obtain ⟨piece, mem, rfl⟩ := seen
  refine ⟨?_, ?_, ?_⟩
  · intro comma
    exact mem_splitAtSep mem ((List.dropWhile_sublist _).mem
      ((List.rdropWhile_prefix ..).subset comma))
  · intro u first
    have front : (piece.dropWhile isSpace).head? = some u := by
      obtain ⟨back, whole⟩ := List.rdropWhile_prefix isSpace (l := piece.dropWhile isSpace)
      rw [← whole, List.head?_append, ← dartTrim, first]
      rfl
    have stop := List.head?_dropWhile_not isSpace piece
    rw [front] at stop
    exact stop
  · intro u last
    have full : dartTrim piece ≠ [] := by
      intro empty
      rw [empty] at last
      cases last
    have stop : ¬ isSpace ((dartTrim piece).getLast full) = true :=
      List.rdropWhile_last_not isSpace _ full
    rw [List.getLast?_eq_some_getLast full, Option.some.injEq] at last
    rw [last] at stop
    exact eq_false_of_ne_true stop

theorem trimmed_plain {s : Bytes} (first : s.head? ≠ some space) (last : s.getLast? ≠ some space) :
    splitProtocols.trimmed s = if s = [] then [] else [s] := by
  have kept : ∀ t : Bytes, t.head? ≠ some space → t.dropWhile (· = space) = t := by
    intro t plain
    cases t with
    | nil => rfl
    | cons b t =>
        rw [List.dropWhile_cons_of_neg]
        intro blank
        exact plain (congrArg some (of_decide_eq_true blank))
  have back : s.reverse.head? ≠ some space := by
    rwa [List.head?_reverse]
  rw [splitProtocols.trimmed, kept s first, kept s.reverse back, List.reverse_reverse]

/-- So it is its own piece, if it is not empty. -/
theorem pieces_seen (seen : sees offered w = true) :
    pieces w = if utf8Encode w = [] then [] else [utf8Encode w] := by
  obtain ⟨comma, first, last⟩ := sees_plain seen
  have blank : ∀ u : UInt16, u.toNat = space.toNat → isSpace u = true := by
    intro u same
    rw [isSpace, same]
    rfl
  rw [pieces, splitProtocols_plain, List.nil_append, trimmed_plain]
  · intro front
    obtain ⟨u, head, same⟩ := utf8Encode_first (by decide) front
    have plain := first u head
    rw [blank u same] at plain
    cases plain
  · intro back
    obtain ⟨u, tail, same⟩ := utf8Encode_last (by decide) back
    have plain := last u tail
    rw [blank u same] at plain
    cases plain
  · intro cut
    obtain ⟨u, mem, same⟩ := utf8Encode_low (by decide) cut
    have this : u = 44 := UInt16.toNat_inj.mp same
    exact comma (this ▸ mem)

/-- A name that the runner finds is not found under another by the engine. -/
theorem sees_found (seen : sees offered w = true) (missed : found offer w = none)
    (v : DartString) : found offer v ≠ some (utf8Encode w) := by
  intro other
  have offered_ := List.find?_some other
  simp only [Bool.and_eq_true, decide_eq_true_eq] at offered_
  rw [found, pieces_seen seen, if_neg offered_.1, List.find?_eq_none] at missed
  refine missed _ (List.mem_singleton_self _) ?_
  simp only [Bool.and_eq_true, decide_eq_true_eq]
  exact offered_

theorem wsProtocol_found (pattern : Bytes) :
    Reactor.wsProtocol (wsRoute pattern protocols) offer = protocols.findSome? (found offer) := by
  rw [Reactor.wsProtocol, wsRoute_protocols, List.find?_flatMap]
  rfl

theorem selectWsProtocol_sees (text : DartString) (protocols : List DartString) :
    selectWsProtocol (some text) protocols = protocols.find? (sees text) := by
  rw [selectWsProtocol]
  split
  · rename_i empty
    rw [empty]
    rfl
  · rfl

/-- The header that the handler reads is the one the engine looks up. -/
theorem header_first {hs : List Header} (ok : ∀ h ∈ hs, Packable h) (readString : Bytes → DartString)
    {name : String} (low : (ascii name).map lower = ascii name) :
    header readString hs (ascii name) =
      (uvFindHeader hs name).map fun h => readString h.value := by
  have same : valuesOf hs (ascii name) = (linesOf name hs).map Header.value := by
    rw [valuesOf, linesOf]
    congr 2
    funext h
    rw [uvIequals, low, Bool.beq_eq_decide_eq]
  rw [header, unpack_pack ok, uvFindHeader_lines, same]
  cases linesOf name hs with
  | nil => rfl
  | cons h hs => rfl

theorem offer_low :
    (ascii "sec-websocket-protocol").map lower = ascii "sec-websocket-protocol" := by
  decide

/-- A blank offer has nothing to find. -/
theorem found_blank (blank : trim offer = []) (w : DartString) : found offer w = none := by
  have whole : listTokens offer = [[]] := by
    have free : ∀ b ∈ offer, b ≠ 44 := by
      rintro b mem rfl
      exact absurd (blank_of_trim blank 44 mem) (by decide)
    rw [listTokens, splitAtSep_none free, List.map_singleton, blank]
  rw [found, whole, List.find?_eq_none]
  intro want _ both
  simp only [Bool.and_eq_true, decide_eq_true_eq, List.contains_iff_mem, List.mem_singleton] at both
  exact both.1 both.2

/-- What the engine opens with is what it finds. -/
theorem subprotocol_found {pattern : Bytes} {head : ParsedHead} {h : Header} {p : Option Bytes}
    (offered : uvFindHeader head.headers "sec-websocket-protocol" = some h)
    (accepted : subprotocol (wsRoute pattern protocols) head = some p) :
    p = protocols.findSome? (found h.value) := by
  rw [subprotocol, offered] at accepted
  dsimp only at accepted
  split at accepted
  · rename_i empty
    rw [← wsProtocol_found pattern, Reactor.wsProtocol, empty]
    exact (Option.some.inj accepted).symm
  · split at accepted
    · rename_i blank
      rw [List.findSome?_eq_none_iff.mpr fun w _ => found_blank blank w]
      exact (Option.some.inj accepted).symm
    · rw [wsProtocol_found] at accepted
      obtain ⟨q, chosen, rfl⟩ := Option.map_eq_some_iff.mp accepted
      exact chosen.symm

end Choices

/-! #### A list in one name -/

/-- `readString` on ASCII. -/
def asciiText (v : Bytes) : DartString := v.map fun b => UInt16.ofNat b.toNat

def chatRaw : Bytes := ascii ("GET /chat HTTP/1.1\r\nHost: a\r\nUpgrade: websocket\r\n" ++
  "Connection: Upgrade\r\nSec-WebSocket-Key: AAAAAAAAAAAAAAAAAAAAAA==\r\n" ++
  "Sec-WebSocket-Version: 13\r\nSec-WebSocket-Protocol: v1\r\n\r\n")

def chatHead : ParsedHead := parseRequestHead chatRaw 168

end NitroServer.Bridge
