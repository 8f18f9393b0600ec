/-
List-valued fields over several lines.

`Connection`, `Upgrade` and `Sec-WebSocket-Protocol` are lists: a line `x, y` means what a line
`x` and a line `y` mean. The engine looks each of them up with `uvFindHeader`, which returns the
first line of the name.

* `wsHandshake_subprotocol` — the negotiation of `wsHandshake`, by itself.
* `sameDecisions_split` — when two lines are decided as one line.
-/

import NitroServer.Engine.WebSocket
import NitroServer.Head.Framing
import NitroServer.Head.Grammar

namespace NitroServer.Head

open NitroServer.Engine NitroServer.Lib

/-! ### The negotiation -/

/-- The subprotocol block of `wsHandshake`: the protocol to answer with, if any; `none` when
nothing that was offered is accepted. -/
def subprotocol (route : RouteEntry) (head : ParsedHead) : Option (Option Bytes) :=
  if route.wsProtocols = [] then some none
  else match uvFindHeader head.headers "sec-websocket-protocol" with
    | none => some none
    | some offer =>
        if trim offer.value = [] then some none
        else (Reactor.wsProtocol route offer.value).map some

open Reactor in
/-- Behind the key and the version, the handshake opens or refuses by the negotiation. -/
theorem wsHandshake_subprotocol (env : Env) (r : Reactor) (head : ParsedHead) (route : RouteEntry)
    (params : List RouteParam) (path query : Bytes) {key : Header}
    (keyed : uvFindHeader head.headers "sec-websocket-key" = some key)
    (valid : Ws.validKey (trim key.value) = true)
    (version : ((uvFindHeader head.headers "sec-websocket-version").all
      fun v => trim v.value != ascii "13") = false) :
    r.wsHandshake env head route params path query =
      (subprotocol route head).elim (r.refuse env .engine 400)
        fun protocol => r.wsOpen env head route params path query key.value protocol := by
  unfold wsHandshake subprotocol
  rw [keyed]
  simp only [valid, version, Bool.not_true, Bool.false_eq_true, if_false]
  split
  · rfl
  · cases uvFindHeader head.headers "sec-websocket-protocol" with
    | none => rfl
    | some offer =>
        dsimp only
        split
        · rfl
        · cases wsProtocol route offer.value with
          | none => rfl
          | some p => rfl

/-! ### Lists -/

/-- The list has the token, in any case. -/
def lists (v : Bytes) (token : String) : Bool :=
  (listTokens v).any fun t => uvIequals t (ascii token)

section Lists

variable {x y : Bytes}

theorem listTokens_joined (x y : Bytes) :
    listTokens (x ++ ascii ", " ++ y) = listTokens x ++ listTokens y := by
  have comma : x ++ ascii ", " ++ y = x ++ 44 :: 32 :: y := by
    rw [List.append_assoc]
    rfl
  rw [comma, listTokens, splitAtSep_append, List.map_append]
  congr 1
  rw [splitAtSep, if_neg (by decide), listTokens]
  cases pieces : splitAtSep 44 y with
  | nil => exact absurd pieces (splitAtSep_ne_nil 44 y)
  | cons piece pieces =>
      dsimp only
      rw [List.map_cons, List.map_cons, trim_space]

theorem lists_joined (x y : Bytes) (token : String) :
    lists (x ++ ascii ", " ++ y) token = (lists x token || lists y token) := by
  rw [lists, listTokens_joined, List.any_append]
  rfl

/-- A word without a comma or a blank stands in one of the parts. -/
theorem icontains_joined {needle : String} (comma : 44 ∉ ascii needle) (blank : 32 ∉ ascii needle)
    (x y : Bytes) :
    icontains (x ++ ascii ", " ++ y) needle = (icontains x needle || icontains y needle) := by
  have text : (x ++ ascii ", " ++ y).map lower = x.map lower ++ 44 :: 32 :: y.map lower := by
    rw [List.map_append, List.map_append, List.append_assoc]
    rfl
  rw [Bool.eq_iff_iff, Bool.or_eq_true, icontains, icontains, icontains, findSub_isSome,
    findSub_isSome, findSub_isSome, text, infix_around comma, ← List.nil_append (32 :: _),
    infix_around blank]
  constructor
  · rintro (left | none_ | right)
    · exact .inl left
    · exact .inl (none_.trans List.nil_infix)
    · exact .inr right
  · rintro (left | right)
    · exact .inl left
    · exact .inr (.inr right)

/-- Nothing but blanks is trimmed away. -/
theorem blank_of_trim {s : Bytes} (empty : trim s = []) : ∀ b ∈ s, isBlank b = true := by
  have rest : ∀ b ∈ s.dropWhile isBlank, isBlank b = true := by
    rw [trim, List.reverse_eq_nil_iff, List.dropWhile_eq_nil_iff] at empty
    intro b mem
    exact empty b (List.mem_reverse.mpr mem)
  intro b mem
  rw [← List.takeWhile_append_dropWhile (p := isBlank) (l := s), List.mem_append] at mem
  rcases mem with front | back
  · exact List.mem_takeWhile_imp front
  · exact rest b back

theorem trim_joined (x y : Bytes) : trim (x ++ ascii ", " ++ y) ≠ [] := by
  intro empty
  have comma : (44 : UInt8) ∈ x ++ ascii ", " ++ y := by
    rw [List.mem_append, List.mem_append]
    exact .inl (.inr (by decide))
  exact absurd (blank_of_trim empty 44 comma) (by decide)

end Lists

/-! ### Lines -/

/-- The fields whose values are lists. -/
inductive ListField where
  | connection
  | upgrade
  | protocol
deriving DecidableEq, Repr

def ListField.name : ListField → String
  | connection => "connection"
  | upgrade => "upgrade"
  | protocol => "sec-websocket-protocol"

theorem ListField.name_differs {f g : ListField} (other : f ≠ g) :
    (ascii f.name).map lower ≠ (ascii g.name).map lower := by
  have all : ∀ f ∈ [connection, upgrade, protocol], ∀ g ∈ [connection, upgrade, protocol], f ≠ g →
      (ascii f.name).map lower ≠ (ascii g.name).map lower := by
    decide
  exact all f (by cases f <;> decide) g (by cases g <;> decide) other

section Lookup

variable {name : String} {h : Header} {before after : List Header}

theorem linesOf_append (name : String) (hs hs' : List Header) :
    linesOf name (hs ++ hs') = linesOf name hs ++ linesOf name hs' :=
  List.filter_append ..

/-- A line behind another of its name is not looked at. -/
theorem find_earlier (earlier : linesOf name before ≠ []) (after : List Header) :
    uvFindHeader (before ++ after) name = uvFindHeader before name := by
  rw [uvFindHeader_lines, uvFindHeader_lines, linesOf_append, List.head?_append_of_ne_nil _ earlier]

theorem find_here (first : linesOf name before = []) (named : uvIequals h.name (ascii name) = true)
    (after : List Header) : uvFindHeader (before ++ h :: after) name = some h := by
  rw [uvFindHeader_lines, linesOf_append, first, linesOf_cons_pos named]
  rfl

theorem find_other (other : uvIequals h.name (ascii name) = false) (before after : List Header) :
    uvFindHeader (before ++ h :: after) name = uvFindHeader (before ++ after) name := by
  rw [uvFindHeader_lines, uvFindHeader_lines, linesOf_append, linesOf_append,
    linesOf_cons_neg other]

end Lookup

/-! ### One line or two -/

/-- The fields of a head where a list stands in one line. -/
def oneLine (name x y : Bytes) (before between after : List Header) : List Header :=
  before ++ ⟨name, x ++ ascii ", " ++ y⟩ :: (between ++ after)

/-- The fields of a head where it stands in two. -/
def twoLines (name x y : Bytes) (before between after : List Header) : List Header :=
  before ++ ⟨name, x⟩ :: (between ++ ⟨name, y⟩ :: after)

/-- What the engine decides by lists. -/
structure SameDecisions (route : RouteEntry) (head head' : ParsedHead) : Prop where
  keepAlive : uvClientWantsKeepAlive head = uvClientWantsKeepAlive head'
  upgrade : uvIsWebSocketUpgrade head = uvIsWebSocketUpgrade head'
  protocol : subprotocol route head = subprotocol route head'

/-- The first line of a field decides what the two lines decide. -/
def FirstDecides (route : RouteEntry) (version : Bytes) (others : List Header) (x y : Bytes) :
    ListField → Prop
  | .connection =>
      (lists x "close" = true ∨
        (if lists y "close" then lists x "keep-alive" = false ∧ version = ascii "HTTP/1.0"
          else lists x "keep-alive" = true ∨ lists y "keep-alive" = false ∨
            version ≠ ascii "HTTP/1.0")) ∧
      (icontains x "upgrade" = true ∨ icontains y "upgrade" = false ∨
        ∀ up, uvFindHeader others "upgrade" = some up → icontains up.value "websocket" = false)
  | .upgrade =>
      icontains x "websocket" = true ∨ icontains y "websocket" = false ∨
        ∀ cn, uvFindHeader others "connection" = some cn → icontains cn.value "upgrade" = false
  | .protocol =>
      route.wsProtocols = [] ∨ trim x ≠ [] ∧
        ∀ l want r, route.wsProtocols = l ++ want :: r → want ≠ [] → want ∈ listTokens y →
          ∃ w ∈ l ++ [want], w ≠ [] ∧ w ∈ listTokens x

/-! #### The decisions, by what is looked up -/

section Decisions

variable {route : RouteEntry} {head head' : ParsedHead} {x y : Bytes} {h h' : Header}

theorem keepAlive_same (version : head.version = head'.version)
    (found : uvFindHeader head.headers "connection" = uvFindHeader head'.headers "connection") :
    uvClientWantsKeepAlive head = uvClientWantsKeepAlive head' := by
  rw [uvClientWantsKeepAlive, uvClientWantsKeepAlive, version, found]

theorem upgrade_same (up : uvFindHeader head.headers "upgrade" = uvFindHeader head'.headers "upgrade")
    (cn : uvFindHeader head.headers "connection" = uvFindHeader head'.headers "connection") :
    uvIsWebSocketUpgrade head = uvIsWebSocketUpgrade head' := by
  rw [uvIsWebSocketUpgrade, uvIsWebSocketUpgrade, up, cn]

theorem subprotocol_same (found : uvFindHeader head.headers "sec-websocket-protocol" =
    uvFindHeader head'.headers "sec-websocket-protocol") :
    subprotocol route head = subprotocol route head' := by
  rw [subprotocol, subprotocol, found]

theorem keepAlive_found (found : uvFindHeader head.headers "connection" = some h) :
    uvClientWantsKeepAlive head =
      if lists h.value "close" then false
      else lists h.value "keep-alive" || !(head.version == ascii "HTTP/1.0") := by
  rw [uvClientWantsKeepAlive, found]
  dsimp only
  rw [← lists, ← lists]
  cases lists h.value "keep-alive" with
  | true => rfl
  | false => rfl

theorem upgrade_found (up : uvFindHeader head.headers "upgrade" = some h)
    (cn : uvFindHeader head.headers "connection" = some h') :
    uvIsWebSocketUpgrade head = (icontains h.value "websocket" && icontains h'.value "upgrade") := by
  rw [uvIsWebSocketUpgrade, up, cn]

/-- The preferred protocol among more offers is the one among fewer. -/
theorem find_more {protocols : List Bytes} {offer more : Bytes → Bool}
    (wider : ∀ want, offer want = true → more want = true) :
    protocols.find? more = protocols.find? offer ↔
      ∀ l want r, protocols = l ++ want :: r → more want = true →
        ∃ w ∈ l ++ [want], offer w = true := by
  induction protocols with
  | nil =>
      constructor
      · intro _ l want r split
        cases l with
        | nil => cases split
        | cons a l => cases split
      · intro _
        rfl
  | cons p ps ih =>
      by_cases offered : offer p = true
      · rw [List.find?_cons_of_pos offered, List.find?_cons_of_pos (wider p offered)]
        constructor
        · intro _ l want r split _
          refine ⟨p, ?_, offered⟩
          cases l with
          | nil =>
              cases split
              exact List.mem_singleton_self p
          | cons a l =>
              cases split
              exact List.mem_cons_self
        · intro _
          rfl
      rw [List.find?_cons_of_neg offered]
      by_cases wanted : more p = true
      · rw [List.find?_cons_of_pos wanted]
        constructor
        · intro same
          exact absurd (List.find?_some same.symm) offered
        · intro first
          obtain ⟨w, mem, bad⟩ := first [] p ps rfl wanted
          rw [List.mem_singleton.mp mem] at bad
          exact absurd bad offered
      · rw [List.find?_cons_of_neg wanted, ih]
        constructor
        · intro first l want r split more_
          cases l with
          | nil =>
              cases split
              exact absurd more_ wanted
          | cons a l =>
              cases split
              obtain ⟨w, mem, hw⟩ := first l want r rfl more_
              exact ⟨w, List.mem_cons_of_mem p mem, hw⟩
        · intro first l want r split more_
          obtain ⟨w, mem, hw⟩ := first (p :: l) want r (by rw [split]; rfl) more_
          rcases List.mem_cons.mp mem with rfl | mem
          · exact absurd hw offered
          · exact ⟨w, mem, hw⟩

theorem wsProtocol_joined :
    Reactor.wsProtocol route (x ++ ascii ", " ++ y) = Reactor.wsProtocol route x ↔
      ∀ l want r, route.wsProtocols = l ++ want :: r → want ≠ [] → want ∈ listTokens y →
        ∃ w ∈ l ++ [want], w ≠ [] ∧ w ∈ listTokens x := by
  have wider : ∀ want : Bytes, (decide (want ≠ []) && (listTokens x).contains want) = true →
      (decide (want ≠ []) && (listTokens x ++ listTokens y).contains want) = true := by
    intro want offered
    simp only [Bool.and_eq_true, List.contains_iff_mem, List.mem_append] at offered ⊢
    exact ⟨offered.1, .inl offered.2⟩
  rw [Reactor.wsProtocol, Reactor.wsProtocol, listTokens_joined, find_more wider]
  simp only [Bool.and_eq_true, decide_eq_true_eq, List.contains_iff_mem]
  constructor
  · intro first l want r split full mem
    exact first l want r split ⟨full, List.mem_append_right _ mem⟩
  · rintro first l want r split ⟨full, mem⟩
    rcases List.mem_append.mp mem with here | there
    · exact ⟨want, List.mem_append_right _ (List.mem_singleton_self want), full, here⟩
    · exact first l want r split full there

/-! #### Two lookups, one of which sees `x` only -/

variable {name : Bytes}

theorem keepAlive_iff (version : head.version = head'.version)
    (one : uvFindHeader head.headers "connection" = some ⟨name, x ++ ascii ", " ++ y⟩)
    (two : uvFindHeader head'.headers "connection" = some ⟨name, x⟩) :
    uvClientWantsKeepAlive head = uvClientWantsKeepAlive head' ↔
      lists x "close" = true ∨
        (if lists y "close" then lists x "keep-alive" = false ∧ head'.version = ascii "HTTP/1.0"
          else lists x "keep-alive" = true ∨ lists y "keep-alive" = false ∨
            head'.version ≠ ascii "HTTP/1.0") := by
  rw [keepAlive_found one, keepAlive_found two, version, lists_joined, lists_joined]
  by_cases old : head'.version = ascii "HTTP/1.0"
  · cases lists x "close" <;> cases lists y "close" <;> cases lists x "keep-alive" <;>
      simp [old]
  · cases lists x "close" <;> cases lists y "close" <;> cases lists x "keep-alive" <;>
      simp [old]

theorem connection_iff (same : uvFindHeader head.headers "upgrade" = uvFindHeader head'.headers "upgrade")
    (one : uvFindHeader head.headers "connection" = some ⟨name, x ++ ascii ", " ++ y⟩)
    (two : uvFindHeader head'.headers "connection" = some ⟨name, x⟩) :
    uvIsWebSocketUpgrade head = uvIsWebSocketUpgrade head' ↔
      icontains x "upgrade" = true ∨ icontains y "upgrade" = false ∨
        ∀ up, uvFindHeader head'.headers "upgrade" = some up →
          icontains up.value "websocket" = false := by
  rw [uvIsWebSocketUpgrade, uvIsWebSocketUpgrade, same, one, two]
  cases uvFindHeader head'.headers "upgrade" with
  | none => exact iff_of_true rfl (.inr (.inr nofun))
  | some up =>
      dsimp only
      rw [icontains_joined (by decide) (by decide)]
      cases icontains x "upgrade" <;> cases icontains y "upgrade" <;> simp

theorem upgrade_iff
    (same : uvFindHeader head.headers "connection" = uvFindHeader head'.headers "connection")
    (one : uvFindHeader head.headers "upgrade" = some ⟨name, x ++ ascii ", " ++ y⟩)
    (two : uvFindHeader head'.headers "upgrade" = some ⟨name, x⟩) :
    uvIsWebSocketUpgrade head = uvIsWebSocketUpgrade head' ↔
      icontains x "websocket" = true ∨ icontains y "websocket" = false ∨
        ∀ cn, uvFindHeader head'.headers "connection" = some cn →
          icontains cn.value "upgrade" = false := by
  rw [uvIsWebSocketUpgrade, uvIsWebSocketUpgrade, same, one, two]
  cases uvFindHeader head'.headers "connection" with
  | none => exact iff_of_true rfl (.inr (.inr nofun))
  | some cn =>
      dsimp only
      rw [icontains_joined (by decide) (by decide)]
      cases icontains x "websocket" <;> cases icontains y "websocket" <;> simp

theorem subprotocol_iff
    (one : uvFindHeader head.headers "sec-websocket-protocol" = some ⟨name, x ++ ascii ", " ++ y⟩)
    (two : uvFindHeader head'.headers "sec-websocket-protocol" = some ⟨name, x⟩) :
    subprotocol route head = subprotocol route head' ↔
      route.wsProtocols = [] ∨ trim x ≠ [] ∧
        ∀ l want r, route.wsProtocols = l ++ want :: r → want ≠ [] → want ∈ listTokens y →
          ∃ w ∈ l ++ [want], w ≠ [] ∧ w ∈ listTokens x := by
  rw [subprotocol, subprotocol, one, two]
  by_cases open_ : route.wsProtocols = []
  · rw [if_pos open_, if_pos open_]
    exact iff_of_true rfl (.inl open_)
  rw [if_neg open_, if_neg open_]
  dsimp only
  rw [if_neg (trim_joined x y)]
  by_cases full : trim x = []
  · -- the first line offers nothing, so the handshake opens
    rw [if_pos full]
    refine iff_of_false ?_ (by simp [open_, full])
    cases Reactor.wsProtocol route (x ++ ascii ", " ++ y) with
    | none => exact nofun
    | some p => exact nofun
  · rw [if_neg full, ← wsProtocol_joined]
    constructor
    · intro same
      exact .inr ⟨full, Option.map_injective (Option.some_injective _) same⟩
    · rintro (bad | ⟨-, same⟩)
      · exact absurd bad open_
      · rw [same]

end Decisions

/-! #### The law -/

section Law

variable (route : RouteEntry) (head : ParsedHead) (name x y : Bytes)
  (before between after : List Header)

variable {f g : ListField}

/-- Looked up by another name, the line is not there. -/
theorem find_oneLine (named : uvIequals name (ascii f.name) = true) (other : f ≠ g) :
    uvFindHeader (oneLine name x y before between after) g.name =
      uvFindHeader (before ++ between ++ after) g.name := by
  rw [oneLine, find_other (other_name (ListField.name_differs other) named), List.append_assoc]

theorem find_twoLines (named : uvIequals name (ascii f.name) = true) (other : f ≠ g) :
    uvFindHeader (twoLines name x y before between after) g.name =
      uvFindHeader (before ++ between ++ after) g.name := by
  have apart : uvIequals name (ascii g.name) = false :=
    other_name (h := ⟨name, x⟩) (ListField.name_differs other) named
  rw [twoLines, find_other apart, ← List.append_assoc, find_other apart]

/-- The two heads are decided alike exactly when an earlier line of the name is there to decide
both, or the first of the two lines decides what both decide. -/
theorem sameDecisions_split (f : ListField) (named : uvIequals name (ascii f.name) = true) :
    SameDecisions route
        { head with headers := oneLine name x y before between after }
        { head with headers := twoLines name x y before between after } ↔
      linesOf f.name before ≠ [] ∨
        FirstDecides route head.version (before ++ between ++ after) x y f := by
  have others : ∀ g, f ≠ g → uvFindHeader (oneLine name x y before between after) g.name =
      uvFindHeader (twoLines name x y before between after) g.name := by
    intro g other
    rw [find_oneLine name x y before between after named other,
      find_twoLines name x y before between after named other]
  by_cases first : linesOf f.name before = []
  · have one : uvFindHeader (oneLine name x y before between after) f.name = some _ :=
      find_here first named _
    have two : uvFindHeader (twoLines name x y before between after) f.name = some _ :=
      find_here first named _
    rw [or_iff_right (not_not_intro first)]
    cases f with
    | connection =>
        have up : uvFindHeader (twoLines name x y before between after) "upgrade" =
            uvFindHeader (before ++ between ++ after) "upgrade" :=
          find_twoLines name x y before between after (g := .upgrade) named nofun
        rw [FirstDecides, ← up]
        have ka : uvClientWantsKeepAlive
              { head with headers := oneLine name x y before between after } =
            uvClientWantsKeepAlive
              { head with headers := twoLines name x y before between after } ↔ _ :=
          keepAlive_iff rfl one two
        constructor
        · intro same
          exact ⟨ka.mp same.keepAlive,
            (connection_iff (others .upgrade nofun) one two).mp same.upgrade⟩
        · rintro ⟨keepAlive, upgrade⟩
          exact ⟨ka.mpr keepAlive,
            (connection_iff (others .upgrade nofun) one two).mpr upgrade,
            subprotocol_same (others .protocol nofun)⟩
    | upgrade =>
        have cn : uvFindHeader (twoLines name x y before between after) "connection" =
            uvFindHeader (before ++ between ++ after) "connection" :=
          find_twoLines name x y before between after (g := .connection) named nofun
        rw [FirstDecides, ← cn]
        constructor
        · intro same
          exact (upgrade_iff (others .connection nofun) one two).mp same.upgrade
        · intro upgrade
          exact ⟨keepAlive_same rfl (others .connection nofun),
            (upgrade_iff (others .connection nofun) one two).mpr upgrade,
            subprotocol_same (others .protocol nofun)⟩
    | protocol =>
        rw [FirstDecides]
        constructor
        · intro same
          exact (subprotocol_iff one two).mp same.protocol
        · intro protocol
          exact ⟨keepAlive_same rfl (others .connection nofun),
            upgrade_same (others .upgrade nofun) (others .connection nofun),
            (subprotocol_iff one two).mpr protocol⟩
  · refine iff_of_true ?_ (.inl first)
    have every : ∀ g : ListField, uvFindHeader (oneLine name x y before between after) g.name =
        uvFindHeader (twoLines name x y before between after) g.name := by
      intro g
      by_cases same : f = g
      · rw [← same, oneLine, twoLines, find_earlier first, find_earlier first]
      · exact others g same
    exact ⟨keepAlive_same rfl (every .connection),
      upgrade_same (every .upgrade) (every .connection), subprotocol_same (every .protocol)⟩

end Law

theorem sameDecisions_split_close :
    SameDecisions {}
        { ({} : ParsedHead) with
          headers := oneLine (ascii "Connection") (ascii "te") (ascii "close") [] [] [] }
        { ({} : ParsedHead) with
          headers := twoLines (ascii "Connection") (ascii "te") (ascii "close") [] [] [] } ↔
      linesOf "connection" [] ≠ [] ∨
        FirstDecides {} [] [] (ascii "te") (ascii "close") .connection :=
  sameDecisions_split {} {} (ascii "Connection") (ascii "te") (ascii "close") [] [] [] .connection
    (by decide)

/-! #### A browser's handshake -/

/-- The fields behind the host: `Connection: keep-alive, Upgrade` in one line. -/
def browserRaw : Bytes := ascii ("GET /chat HTTP/1.1\r\nHost: a\r\nUpgrade: websocket\r\n" ++
  "Connection: keep-alive, Upgrade\r\n\r\n")

/-- The same list in two lines. -/
def browserSplit : Bytes := ascii ("GET /chat HTTP/1.1\r\nHost: a\r\nUpgrade: websocket\r\n" ++
  "Connection: keep-alive\r\nConnection: Upgrade\r\n\r\n")

/-- Both heads are taken, and they differ in that line only; one is an upgrade and the other is
not. -/
theorem upgrade_lost :
    findSub crlf2 browserRaw = some 80 ∧ findSub crlf2 browserSplit = some 92 ∧
      (parseRequestHead browserRaw 80).ok = true ∧
      (parseRequestHead browserRaw 80).headers =
        oneLine (ascii "Connection") (ascii "keep-alive") (ascii "Upgrade")
          [⟨ascii "Host", ascii "a"⟩, ⟨ascii "Upgrade", ascii "websocket"⟩] [] [] ∧
      parseRequestHead browserSplit 92 = { parseRequestHead browserRaw 80 with
        headers := twoLines (ascii "Connection") (ascii "keep-alive") (ascii "Upgrade")
          [⟨ascii "Host", ascii "a"⟩, ⟨ascii "Upgrade", ascii "websocket"⟩] [] [] } ∧
      ∀ route, ¬ SameDecisions route (parseRequestHead browserRaw 80)
        (parseRequestHead browserSplit 92) := by
  have decided : uvIsWebSocketUpgrade (parseRequestHead browserRaw 80) = true ∧
      uvIsWebSocketUpgrade (parseRequestHead browserSplit 92) = false := by
    rw [browserRaw, browserSplit, ascii_append, ascii_append]
    repeat rw [ascii_ofList]
    decide +kernel
  have heads : findSub crlf2 browserRaw = some 80 ∧ findSub crlf2 browserSplit = some 92 ∧
      (parseRequestHead browserRaw 80).ok = true ∧
      (parseRequestHead browserRaw 80).headers =
        oneLine (ascii "Connection") (ascii "keep-alive") (ascii "Upgrade")
          [⟨ascii "Host", ascii "a"⟩, ⟨ascii "Upgrade", ascii "websocket"⟩] [] [] ∧
      parseRequestHead browserSplit 92 = { parseRequestHead browserRaw 80 with
        headers := twoLines (ascii "Connection") (ascii "keep-alive") (ascii "Upgrade")
          [⟨ascii "Host", ascii "a"⟩, ⟨ascii "Upgrade", ascii "websocket"⟩] [] [] } := by
    rw [browserRaw, browserSplit, ascii_append, ascii_append]
    repeat rw [ascii_ofList]
    decide +kernel
  obtain ⟨ends, ends', ok, fields, differ⟩ := heads
  refine ⟨ends, ends', ok, fields, differ, ?_⟩
  intro route same
  have both := same.upgrade
  rw [decided.1, decided.2] at both
  cases both

end NitroServer.Head
