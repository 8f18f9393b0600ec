/-
The captures `match` returns, and whose names they carry.

A parameter's name is kept on the trie node, and the node is made by the first `add` that
passes through it; later patterns through the same position share the name, and removing
a route does not give it up.

* `run_nameOf` — the name at a position is the one the first `add` through it gave.
* `match_captures` — the captures are those of the returned route's own pattern exactly
  when its names are those first names.
* `captures_borrow_name` — a history for which they are not.
-/

import NitroServer.Router.Match

namespace NitroServer.Routing

open NitroServer.Engine NitroServer.Lib

/-! ### Names -/

/-- The `:name` segments of a pattern, each with the path segment at its position. -/
def ownCaptures : List Bytes → List Bytes → List RouteParam
  | s :: pattern, v :: path =>
      (if edgeOf s = .param then [⟨s.drop 1, v⟩] else []) ++ ownCaptures pattern path
  | _, _ => []

/-- The name a pattern gives the parameter at a position, if it has one there. -/
def nameIn : List Bytes → Slot → Option Bytes
  | [], _ => none
  | s :: _, [] => if edgeOf s = .param then some (s.drop 1) else none
  | s :: rest, e :: p => if edgeOf s = e then nameIn rest p else none

/-- The name one call gives a position. -/
def Call.nameAt (p : Slot) : Call → Option Bytes
  | .add route => if validPattern route.pattern then nameIn (split route.pattern) p else none
  | .remove _ _ _ => none

/-- The name the first `add` through a position gave it. -/
def firstName (calls : List Call) (p : Slot) : Option Bytes := calls.findSome? (Call.nameAt p)

/-- Every `:name` of a pattern is the name its position was first given. -/
def FirstNamed (calls : List Call) (pattern : List Bytes) : Prop :=
  ∀ p s rest, pattern = p ++ s :: rest → edgeOf s = .param →
    firstName calls (p.map edgeOf) = some (s.drop 1)

/-- The name of the parameter child at a position, if there is one. -/
def Node.nameOf (node : Node) (p : Slot) : Option Bytes :=
  (node.at p).bind fun n => n.param.map fun _ => n.paramName

theorem Node.nameOf_cons (node : Node) (e : Edge) (p : Slot) :
    node.nameOf (e :: p) = (node.child e).bind fun c => c.nameOf p := by
  simp only [Node.nameOf, Node.at, Option.bind_assoc]

theorem Node.names_of_nameOf {node : Node} {p : Slot} {name : Bytes}
    (h : node.nameOf p = some name) : node.names p = name := by
  obtain ⟨n, hn, hname⟩ := Option.bind_eq_some_iff.mp h
  obtain ⟨c, -, rfl⟩ := Option.map_eq_some_iff.mp hname
  rw [Node.names, hn]
  rfl

theorem nameOf_empty (p : Slot) : ({} : Node).nameOf p = none := by
  cases p with
  | nil => rfl
  | cons e p =>
      rw [Node.nameOf_cons]
      cases e <;> rfl

theorem nameOf_addAt (key : Bytes) (route : RouteEntry) (segs : List Bytes) (node : Node)
    (p : Slot) :
    (addAt key route segs node).nameOf p = (node.nameOf p).or (nameIn segs p) := by
  induction segs generalizing node p with
  | nil =>
      rw [nameIn, Option.or_none]
      cases p with
      | nil => rfl
      | cons e p =>
          rw [Node.nameOf_cons, Node.nameOf_cons]
          cases e <;> rfl
  | cons s rest ih =>
      cases p with
      | nil =>
          by_cases hw : s = [star]
          · simp [Node.nameOf, Node.at, addAt, nameIn, edgeOf, hw]
          · by_cases hp : s.head? = some colon
            · cases hc : node.param with
              | none => simp [Node.nameOf, Node.at, addAt, nameIn, edgeOf, hw, hp, hc]
              | some c => simp [Node.nameOf, Node.at, addAt, nameIn, edgeOf, hw, hp, hc]
            · simp [Node.nameOf, Node.at, addAt, nameIn, edgeOf, hw, hp]
      | cons e p =>
          rw [Node.nameOf_cons, Node.nameOf_cons, child_addAt, nameIn]
          by_cases he : e = edgeOf s
          · rw [if_pos he, if_pos he.symm, Option.bind_some, ih]
            cases node.child e with
            | none => rw [Option.getD_none, nameOf_empty]; rfl
            | some c => rfl
          · rw [if_neg he, if_neg (Ne.symm he), Option.or_none]

theorem nameOf_removeAt (key : Bytes) (segs : List Bytes) (node : Node) (p : Slot) :
    (removeAt key segs node).nameOf p = node.nameOf p := by
  induction segs generalizing node p with
  | nil =>
      cases p with
      | nil => rfl
      | cons e p =>
          rw [Node.nameOf_cons, Node.nameOf_cons]
          cases e <;> rfl
  | cons s rest ih =>
      cases p with
      | nil =>
          by_cases hw : s = [star]
          · simp [Node.nameOf, Node.at, removeAt, hw]
          · by_cases hp : s.head? = some colon
            · cases hc : node.param with
              | none => simp [Node.nameOf, Node.at, removeAt, hw, hp, hc]
              | some c => simp [Node.nameOf, Node.at, removeAt, hw, hp, hc]
            · cases hc : node.statik.lookup s with
              | none => simp [Node.nameOf, Node.at, removeAt, hw, hp, hc]
              | some c => simp [Node.nameOf, Node.at, removeAt, hw, hp, hc]
      | cons e p =>
          rw [Node.nameOf_cons, Node.nameOf_cons, child_removeAt]
          by_cases he : e = edgeOf s
          · rw [if_pos he]
            cases node.child e with
            | none => rfl
            | some c => exact ih c p
          · rw [if_neg he]

theorem nameOf_apply (r : Router) (call : Call) (p : Slot) :
    (r.apply call).root.nameOf p = (r.root.nameOf p).or (call.nameAt p) := by
  cases call with
  | add route =>
      by_cases valid : validPattern route.pattern = true
      · simp only [Router.apply, Router.add, valid, if_true, Option.getD_some, Call.nameAt,
          nameOf_addAt]
      · simp [Router.apply, Router.add, valid, Call.nameAt]
  | remove method custom pattern =>
      simp only [Router.apply, Router.remove, Call.nameAt, Option.or_none]
      split
      · rfl
      · exact nameOf_removeAt _ _ _ _

/-- The name at a position is the one the first `add` through it gave. -/
theorem run_nameOf (calls : List Call) (p : Slot) :
    (run calls).root.nameOf p = firstName calls p := by
  induction calls using List.reverseRecOn with
  | nil => exact nameOf_empty p
  | append_singleton calls call ih =>
      rw [run, List.foldl_append, List.foldl_cons, List.foldl_nil, nameOf_apply]
      rw [run] at ih
      rw [ih, firstName, firstName, List.findSome?_append]
      simp

/-! ### Names are never empty -/

theorem validSegs_cons {s : Bytes} {rest : List Bytes} (h : validSegs (s :: rest) = true) :
    s ≠ [colon] ∧ validSegs rest = true := by
  simp only [validSegs] at h
  split at h
  · cases h
  · rename_i plain
    split at h
    · cases h
    · exact ⟨fun hc => plain (.inr hc), h⟩

theorem nameIn_ne_nil {segs : List Bytes} (valid : validSegs segs = true) {p : Slot}
    {name : Bytes} (h : nameIn segs p = some name) : name ≠ [] := by
  induction segs generalizing p with
  | nil => cases h
  | cons s rest ih =>
      obtain ⟨bare, valid'⟩ := validSegs_cons valid
      cases p with
      | nil =>
          simp only [nameIn] at h
          split at h
          · rename_i isParam
            cases h
            intro empty
            have head : s.head? = some colon := by
              by_contra hne
              simp only [edgeOf, hne, if_false] at isParam
              split at isParam <;> cases isParam
            cases s with
            | nil => cases head
            | cons b s =>
                cases s with
                | nil => exact bare (by simpa using head)
                | cons b' s => cases empty
          · cases h
      | cons e p =>
          simp only [nameIn] at h
          split at h
          · exact ih valid' h
          · cases h

theorem firstName_ne_nil {calls : List Call} {p : Slot} {name : Bytes}
    (h : firstName calls p = some name) : name ≠ [] := by
  obtain ⟨call, -, hname⟩ := List.exists_of_findSome?_eq_some h
  cases call with
  | add route =>
      simp only [Call.nameAt] at hname
      split at hname
      · rename_i valid
        rw [validPattern, Bool.and_eq_true] at valid
        exact nameIn_ne_nil valid.2 hname
      · cases hname
  | remove method custom pattern => cases hname

/-- The positions of a registered pattern's parameters have names. -/
theorem firstName_isSome {calls : List Call} {p q : Slot}
    (h : ((run calls).root.at (p ++ .param :: q)).isSome) :
    ∃ name, firstName calls p = some name := by
  rw [← run_nameOf, Node.nameOf]
  rw [Node.at_append] at h
  cases hp : (run calls).root.at p with
  | none =>
      rw [hp] at h
      cases h
  | some n =>
      rw [hp, Option.bind_some, Node.at] at h
      cases hc : n.param with
      | none =>
          rw [show n.child .param = none from hc] at h
          cases h
      | some c => exact ⟨n.paramName, by simp [hc]⟩

/-! ### The captures of the returned route -/

/-- The trie's captures are the pattern's own exactly when the trie's names are. -/
theorem capturesFrom_eq_iff {names : Slot → Bytes} {pattern : List Bytes} {pre : Slot}
    {path : List Bytes} (answered : Answered (pattern.map edgeOf) path = true)
    (named : ∀ p s rest, pattern = p ++ s :: rest → edgeOf s = .param →
      names (pre ++ p.map edgeOf) ≠ []) :
    capturesFrom names pre (pattern.map edgeOf) path = ownCaptures pattern path ↔
      ∀ p s rest, pattern = p ++ s :: rest → edgeOf s = .param →
        names (pre ++ p.map edgeOf) = s.drop 1 := by
  induction pattern generalizing pre path with
  | nil =>
      simp only [List.map_nil, ownCaptures]
      constructor
      · intro _ p s rest h
        cases p <;> cases h
      · intro _
        cases path <;> rfl
  | cons s pattern ih =>
      -- a position of the pattern is its head or one of the tail
      have split_at : ∀ P : List Bytes → Bytes → Prop,
          (∀ p t rest, s :: pattern = p ++ t :: rest → edgeOf t = .param → P p t) ↔
            (edgeOf s = .param → P [] s) ∧
              ∀ p t rest, pattern = p ++ t :: rest → edgeOf t = .param → P (s :: p) t := by
        intro P
        constructor
        · intro h
          exact ⟨h [] s pattern rfl, fun p t rest ht => h (s :: p) t rest (by rw [ht]; rfl)⟩
        · rintro ⟨here, below⟩ p t rest ht isParam
          cases p with
          | nil =>
              cases ht
              exact here isParam
          | cons u p =>
              rw [List.cons_append, List.cons.injEq] at ht
              rw [← ht.1]
              exact below p t rest ht.2 isParam
      rw [split_at fun p t => names (pre ++ p.map edgeOf) = t.drop 1]
      rw [split_at fun p _ => names (pre ++ p.map edgeOf) ≠ []] at named
      simp only [List.map_cons, List.map_nil, List.append_nil] at named ⊢
      have shift : ∀ p : List Bytes, pre ++ edgeOf s :: p.map edgeOf =
          (pre ++ [edgeOf s]) ++ p.map edgeOf := fun p => by simp
      simp only [shift] at named ⊢
      rw [List.map_cons] at answered
      cases he : edgeOf s with
      | wild =>
          rw [he] at answered
          have last : pattern = [] := by
            cases pattern with
            | nil => rfl
            | cons t pattern => simp [Answered] at answered
          subst last
          constructor
          · intro _
            refine ⟨fun h => by (cases h), fun p t rest ht => ?_⟩
            cases p <;> cases ht
          · intro _
            cases path with
            | nil => rfl
            | cons v path => simp [capturesFrom, ownCaptures, he]
      | lit t =>
          rw [he] at answered named
          cases path with
          | nil => simp [Answered] at answered
          | cons v path =>
              rw [Answered, Bool.and_eq_true] at answered
              rw [capturesFrom, ownCaptures, he, if_neg (by simp), List.nil_append,
                ih answered.2 named.2]
              simp
      | param =>
          rw [he] at answered named
          cases path with
          | nil => simp [Answered] at answered
          | cons v path =>
              have full : capture (names pre) v = [⟨names pre, v⟩] := by
                rw [capture, if_neg (by simpa using named.1 rfl)]
              rw [capturesFrom, ownCaptures, he, if_pos rfl, full, List.singleton_append,
                List.singleton_append, List.cons.injEq, ih answered named.2]
              simp

/-- The captures `match` returns are the returned route's own, each `:name` of its
pattern with the path segment at its position, exactly when every `:name` of that pattern
is the name the first `add` through its position gave it. -/
theorem match_captures (calls : List Call) (method : Method) (custom path : Bytes)
    (e : RouteEntry) (returned : ((run calls).match method custom path).route = some e) :
    ((run calls).match method custom path).params = ownCaptures (split e.pattern) (split path) ↔
      FirstNamed calls (split e.pattern) := by
  obtain ⟨c, hc, rfl, params⟩ := argmax_of_route returned
  have mem : c ∈ found calls method custom path := List.argmax_mem hc
  obtain ⟨-, slot, answers, -, captured, -⟩ := mem_found mem
  have here : ((run calls).root.at ((split c.entry.pattern).map edgeOf)).isSome := by
    obtain ⟨hp, -⟩ := mem_candidates.mp mem
    rw [← slot, Node.picks] at hp
    obtain ⟨n, hn, -⟩ := Option.bind_eq_some_iff.mp hp
    rw [show (run calls).root.at ((split c.entry.pattern).map edgeOf) = some n from hn]
    rfl
  have first : ∀ p s rest, split c.entry.pattern = p ++ s :: rest → edgeOf s = .param →
      ∃ name, firstName calls (p.map edgeOf) = some name := by
    intro p s rest hs isParam
    rw [hs, List.map_append, List.map_cons, isParam] at here
    exact firstName_isSome here
  have names : ∀ p name, firstName calls p = some name → (run calls).root.names p = name :=
    fun p name h => Node.names_of_nameOf (by rw [run_nameOf]; exact h)
  rw [params, captured, ← slot]
  refine (capturesFrom_eq_iff answers.1 fun p s rest hs isParam => ?_).trans ?_
  · obtain ⟨name, hname⟩ := first p s rest hs isParam
    rw [List.nil_append, names _ _ hname]
    exact firstName_ne_nil hname
  · refine forall_congr' fun p => forall_congr' fun s => forall_congr' fun rest =>
      forall_congr' fun hs => forall_congr' fun isParam => ?_
    obtain ⟨name, hname⟩ := first p s rest hs isParam
    rw [List.nil_append, names _ _ hname, hname, Option.some.injEq]

/-- GET `/u/:id` and POST `/u/:name`, in this order. -/
def sharedCalls : List Call :=
  [.add { pattern := ascii "/u/:id" }, .add { method := .post, pattern := ascii "/u/:name" }]

/-- The GET route gave the position its name, so its captures are its own. -/
theorem match_captures_creator :
    ((run sharedCalls).match .get [] (ascii "/u/42")).route = some { pattern := ascii "/u/:id" } ∧
      (((run sharedCalls).match .get [] (ascii "/u/42")).params =
          ownCaptures (split (ascii "/u/:id")) (split (ascii "/u/42")) ↔
        FirstNamed sharedCalls (split (ascii "/u/:id"))) :=
  ⟨by decide +kernel, match_captures sharedCalls .get [] (ascii "/u/42")
    { pattern := ascii "/u/:id" } (by decide +kernel)⟩

/-- The POST route's capture comes back under the name `id`. -/
theorem captures_borrow_name :
    ((run sharedCalls).match .post [] (ascii "/u/42")).route =
        some { method := .post, pattern := ascii "/u/:name" } ∧
      ((run sharedCalls).match .post [] (ascii "/u/42")).params ≠
        ownCaptures (split (ascii "/u/:name")) (split (ascii "/u/42")) := by
  decide +kernel

end NitroServer.Routing
