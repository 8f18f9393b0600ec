/-
The route trie (`src/engine/Router.h`, `Router.cpp`): `add`, `remove`, `match` and
`allowedMethods`.

A node has static children by segment, one parameter child with the name it was created
under, one wildcard child and the routes that end there by method key. `match` is the
source's loop: an arena of frames with parent links, a stack of frame numbers, and the
best entry so far. The loop runs on fuel; `Router.Search` shows that the fuel `match`
gives it is enough.

`std::map` is an association list: nothing read from a map here depends on its order
(`allowedMethods` sorts what it collects). The source's `int` scores grow by at most two
for each path segment and are unbounded integers here.
-/

import NitroServer.Engine.Types
import NitroServer.Lib.Assoc

namespace NitroServer.Routing

open NitroServer.Engine NitroServer.Lib

/-! ### Patterns -/

/-- The number of a method in `enum class Method`. -/
def methodNumber : Method → Nat
  | .get => 0
  | .head => 1
  | .post => 2
  | .put => 3
  | .delete => 4
  | .patch => 5
  | .options => 6
  | .trace => 7
  | .all => 8
  | .custom => 9

/-- `methodKey`: the key of a route among those that end at one node. -/
def methodKey (m : Method) (custom : Bytes) : Bytes :=
  if m = .custom then ascii "C:" ++ custom
  else if m = .all then ascii "A"
  else ascii "M:" ++ decimal (methodNumber m)

def slash : UInt8 := 47
def colon : UInt8 := 58
def star : UInt8 := 42

/-- `splitInto`, with the segment gathered so far: cut at `/` and drop empty segments. -/
def splitFrom : Bytes → Bytes → List Bytes
  | seg, [] => if seg = [] then [] else [seg]
  | seg, b :: path =>
      if b = slash then
        if seg = [] then splitFrom [] path else seg :: splitFrom [] path
      else splitFrom (seg ++ [b]) path

/-- `split`. -/
def split (path : Bytes) : List Bytes := splitFrom [] path

/-- The loop of `validPattern` over the segments: no bare `:`, and a `*` only as the
whole last segment. -/
def validSegs : List Bytes → Bool
  | [] => true
  | s :: rest =>
      if s = [] ∨ s = [colon] then false
      else if star ∈ s ∧ (s ≠ [star] ∨ rest ≠ []) then false
      else validSegs rest

/-- `validPattern`. -/
def validPattern (pattern : Bytes) : Bool :=
  pattern.head? = some slash && validSegs (split pattern)

/-! ### Nodes -/

/-- `Router::Node`. -/
structure Node where
  statik : List (Bytes × Node) := []
  param : Option Node := none
  paramName : Bytes := []
  wildcard : Option Node := none
  entries : List (Bytes × RouteEntry) := []

/-- `findNode`: follow the segments of a pattern through existing nodes. -/
def findNode : List Bytes → Node → Option Node
  | [], node => some node
  | s :: rest, node =>
      if s = [star] then node.wildcard.bind (findNode rest)
      else if s.head? = some colon then node.param.bind (findNode rest)
      else (node.statik.lookup s).bind (findNode rest)

/-- The descent of `add`: missing nodes are created on the way, a new parameter child
takes its name from this pattern, and the route replaces the one under its key. -/
def addAt (key : Bytes) (route : RouteEntry) : List Bytes → Node → Node
  | [], node => { node with entries := Assoc.set key route node.entries }
  | s :: rest, node =>
      if s = [star] then
        { node with wildcard := some (addAt key route rest (node.wildcard.getD {})) }
      else if s.head? = some colon then
        { node with
          param := some (addAt key route rest (node.param.getD {}))
          paramName := if node.param.isNone then s.drop 1 else node.paramName }
      else
        { node with
          statik := Assoc.set s (addAt key route rest ((node.statik.lookup s).getD {}))
            node.statik }

/-- The erasure of `remove`, at the node `findNodeMut` reaches. -/
def removeAt (key : Bytes) : List Bytes → Node → Node
  | [], node => { node with entries := Assoc.erase key node.entries }
  | s :: rest, node =>
      if s = [star] then { node with wildcard := node.wildcard.map (removeAt key rest) }
      else if s.head? = some colon then
        { node with param := node.param.map (removeAt key rest) }
      else
        match node.statik.lookup s with
        | none => node
        | some child => { node with statik := Assoc.set s (removeAt key rest child) node.statik }

/-! ### The router -/

/-- `class Router`. -/
structure Router where
  root : Node := {}
  size : Nat := 0

/-- The entry the trie holds for a pattern's segments and a method key. -/
def Node.entryAt (node : Node) (segs : List Bytes) (key : Bytes) : Option RouteEntry :=
  (findNode segs node).bind fun n => n.entries.lookup key

/-- `add`; `none` when the pattern is malformed. -/
def Router.add (r : Router) (route : RouteEntry) : Option Router :=
  if validPattern route.pattern then
    let segs := split route.pattern
    let key := methodKey route.method route.customMethod
    some {
      root := addAt key route segs r.root
      size := if (r.root.entryAt segs key).isNone then r.size + 1 else r.size }
  else none

/-- `remove`; `none` when nothing was registered. -/
def Router.remove (r : Router) (method : Method) (customMethod pattern : Bytes) : Option Router :=
  let segs := split pattern
  let key := methodKey method customMethod
  match r.root.entryAt segs key with
  | none => none
  | some _ => some { root := removeAt key segs r.root, size := r.size - 1 }

/-! ### Matching -/

/-- `pick`: the entry of a node that answers a method. -/
def pick (method : Method) (custom : Bytes) (node : Node) : Option RouteEntry :=
  match node.entries.lookup (methodKey method custom) with
  | some e => some e
  | none =>
      match (if method = .head then node.entries.lookup (methodKey .get []) else none) with
      | some e => some e
      | none =>
          if method ≠ .all ∧ method ≠ .custom then node.entries.lookup (methodKey .all [])
          else none

/-- `Frame`. The root's `parent` (−1 in the source) is never read. -/
structure Frame where
  node : Node
  idx : Nat
  parent : Nat := 0
  hasParam : Bool := false
  paramName : Bytes := []
  paramValue : Bytes := []
  specificity : Int

/-- The best entry so far: `best`, `bestFrame`, `bestSpec`, `bestIsAll`. -/
structure Best where
  entry : Option RouteEntry := none
  frame : Int := -1
  spec : Int := -1
  isAll : Bool := true

/-- `consider`. -/
def Best.consider (b : Best) (e : Option RouteEntry) (frame : Nat) (spec : Int) : Best :=
  match e with
  | none => b
  | some e =>
      let isAll := decide (e.method = .all)
      if b.spec < spec ∨ (spec = b.spec ∧ b.isAll = true ∧ isAll = false) then
        { entry := some e, frame := frame, spec := spec, isAll := isAll }
      else b

/-- The state of the loop; the stack's top comes first. -/
structure Search where
  arena : List Frame
  stack : List Nat
  best : Best := {}

def Search.push (s : Search) (f : Frame) : Search :=
  { s with arena := s.arena ++ [f], stack := s.arena.length :: s.stack }

def Search.consider (s : Search) (e : Option RouteEntry) (id : Nat) (spec : Int) : Search :=
  { s with best := s.best.consider e id spec }

/-- The frame of a parameter child. -/
def paramFrame (node child : Node) (id idx : Nat) (seg : Bytes) (spec : Int) : Frame :=
  let hasP := !node.paramName.isEmpty
  { node := child, idx := idx + 1, parent := id, hasParam := hasP
    paramName := if hasP then node.paramName else []
    paramValue := if hasP then seg else []
    specificity := spec + 1 }

/-- The frame of a static child. -/
def staticFrame (child : Node) (id idx : Nat) (spec : Int) : Frame :=
  { node := child, idx := idx + 1, parent := id, specificity := spec + 2 }

/-- The body of the loop for frame `id`, already popped. -/
def visit (method : Method) (custom : Bytes) (segs : List Bytes) (id : Nat) (f : Frame)
    (s : Search) : Search :=
  match segs[f.idx]? with
  | none =>
      let s := s.consider (pick method custom f.node) id f.specificity
      match f.node.wildcard with
      | some w => s.consider (pick method custom w) id f.specificity
      | none => s
  | some seg =>
      let s :=
        match f.node.wildcard with
        | some w => s.consider (pick method custom w) id f.specificity
        | none => s
      match f.node.param, f.node.statik.lookup seg with
      | some p, some c =>
          (s.push (paramFrame f.node p id f.idx seg f.specificity)).push
            (staticFrame c id f.idx f.specificity)
      | some p, none => s.push (paramFrame f.node p id f.idx seg f.specificity)
      | none, some c => s.push (staticFrame c id f.idx f.specificity)
      | none, none => s

/-- The loop: pop and visit until the stack is empty. -/
def searchLoop (method : Method) (custom : Bytes) (segs : List Bytes) : Nat → Search → Search
  | 0, s => s
  | fuel + 1, s =>
      match s.stack with
      | [] => s
      | id :: rest =>
          match s.arena[id]? with
          | none => s
          | some f => searchLoop method custom segs fuel (visit method custom segs id f
              { s with stack := rest })

/-- The captures on the way from the root to a frame. -/
def paramsOf (arena : List Frame) : Nat → Nat → List RouteParam
  | 0, _ => []
  | fuel + 1, id =>
      if id = 0 then []
      else
        match arena[id]? with
        | none => []
        | some f =>
            paramsOf arena fuel f.parent ++
              (if f.hasParam then [⟨f.paramName, f.paramValue⟩] else [])

/-- `MatchResult`; `route` is read only when `matched`. -/
structure MatchResult where
  matched : Bool := false
  route : Option RouteEntry := none
  params : List RouteParam := []
deriving DecidableEq, Repr

/-- Frames the loop can pop for a path of `n` segments: at most two for each parent. -/
def searchFuel (n : Nat) : Nat := 2 ^ (n + 1)

/-- `match`. -/
def Router.match (r : Router) (method : Method) (customMethod path : Bytes) : MatchResult :=
  let segs := split path
  let s := searchLoop method customMethod segs (searchFuel segs.length)
    { arena := [{ node := r.root, idx := 0, specificity := 0 }], stack := [0] }
  match s.best.entry with
  | none => {}
  | some e =>
      { matched := true, route := some e
        params := paramsOf s.arena s.arena.length s.best.frame.toNat }

/-! ### Allowed methods -/

/-- `methodToken`. -/
def methodToken : Method → Bytes
  | .get => ascii "GET"
  | .head => ascii "HEAD"
  | .post => ascii "POST"
  | .put => ascii "PUT"
  | .delete => ascii "DELETE"
  | .patch => ascii "PATCH"
  | .options => ascii "OPTIONS"
  | .trace => ascii "TRACE"
  | .all => ascii "*"
  | .custom => []

/-- `take`: the tokens one entry contributes to `Allow`. -/
def allowTokens (e : RouteEntry) : List Bytes :=
  match e.method with
  | .all => [Method.get, .head, .post, .put, .delete, .patch, .options, .trace].map methodToken
  | .custom => [e.customMethod]
  | .get => [methodToken .get, ascii "HEAD"]
  | m => [methodToken m]

/-- `collectAllowed`. -/
def collectAllowed : List Bytes → Node → List Bytes
  | segs, node =>
      let wild := (node.wildcard.map fun w => w.entries.flatMap fun e => allowTokens e.2).getD []
      match segs with
      | [] => wild ++ node.entries.flatMap fun e => allowTokens e.2
      | s :: rest =>
          wild ++ ((node.statik.lookup s).map (collectAllowed rest)).getD [] ++
            (node.param.map (collectAllowed rest)).getD []

/-- `allowedMethods`: sorted, without repetitions. -/
def Router.allowedMethods (r : Router) (path : Bytes) : List Bytes :=
  ((collectAllowed (split path) r.root).dedup).mergeSort (fun a b => decide (a ≤ b))

end NitroServer.Routing
