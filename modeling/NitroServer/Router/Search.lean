/-
What the search loop of `match` computes.

A trie position is a `Slot`: the edges followed from the root. `candidates` lists, in the
order the loop reaches them, the entries that answer a path, each with its slot, its
score and its captures; it reads the trie only through two functions of the slot, the
entry picked there and the parameter name kept there.

* `searchLoop_spec` — the loop folds `consider` over the candidates of the frames on its
  stack, and the fuel `match` gives it is enough.
* `match_eq_argmax` — `match` returns the first candidate of the highest rank.
* `mem_candidates`, `candidates_pairwise` — which candidates there are, and their order.
-/

import NitroServer.Router.Trie

namespace NitroServer.Routing

open NitroServer.Engine NitroServer.Lib

/-! ### Slots -/

/-- One step down the trie. -/
inductive Edge where
  | lit (s : Bytes)
  | param
  | wild
deriving DecidableEq, Repr

/-- The edge a pattern segment names. -/
def edgeOf (s : Bytes) : Edge :=
  if s = [star] then .wild else if s.head? = some colon then .param else .lit s

abbrev Slot := List Edge

/-- The trie position a pattern names. -/
def slotOf (pattern : Bytes) : Slot := (split pattern).map edgeOf

def Node.child (node : Node) : Edge → Option Node
  | .lit s => node.statik.lookup s
  | .param => node.param
  | .wild => node.wildcard

/-- The node at a slot. -/
def Node.at : Slot → Node → Option Node
  | [], node => some node
  | e :: p, node => (node.child e).bind (Node.at p)

theorem Node.at_append (p q : Slot) (node : Node) :
    node.at (p ++ q) = (node.at p).bind (Node.at q) := by
  induction p generalizing node with
  | nil => rfl
  | cons e p ih =>
      simp only [List.cons_append, Node.at]
      cases node.child e with
      | none => rfl
      | some c => exact ih c

theorem findNode_eq_at (segs : List Bytes) (node : Node) :
    findNode segs node = node.at (segs.map edgeOf) := by
  induction segs generalizing node with
  | nil => rfl
  | cons s rest ih =>
      have next : findNode rest = Node.at (rest.map edgeOf) := funext ih
      simp only [findNode, List.map_cons, Node.at, edgeOf, next]
      split
      · rfl
      · split
        · rfl
        · rfl

/-- The entry picked at a slot. -/
def Node.picks (root : Node) (method : Method) (custom : Bytes) (p : Slot) : Option RouteEntry :=
  (root.at p).bind (pick method custom)

/-- The parameter name kept at a slot. -/
def Node.names (root : Node) (p : Slot) : Bytes :=
  ((root.at p).map Node.paramName).getD []

/-! ### Candidates -/

/-- An entry that answers the path. -/
structure Candidate where
  slot : Slot
  entry : RouteEntry
  spec : Nat
  params : List RouteParam
deriving DecidableEq

/-- The rank `consider` compares: the score first, then routes of a specific method. -/
def Candidate.rank (c : Candidate) : Nat :=
  2 * c.spec + if c.entry.method = .all then 0 else 1

/-- The capture of one segment, when the node's parameter has a name. -/
def capture (name seg : Bytes) : List RouteParam :=
  if name.isEmpty then [] else [⟨name, seg⟩]

section Candidates

variable (picks : Slot → Option RouteEntry) (names : Slot → Bytes)

/-- The candidate at one slot, if an entry is picked there. -/
def candidateAt (p : Slot) (params : List RouteParam) (spec : Nat) : List Candidate :=
  (picks p).toList.map fun e => ⟨p, e, spec, params⟩

/-- The candidates for the segments still to be read below slot `p`, in the order in
which the loop considers them. -/
def candidates : List Bytes → Slot → List RouteParam → Nat → List Candidate
  | [], p, params, spec =>
      candidateAt picks p params spec ++ candidateAt picks (p ++ [.wild]) params spec
  | seg :: rest, p, params, spec =>
      candidateAt picks (p ++ [.wild]) params spec ++
        (candidates rest (p ++ [.lit seg]) params (spec + 2) ++
          candidates rest (p ++ [.param]) (params ++ capture (names p) seg) (spec + 1))

variable {picks names}

theorem mem_candidateAt {c : Candidate} {p : Slot} {params : List RouteParam} {spec : Nat} :
    c ∈ candidateAt picks p params spec ↔
      picks p = some c.entry ∧ c.slot = p ∧ c.spec = spec ∧ c.params = params := by
  simp only [candidateAt, List.mem_map, Option.mem_toList]
  constructor
  · rintro ⟨e, he, rfl⟩
    exact ⟨he, rfl, rfl, rfl⟩
  · rintro ⟨he, rfl, rfl, rfl⟩
    exact ⟨c.entry, he, rfl⟩

theorem candidateAt_none {p : Slot} (h : picks p = none) (params : List RouteParam) (spec : Nat) :
    candidateAt picks p params spec = [] := by
  rw [candidateAt, h]
  rfl

theorem candidates_absent {segs : List Bytes} {p : Slot} {params : List RouteParam} {spec : Nat}
    (absent : ∀ q, picks (p ++ q) = none) : candidates picks names segs p params spec = [] := by
  induction segs generalizing p params spec with
  | nil =>
      have here : picks p = none := by simpa using absent []
      rw [candidates, candidateAt_none here, candidateAt_none (absent _)]
      rfl
  | cons seg rest ih =>
      have below : ∀ e, ∀ q, picks ((p ++ [e]) ++ q) = none := by
        intro e q
        rw [List.append_assoc]
        exact absent _
      rw [candidates, candidateAt_none (absent _), ih (below _), ih (below _)]
      rfl

end Candidates

/-! ### Captures of a frame -/

/-- The frame's captures are `params`, whatever frames are pushed later. -/
def Captured (arena : List Frame) (id : Nat) (params : List RouteParam) : Prop :=
  id < arena.length ∧ ∀ more fuel, id ≤ fuel → paramsOf (arena ++ more) fuel id = params

theorem Captured.push {arena : List Frame} {id : Nat} {params : List RouteParam}
    (h : Captured arena id params) (f : Frame) : Captured (arena ++ [f]) id params := by
  refine ⟨by simpa using Nat.lt_succ_of_lt h.1, fun more fuel hf => ?_⟩
  rw [List.append_assoc]
  exact h.2 _ fuel hf

theorem captured_root (f : Frame) : Captured [f] 0 [] := by
  refine ⟨by simp, fun more fuel _ => ?_⟩
  cases fuel with
  | zero => rfl
  | succ fuel => simp [paramsOf]

theorem Captured.child {arena : List Frame} {id : Nat} {params : List RouteParam} {f : Frame}
    (h : Captured arena id params) (parent : f.parent = id) :
    Captured (arena ++ [f]) arena.length
      (params ++ if f.hasParam then [⟨f.paramName, f.paramValue⟩] else []) := by
  refine ⟨by simp, fun more fuel hf => ?_⟩
  have pos : 0 < arena.length := Nat.lt_of_le_of_lt (Nat.zero_le id) h.1
  obtain ⟨fuel, rfl⟩ : ∃ n, fuel = n + 1 := ⟨fuel - 1, by omega⟩
  have here : (arena ++ [f] ++ more)[arena.length]? = some f := by simp
  have up := h.2 ([f] ++ more) fuel (by have := h.1; omega)
  rw [← List.append_assoc] at up
  rw [paramsOf, if_neg (by omega), here]
  simp only [parent, up]

/-! ### The loop -/

/-- The work a frame on the stack stands for. -/
structure Work where
  slot : Slot
  rest : List Bytes
  params : List RouteParam
  spec : Nat

/-- The candidates below a frame. -/
def Work.candidates (picks : Slot → Option RouteEntry) (names : Slot → Bytes) (w : Work) :
    List Candidate :=
  Routing.candidates picks names w.rest w.slot w.params w.spec

/-- How many frames the loop pops for a path of `n` more segments, at most. -/
def weight : Nat → Nat
  | 0 => 1
  | n + 1 => 2 * weight n + 1

theorem weight_le_searchFuel (n : Nat) : weight n ≤ searchFuel n := by
  have h : weight n + 1 = searchFuel n := by
    induction n with
    | zero => rfl
    | succ n ih =>
        have := Nat.pow_succ 2 (n + 1)
        simp only [searchFuel] at ih ⊢
        simp only [weight]
        omega
  omega

section Loop

variable {method : Method} {custom : Bytes} {segs : List Bytes} {root : Node}

/-- Frame `f`, number `id`, stands for the work `w`. -/
structure StandsFor (root : Node) (segs : List Bytes) (arena : List Frame) (id : Nat) (f : Frame)
    (w : Work) : Prop where
  frame : arena[id]? = some f
  node : root.at w.slot = some f.node
  rest : segs.drop f.idx = w.rest
  spec : f.specificity = w.spec
  captured : Captured arena id w.params

/-- The frames on the stack stand for the listed work. -/
def Stacked (root : Node) (segs : List Bytes) (arena : List Frame) : List Nat → List Work → Prop :=
  List.Forall₂ fun id w => ∃ f, StandsFor root segs arena id f w

theorem StandsFor.push {arena : List Frame} {id : Nat} {f : Frame} {w : Work}
    (h : StandsFor root segs arena id f w) (g : Frame) :
    StandsFor root segs (arena ++ [g]) id f w := by
  refine ⟨?_, h.node, h.rest, h.spec, h.captured.push g⟩
  rw [List.getElem?_append_left h.captured.1]
  exact h.frame

theorem Stacked.push {arena : List Frame} {stack : List Nat} {works : List Work}
    (h : Stacked root segs arena stack works) (g : Frame) :
    Stacked root segs (arena ++ [g]) stack works :=
  h.imp fun _ _ ⟨f, hf⟩ => ⟨f, hf.push g⟩

/-- The best entry so far is the candidate `c`. -/
def Best.Is (arena : List Frame) (b : Best) : Option Candidate → Prop
  | none => b = {}
  | some c => ∃ id : Nat, b = ⟨some c.entry, id, c.spec, decide (c.entry.method = .all)⟩ ∧
      Captured arena id c.params

theorem Best.Is.push {arena : List Frame} {b : Best} {c : Option Candidate}
    (h : b.Is arena c) (g : Frame) : b.Is (arena ++ [g]) c := by
  cases c with
  | none => exact h
  | some c =>
      obtain ⟨id, hb, hc⟩ := h
      exact ⟨id, hb, hc.push g⟩

/-- Fold the candidates into the best one so far, keeping the first of the highest rank. -/
def keepBest (b : Option Candidate) (cs : List Candidate) : Option Candidate :=
  cs.foldl (List.argAux fun a b => b.rank < a.rank) b

theorem keepBest_append (b : Option Candidate) (cs ds : List Candidate) :
    keepBest b (cs ++ ds) = keepBest (keepBest b cs) ds :=
  List.foldl_append ..

/-- `consider` compares ranks. -/
theorem Best.Is.consider {arena : List Frame} {b : Best} {best : Option Candidate} {p : Slot}
    {params : List RouteParam} {id spec : Nat} {picks : Slot → Option RouteEntry}
    (h : b.Is arena best) (hc : Captured arena id params) :
    (b.consider (picks p) id spec).Is arena (keepBest best (candidateAt picks p params spec)) := by
  cases hp : picks p with
  | none => rw [candidateAt_none hp]; exact h
  | some e =>
      have one : candidateAt picks p params spec = [⟨p, e, spec, params⟩] := by
        rw [candidateAt, hp]; rfl
      rw [one]
      cases best with
      | none =>
          obtain rfl : b = {} := h
          have better : (-1 : Int) < spec := by omega
          simp only [Best.consider, better, true_or, if_true]
          exact ⟨id, rfl, hc⟩
      | some c =>
          obtain ⟨n, rfl, hn⟩ := h
          have ranks : ((c.spec : Int) < spec ∨ ((spec : Int) = c.spec ∧
              decide (c.entry.method = .all) = true ∧ decide (e.method = .all) = false)) ↔
              c.rank < Candidate.rank ⟨p, e, spec, params⟩ := by
            simp only [Candidate.rank, decide_eq_true_eq, decide_eq_false_iff_not]
            split <;> split <;> simp [*] <;> omega
          simp only [Best.consider, keepBest, List.foldl_cons, List.foldl_nil, List.argAux]
          by_cases better : c.rank < Candidate.rank ⟨p, e, spec, params⟩
          · rw [if_pos (ranks.mpr better), if_pos better]
            exact ⟨id, rfl, hc⟩
          · rw [if_neg (mt ranks.mp better), if_neg better]
            exact ⟨n, rfl, hn⟩

theorem picks_child (method : Method) (custom : Bytes) {p : Slot} {node : Node}
    (h : root.at p = some node) (e : Edge) :
    root.picks method custom (p ++ [e]) = (node.child e).bind (pick method custom) := by
  have one : node.at [e] = node.child e := Option.bind_fun_some (node.child e)
  rw [Node.picks, Node.at_append, h, Option.bind_some, one]

theorem candidates_noChild {p : Slot} {node : Node} {e : Edge} (h : root.at p = some node)
    (absent : node.child e = none) (names : Slot → Bytes) (rest : List Bytes)
    (params : List RouteParam) (spec : Nat) :
    candidates (root.picks method custom) names rest (p ++ [e]) params spec = [] := by
  refine candidates_absent fun q => ?_
  have none_at : root.at (p ++ [e]) = none := by
    rw [Node.at_append, h, Option.bind_some, Node.at, absent]
    rfl
  rw [Node.picks, Node.at_append, none_at]
  rfl

/-- Push the frame of a child, if there is one. -/
def Search.pushChild (s : Search) (child : Option Node) (frame : Node → Frame) : Search :=
  match child with
  | none => s
  | some c => s.push (frame c)

theorem visit_end {f : Frame} (h : segs[f.idx]? = none) (id : Nat) (s : Search) :
    visit method custom segs id f s =
      (s.consider (pick method custom f.node) id f.specificity).consider
        ((f.node.child .wild).bind (pick method custom)) id f.specificity := by
  simp only [visit, h, Node.child]
  cases f.node.wildcard with
  | none => rfl
  | some w => rfl

theorem visit_seg {f : Frame} {seg : Bytes} (h : segs[f.idx]? = some seg) (id : Nat) (s : Search) :
    visit method custom segs id f s =
      (((s.consider ((f.node.child .wild).bind (pick method custom)) id f.specificity).pushChild
        (f.node.child .param) fun p => paramFrame f.node p id f.idx seg f.specificity).pushChild
        (f.node.child (.lit seg)) fun c => staticFrame c id f.idx f.specificity) := by
  simp only [visit, h, Node.child]
  cases f.node.wildcard <;> cases f.node.param <;> cases f.node.statik.lookup seg <;> rfl

/-- A child frame stands for the work below its edge. -/
theorem StandsFor.child {arena : List Frame} {id : Nat} {f g : Frame} {w : Work} {seg : Bytes}
    {rest : List Bytes} {e : Edge} {n : Nat} {params : List RouteParam}
    (h : StandsFor root segs arena id f w) (hr : w.rest = seg :: rest)
    (node : f.node.child e = some g.node) (idx : g.idx = f.idx + 1) (parent : g.parent = id)
    (spec : g.specificity = f.specificity + n)
    (captures : params = w.params ++ if g.hasParam then [⟨g.paramName, g.paramValue⟩] else []) :
    StandsFor root segs (arena ++ [g]) arena.length g ⟨w.slot ++ [e], rest, params, w.spec + n⟩ := by
  refine ⟨by simp, ?_, ?_, ?_, ?_⟩
  · show root.at (w.slot ++ [e]) = some g.node
    rw [Node.at_append, h.node, Option.bind_some, Node.at, node]
    rfl
  · show segs.drop g.idx = rest
    rw [idx, ← List.drop_drop, h.rest, hr]
    rfl
  · show g.specificity = ((w.spec + n : Nat) : Int)
    rw [spec, h.spec]
    push_cast
    rfl
  · rw [captures]
    exact h.captured.child parent

theorem capture_paramFrame (node child : Node) (id idx : Nat) (seg : Bytes) (spec : Int) :
    (if (paramFrame node child id idx seg spec).hasParam then
      [⟨(paramFrame node child id idx seg spec).paramName,
        (paramFrame node child id idx seg spec).paramValue⟩] else []) =
      capture node.paramName seg := by
  cases hn : node.paramName.isEmpty with
  | true => simp [paramFrame, capture, hn]
  | false => simp [paramFrame, capture, hn]

/-- Pushing the frame of an edge's child puts the work below that edge on the stack; if
there is no child, there is nothing below the edge. -/
theorem pushChild_spec (s : Search) (e : Edge) (n : Nat) (params : List RouteParam)
    (frame : Node → Frame) {id : Nat} {f : Frame} {w : Work} {works : List Work}
    {best : Option Candidate} {seg : Bytes} {rest : List Bytes}
    (h : StandsFor root segs s.arena id f w) (hr : w.rest = seg :: rest)
    (stacked : Stacked root segs s.arena s.stack works) (hb : s.best.Is s.arena best)
    (node : ∀ c, (frame c).node = c) (idx : ∀ c, (frame c).idx = f.idx + 1)
    (parent : ∀ c, (frame c).parent = id)
    (spec : ∀ c, (frame c).specificity = f.specificity + n)
    (captures : ∀ c, params = w.params ++
      if (frame c).hasParam then [⟨(frame c).paramName, (frame c).paramValue⟩] else []) :
    ∃ next,
      Stacked root segs (s.pushChild (f.node.child e) frame).arena
        (s.pushChild (f.node.child e) frame).stack (next ++ works) ∧
      (next.map fun w => weight w.rest.length).sum ≤ weight rest.length ∧
      (s.pushChild (f.node.child e) frame).best.Is (s.pushChild (f.node.child e) frame).arena best ∧
      StandsFor root segs (s.pushChild (f.node.child e) frame).arena id f w ∧
      next.flatMap (Work.candidates (root.picks method custom) root.names) =
        candidates (root.picks method custom) root.names rest (w.slot ++ [e]) params (w.spec + n) := by
  cases hc : f.node.child e with
  | none =>
      refine ⟨[], stacked, Nat.zero_le _, hb, h, ?_⟩
      rw [candidates_noChild h.node hc]
      rfl
  | some c =>
      refine ⟨[⟨w.slot ++ [e], rest, params, w.spec + n⟩], ?_, ?_, hb.push _, h.push _, ?_⟩
      · have hg : StandsFor root segs (s.arena ++ [frame c]) s.arena.length (frame c)
            ⟨w.slot ++ [e], rest, params, w.spec + n⟩ :=
          h.child hr (by rw [hc, node]) (idx c) (parent c) (spec c) (captures c)
        exact List.Forall₂.cons ⟨frame c, hg⟩ (stacked.push _)
      · simp
      · simp [Work.candidates]

/-- What visiting a frame leaves: the work of the frame is split among the frames it
pushes, and what it considers itself is folded into the best entry. -/
theorem visit_spec (method : Method) (custom : Bytes) (s : Search) {id : Nat} {f : Frame} {w : Work} {works : List Work}
    {best : Option Candidate} (h : StandsFor root segs s.arena id f w)
    (stacked : Stacked root segs s.arena s.stack works) (hb : s.best.Is s.arena best) :
    ∃ next best',
      Stacked root segs (visit method custom segs id f s).arena
        (visit method custom segs id f s).stack (next ++ works) ∧
      (next.map fun w => weight w.rest.length).sum + 1 ≤ weight w.rest.length ∧
      (visit method custom segs id f s).best.Is (visit method custom segs id f s).arena best' ∧
      keepBest best' (next.flatMap (Work.candidates (root.picks method custom) root.names)) =
        keepBest best (w.candidates (root.picks method custom) root.names) := by
  have head : segs[f.idx]? = w.rest.head? := by rw [← h.rest, List.head?_drop]
  have here : root.picks method custom w.slot = pick method custom f.node := by
    rw [Node.picks, h.node, Option.bind_some]
  have wild := picks_child method custom h.node .wild
  have name : root.names w.slot = f.node.paramName := by rw [Node.names, h.node]; rfl
  cases hr : w.rest with
  | nil =>
      rw [hr] at head
      rw [visit_end head, ← here, ← wild, h.spec]
      refine ⟨[], keepBest best (w.candidates (root.picks method custom) root.names),
        stacked, by simp [weight], ?_, rfl⟩
      rw [Work.candidates, hr, candidates, keepBest_append]
      exact (hb.consider h.captured).consider h.captured
  | cons seg rest =>
      rw [hr] at head
      rw [visit_seg head, ← wild]
      let s₁ := s.consider (root.picks method custom (w.slot ++ [.wild])) id f.specificity
      have mid : s₁.best.Is s₁.arena (keepBest best (candidateAt (root.picks method custom)
          (w.slot ++ [.wild]) w.params w.spec)) := by
        simp only [s₁, h.spec]
        exact hb.consider h.captured
      obtain ⟨ps, stacked₁, weight₁, best₁, h₁, cands₁⟩ := pushChild_spec s₁ .param 1
        (w.params ++ capture (root.names w.slot) seg)
        (fun p => paramFrame f.node p id f.idx seg f.specificity)
        h hr stacked mid (fun _ => rfl) (fun _ => rfl) (fun _ => rfl) (fun _ => rfl)
        (fun c => by rw [name, capture_paramFrame])
      obtain ⟨ss, stacked₂, weight₂, best₂, -, cands₂⟩ := pushChild_spec _ (.lit seg) 2
        w.params (fun c => staticFrame c id f.idx f.specificity)
        h₁ hr stacked₁ best₁ (fun _ => rfl) (fun _ => rfl) (fun _ => rfl) (fun _ => rfl)
        (fun c => (List.append_nil _).symm)
      refine ⟨ss ++ ps, _, by rw [List.append_assoc]; exact stacked₂, ?_, best₂, ?_⟩
      · rw [List.map_append, List.sum_append, List.length_cons, weight]
        omega
      · rw [List.flatMap_append, cands₁, cands₂, Work.candidates, hr, candidates,
          keepBest_append best]

/-- The loop folds the candidates of the frames on its stack into the best entry. -/
theorem searchLoop_spec (method : Method) (custom : Bytes) {fuel : Nat} {s : Search}
    {works : List Work} {best : Option Candidate}
    (stacked : Stacked root segs s.arena s.stack works) (hb : s.best.Is s.arena best)
    (enough : (works.map fun w => weight w.rest.length).sum ≤ fuel) :
    (searchLoop method custom segs fuel s).best.Is (searchLoop method custom segs fuel s).arena
      (keepBest best (works.flatMap (Work.candidates (root.picks method custom) root.names))) := by
  induction fuel generalizing s works best with
  | zero =>
      cases works with
      | nil => exact hb
      | cons w works =>
          have pos : 0 < weight w.rest.length := by cases w.rest.length <;> simp [weight]
          simp only [List.map_cons, List.sum_cons] at enough
          omega
  | succ fuel ih =>
      obtain ⟨arena, stack, b⟩ := s
      cases stacked with
      | nil => exact hb
      | cons hd tl =>
          obtain ⟨f, hf⟩ := hd
          rename_i id w stack works
          obtain ⟨next, best', stacked', weight', hb', same⟩ :=
            visit_spec method custom ⟨arena, stack, b⟩ hf tl hb
          have step : searchLoop method custom segs (fuel + 1) ⟨arena, id :: stack, b⟩ =
              searchLoop method custom segs fuel (visit method custom segs id f ⟨arena, stack, b⟩) := by
            simp only [searchLoop, hf.frame]
          simp only [List.map_cons, List.sum_cons] at enough
          have rest := ih stacked' hb' (by
            rw [List.map_append, List.sum_append]
            omega)
          rw [List.flatMap_append, keepBest_append, same, ← keepBest_append] at rest
          rw [step]
          exact rest

end Loop

/-- The result `match` builds from the best candidate. -/
def MatchResult.of (c : Option Candidate) : MatchResult :=
  match c with
  | none => {}
  | some c => { matched := true, route := some c.entry, params := c.params }

/-- The candidates for a path, from the root. -/
def Node.candidates (root : Node) (method : Method) (custom path : Bytes) : List Candidate :=
  Routing.candidates (root.picks method custom) root.names (split path) [] [] 0

/-- `match` returns the first candidate of the highest rank. -/
theorem match_eq_argmax (r : Router) (method : Method) (custom path : Bytes) :
    r.match method custom path =
      .of ((r.root.candidates method custom path).argmax Candidate.rank) := by
  have start : StandsFor r.root (split path) [{ node := r.root, idx := 0, specificity := 0 }] 0
      { node := r.root, idx := 0, specificity := 0 } ⟨[], split path, [], 0⟩ :=
    ⟨rfl, rfl, rfl, rfl, captured_root _⟩
  have stacked : Stacked r.root (split path) [{ node := r.root, idx := 0, specificity := 0 }] [0]
      [⟨[], split path, [], 0⟩] := List.Forall₂.cons ⟨_, start⟩ .nil
  have done := searchLoop_spec method custom
    (s := { arena := [{ node := r.root, idx := 0, specificity := 0 }], stack := [0] })
    stacked (show Best.Is _ _ none from rfl)
    (by simpa using weight_le_searchFuel (split path).length)
  have folded : keepBest none ([(⟨[], split path, [], 0⟩ : Work)].flatMap
      (Work.candidates (r.root.picks method custom) r.root.names)) =
      (r.root.candidates method custom path).argmax Candidate.rank := by
    rw [List.flatMap_singleton]
    rfl
  rw [folded] at done
  cases hb : (r.root.candidates method custom path).argmax Candidate.rank with
  | none =>
      rw [hb] at done
      simp only [Router.match, Best.Is] at done ⊢
      rw [done]
      rfl
  | some c =>
      rw [hb] at done
      obtain ⟨id, best, captured⟩ := done
      have params := captured.2 [] _ (Nat.le_of_lt captured.1)
      rw [List.append_nil] at params
      simp only [Router.match]
      rw [best]
      simp only [Int.toNat_natCast, params, MatchResult.of]

end NitroServer.Routing
