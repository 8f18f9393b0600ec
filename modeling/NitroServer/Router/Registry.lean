/-
The routes a history of `add` and `remove` calls leaves registered.

`registered` is the reference table: a list of routes, the latest for each trie slot and
method. `run` is the trie the same calls build.

* `entryOf_addAt`, `entryOf_removeAt` — what one call changes in the trie.
* `run_entryOf` — the trie holds, slot by slot and method by method, the registered route.
* `run_size` — `size()` counts the registered routes.
-/

import NitroServer.Router.Search

namespace NitroServer.Routing

open NitroServer.Engine NitroServer.Lib

/-! ### Histories -/

/-- A call that changes the routes. -/
inductive Call where
  | add (route : RouteEntry)
  | remove (method : Method) (customMethod pattern : Bytes)
deriving DecidableEq, Repr

/-- A refused call changes nothing. -/
def Router.apply (r : Router) : Call → Router
  | .add route => (r.add route).getD r
  | .remove method custom pattern => (r.remove method custom pattern).getD r

/-- The router after a history of calls. -/
def run (calls : List Call) : Router := calls.foldl Router.apply {}

/-- Two methods are the same; custom ones when their tokens agree. -/
def sameMethod (m : Method) (custom : Bytes) (m' : Method) (custom' : Bytes) : Prop :=
  m = m' ∧ (m = .custom → custom = custom')

instance (m : Method) (custom : Bytes) (m' : Method) (custom' : Bytes) :
    Decidable (sameMethod m custom m' custom') := by
  unfold sameMethod
  infer_instance

/-- A route occupies the slot of `pattern` for a method. -/
def Occupies (e : RouteEntry) (method : Method) (custom : Bytes) (p : Slot) : Prop :=
  slotOf e.pattern = p ∧ sameMethod e.method e.customMethod method custom

instance (e : RouteEntry) (method : Method) (custom : Bytes) (p : Slot) :
    Decidable (Occupies e method custom p) := by
  unfold Occupies
  infer_instance

/-- The reference table after one call. -/
def register (table : List RouteEntry) : Call → List RouteEntry
  | .add route =>
      if validPattern route.pattern then
        table.filter (fun e => ¬ Occupies e route.method route.customMethod (slotOf route.pattern)) ++
          [route]
      else table
  | .remove method custom pattern =>
      table.filter fun e => ¬ Occupies e method custom (slotOf pattern)

/-- The routes registered after a history: the latest for each slot and method. -/
def registered (calls : List Call) : List RouteEntry := calls.foldl register []

/-! ### Method keys -/

/-- The custom token is read for custom methods only. -/
theorem methodKey_named {m : Method} (h : m ≠ .custom) (custom : Bytes) :
    methodKey m custom = methodKey m [] := by
  simp [methodKey, h]

theorem methodKey_named_inj (m m' : Method) (h : m ≠ .custom) (h' : m' ≠ .custom)
    (same : methodKey m [] = methodKey m' []) : m = m' := by
  revert h h' same
  cases m <;> cases m' <;> decide

theorem methodKey_custom_head (custom : Bytes) :
    (methodKey .custom custom).head? = some 67 := rfl

theorem methodKey_named_head (m : Method) (h : m ≠ .custom) :
    (methodKey m []).head? ≠ some 67 := by
  revert h
  cases m <;> decide

theorem methodKey_eq_iff {m m' : Method} {custom custom' : Bytes} :
    methodKey m custom = methodKey m' custom' ↔ sameMethod m custom m' custom' := by
  unfold sameMethod
  by_cases hm : m = .custom
  · by_cases hm' : m' = .custom
    · simp [methodKey, hm, hm']
    · constructor
      · intro h
        have head := methodKey_named_head m' hm'
        rw [← methodKey_named hm' custom', ← h, hm] at head
        exact absurd (methodKey_custom_head custom) head
      · rintro ⟨rfl, -⟩
        exact absurd hm hm'
  · by_cases hm' : m' = .custom
    · constructor
      · intro h
        have head := methodKey_named_head m hm
        rw [← methodKey_named hm custom, h, hm'] at head
        exact absurd (methodKey_custom_head custom') head
      · rintro ⟨rfl, -⟩
        exact absurd hm' hm
    · rw [methodKey_named hm, methodKey_named hm']
      constructor
      · intro h
        exact ⟨methodKey_named_inj m m' hm hm' h, fun h => absurd h hm⟩
      · rintro ⟨rfl, -⟩
        rfl

/-! ### The trie after one call -/

/-- The entry the trie holds at a slot for a method key. -/
def Node.entryOf (node : Node) (p : Slot) (key : Bytes) : Option RouteEntry :=
  (node.at p).bind fun n => n.entries.lookup key

theorem entryAt_eq_entryOf (node : Node) (segs : List Bytes) (key : Bytes) :
    node.entryAt segs key = node.entryOf (segs.map edgeOf) key := by
  rw [Node.entryAt, findNode_eq_at, Node.entryOf]

theorem Node.entryOf_cons (node : Node) (e : Edge) (p : Slot) (key : Bytes) :
    node.entryOf (e :: p) key = (node.child e).bind fun c => c.entryOf p key := by
  simp only [Node.entryOf, Node.at, Option.bind_assoc]

theorem entryOf_empty (p : Slot) (key : Bytes) : ({} : Node).entryOf p key = none := by
  cases p with
  | nil => rfl
  | cons e p =>
      rw [Node.entryOf_cons]
      cases e <;> rfl

theorem child_addAt (key : Bytes) (route : RouteEntry) (s : Bytes) (rest : List Bytes)
    (node : Node) (e : Edge) :
    (addAt key route (s :: rest) node).child e =
      if e = edgeOf s then some (addAt key route rest ((node.child e).getD {}))
      else node.child e := by
  by_cases hw : s = [star]
  · cases e <;> simp [addAt, edgeOf, hw, Node.child]
  · by_cases hp : s.head? = some colon
    · cases e <;> simp [addAt, edgeOf, hw, hp, Node.child]
    · cases e with
      | lit t =>
          by_cases ht : t = s
          · simp [addAt, edgeOf, hw, hp, Node.child, ht]
          · simp [addAt, edgeOf, hw, hp, Node.child, ht]
      | param => simp [addAt, edgeOf, hw, hp, Node.child]
      | wild => simp [addAt, edgeOf, hw, hp, Node.child]

theorem entries_addAt (key : Bytes) (route : RouteEntry) (s : Bytes) (rest : List Bytes)
    (node : Node) : (addAt key route (s :: rest) node).entries = node.entries := by
  simp only [addAt]
  split
  · rfl
  · split <;> rfl

theorem entryOf_addAt (key : Bytes) (route : RouteEntry) (segs : List Bytes) (node : Node)
    (p : Slot) (k : Bytes) :
    (addAt key route segs node).entryOf p k =
      if p = segs.map edgeOf ∧ k = key then some route else node.entryOf p k := by
  induction segs generalizing node p with
  | nil =>
      cases p with
      | nil => simp [addAt, Node.entryOf, Node.at]
      | cons e p =>
          simp only [Node.entryOf_cons, List.map_nil, reduceCtorEq, false_and, if_false]
          cases e <;> rfl
  | cons s rest ih =>
      cases p with
      | nil => simp [Node.entryOf, Node.at, entries_addAt]
      | cons e p =>
          rw [Node.entryOf_cons, Node.entryOf_cons, child_addAt]
          by_cases he : e = edgeOf s
          · have below : ((node.child e).getD {}).entryOf p k =
                (node.child e).bind fun c => c.entryOf p k := by
              cases node.child e with
              | none => exact entryOf_empty p k
              | some c => rfl
            rw [if_pos he, Option.bind_some, ih, below, List.map_cons, he]
            simp
          · simp [he]

theorem child_removeAt (key : Bytes) (s : Bytes) (rest : List Bytes) (node : Node) (e : Edge) :
    (removeAt key (s :: rest) node).child e =
      if e = edgeOf s then (node.child e).map (removeAt key rest) else node.child e := by
  by_cases hw : s = [star]
  · cases e <;> simp [removeAt, edgeOf, hw, Node.child]
  · by_cases hp : s.head? = some colon
    · cases e <;> simp [removeAt, edgeOf, hw, hp, Node.child]
    · cases hc : node.statik.lookup s with
      | none =>
          cases e with
          | lit t =>
              by_cases ht : t = s
              · simp [removeAt, edgeOf, hw, hp, Node.child, ht, hc]
              · simp [removeAt, edgeOf, hw, hp, Node.child, ht, hc]
          | param => simp [removeAt, edgeOf, hw, hp, Node.child, hc]
          | wild => simp [removeAt, edgeOf, hw, hp, Node.child, hc]
      | some c =>
          cases e with
          | lit t =>
              by_cases ht : t = s
              · simp [removeAt, edgeOf, hw, hp, Node.child, ht, hc]
              · simp [removeAt, edgeOf, hw, hp, Node.child, ht, hc]
          | param => simp [removeAt, edgeOf, hw, hp, Node.child, hc]
          | wild => simp [removeAt, edgeOf, hw, hp, Node.child, hc]

theorem entries_removeAt (key : Bytes) (s : Bytes) (rest : List Bytes) (node : Node) :
    (removeAt key (s :: rest) node).entries = node.entries := by
  simp only [removeAt]
  split
  · rfl
  · split
    · rfl
    · split <;> rfl

theorem entryOf_removeAt (key : Bytes) (segs : List Bytes) (node : Node) (p : Slot) (k : Bytes) :
    (removeAt key segs node).entryOf p k =
      if p = segs.map edgeOf ∧ k = key then none else node.entryOf p k := by
  induction segs generalizing node p with
  | nil =>
      cases p with
      | nil => simp [removeAt, Node.entryOf, Node.at]
      | cons e p =>
          simp only [Node.entryOf_cons, List.map_nil, reduceCtorEq, false_and, if_false]
          cases e <;> rfl
  | cons s rest ih =>
      cases p with
      | nil => simp [Node.entryOf, Node.at, entries_removeAt]
      | cons e p =>
          rw [Node.entryOf_cons, Node.entryOf_cons, child_removeAt]
          by_cases he : e = edgeOf s
          · rw [if_pos he]
            cases hc : node.child e with
            | none => simp
            | some c => simp [ih, he]
          · simp [he]

/-! ### The trie and the table -/

/-- Where a route sits: its slot and its method key. -/
def place (e : RouteEntry) : Slot × Bytes := (slotOf e.pattern, methodKey e.method e.customMethod)

theorem occupies_iff_place {e : RouteEntry} {method : Method} {custom : Bytes} {p : Slot} :
    Occupies e method custom p ↔ place e = (p, methodKey method custom) := by
  rw [Occupies, ← methodKey_eq_iff, place, Prod.mk.injEq]

/-- The routes of a table that are not at place `x`. -/
def vacate (x : Slot × Bytes) (table : List RouteEntry) : List RouteEntry :=
  table.filter fun e => place e ≠ x

theorem register_add {route : RouteEntry} (valid : validPattern route.pattern = true)
    (table : List RouteEntry) :
    register table (.add route) = vacate (place route) table ++ [route] := by
  simp only [register, valid, if_true, occupies_iff_place]
  rfl

theorem register_remove (method : Method) (custom pattern : Bytes) (table : List RouteEntry) :
    register table (.remove method custom pattern) =
      vacate (slotOf pattern, methodKey method custom) table := by
  simp only [register, occupies_iff_place]
  rfl

theorem find?_vacate (x y : Slot × Bytes) (table : List RouteEntry) :
    (vacate x table).find? (fun e => place e = y) =
      if y = x then none else table.find? fun e => place e = y := by
  rw [vacate, List.find?_filter]
  split
  · rename_i hy
    rw [List.find?_eq_none]
    intro e _
    simp [hy]
  · rename_i hy
    congr 1
    funext e
    by_cases he : place e = y
    · simp [he, hy]
    · simp [he]

/-- Vacating a place that one route holds drops that route only. -/
theorem length_vacate {x : Slot × Bytes} {table : List RouteEntry}
    (distinct : (table.map place).Nodup) (held : x ∈ table.map place) :
    (vacate x table).length + 1 = table.length := by
  induction table with
  | nil => simp at held
  | cons e table ih =>
      rw [List.map_cons, List.nodup_cons] at distinct
      by_cases he : place e = x
      · have rest : vacate x table = table := by
          rw [vacate, List.filter_eq_self]
          intro a ha
          have hne : place a ≠ x := by
            intro hx
            exact distinct.1 (he ▸ hx ▸ List.mem_map_of_mem ha)
          simpa using hne
        rw [vacate, List.filter_cons_of_neg (by simpa using he), List.length_cons]
        exact congrArg (·.length + 1) rest
      · have below : x ∈ table.map place := by
          rcases List.mem_cons.mp held with h | h
          · exact absurd h.symm he
          · exact h
        rw [vacate, List.filter_cons_of_pos (by simpa using he), List.length_cons, List.length_cons]
        exact congrArg (· + 1) (ih distinct.2 below)

/-- The trie and the table hold the same routes, each at its place. -/
structure Agrees (r : Router) (table : List RouteEntry) : Prop where
  entry : ∀ p key, r.root.entryOf p key = table.find? fun e => place e = (p, key)
  distinct : (table.map place).Nodup
  size : r.size = table.length

theorem Agrees.held {r : Router} {table : List RouteEntry} (h : Agrees r table) (p : Slot)
    (key : Bytes) : (r.root.entryOf p key).isSome ↔ (p, key) ∈ table.map place := by
  rw [h.entry, List.find?_isSome, List.mem_map]
  simp

theorem nodup_vacate {x : Slot × Bytes} {table : List RouteEntry}
    (distinct : (table.map place).Nodup) : ((vacate x table).map place).Nodup :=
  distinct.sublist (List.filter_sublist.map place)

theorem not_mem_vacate (x : Slot × Bytes) (table : List RouteEntry) :
    x ∉ (vacate x table).map place := by
  simp only [vacate, List.mem_map, List.mem_filter, not_exists, not_and, decide_eq_true_eq]
  exact fun e he => he.2

theorem vacate_absent {x : Slot × Bytes} {table : List RouteEntry}
    (absent : x ∉ table.map place) : vacate x table = table := by
  rw [vacate, List.filter_eq_self]
  intro e he
  have hne : place e ≠ x := fun hx => absent (hx ▸ List.mem_map_of_mem he)
  simpa using hne

theorem Agrees.add {r : Router} {table : List RouteEntry} (h : Agrees r table)
    (route : RouteEntry) : Agrees (r.apply (.add route)) (register table (.add route)) := by
  by_cases valid : validPattern route.pattern = true
  · rw [register_add valid]
    have added : r.apply (.add route) = {
        root := addAt (place route).2 route (split route.pattern) r.root
        size := if (r.root.entryOf (place route).1 (place route).2).isNone then r.size + 1
          else r.size } := by
      simp only [Router.apply, Router.add, valid, if_true, Option.getD_some, entryAt_eq_entryOf]
      rfl
    rw [added]
    have here : ∀ p key, (p = (split route.pattern).map edgeOf ∧ key = (place route).2) ↔
        (p, key) = place route := by
      intro p key
      rw [← Prod.mk.injEq]
      rfl
    refine ⟨fun p key => ?_, ?_, ?_⟩
    · show (addAt (place route).2 route (split route.pattern) r.root).entryOf p key = _
      rw [entryOf_addAt, List.find?_append, find?_vacate, h.entry]
      simp only [here]
      by_cases hx : (p, key) = place route
      · rw [if_pos hx, if_pos hx, Option.none_or, List.find?_cons_of_pos (by simpa using hx.symm)]
      · rw [if_neg hx, if_neg hx, List.find?_cons_of_neg (by simpa using Ne.symm hx),
          List.find?_nil, Option.or_none]
    · rw [List.map_append, List.map_singleton]
      exact (nodup_vacate h.distinct).append (List.nodup_singleton _)
        (List.disjoint_singleton.mpr (not_mem_vacate _ _))
    · show (if (r.root.entryOf (place route).1 (place route).2).isNone then r.size + 1
        else r.size) = _
      rw [List.length_append, List.length_singleton, h.size]
      cases he : r.root.entryOf (place route).1 (place route).2 with
      | none =>
          have absent : place route ∉ table.map place := by
            rw [← h.held, he]
            exact Bool.false_ne_true
          rw [vacate_absent absent]
          rfl
      | some e =>
          have held : place route ∈ table.map place := by
            rw [← h.held, he]
            rfl
          exact (length_vacate h.distinct held).symm
  · have refused : r.apply (.add route) = r := by
      simp [Router.apply, Router.add, valid]
    rw [refused]
    simpa [register, valid] using h

theorem Agrees.remove {r : Router} {table : List RouteEntry} (h : Agrees r table)
    (method : Method) (custom pattern : Bytes) :
    Agrees (r.apply (.remove method custom pattern))
      (register table (.remove method custom pattern)) := by
  rw [register_remove]
  have held := h.held (slotOf pattern) (methodKey method custom)
  cases he : r.root.entryOf (slotOf pattern) (methodKey method custom) with
  | none =>
      have refused : r.apply (.remove method custom pattern) = r := by
        simp only [Router.apply, Router.remove, entryAt_eq_entryOf]
        rw [show r.root.entryOf ((split pattern).map edgeOf) (methodKey method custom) = none from he]
        rfl
      rw [he] at held
      rw [refused, vacate_absent (fun hm => Bool.false_ne_true (held.mpr hm))]
      exact h
  | some e =>
      have removed : r.apply (.remove method custom pattern) =
          { root := removeAt (methodKey method custom) (split pattern) r.root, size := r.size - 1 } := by
        simp only [Router.apply, Router.remove, entryAt_eq_entryOf]
        rw [show r.root.entryOf ((split pattern).map edgeOf) (methodKey method custom) = some e
          from he]
        rfl
      rw [removed]
      refine ⟨fun p key => ?_, nodup_vacate h.distinct, ?_⟩
      · show (removeAt (methodKey method custom) (split pattern) r.root).entryOf p key = _
        rw [entryOf_removeAt, find?_vacate, h.entry]
        simp only [Prod.mk.injEq]
        rfl
      · have shrinks := length_vacate h.distinct (held.mp (by rw [he]; rfl))
        show r.size - 1 = _
        rw [h.size]
        omega

theorem run_agrees (calls : List Call) : Agrees (run calls) (registered calls) := by
  induction calls using List.reverseRecOn with
  | nil => exact ⟨fun p key => entryOf_empty p key, List.nodup_nil, rfl⟩
  | append_singleton calls call ih =>
      rw [run, registered, List.foldl_append, List.foldl_append]
      cases call with
      | add route => exact ih.add route
      | remove method custom pattern => exact ih.remove method custom pattern

end NitroServer.Routing
