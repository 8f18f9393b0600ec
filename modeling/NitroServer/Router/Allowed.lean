/-
`allowedMethods` against `match`.

A missed request is answered from a second traversal of the trie: `collectAllowed` gathers the
tokens of every entry that the path reaches, whatever the method. It visits the slots that answer
the path, as the search of `match` does, and an entry offers a token exactly when it accepts the
method of that token, so long as a custom token is not the name of a standard method.

* `run_keyed` — the entries of every node have distinct keys, in every history.
* `mem_collectAllowed` — the tokens are those of the entries at the slots that answer.
* `mem_allowTokens` — an entry offers the tokens whose method it accepts.
* `allowed_matches` — `allowedMethods` is the sorted list of the tokens that match; a request
  whose route is missing is answered 405 with that list, or 404 when it is empty.
-/

import NitroServer.Router.Match
import NitroServer.Lib.Table
import NitroServer.Engine.Process

namespace NitroServer.Routing

open NitroServer.Engine NitroServer.Lib

/-! ### The keys of a node -/

/-- One entry for each key. -/
def Keyed (entries : List (Bytes × RouteEntry)) : Prop := (entries.map Prod.fst).Nodup

/-- The entries of every node below are keyed. -/
def Node.Keyed (root : Node) : Prop := ∀ p n, root.at p = some n → Routing.Keyed n.entries

theorem Node.Keyed.child {node c : Node} (h : node.Keyed) {e : Edge}
    (child : node.child e = some c) : c.Keyed := by
  intro p n found
  refine h (e :: p) n ?_
  rw [Node.at, child]
  exact found

/-- A node is keyed when its own entries are, and its children. -/
theorem Node.Keyed.of_children {node : Node} (own : Routing.Keyed node.entries)
    (below : ∀ e c, node.child e = some c → c.Keyed) : node.Keyed := by
  intro p n found
  cases p with
  | nil =>
      obtain rfl := Option.some.inj found
      exact own
  | cons e p =>
      obtain ⟨c, child, found⟩ := Option.bind_eq_some_iff.mp found
      exact below e c child p n found

theorem keyed_empty : ({} : Node).Keyed := by
  refine .of_children List.nodup_nil fun e c child => ?_
  cases e <;> cases child

theorem keyed_addAt (key : Bytes) (route : RouteEntry) (segs : List Bytes) {node : Node}
    (h : node.Keyed) : (addAt key route segs node).Keyed := by
  induction segs generalizing node with
  | nil => exact .of_children (Assoc.nodup_set _ _ (h [] node rfl)) fun e c child => h.child child
  | cons s rest ih =>
      refine .of_children ?_ fun e c child => ?_
      · rw [entries_addAt]
        exact h [] node rfl
      · rw [child_addAt] at child
        split at child
        · obtain rfl := Option.some.inj child
          refine ih ?_
          cases old : node.child e with
          | none => exact keyed_empty
          | some c => exact h.child old
        · exact h.child child

theorem keyed_removeAt (key : Bytes) (segs : List Bytes) {node : Node} (h : node.Keyed) :
    (removeAt key segs node).Keyed := by
  induction segs generalizing node with
  | nil => exact .of_children (Assoc.nodup_erase _ (h [] node rfl)) fun e c child => h.child child
  | cons s rest ih =>
      refine .of_children ?_ fun e c child => ?_
      · rw [entries_removeAt]
        exact h [] node rfl
      · rw [child_removeAt] at child
        split at child
        · obtain ⟨c', old, rfl⟩ := Option.map_eq_some_iff.mp child
          exact ih (h.child old)
        · exact h.child child

/-- In every history the entries of every node have distinct keys. -/
theorem run_keyed (calls : List Call) : (run calls).root.Keyed := by
  induction calls using List.reverseRecOn with
  | nil => exact keyed_empty
  | append_singleton calls call ih =>
      rw [run, List.foldl_append]
      show ((run calls).apply call).root.Keyed
      cases call with
      | add route =>
          simp only [Router.apply, Router.add]
          split
          · exact keyed_addAt _ _ _ ih
          · exact ih
      | remove method custom pattern =>
          simp only [Router.apply, Router.remove]
          split
          · exact ih
          · exact keyed_removeAt _ _ ih

/-! ### What is collected -/

/-- `take`, as it reads a node. -/
theorem mem_take {entries : List (Bytes × RouteEntry)} (keyed : Keyed entries) {t : Bytes} :
    (t ∈ entries.flatMap fun e => allowTokens e.2) ↔
      ∃ k e, entries.lookup k = some e ∧ t ∈ allowTokens e := by
  rw [List.mem_flatMap]
  constructor
  · rintro ⟨⟨k, e⟩, mem, offers⟩
    exact ⟨k, e, (Assoc.lookup_eq_some_iff keyed).mpr mem, offers⟩
  · rintro ⟨k, e, held, offers⟩
    exact ⟨(k, e), (Assoc.lookup_eq_some_iff keyed).mp held, offers⟩

/-- The tokens collected are those of the entries at the slots that answer. -/
theorem mem_collectAllowed {node : Node} (keyed : node.Keyed) {segs : List Bytes} {t : Bytes} :
    t ∈ collectAllowed segs node ↔
      ∃ p k e, Answered p segs = true ∧ node.entryOf p k = some e ∧ t ∈ allowTokens e := by
  have here : ∀ {n : Node}, n.Keyed → ((t ∈ n.entries.flatMap fun e => allowTokens e.2) ↔
      ∃ k e, n.entryOf [] k = some e ∧ t ∈ allowTokens e) := fun keyed =>
    mem_take (keyed [] _ rfl)
  have below {n c : Node} {e : Edge} (child : n.child e = some c) (p : Slot) (k : Bytes) :
      n.entryOf (e :: p) k = c.entryOf p k := by
    rw [Node.entryOf_cons, child, Option.bind_some]
  have absent {n : Node} {e : Edge} (child : n.child e = none) (p : Slot) (k : Bytes) :
      n.entryOf (e :: p) k = none := by
    rw [Node.entryOf_cons, child, Option.bind_none]
  have wild (n : Node) (keyed : n.Keyed) :
      t ∈ (n.wildcard.map fun w => w.entries.flatMap fun e => allowTokens e.2).getD [] ↔
        ∃ k e, n.entryOf [.wild] k = some e ∧ t ∈ allowTokens e := by
    cases child : n.wildcard with
    | none =>
        simp [absent (e := .wild) child]
    | some w =>
        simp only [below (e := .wild) child]
        exact here (keyed.child (e := .wild) child)
  induction segs generalizing node with
  | nil =>
      rw [collectAllowed, List.mem_append, wild node keyed, here keyed]
      constructor
      · rintro (⟨k, e, held, offers⟩ | ⟨k, e, held, offers⟩)
        · exact ⟨[.wild], k, e, rfl, held, offers⟩
        · exact ⟨[], k, e, rfl, held, offers⟩
      · rintro ⟨p, k, e, answers, held, offers⟩
        rcases answered_nil answers with rfl | rfl
        · exact Or.inr ⟨k, e, held, offers⟩
        · exact Or.inl ⟨k, e, held, offers⟩
  | cons seg rest ih =>
      have child (edge : Edge) (step : Option Node) (same : node.child edge = step) :
          t ∈ (step.map (collectAllowed rest)).getD [] ↔
            ∃ p k e, Answered p rest = true ∧ node.entryOf (edge :: p) k = some e ∧
              t ∈ allowTokens e := by
        cases step with
        | none => simp [absent same]
        | some c =>
            simp only [below same]
            exact ih (keyed.child same)
      rw [collectAllowed, List.mem_append, List.mem_append, wild node keyed,
        child (.lit seg) (node.statik.lookup seg) rfl, child .param node.param rfl]
      constructor
      · rintro ((⟨k, e, held, offers⟩ | ⟨p, k, e, answers, held, offers⟩) |
          ⟨p, k, e, answers, held, offers⟩)
        · exact ⟨[.wild], k, e, rfl, held, offers⟩
        · exact ⟨.lit seg :: p, k, e, by simpa [Answered] using answers, held, offers⟩
        · exact ⟨.param :: p, k, e, answers, held, offers⟩
      · rintro ⟨p, k, e, answers, held, offers⟩
        rcases answered_cons answers with rfl | ⟨p, rfl, below⟩ | ⟨p, rfl, below⟩
        · exact Or.inl (Or.inl ⟨k, e, held, offers⟩)
        · exact Or.inl (Or.inr ⟨p, k, e, below, held, offers⟩)
        · exact Or.inr ⟨p, k, e, below, held, offers⟩

/-! ### Tokens -/

/-- The methods with a token of their own. -/
def standardMethods : List Method :=
  [.get, .head, .post, .put, .delete, .patch, .options, .trace]

theorem all_not_standard : Method.all ∉ standardMethods := by decide

theorem custom_not_standard : Method.custom ∉ standardMethods := by decide

/-- A custom token is not the name of a standard method. -/
def CustomNamed (e : RouteEntry) : Prop :=
  e.method = .custom → e.customMethod ∉ standardMethods.map methodToken

instance (e : RouteEntry) : Decidable (CustomNamed e) :=
  inferInstanceAs (Decidable (_ → _))

/-- A standard token is read as its method. -/
theorem parseMethod_standard {m : Method} (standard : m ∈ standardMethods) :
    parseMethod (methodToken m) = (m, []) := by
  revert standard
  cases m <;> decide

/-- Any other token is custom. -/
theorem parseMethod_custom {token : Bytes} (other : token ∉ standardMethods.map methodToken) :
    parseMethod token = (.custom, token) := by
  simp only [standardMethods, List.map_cons, List.map_nil, List.mem_cons, List.not_mem_nil,
    or_false, not_or, methodToken] at other
  obtain ⟨get, head, post, put, delete, patch, options, trace⟩ := other
  rw [parseMethod, if_neg get, if_neg head, if_neg post, if_neg put, if_neg delete, if_neg patch,
    if_neg options, if_neg trace]

theorem standard_or_custom (m : Method) : m ∈ standardMethods ∨ m = .all ∨ m = .custom := by
  cases m <;> decide

theorem methodToken_inj {m m' : Method} (standard : m ∈ standardMethods)
    (standard' : m' ∈ standardMethods) : methodToken m = methodToken m' ↔ m = m' := by
  revert standard standard'
  cases m <;> cases m' <;> decide

/-- The tokens an entry offers, by its method. -/
theorem allowTokens_standard {e : RouteEntry} (standard : e.method ∈ standardMethods) (t : Bytes) :
    t ∈ allowTokens e ↔
      t = methodToken e.method ∨ (e.method = .get ∧ t = methodToken .head) := by
  rw [allowTokens]
  cases method : e.method with
  | all => exact absurd (method ▸ standard) all_not_standard
  | custom => exact absurd (method ▸ standard) custom_not_standard
  | get => simp [methodToken]
  | _ => simp

/-- An entry offers a token exactly when it accepts the method of the token. -/
theorem mem_allowTokens {e : RouteEntry} (named : CustomNamed e) (t : Bytes) :
    t ∈ allowTokens e ↔ Accepts e (parseMethod t).1 (parseMethod t).2 := by
  by_cases known : t ∈ standardMethods.map methodToken
  · obtain ⟨m, standard, rfl⟩ := List.mem_map.mp known
    have proper : m ≠ .custom ∧ m ≠ .all := by
      revert standard
      cases m <;> decide
    rw [parseMethod_standard standard]
    rcases standard_or_custom e.method with own | all | custom
    · have get : (e.method = .get ∧ methodToken m = methodToken .head) ↔
          e.method = .get ∧ m = .head :=
        and_congr_right fun _ => methodToken_inj standard (by decide)
      rw [allowTokens_standard own, methodToken_inj standard own, get, Accepts]
      constructor
      · rintro (rfl | head)
        · exact Or.inl ⟨rfl, fun no => absurd no proper.1⟩
        · exact Or.inr (Or.inl head)
      · rintro (same | head | all)
        · exact Or.inl same.1.symm
        · exact Or.inr head
        · exact absurd (all.1 ▸ own) all_not_standard
    · have offers : allowTokens e = standardMethods.map methodToken := by
        rw [allowTokens, all]
        rfl
      rw [offers]
      exact iff_of_true known (Or.inr (Or.inr ⟨all, proper.1⟩))
    · have offers : allowTokens e = [e.customMethod] := by rw [allowTokens, custom]
      rw [offers, List.mem_singleton]
      refine iff_of_false (fun same => named custom (same ▸ known)) ?_
      rintro (same | head | all)
      · exact proper.1 (same.1.symm.trans custom)
      · rw [custom] at head
        cases head.1
      · rw [custom] at all
        cases all.1
  · rw [parseMethod_custom known]
    rcases standard_or_custom e.method with own | all | custom
    · rw [allowTokens_standard own]
      refine iff_of_false ?_ ?_
      · rintro (rfl | ⟨-, rfl⟩)
        · exact known (List.mem_map_of_mem own)
        · exact known (by decide)
      · rintro (same | head | all)
        · have custom : e.method = .custom := same.1
          exact absurd (custom ▸ own) custom_not_standard
        · cases head.2
        · exact all.2 rfl
    · have offers : allowTokens e = standardMethods.map methodToken := by
        rw [allowTokens, all]
        rfl
      rw [offers]
      refine iff_of_false known ?_
      rintro (same | head | all')
      · rw [all] at same
        cases same.1
      · cases head.2
      · exact all'.2 rfl
    · have offers : allowTokens e = [e.customMethod] := by rw [allowTokens, custom]
      rw [offers, List.mem_singleton]
      constructor
      · intro same
        exact Or.inl ⟨custom, fun _ => same.symm⟩
      · rintro (same | head | all)
        · exact (same.2 custom).symm
        · cases head.2
        · exact absurd rfl all.2

/-! ### The list -/

/-- Every registered route was added. -/
theorem added_of_registered {calls : List Call} {e : RouteEntry} (mem : e ∈ registered calls) :
    Call.add e ∈ calls := by
  induction calls using List.reverseRecOn with
  | nil => cases mem
  | append_singleton calls call ih =>
      rw [registered, List.foldl_append] at mem
      change e ∈ register (registered calls) call at mem
      have earlier : e ∈ registered calls → Call.add e ∈ calls ++ [call] := fun mem =>
        List.mem_append_left _ (ih mem)
      cases call with
      | add route =>
          simp only [register] at mem
          split at mem
          · rcases List.mem_append.mp mem with mem | mem
            · exact earlier (List.mem_of_mem_filter mem)
            · obtain rfl := List.mem_singleton.mp mem
              exact List.mem_append_right _ List.mem_cons_self
          · exact earlier mem
      | remove method custom pattern => exact earlier (List.mem_of_mem_filter mem)

/-- A method token and a path match. -/
def Matches (calls : List Call) (token path : Bytes) : Prop :=
  ((run calls).match (parseMethod token).1 (parseMethod token).2 path).matched = true

instance (calls : List Call) (token path : Bytes) : Decidable (Matches calls token path) :=
  inferInstanceAs (Decidable (_ = true))

/-- The two traversals agree on every token. -/
theorem mem_allowedMethods {calls : List Call} (named : ∀ e, Call.add e ∈ calls → CustomNamed e)
    (path token : Bytes) :
    token ∈ (run calls).allowedMethods path ↔ Matches calls token path := by
  rw [Router.allowedMethods, List.mem_mergeSort, List.mem_dedup,
    mem_collectAllowed (run_keyed calls), Matches, matched_iff]
  constructor
  · rintro ⟨p, k, e, answers, held, offers⟩
    obtain ⟨mem, place_⟩ := (run_agrees calls).entryOf_eq_some.mp held
    obtain ⟨rfl, rfl⟩ := Prod.mk.inj place_
    have accepts := (mem_allowTokens (named e (added_of_registered mem)) token).mp offers
    obtain ⟨c, found, -⟩ := found_of_answers mem ⟨answers, accepts⟩
    exact List.ne_nil_of_mem found
  · intro some_
    obtain ⟨c, found⟩ := List.exists_mem_of_ne_nil _ some_
    obtain ⟨mem, slot, ⟨answers, accepts⟩, -⟩ := mem_found found
    refine ⟨_, _, c.entry, answers, (run_agrees calls).entryOf_eq_some.mpr ⟨mem, rfl⟩, ?_⟩
    exact (mem_allowTokens (named c.entry (added_of_registered mem)) token).mpr accepts

/-- The list is strictly increasing. -/
theorem sorted_allowedMethods (r : Router) (path : Bytes) :
    (r.allowedMethods path).Pairwise (· < ·) := by
  have nodup : (r.allowedMethods path).Nodup :=
    (List.mergeSort_perm _ _).nodup_iff.mpr (List.nodup_dedup _)
  have sorted : (r.allowedMethods path).Pairwise fun a b => decide (a ≤ b) = true := by
    refine List.pairwise_mergeSort ?_ ?_ _
    · intro a b c first second
      simp only [decide_eq_true_eq] at first second ⊢
      exact List.le_trans first second
    · intro a b
      simpa using List.le_total a b
  refine List.Pairwise.imp₂ ?_ sorted nodup
  intro a b le ne
  by_contra less
  exact ne (List.le_antisymm (of_decide_eq_true le) (List.not_lt.mp less))

/-- The queries of the reactor, answered by a trie. -/
def Router.queries (r : Router) : Engine.Router where
  «match» method custom path :=
    let m := r.match method custom path
    if m.matched then m.route.map fun e => (e, m.params) else none
  allowedMethods := r.allowedMethods

/-- `allowedMethods` lists, sorted and without repetitions, the tokens that match the path. A
request without a route, handshakes aside, is answered 405 with this list, or 404 when no token
matches the path. -/
theorem allowed_matches {calls : List Call} (named : ∀ e, Call.add e ∈ calls → CustomNamed e)
    (path : Bytes) :
    (∀ token, token ∈ (run calls).allowedMethods path ↔ Matches calls token path) ∧
      ((run calls).allowedMethods path).Pairwise (· < ·) ∧
      ∀ (env : Env) (r : Reactor) (q : Request) (keepAlive : Bool) (body : Bytes),
        env.router = (run calls).queries → q.path = path → q.route = none →
        uvIsWebSocketUpgrade q.head = false →
        ((∃ token, Matches calls token path) →
          (r.answerRequest env q keepAlive body).1 = r.writeAnswer env
            [⟨.engine, .whole, uvBuildHead (r.date env) 405
              [⟨ascii "Allow", allowValue ((run calls).allowedMethods path)⟩] 0 keepAlive
              env.cfg.keepAliveHeaderSecs⟩] keepAlive true) ∧
        ((∀ token, ¬ Matches calls token path) →
          (r.answerRequest env q keepAlive body).1 = r.writeAnswer env
            [⟨.engine, .whole, uvBuildHead (r.date env) 404 [] 0 keepAlive
              env.cfg.keepAliveHeaderSecs⟩] keepAlive true) := by
  have lists := mem_allowedMethods named path
  refine ⟨lists, sorted_allowedMethods _ path, ?_⟩
  · rintro env r q keepAlive body router rfl missed plain
    have allowed : env.router.allowedMethods q.path = (run calls).allowedMethods q.path := by
      rw [router]
      rfl
    constructor
    · rintro ⟨token, matches_⟩
      have some_ : (run calls).allowedMethods q.path ≠ [] :=
        List.ne_nil_of_mem ((lists token).mpr matches_)
      simp only [Reactor.answerRequest, missed, plain, allowed, if_pos some_, Bool.false_eq_true,
        if_false]
    · intro none_
      have empty : (run calls).allowedMethods q.path = [] :=
        List.eq_nil_iff_forall_not_mem.mpr fun token mem => none_ token ((lists token).mp mem)
      simp only [Reactor.answerRequest, missed, plain, allowed, empty, ne_eq, not_true_eq_false,
        Bool.false_eq_true, if_false]

/-- The routes of the test: two methods on a parameter, a custom one on its static sibling. -/
def siblingCalls : List Call :=
  [.add { method := .get, pattern := ascii "/a/:id" },
    .add { method := .post, pattern := ascii "/a/:id" },
    .add { method := .custom, customMethod := ascii "PURGE", pattern := ascii "/a/fixed" }]

/-- The routes of the test list and match the custom token on the static sibling only. -/
theorem allowed_matches_sibling :
    (ascii "PURGE" ∈ (run siblingCalls).allowedMethods (ascii "/a/fixed") ∧
      Matches siblingCalls (ascii "PURGE") (ascii "/a/fixed")) ∧
    ascii "PURGE" ∉ (run siblingCalls).allowedMethods (ascii "/a/42") := by
  have named : ∀ e, Call.add e ∈ siblingCalls → CustomNamed e := by
    intro e mem
    simp only [siblingCalls, List.mem_cons, Call.add.injEq, List.not_mem_nil, or_false] at mem
    rcases mem with rfl | rfl | rfl
    · decide
    · decide
    · decide
  have matches_ : Matches siblingCalls (ascii "PURGE") (ascii "/a/fixed") := by decide +kernel
  refine ⟨⟨((allowed_matches named _).1 _).mpr matches_, matches_⟩, fun mem => ?_⟩
  have other := ((allowed_matches named _).1 _).mp mem
  revert other
  decide +kernel

end NitroServer.Routing
