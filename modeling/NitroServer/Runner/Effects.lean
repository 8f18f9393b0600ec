/-
What each call changes in the routing state, table by table.

The engine's table is read by place (trie slot and method key), the runner's by token and
pattern. A registration with a valid pattern sets one place and one key; a removal clears
them; everything else keeps its value.

* `entry_perform`, `routes_perform`, `ws_perform`, `registered_perform` — one operation.
* `entry_unregisterKey` and its companions — `_unregisterKey`.
* `routes_recompose` — recomposing changes the piped handlers only.
-/

import NitroServer.Runner.Routes

namespace NitroServer.Runner

open NitroServer.Engine NitroServer.Lib NitroServer.Routing

variable {U : UserCode}

/-! ### Operations seen as registrations -/

/-- The engine entry an operation registers; none when the pattern is malformed. -/
def Op.registers : Op U → Option RouteEntry
  | .addRoute method customToken pattern timeoutMs _ _ streamBody maxBodyBytes =>
      if validPattern pattern then
        some (Tables.handlerConfig method customToken pattern timeoutMs streamBody maxBodyBytes)
      else none
  | .addStaticRoute method customToken pattern response =>
      if validPattern pattern then some (Tables.staticConfig method customToken pattern response)
      else none
  | .addWsRoute pattern _ protocols _ =>
      if validPattern pattern then some (Tables.wsConfig pattern protocols) else none
  | _ => none

/-- The token and pattern an operation registers. -/
def Op.key : Op U → Bytes × Bytes
  | .addRoute method customToken pattern _ _ _ _ _ => (tokenOf method customToken, pattern)
  | .addStaticRoute method customToken pattern _ => (tokenOf method customToken, pattern)
  | .addWsRoute pattern _ _ _ => (ascii "GET", pattern)
  | .removeRoute method customToken pattern => (tokenOf method customToken, pattern)
  | _ => ([], [])

/-- The record a registration leaves in `_routes`, under the chain `compose`. -/
def Op.route (compose : U.Handler → U.Handler) : Op U → Option (Entry U)
  | .addRoute _ _ _ _ handler middleware streamBody _ =>
      some ⟨handler, composeAll middleware, compose (composeAll middleware handler), streamBody⟩
  | _ => none

/-- What a registration does to `_wsHandlers` at its own pattern: set it, drop it, or
(`none`) leave it. -/
def Op.wsChange : Op U → Option (Option (WsEntry U))
  | .addRoute method customToken _ _ _ _ _ _ =>
      if tokenOf method customToken = ascii "GET" then some none else none
  | .addStaticRoute method _ _ _ => if method = .get then some none else none
  | .addWsRoute _ handler protocols middleware =>
      some (some ⟨handler, protocols, composeAll middleware⟩)
  | _ => none

/-- The operation is a removal. -/
def Op.isRemoval : Op U → Bool
  | .removeRoute _ _ _ => true
  | _ => false

/-- The engine's entry at a place. -/
def Tables.entry (s : Tables U) (x : Slot × Bytes) : Option RouteEntry :=
  s.engine.root.entryOf x.1 x.2

/-- The place `unregisterRoute` addresses. -/
def unregisterPlace (token pattern : Bytes) : Slot × Bytes :=
  (slotOf pattern, methodKey (parseUnregisterMethod token).1 (parseUnregisterMethod token).2)

/-! ### The engine's router -/

theorem add_entryOf {r r' : Routing.Router} {route : RouteEntry} (h : r.add route = some r')
    (x : Slot × Bytes) :
    r'.root.entryOf x.1 x.2 = if x = place route then some route else r.root.entryOf x.1 x.2 := by
  simp only [Routing.Router.add] at h
  split at h
  · cases h
    rw [entryOf_addAt]
    refine if_congr ?_ rfl rfl
    rw [← Prod.mk.injEq]
    rfl
  · cases h

theorem add_isSome {r : Routing.Router} {route : RouteEntry} :
    (r.add route).isSome ↔ validPattern route.pattern = true := by
  simp only [Routing.Router.add]
  split <;> simp [*]

theorem add_cases (r : Routing.Router) (route : RouteEntry) :
    (validPattern route.pattern = false ∧ r.add route = none) ∨
      ∃ r', validPattern route.pattern = true ∧ r.add route = some r' := by
  cases h : r.add route with
  | none =>
      refine .inl ⟨?_, rfl⟩
      have valid : ¬ (r.add route).isSome = true ↔ ¬ validPattern route.pattern = true :=
        add_isSome.not
      rw [h] at valid
      simpa using valid
  | some r' => exact .inr ⟨r', add_isSome.mp (by rw [h]; rfl), rfl⟩

theorem remove_entryOf {r r' : Routing.Router} {m : Method} {c pattern : Bytes}
    (h : r.remove m c pattern = some r') (x : Slot × Bytes) :
    r'.root.entryOf x.1 x.2 =
      if x = (slotOf pattern, methodKey m c) then none else r.root.entryOf x.1 x.2 := by
  simp only [Routing.Router.remove] at h
  split at h
  · cases h
  · cases h
    rw [entryOf_removeAt]
    refine if_congr ?_ rfl rfl
    rw [← Prod.mk.injEq]
    rfl

theorem remove_eq_none {r : Routing.Router} {m : Method} {c pattern : Bytes} :
    r.remove m c pattern = none ↔ r.root.entryOf (slotOf pattern) (methodKey m c) = none := by
  simp only [Routing.Router.remove, entryAt_eq_entryOf]
  split
  · rename_i free
    exact ⟨fun _ => free, fun _ => rfl⟩
  · rename_i taken
    constructor
    · intro h
      cases h
    · intro free
      cases taken.symm.trans free

/-! ### Removals -/

section Removal

variable (s : Tables U)

theorem entry_unregisterRoute (token pattern : Bytes) (x : Slot × Bytes) :
    (s.unregisterRoute token pattern).1.entry x =
      if x = unregisterPlace token pattern then none else s.entry x := by
  simp only [Tables.unregisterRoute, Tables.entry]
  cases h : s.engine.remove (parseUnregisterMethod token).1 (parseUnregisterMethod token).2
      pattern with
  | none =>
      by_cases hx : x = unregisterPlace token pattern
      · rw [if_pos hx, hx]
        exact remove_eq_none.mp h
      · rw [if_neg hx]
  | some engine => exact remove_entryOf h x

theorem entry_unregisterKey (key : Bytes) (x : Slot × Bytes) :
    (s.unregisterKey key).entry x =
      if x = unregisterPlace (unkey key).1 (unkey key).2 then none else s.entry x := by
  rw [← entry_unregisterRoute]
  simp only [Tables.unregisterKey]
  split <;> rfl

theorem routes_unregisterKey (key : Bytes) (k : Bytes × Bytes) :
    (s.unregisterKey key).routes.lookup k = if k = unkey key then none else s.routes.lookup k := by
  have same : (s.unregisterRoute (unkey key).1 (unkey key).2).1.routes = s.routes := by
    simp only [Tables.unregisterRoute]
    split <;> rfl
  have dropped : (s.unregisterKey key).routes = Assoc.erase (unkey key) s.routes := by
    rw [← same]
    simp only [Tables.unregisterKey]
    split <;> rfl
  rw [dropped, Assoc.lookup_erase]

theorem registered_unregisterKey (key : Bytes) (k : Bytes × Bytes) :
    k ∈ (s.unregisterKey key).registered ↔ k ∈ s.registered ∧ k ≠ unkey key := by
  have same : (s.unregisterRoute (unkey key).1 (unkey key).2).1.registered = s.registered := by
    simp only [Tables.unregisterRoute]
    split <;> rfl
  have dropped : (s.unregisterKey key).registered = s.registered.filter (· ≠ unkey key) := by
    rw [← same]
    simp only [Tables.unregisterKey]
    split <;> rfl
  rw [dropped, List.mem_filter, decide_eq_true_eq]

theorem ws_unregisterKey (key : Bytes) (pattern : Bytes) :
    (s.unregisterKey key).wsHandlers.lookup pattern =
      if (ascii "GET", pattern) = unkey key then none else s.wsHandlers.lookup pattern := by
  have same : (s.unregisterRoute (unkey key).1 (unkey key).2).1.wsHandlers = s.wsHandlers := by
    simp only [Tables.unregisterRoute]
    split <;> rfl
  by_cases hg : (unkey key).1 = ascii "GET"
  · have dropped : (s.unregisterKey key).wsHandlers = Assoc.erase (unkey key).2 s.wsHandlers := by
      rw [← same]
      simp only [Tables.unregisterKey, if_pos hg]
      rfl
    rw [dropped, Assoc.lookup_erase]
    refine if_congr ?_ rfl rfl
    rw [← hg, Prod.ext_iff]
    simp
  · have kept : (s.unregisterKey key).wsHandlers = s.wsHandlers := by
      rw [← same]
      simp only [Tables.unregisterKey, if_neg hg]
      rfl
    rw [kept, if_neg]
    intro h
    exact hg (congrArg Prod.fst h).symm

end Removal

/-! ### One operation -/

section Perform

variable (s : Tables U) (o : Op U)

/-- `_routes` after a registration. -/
def Op.putRoute (compose : U.Handler → U.Handler) (routes : List ((Bytes × Bytes) × Entry U)) :
    List ((Bytes × Bytes) × Entry U) :=
  match o.route compose with
  | some e => Assoc.set o.key e routes
  | none => Assoc.erase o.key routes

/-- `_wsHandlers` after a registration. -/
def Op.putWs (ws : List (Bytes × WsEntry U)) : List (Bytes × WsEntry U) :=
  match o.wsChange with
  | some (some w) => Assoc.set o.key.2 w ws
  | some none => Assoc.erase o.key.2 ws
  | none => ws

variable {o}

/-- A registration sets the engine's entry and makes one record of its own kind. -/
theorem perform_registers {config : RouteEntry} (h : o.registers = some config) :
    ∃ engine, s.engine.add config = some engine ∧
      s.perform o = { s.note o.key.1 o.key.2 with
        engine := engine
        routes := o.putRoute s.compose s.routes
        wsHandlers := o.putWs s.wsHandlers } := by
  have valid : validPattern config.pattern = true := by
    cases o with
    | addRoute | addStaticRoute | addWsRoute =>
        simp only [Op.registers] at h
        split at h
        · cases h
          assumption
        · cases h
    | _ => cases h
  obtain ⟨hv, -⟩ | ⟨engine, -, he⟩ := add_cases s.engine config
  · rw [valid] at hv
    cases hv
  refine ⟨engine, he, ?_⟩
  cases o with
  | addRoute method customToken pattern timeoutMs handler middleware streamBody maxBodyBytes =>
      simp only [Op.registers, Option.ite_none_right_eq_some, Option.some.injEq] at h
      rw [← h.2] at he
      simp only [Tables.perform, Tables.addRoute, Tables.registerRoute, he, Option.map_some,
        Option.getD_some, Op.putRoute, Op.putWs, Op.route, Op.wsChange, Op.key]
      split <;> rfl
  | addStaticRoute method customToken pattern response =>
      simp only [Op.registers, Option.ite_none_right_eq_some, Option.some.injEq] at h
      rw [← h.2] at he
      simp only [Tables.perform, Tables.addStaticRoute, Tables.registerRoute, he, Option.map_some,
        Option.getD_some, Op.putRoute, Op.putWs, Op.route, Op.wsChange, Op.key]
      split <;> rfl
  | addWsRoute pattern handler protocols middleware =>
      simp only [Op.registers, Option.ite_none_right_eq_some, Option.some.injEq] at h
      rw [← h.2] at he
      simp only [Tables.perform, Tables.addWsRoute, Tables.registerRoute, he, Option.map_some,
        Option.getD_some, Op.putRoute, Op.putWs, Op.route, Op.wsChange, Op.key]
      rfl
  | removeRoute | use | setNotFound | setError => cases h

end Perform

/-! ### The tables after one operation -/

/-- What a record of `_routes` says apart from the composed chain. -/
structure Core (U : UserCode) where
  handler : U.Handler
  routeComposer : U.Handler → U.Handler
  streamBody : Bool

def Entry.core (e : Entry U) : Core U := ⟨e.handler, e.routeComposer, e.streamBody⟩

/-- The record of `_routes` at a key. -/
def Tables.record (s : Tables U) (k : Bytes × Bytes) : Option (Core U) :=
  (s.routes.lookup k).map Entry.core

/-- The record an operation makes. -/
def Op.core : Op U → Option (Core U)
  | .addRoute _ _ _ _ handler middleware streamBody _ =>
      some ⟨handler, composeAll middleware, streamBody⟩
  | _ => none

section After

variable (s : Tables U) {o : Op U}

theorem routes_recompose (k : Bytes × Bytes) :
    s.recompose.routes.lookup k =
      (s.routes.lookup k).map (Entry.repipe (composeAll s.middlewares)) :=
  Assoc.lookup_map (Entry.repipe (composeAll s.middlewares)) k s.routes

theorem record_recompose (k : Bytes × Bytes) : s.recompose.record k = s.record k := by
  rw [Tables.record, routes_recompose, Option.map_map]
  rfl

/-- The operation registers a route of some kind, well formed or not. -/
def Op.isRegistration : Op U → Bool
  | .addRoute _ _ _ _ _ _ _ _ => true
  | .addStaticRoute _ _ _ _ => true
  | .addWsRoute _ _ _ _ => true
  | _ => false

/-- A registration with a malformed pattern throws. -/
theorem perform_refused (hr : o.isRegistration = true) (h : o.registers = none) :
    s.perform o = s := by
  have refused : ∀ config, validPattern config.pattern = false →
      s.registerRoute config = none := by
    intro config hv
    obtain ⟨-, he⟩ | ⟨r, hv', -⟩ := add_cases s.engine config
    · rw [Tables.registerRoute, he]
      rfl
    · rw [hv] at hv'
      cases hv'
  cases o with
  | addRoute method customToken pattern timeoutMs handler middleware streamBody maxBodyBytes =>
      simp only [Op.registers, ite_eq_right_iff, reduceCtorEq, imp_false, Bool.not_eq_true] at h
      rw [Tables.perform, Tables.addRoute, refused _ h]
      rfl
  | addStaticRoute method customToken pattern response =>
      simp only [Op.registers, ite_eq_right_iff, reduceCtorEq, imp_false, Bool.not_eq_true] at h
      rw [Tables.perform, Tables.addStaticRoute, refused _ h]
      rfl
  | addWsRoute pattern handler protocols middleware =>
      simp only [Op.registers, ite_eq_right_iff, reduceCtorEq, imp_false, Bool.not_eq_true] at h
      rw [Tables.perform, Tables.addWsRoute, refused _ h]
      rfl
  | removeRoute | use | setNotFound | setError => cases hr

/-- The state after an operation that registers nothing and removes nothing. -/
theorem perform_quiet (hr : o.isRemoval = false) (h : o.registers = none) :
    (s.perform o).engine = s.engine ∧ (∀ k, (s.perform o).record k = s.record k) ∧
      (s.perform o).wsHandlers = s.wsHandlers ∧ (s.perform o).registered = s.registered ∧
      (s.perform o).reloadTouched = s.reloadTouched := by
  cases o with
  | addRoute | addStaticRoute | addWsRoute =>
      rw [perform_refused s rfl h]
      exact ⟨rfl, fun _ => rfl, rfl, rfl, rfl⟩
  | removeRoute method customToken pattern => cases hr
  | use middleware => exact ⟨rfl, fun k => record_recompose _ k, rfl, rfl, rfl⟩
  | setNotFound handler => exact ⟨rfl, fun _ => rfl, rfl, rfl, rfl⟩
  | setError handler => exact ⟨rfl, fun _ => rfl, rfl, rfl, rfl⟩

section Registration

variable {config : RouteEntry} (h : o.registers = some config)

include h

theorem entry_registers (x : Slot × Bytes) :
    (s.perform o).entry x = if x = place config then some config else s.entry x := by
  obtain ⟨engine, he, eq⟩ := perform_registers s h
  rw [eq]
  exact add_entryOf he x

theorem record_registers (k : Bytes × Bytes) :
    (s.perform o).record k = if k = o.key then o.core else s.record k := by
  obtain ⟨engine, -, eq⟩ := perform_registers s h
  rw [eq]
  have core : (o.route s.compose).map Entry.core = o.core := by cases o <;> rfl
  simp only [Tables.record, Op.putRoute]
  cases hr : o.route s.compose with
  | none =>
      rw [hr] at core
      rw [Assoc.lookup_erase, ← core]
      split <;> rfl
  | some e =>
      rw [hr] at core
      rw [Assoc.lookup_set, ← core]
      split <;> rfl

theorem ws_registers (pattern : Bytes) :
    (s.perform o).wsHandlers.lookup pattern =
      if pattern = o.key.2 then o.wsChange.getD (s.wsHandlers.lookup pattern)
      else s.wsHandlers.lookup pattern := by
  obtain ⟨engine, -, eq⟩ := perform_registers s h
  rw [eq]
  simp only [Op.putWs]
  cases o.wsChange with
  | none => simp
  | some change =>
      cases change with
      | none => rw [Assoc.lookup_erase]; rfl
      | some w => rw [Assoc.lookup_set]; rfl

theorem registered_registers (k : Bytes × Bytes) :
    k ∈ (s.perform o).registered ↔ k = o.key ∨ k ∈ s.registered := by
  obtain ⟨engine, -, eq⟩ := perform_registers s h
  rw [eq]
  simp only [Tables.note]
  by_cases mem : o.key ∈ s.registered
  · rw [if_pos mem]
    exact ⟨.inr, fun hk => hk.elim (fun e => e ▸ mem) id⟩
  · rw [if_neg mem, List.mem_append, List.mem_singleton, or_comm]

theorem touched_registers {touched : List Bytes} (ht : s.reloadTouched = some touched) :
    ∃ touched', (s.perform o).reloadTouched = some touched' ∧
      ∀ key, key ∈ touched' ↔ key = routeKey o.key.1 o.key.2 ∨ key ∈ touched := by
  obtain ⟨engine, -, eq⟩ := perform_registers s h
  rw [eq]
  simp only [Tables.note, ht, Option.map_some]
  refine ⟨_, rfl, fun key => ?_⟩
  by_cases mem : routeKey o.key.1 o.key.2 ∈ touched
  · rw [if_pos mem]
    exact ⟨.inr, fun hk => hk.elim (fun e => e ▸ mem) id⟩
  · rw [if_neg mem, List.mem_append, List.mem_singleton, or_comm]

end Registration

/-- The state after `removeRoute`: nothing when the engine has no such entry, else the
entry, the record and the listing are gone. -/
theorem perform_remove (method : Method) (customToken pattern : Bytes) :
    (s.entry (unregisterPlace (tokenOf method customToken) pattern) = none ∧
      s.perform (.removeRoute method customToken pattern) = s) ∨
    ((∀ x, (s.perform (.removeRoute method customToken pattern)).entry x =
        if x = unregisterPlace (tokenOf method customToken) pattern then none else s.entry x) ∧
      (∀ k, (s.perform (.removeRoute method customToken pattern)).record k =
        if k = (tokenOf method customToken, pattern) then none else s.record k) ∧
      (∀ p, (s.perform (.removeRoute method customToken pattern)).wsHandlers.lookup p =
        if method = .get ∧ p = pattern then none else s.wsHandlers.lookup p) ∧
      (∀ k, k ∈ (s.perform (.removeRoute method customToken pattern)).registered ↔
        k ∈ s.registered ∧ k ≠ (tokenOf method customToken, pattern)) ∧
      (s.perform (.removeRoute method customToken pattern)).reloadTouched = s.reloadTouched) := by
  simp only [Tables.perform, Tables.removeRoute, Tables.unregisterRoute]
  cases h : s.engine.remove (parseUnregisterMethod (tokenOf method customToken)).1
      (parseUnregisterMethod (tokenOf method customToken)).2 pattern with
  | none => exact .inl ⟨remove_eq_none.mp h, rfl⟩
  | some engine =>
      right
      simp only [Option.getD_some]
      refine ⟨fun x => ?_, fun k => ?_, fun p => ?_, fun k => ?_, ?_⟩
      · refine Eq.trans ?_ (remove_entryOf h x)
        simp only [Tables.entry]
        split <;> rfl
      · have dropped : ∀ t : Tables U, t.routes = Assoc.erase (tokenOf method customToken, pattern)
            s.routes → t.record k = if k = (tokenOf method customToken, pattern) then none
              else s.record k := by
          intro t ht
          rw [Tables.record, ht, Assoc.lookup_erase]
          split <;> rfl
        apply dropped
        split <;> rfl
      · by_cases hm : method = .get
        · rw [if_pos hm]
          refine (Assoc.lookup_erase _ _ _).trans ?_
          simp [hm, Tables.dropRoute]
        · rw [if_neg hm]
          simp [hm, Tables.dropRoute]
      · have dropped : ∀ t : Tables U, t.registered = s.registered.filter
            (· ≠ (tokenOf method customToken, pattern)) →
              (k ∈ t.registered ↔ k ∈ s.registered ∧ k ≠ (tokenOf method customToken, pattern)) := by
          intro t ht
          rw [ht, List.mem_filter, decide_eq_true_eq]
        apply dropped
        split <;> rfl
      · split <;> rfl

end After

end NitroServer.Runner
