/-
A reload whose setup throws.

`reload` promises that a bad setup leaves the routing state as it was. It undoes the keys
that are new and restores the saved middleware and fallbacks, and it does not restore a
route the setup registered again.

* `reloadFailed_entry` and its companions — the tables after the rollback.
* `Composed` — outside a reload every piped handler is the current chain around its route.
* `reloadFailed_same` — the rollback restores the state exactly when what the setup
  registered last, table by table, was there already or is undone and was not.
* `reloadFailed_keeps_new_handler` — a setup for which it does not.
-/

import NitroServer.Runner.Effects

namespace NitroServer.Runner

open NitroServer.Engine NitroServer.Lib NitroServer.Routing

variable {U : UserCode}

/-! ### Histories -/

/-- A call on the runner. -/
inductive Call (U : UserCode) where
  | op (o : Op U)
  | reload (ops : List (Op U))
  | reloadFailed (ops : List (Op U))

def Tables.call (s : Tables U) : Call U → Tables U
  | .op o => s.perform o
  | .reload ops => s.reload ops
  | .reloadFailed ops => s.reloadFailed ops

/-- The routing state after a history of calls. -/
def tables (calls : List (Call U)) : Tables U := calls.foldl Tables.call {}

/-! ### The composed chain -/

/-- The chain is the composition of the middleware and every piped handler is the chain
around its route's own. -/
structure Composed (s : Tables U) : Prop where
  chain : s.compose = composeAll s.middlewares
  piped : ∀ k e, s.routes.lookup k = some e → e.repipe s.compose = e

theorem composed_recompose (s : Tables U) : Composed s.recompose := by
  refine ⟨rfl, fun k e h => ?_⟩
  rw [routes_recompose] at h
  obtain ⟨e', -, rfl⟩ := Option.map_eq_some_iff.mp h
  rfl

/-- Dropping routes keeps the chain current. -/
theorem Composed.mono {s t : Tables U} (h : Composed s) (chain : t.compose = s.compose)
    (middlewares : t.middlewares = s.middlewares)
    (routes : ∀ k e, t.routes.lookup k = some e → s.routes.lookup k = some e) : Composed t := by
  refine ⟨by rw [chain, middlewares]; exact h.chain, fun k e he => ?_⟩
  rw [chain]
  exact h.piped k e (routes k e he)

theorem Composed.remove {s : Tables U} (h : Composed s) (method : Method)
    (customToken pattern : Bytes) :
    Composed (s.perform (.removeRoute method customToken pattern)) := by
  simp only [Tables.perform, Tables.removeRoute, Tables.unregisterRoute]
  cases s.engine.remove (parseUnregisterMethod (tokenOf method customToken)).1
      (parseUnregisterMethod (tokenOf method customToken)).2 pattern with
  | none => exact h
  | some engine =>
      have dropped : ∀ k e, (Assoc.erase (tokenOf method customToken, pattern) s.routes).lookup k =
          some e → s.routes.lookup k = some e := by
        intro k e he
        rw [Assoc.lookup_erase] at he
        split at he
        · cases he
        · exact he
      simp only [Option.getD_some]
      split
      · exact h.mono rfl rfl dropped
      · exact h.mono rfl rfl dropped

theorem Composed.registers {s : Tables U} (h : Composed s) {o : Op U} {config : RouteEntry}
    (hc : o.registers = some config) : Composed (s.perform o) := by
  obtain ⟨engine, -, eq⟩ := perform_registers s hc
  rw [eq]
  refine ⟨h.chain, fun k e he => ?_⟩
  change (o.putRoute s.compose s.routes).lookup k = some e at he
  change e.repipe s.compose = e
  rw [Op.putRoute] at he
  cases o with
  | addRoute method customToken pattern timeoutMs handler middleware streamBody maxBodyBytes =>
      simp only [Op.route, Assoc.lookup_set] at he
      split at he
      · cases he
        rfl
      · exact h.piped k e he
  | addStaticRoute | addWsRoute =>
      simp only [Op.route, Assoc.lookup_erase] at he
      split at he
      · cases he
      · exact h.piped k e he
  | removeRoute | use | setNotFound | setError => cases hc

theorem Composed.perform {s : Tables U} (h : Composed s) (o : Op U) : Composed (s.perform o) := by
  cases hc : o.registers with
  | some config => exact h.registers hc
  | none =>
      cases o with
      | removeRoute method customToken pattern => exact h.remove method customToken pattern
      | use middleware => exact composed_recompose _
      | setNotFound handler => exact ⟨h.chain, h.piped⟩
      | setError handler => exact ⟨h.chain, h.piped⟩
      | addRoute | addStaticRoute | addWsRoute =>
          rw [perform_refused s rfl hc]
          exact h

theorem tables_composed (calls : List (Call U)) : Composed (tables calls) := by
  induction calls using List.reverseRecOn with
  | nil => exact ⟨rfl, fun k e h => by cases h⟩
  | append_singleton calls call ih =>
      rw [tables, List.foldl_append]
      cases call with
      | op o => exact ih.perform o
      | reload ops => exact composed_recompose _
      | reloadFailed ops => exact composed_recompose _

/-! ### What a setup writes -/

/-- What an operation writes in the engine's table. -/
def Op.writeEntry (o : Op U) (x : Slot × Bytes) : Option (Option RouteEntry) :=
  match o.registers with
  | some config => if x = place config then some (some config) else none
  | none => none

/-- What an operation writes in `_routes`. -/
def Op.writeRecord (o : Op U) (k : Bytes × Bytes) : Option (Option (Core U)) :=
  if o.registers.isSome ∧ k = o.key then some o.core else none

/-- What an operation writes in `_wsHandlers`. -/
def Op.writeWs (o : Op U) (pattern : Bytes) : Option (Option (WsEntry U)) :=
  if o.registers.isSome ∧ pattern = o.key.2 then o.wsChange else none

/-- What an operation lists in `_registered`. -/
def Op.writeListing (o : Op U) (k : Bytes × Bytes) : Option Bool :=
  if o.registers.isSome ∧ k = o.key then some true else none

theorem entry_write (s : Tables U) {o : Op U} (hr : o.isRemoval = false) (x : Slot × Bytes) :
    (s.perform o).entry x = (o.writeEntry x).getD (s.entry x) := by
  cases hc : o.registers with
  | none =>
      rw [Op.writeEntry, hc, Tables.entry, (perform_quiet s hr hc).1]
      rfl
  | some config =>
      rw [entry_registers s hc, Op.writeEntry, hc]
      by_cases hx : x = place config
      · simp [hx]
      · simp [hx]

theorem record_write (s : Tables U) {o : Op U} (hr : o.isRemoval = false) (k : Bytes × Bytes) :
    (s.perform o).record k = (o.writeRecord k).getD (s.record k) := by
  cases hc : o.registers with
  | none => simp [Op.writeRecord, hc, (perform_quiet s hr hc).2.1]
  | some config =>
      rw [record_registers s hc, Op.writeRecord, hc]
      by_cases hk : k = o.key
      · simp [hk]
      · simp [hk]

theorem ws_write (s : Tables U) {o : Op U} (hr : o.isRemoval = false) (pattern : Bytes) :
    (s.perform o).wsHandlers.lookup pattern =
      (o.writeWs pattern).getD (s.wsHandlers.lookup pattern) := by
  cases hc : o.registers with
  | none => simp [Op.writeWs, hc, (perform_quiet s hr hc).2.2.1]
  | some config =>
      rw [ws_registers s hc, Op.writeWs, hc]
      by_cases hp : pattern = o.key.2
      · simp [hp]
      · simp [hp]

theorem listing_write (s : Tables U) {o : Op U} (hr : o.isRemoval = false) (k : Bytes × Bytes) :
    decide (k ∈ (s.perform o).registered) =
      (o.writeListing k).getD (decide (k ∈ s.registered)) := by
  cases hc : o.registers with
  | none => simp [Op.writeListing, hc, (perform_quiet s hr hc).2.2.2.1]
  | some config =>
      have listed := registered_registers s hc k
      rw [Op.writeListing, hc]
      by_cases hk : k = o.key
      · simpa [hk] using listed
      · simpa [hk] using listed

/-- The keys of the routes a setup registers. -/
def setupKeys (ops : List (Op U)) : List Bytes :=
  (ops.filter fun o => o.registers.isSome).map fun o => routeKey o.key.1 o.key.2

theorem touched_performAll {s : Tables U} {ops : List (Op U)}
    (plain : ∀ o ∈ ops, o.isRemoval = false) (hs : s.reloadTouched = some []) :
    ∃ touched, (s.performAll ops).reloadTouched = some touched ∧
      ∀ key, key ∈ touched ↔ key ∈ setupKeys ops := by
  induction ops using List.reverseRecOn with
  | nil => exact ⟨[], hs, fun key => Iff.rfl⟩
  | append_singleton ops o ih =>
      obtain ⟨touched, ht, mem⟩ := ih fun o ho => plain o (List.mem_append_left _ ho)
      rw [Tables.performAll, List.foldl_append]
      change ∃ t, ((s.performAll ops).perform o).reloadTouched = some t ∧ _
      rw [setupKeys, List.filter_append, List.map_append]
      cases hc : o.registers with
      | none =>
          refine ⟨touched, ?_, fun key => ?_⟩
          · rw [(perform_quiet _ (plain o (by simp)) hc).2.2.2.2]
            exact ht
          · rw [mem, List.mem_append, setupKeys]
            simp [hc]
      | some config =>
          obtain ⟨touched', ht', mem'⟩ := touched_registers _ hc ht
          refine ⟨touched', ht', fun key => ?_⟩
          rw [mem', mem, List.mem_append, or_comm, setupKeys]
          simp [hc]

/-! ### The rollback -/

/-- The keys a failed setup registered that were not registered before. -/
def newKeys (s : Tables U) (ops : List (Op U)) : List Bytes :=
  (setupKeys ops).filter (!s.registeredKeys.contains ·)

section Rollback

variable (s : Tables U) (ops : List (Op U))

/-- The tables right before the rollback recomposes. -/
theorem reloadFailed_eq (plain : ∀ o ∈ ops, o.isRemoval = false) :
    ∃ keys : List Bytes, (∀ key, key ∈ keys ↔ key ∈ newKeys s ops) ∧
      s.reloadFailed ops = Tables.recompose
        { keys.foldl Tables.unregisterKey
            { s.beginReload.performAll ops with reloadTouched := none } with
          middlewares := s.middlewares
          notFoundHandler := s.notFoundHandler
          errorHandler := s.errorHandler } := by
  obtain ⟨touched, ht, mem⟩ := touched_performAll plain (show s.beginReload.reloadTouched = some []
    from rfl)
  refine ⟨touched.filter (· ∉ s.registeredKeys), fun key => ?_, ?_⟩
  · simp [newKeys, mem]
  · rw [Tables.reloadFailed, ht]
    rfl

variable {s ops}

/-- One table after the rollback: blank where a new key was undone, else what the setup
wrote last, else what was there. -/
theorem reloadFailed_view {κ β : Type} (view : Tables U → κ → β) {blank : β}
    {clears : Bytes → κ → Prop} [∀ key x, Decidable (clears key x)]
    {write : Op U → κ → Option β} (plain : ∀ o ∈ ops, o.isRemoval = false)
    (undo : ∀ t key x, view (t.unregisterKey key) x = if clears key x then blank else view t x)
    (set : ∀ t, ∀ o ∈ ops, ∀ x, view (t.perform o) x = (write o x).getD (view t x))
    (frame : ∀ t : Tables U, ∀ middlewares notFound error touched x,
      view { t with
        middlewares := middlewares, notFoundHandler := notFound, errorHandler := error,
        reloadTouched := touched } x = view t x)
    (recomposed : ∀ t x, view (Tables.recompose t) x = view t x) (x : κ) :
    view (s.reloadFailed ops) x =
      if ∃ key ∈ newKeys s ops, clears key x then blank
      else (Assoc.lastWrite write ops x).getD (view s x) := by
  obtain ⟨keys, mem, eq⟩ := reloadFailed_eq s ops plain
  have undone := Assoc.view_foldl_blank view undo keys
    { s.beginReload.performAll ops with reloadTouched := none } x
  have written := Assoc.view_foldl view ops set s.beginReload x
  have start : view s.beginReload x = view s x := frame s [] none none (some []) x
  have quiet : view { s.beginReload.performAll ops with reloadTouched := none } x =
      view (s.beginReload.performAll ops) x := frame (s.beginReload.performAll ops) _ _ _ none x
  rw [eq, recomposed]
  refine (frame _ _ _ _ _ x).trans ?_
  rw [undone, quiet]
  simp only [mem]
  refine if_congr Iff.rfl rfl ?_
  rw [← start]
  exact written

/-- The engine's entries after the rollback. -/
theorem reloadFailed_entry (plain : ∀ o ∈ ops, o.isRemoval = false) (x : Slot × Bytes) :
    (s.reloadFailed ops).entry x =
      if ∃ key ∈ newKeys s ops, x = unregisterPlace (unkey key).1 (unkey key).2 then none
      else (Assoc.lastWrite Op.writeEntry ops x).getD (s.entry x) :=
  reloadFailed_view Tables.entry plain (fun t key x => entry_unregisterKey t key x)
    (fun t o ho x => entry_write t (plain o ho) x) (fun _ _ _ _ _ _ => rfl) (fun _ _ => rfl) x

theorem reloadFailed_record (plain : ∀ o ∈ ops, o.isRemoval = false) (k : Bytes × Bytes) :
    (s.reloadFailed ops).record k =
      if ∃ key ∈ newKeys s ops, k = unkey key then none
      else (Assoc.lastWrite Op.writeRecord ops k).getD (s.record k) := by
  have undo : ∀ (t : Tables U) key k, (t.unregisterKey key).record k =
      if k = unkey key then none else t.record k := by
    intro t key k
    rw [Tables.record, routes_unregisterKey]
    split <;> rfl
  exact reloadFailed_view Tables.record plain undo (fun t o ho k => record_write t (plain o ho) k)
    (fun _ _ _ _ _ _ => rfl) (fun t k => record_recompose t k) k

theorem reloadFailed_ws (plain : ∀ o ∈ ops, o.isRemoval = false) (pattern : Bytes) :
    (s.reloadFailed ops).wsHandlers.lookup pattern =
      if ∃ key ∈ newKeys s ops, (ascii "GET", pattern) = unkey key then none
      else (Assoc.lastWrite Op.writeWs ops pattern).getD (s.wsHandlers.lookup pattern) :=
  reloadFailed_view (fun t pattern => t.wsHandlers.lookup pattern) plain
    (fun t key pattern => ws_unregisterKey t key pattern)
    (fun t o ho pattern => ws_write t (plain o ho) pattern) (fun _ _ _ _ _ _ => rfl)
    (fun _ _ => rfl) pattern

theorem reloadFailed_listing (plain : ∀ o ∈ ops, o.isRemoval = false) (k : Bytes × Bytes) :
    decide (k ∈ (s.reloadFailed ops).registered) =
      if ∃ key ∈ newKeys s ops, k = unkey key then false
      else (Assoc.lastWrite Op.writeListing ops k).getD (decide (k ∈ s.registered)) := by
  have undo : ∀ (t : Tables U) key k, decide (k ∈ (t.unregisterKey key).registered) =
      if k = unkey key then false else decide (k ∈ t.registered) := by
    intro t key k
    have listed := registered_unregisterKey t key k
    by_cases hk : k = unkey key
    · simpa [hk] using listed
    · simpa [hk] using listed
  exact reloadFailed_view (fun t k => decide (k ∈ t.registered)) plain undo
    (fun t o ho k => listing_write t (plain o ho) k) (fun _ _ _ _ _ _ => rfl) (fun _ _ => rfl) k

end Rollback

/-! ### When the rollback restores the state -/

/-- Two routing states agree: the engine's entries with their configuration, each route's
record and composed chain, the listing, the middleware and the fallbacks. -/
structure SameRouting (s t : Tables U) : Prop where
  entry : ∀ x, t.entry x = s.entry x
  routes : ∀ k, t.routes.lookup k = s.routes.lookup k
  ws : ∀ pattern, t.wsHandlers.lookup pattern = s.wsHandlers.lookup pattern
  registered : ∀ k, k ∈ t.registered ↔ k ∈ s.registered
  middlewares : t.middlewares = s.middlewares
  compose : t.compose = s.compose
  notFound : t.notFoundHandler = s.notFoundHandler
  error : t.errorHandler = s.errorHandler

/-- Table by table: what the setup's registrations leave written was there already, unless
the key is one the rollback undoes, and then there was nothing. -/
structure Harmless (s : Tables U) (ops : List (Op U)) : Prop where
  entry : Assoc.Restored s.entry none
    (fun x => ∃ key ∈ newKeys s ops, x = unregisterPlace (unkey key).1 (unkey key).2)
    (Assoc.lastWrite Op.writeEntry ops)
  record : Assoc.Restored s.record none (fun k => ∃ key ∈ newKeys s ops, k = unkey key)
    (Assoc.lastWrite Op.writeRecord ops)
  ws : Assoc.Restored (fun pattern => s.wsHandlers.lookup pattern) none
    (fun pattern => ∃ key ∈ newKeys s ops, (ascii "GET", pattern) = unkey key)
    (Assoc.lastWrite Op.writeWs ops)
  listing : Assoc.Restored (fun k => decide (k ∈ s.registered)) false
    (fun k => ∃ key ∈ newKeys s ops, k = unkey key) (Assoc.lastWrite Op.writeListing ops)

/-- With the chain current on both sides, equal records are equal entries. -/
theorem routes_eq_iff_record {s t : Tables U} (hs : Composed s) (ht : Composed t)
    (chain : t.compose = s.compose) (k : Bytes × Bytes) :
    t.routes.lookup k = s.routes.lookup k ↔ t.record k = s.record k := by
  constructor
  · intro h
    rw [Tables.record, h, Tables.record]
  · intro h
    simp only [Tables.record] at h
    cases hs' : s.routes.lookup k with
    | none =>
        rw [hs'] at h
        simpa using h
    | some e =>
        rw [hs', Option.map_some] at h
        obtain ⟨e', ht', core⟩ := Option.map_eq_some_iff.mp h
        have same : e'.repipe s.compose = e.repipe s.compose := by
          simp only [Entry.core, Core.mk.injEq] at core
          simp only [Entry.repipe, core.1, core.2.1, core.2.2]
        rw [ht', ← ht.piped k e' ht', chain, same, hs.piped k e hs']

/-- A failed reload gives the routing state back exactly when its setup was harmless. -/
theorem reloadFailed_same (calls : List (Call U)) (ops : List (Op U))
    (plain : ∀ o ∈ ops, o.isRemoval = false) :
    SameRouting (tables calls) ((tables calls).reloadFailed ops) ↔ Harmless (tables calls) ops := by
  have composed := tables_composed calls
  have composed' : Composed ((tables calls).reloadFailed ops) := composed_recompose _
  have middlewares : ((tables calls).reloadFailed ops).middlewares = (tables calls).middlewares := rfl
  have chain : ((tables calls).reloadFailed ops).compose = (tables calls).compose := by
    rw [composed'.chain, middlewares, ← composed.chain]
  constructor
  · intro same
    refine ⟨Assoc.restored_iff.mp fun x => ?_, Assoc.restored_iff.mp fun k => ?_,
      Assoc.restored_iff.mp fun pattern => ?_, Assoc.restored_iff.mp fun k => ?_⟩
    · rw [← reloadFailed_entry plain]
      exact same.entry x
    · rw [← reloadFailed_record plain]
      exact (routes_eq_iff_record composed composed' chain k).mp (same.routes k)
    · rw [← reloadFailed_ws plain]
      exact same.ws pattern
    · rw [← reloadFailed_listing plain]
      exact decide_eq_decide.mpr (same.registered k)
  · intro harmless
    refine ⟨fun x => ?_, fun k => ?_, fun pattern => ?_, fun k => ?_, middlewares, chain, rfl, rfl⟩
    · rw [reloadFailed_entry plain]
      exact Assoc.restored_iff.mpr harmless.entry x
    · rw [routes_eq_iff_record composed composed' chain, reloadFailed_record plain]
      exact Assoc.restored_iff.mpr harmless.record k
    · rw [reloadFailed_ws plain]
      exact Assoc.restored_iff.mpr harmless.ws pattern
    · rw [← decide_eq_decide, reloadFailed_listing plain]
      exact Assoc.restored_iff.mpr harmless.listing k

/-- User code whose handlers are told apart by a number. -/
def sampleCode : UserCode where
  Handler := Nat
  WsHandler := Nat
  Middleware := Nat
  NotFound := Nat
  ErrorHandler := Nat
  around := fun m h => m + h

instance : DecidableEq sampleCode.Handler := inferInstanceAs (DecidableEq Nat)

/-- `server.get(pattern, handler)`. -/
def sampleGet (pattern : String) (handler : Nat) : Op sampleCode :=
  .addRoute .get [] (ascii pattern) none handler [] false none

/-- A setup that registers a route of its own and then throws. -/
theorem reloadFailed_same_new :
    (∀ o ∈ [sampleGet "/b" 2], o.isRemoval = false) ∧
      (SameRouting (tables [.op (sampleGet "/a" 1)])
          ((tables [.op (sampleGet "/a" 1)]).reloadFailed [sampleGet "/b" 2]) ↔
        Harmless (tables [.op (sampleGet "/a" 1)]) [sampleGet "/b" 2]) :=
  ⟨by decide, reloadFailed_same [.op (sampleGet "/a" 1)] [sampleGet "/b" 2] (by decide)⟩

/-- A setup that registers `/a` again with another handler and then throws leaves the new
handler in place. -/
theorem reloadFailed_keeps_new_handler :
    ¬ SameRouting (tables [.op (sampleGet "/a" 1)])
      ((tables [.op (sampleGet "/a" 1)]).reloadFailed [sampleGet "/a" 2]) := by
  intro same
  have handlers := congrArg (Option.map Entry.handler) (same.routes (ascii "GET", ascii "/a"))
  have before : ((tables [.op (sampleGet "/a" 1)]).routes.lookup (ascii "GET", ascii "/a")).map
      Entry.handler = some (show sampleCode.Handler from (1 : Nat)) := by decide +kernel
  have after : (((tables [.op (sampleGet "/a" 1)]).reloadFailed [sampleGet "/a" 2]).routes.lookup
      (ascii "GET", ascii "/a")).map Entry.handler = some (show sampleCode.Handler from (2 : Nat)) := by decide +kernel
  rw [before, after] at handlers
  exact absurd (Option.some.inj handlers) (by decide : (2 : Nat) ≠ 1)

end NitroServer.Runner
