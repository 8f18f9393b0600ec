/-
The composed middleware chain of every route.

`_composeAll` composes a list of middleware once, and `addRoute`, `use` and `reload` apply
the result to routes. `currentMiddleware` and `currentRoute` say what a history of calls
leaves without composing anything: the global middleware, and for each key the handler and
the middleware of its latest registration.

* `composeAll_apply` — the composed transformer nests the middleware, the first outermost.
* `chain_current` — after every history each route's piped handler is the global
  middleware around the route's own around its handler.
-/

import NitroServer.Runner.InStep

namespace NitroServer.Runner

open NitroServer.Engine NitroServer.Lib NitroServer.Routing

variable {U : UserCode}

theorem composeAll_apply (middlewares : List U.Middleware) (handler : U.Handler) :
    composeAll middlewares handler = middlewares.foldr U.around handler := by
  induction middlewares with
  | nil => rfl
  | cons m middlewares ih =>
      change U.around m (composeAll middlewares handler) = U.around m _
      rw [ih]

/-! ### What a history leaves -/

/-- The handler and the middleware that a registration gives its route. -/
def Op.own : Op U → Option (U.Handler × List U.Middleware)
  | .addRoute _ _ _ _ handler middleware _ _ => some (handler, middleware)
  | _ => none

/-- What an operation registers at a key. -/
def Op.writeOwn (o : Op U) (k : Bytes × Bytes) : Option (U.Handler × List U.Middleware) :=
  if o.registers.isSome ∧ k = o.key then o.own else none

/-- The handler and the middleware of the latest route registered at a key. -/
def currentRoute (calls : List (Call U)) (k : Bytes × Bytes) :
    Option (U.Handler × List U.Middleware) :=
  Assoc.lastWrite Op.writeOwn (calls.flatMap Call.ops) k

/-- The middleware an operation appends. -/
def Op.uses : Op U → List U.Middleware
  | .use middleware => [middleware]
  | _ => []

/-- The global middleware after a call; a reload starts over, and a failed one goes back. -/
def Call.middleware (globals : List U.Middleware) : Call U → List U.Middleware
  | .op o => globals ++ o.uses
  | .reload ops => ops.flatMap Op.uses
  | .reloadFailed _ => globals

/-- The global middleware after a history of calls. -/
def currentMiddleware (calls : List (Call U)) : List U.Middleware :=
  calls.foldl Call.middleware []

/-! ### The global middleware -/

theorem middlewares_perform (s : Tables U) (o : Op U) :
    (s.perform o).middlewares = s.middlewares ++ o.uses := by
  cases hc : o.registers with
  | some config =>
      obtain ⟨engine, -, eq⟩ := perform_registers s hc
      have none : o.uses = [] := by
        cases o with
        | use middleware => cases hc
        | _ => rfl
      rw [eq, none, List.append_nil]
      rfl
  | none =>
      cases o with
      | use middleware => rfl
      | setNotFound handler | setError handler => exact (List.append_nil _).symm
      | addRoute | addStaticRoute | addWsRoute =>
          rw [perform_refused s rfl hc]
          exact (List.append_nil _).symm
      | removeRoute method customToken pattern =>
          simp only [Tables.perform, Tables.removeRoute, Tables.unregisterRoute, Op.uses,
            List.append_nil]
          split
          · rfl
          · rename_i removed
            split at removed
            · cases removed
            · cases removed
              simp only [Option.getD_some]
              split <;> rfl

theorem middlewares_performAll (s : Tables U) (ops : List (Op U)) :
    (s.performAll ops).middlewares = s.middlewares ++ ops.flatMap Op.uses := by
  induction ops generalizing s with
  | nil => exact (List.append_nil _).symm
  | cons o ops ih =>
      rw [List.flatMap_cons, ← List.append_assoc, ← middlewares_perform]
      exact ih (s.perform o)

theorem middlewares_unregisterKey (s : Tables U) (key : Bytes) :
    (s.unregisterKey key).middlewares = s.middlewares := by
  have same : (s.unregisterRoute (unkey key).1 (unkey key).2).1.middlewares = s.middlewares := by
    simp only [Tables.unregisterRoute]
    split <;> rfl
  rw [← same]
  simp only [Tables.unregisterKey]
  split <;> rfl

theorem middlewares_unregisterAll (s : Tables U) (keys : List Bytes) :
    (keys.foldl Tables.unregisterKey s).middlewares = s.middlewares := by
  induction keys generalizing s with
  | nil => rfl
  | cons key keys ih => exact (ih _).trans (middlewares_unregisterKey s key)

theorem middlewares_call (s : Tables U) (call : Call U) :
    (s.call call).middlewares = call.middleware s.middlewares := by
  cases call with
  | op o => exact middlewares_perform s o
  | reload ops =>
      refine (middlewares_unregisterAll _ _).trans ?_
      exact (middlewares_performAll s.beginReload ops).trans (List.nil_append _)
  | reloadFailed ops => rfl

theorem middlewares_tables (calls : List (Call U)) :
    (tables calls).middlewares = currentMiddleware calls := by
  induction calls using List.reverseRecOn with
  | nil => rfl
  | append_singleton calls call ih =>
      rw [tables, currentMiddleware, List.foldl_concat, List.foldl_concat, ← currentMiddleware,
        ← ih]
      exact middlewares_call _ _

/-! ### The routes' own middleware -/

/-- Every route has the handler and the chain of the latest registration at its key. -/
def Latest (s : Tables U) (history : List (Op U)) : Prop :=
  ∀ k c, s.record k = some c →
    ∃ own, Assoc.lastWrite Op.writeOwn history k = some (c.handler, own) ∧
      c.routeComposer = composeAll own

theorem lastWrite_concat (history : List (Op U)) (o : Op U) (k : Bytes × Bytes) :
    Assoc.lastWrite Op.writeOwn (history ++ [o]) k =
      (o.writeOwn k).or (Assoc.lastWrite Op.writeOwn history k) := by
  simp only [Assoc.lastWrite, List.reverse_append, List.reverse_singleton,
    List.singleton_append, List.findSome?_cons]
  cases o.writeOwn k <;> rfl

namespace Latest

variable {s t : Tables U} {history : List (Op U)}

/-- Routes may go. -/
theorem mono (h : Latest s history)
    (kept : ∀ k c, t.record k = some c → s.record k = some c) : Latest t history :=
  fun k c found => h k c (kept k c found)

theorem perform (h : Latest s history) (o : Op U) : Latest (s.perform o) (history ++ [o]) := by
  intro k c found
  rw [lastWrite_concat]
  cases hc : o.registers with
  | some config =>
      rw [record_registers s hc] at found
      by_cases here : k = o.key
      · rw [if_pos here] at found
        cases o with
        | addRoute method customToken pattern timeoutMs handler middleware streamBody maxBody =>
            cases found
            refine ⟨middleware, ?_, rfl⟩
            rw [Op.writeOwn, if_pos ⟨by rw [hc]; rfl, here⟩]
            rfl
        | _ => cases found
      · rw [if_neg here] at found
        rw [Op.writeOwn, if_neg fun written => here written.2]
        exact h k c found
  | none =>
      rw [Op.writeOwn, if_neg (by rw [hc]; rintro ⟨registered, -⟩; cases registered)]
      refine h k c ?_
      by_cases removal : o.isRemoval = true
      · cases o with
        | removeRoute method customToken pattern =>
            rcases perform_remove s method customToken pattern with ⟨-, same⟩ | ⟨-, records, -⟩
            · rwa [same] at found
            · rw [records] at found
              split at found
              · cases found
              · exact found
        | _ => cases removal
      · rwa [(perform_quiet s (by simpa using removal) hc).2.1] at found

theorem performAll (h : Latest s history) (ops : List (Op U)) :
    Latest (s.performAll ops) (history ++ ops) := by
  induction ops generalizing s history with
  | nil =>
      rw [List.append_nil]
      exact h
  | cons o ops ih =>
      have rest := ih (h.perform o)
      rwa [List.append_assoc] at rest

theorem unregisterAll (h : Latest s history) (keys : List Bytes) :
    Latest (keys.foldl Tables.unregisterKey s) history := by
  induction keys generalizing s with
  | nil => exact h
  | cons key keys ih =>
      refine ih (h.mono fun k c found => ?_)
      rw [Tables.record, routes_unregisterKey] at found
      split at found
      · cases found
      · exact found

theorem recompose (h : Latest s history) : Latest s.recompose history :=
  h.mono fun k c found => by rwa [record_recompose] at found

theorem call (h : Latest s history) (call : Call U) : Latest (s.call call) (history ++ call.ops) := by
  cases call with
  | op o => exact h.perform o
  | reload ops =>
      have started : Latest s.beginReload history := h
      have done : Latest { s.beginReload.performAll ops with reloadTouched := none }
          (history ++ ops) := started.performAll ops
      exact (done.unregisterAll _).recompose
  | reloadFailed ops =>
      have started : Latest s.beginReload history := h
      have done : Latest { s.beginReload.performAll ops with reloadTouched := none }
          (history ++ ops) := started.performAll ops
      refine Latest.recompose ((done.unregisterAll ?_).mono ?_)
      · exact ((s.beginReload.performAll ops).reloadTouched.getD []).filter
          (· ∉ s.registeredKeys)
      · exact fun _ _ found => found

end Latest

theorem tables_latest (calls : List (Call U)) :
    Latest (tables calls) (calls.flatMap Call.ops) := by
  induction calls using List.reverseRecOn with
  | nil => exact fun k c found => by cases found
  | append_singleton calls call ih =>
      rw [tables, List.foldl_concat, List.flatMap_append, List.flatMap_singleton]
      exact ih.call call

/-- After every history of calls the piped handler of a route is the global middleware in
order of registration, the first outermost, around the route's own around its handler. -/
theorem chain_current (calls : List (Call U)) (k : Bytes × Bytes) (e : Entry U)
    (found : (tables calls).routes.lookup k = some e) :
    ∃ own, currentRoute calls k = some (e.handler, own) ∧
      e.piped = (currentMiddleware calls).foldr U.around (own.foldr U.around e.handler) := by
  have record : (tables calls).record k = some e.core := by rw [Tables.record, found]; rfl
  obtain ⟨own, latest, composer⟩ := tables_latest calls k e.core record
  refine ⟨own, latest, ?_⟩
  have composed := tables_composed calls
  calc e.piped = (tables calls).compose (e.routeComposer e.handler) :=
        (congrArg Entry.piped (composed.piped k e found)).symm
    _ = composeAll (tables calls).middlewares (composeAll own e.handler) := by
        rw [composed.chain]
        exact congrArg _ (congrFun composer _)
    _ = _ := by rw [composeAll_apply, composeAll_apply, middlewares_tables]

/-- Handlers that tell which middleware a call runs through. -/
def traceCode : UserCode where
  Handler := List Nat
  WsHandler := Unit
  Middleware := Nat
  NotFound := Unit
  ErrorHandler := Unit
  around m next := m :: next

instance : DecidableEq traceCode.Handler := inferInstanceAs (DecidableEq (List Nat))

instance : DecidableEq traceCode.Middleware := inferInstanceAs (DecidableEq Nat)

/-- A route between two calls of `use`, and a reload that fails. -/
def chainCalls : List (Call traceCode) :=
  [.op (.use (1 : Nat)),
    .op (.addRoute .get [] (ascii "/a") none ([] : List Nat) [(2 : Nat)] false none),
    .op (.use (3 : Nat)), .reloadFailed [.use (4 : Nat)]]

theorem chain_current_reload : ∃ e, (tables chainCalls).routes.lookup
      (ascii "GET", ascii "/a") = some e ∧ e.piped = ([1, 3, 2] : List Nat) := by
  obtain ⟨e, found⟩ : ∃ e, (tables chainCalls).routes.lookup (ascii "GET", ascii "/a") = some e :=
    Option.isSome_iff_exists.mp (by decide +kernel)
  obtain ⟨own, latest, piped⟩ := chain_current chainCalls _ e found
  have registered : currentRoute chainCalls (ascii "GET", ascii "/a") =
      some (show traceCode.Handler from ([] : List Nat),
        [show traceCode.Middleware from (2 : Nat)]) := by decide +kernel
  obtain ⟨handler, rfl⟩ := Prod.mk.inj (Option.some.inj (registered.symm.trans latest))
  rw [← handler] at piped
  exact ⟨e, found, piped⟩

end NitroServer.Runner
