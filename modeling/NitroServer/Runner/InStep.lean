/-
The engine's routes and the runner's tables, call after call.

The engine keys a route by trie slot and method; the runner keys it by the spelling of its
pattern. They stay in step as long as a slot is addressed under one spelling, a custom
method does not borrow a standard method's token, and no pattern holds a WebSocket route
and an all-methods handler at once.

* `Aligned` — the invariant; `Aligned.registers` and `Aligned.clear` are its step lemmas.
* `aligned_reload` — a successful reload keeps it.
* `tables_in_step` — after every call of an orderly history the tables agree, and every
  request the engine dispatches finds the handler registered last for its slot.
* `respelled_reload_drops_route` — a reload that respells a slot breaks it.
-/

import NitroServer.Router.Match
import NitroServer.Runner.Reload

namespace NitroServer.Runner

open NitroServer.Engine NitroServer.Lib NitroServer.Routing

variable {U : UserCode}

/-! ### Tokens -/

/-- A custom token is not the token of a standard method and has no blank in it. -/
def TokenOk (method : Method) (customToken : Bytes) : Prop :=
  method = .custom →
    parseMethod customToken = (.custom, customToken) ∧ customToken ≠ ascii "*" ∧
      space ∉ customToken

theorem parse_methodToken (m : Method) (h : m ≠ .custom) :
    parseUnregisterMethod (methodToken m) = (m, []) := by
  revert h
  cases m <;> decide

theorem space_not_mem_methodToken (m : Method) : space ∉ methodToken m := by
  cases m <;> decide

theorem parse_tokenOf {method : Method} {customToken : Bytes} (h : TokenOk method customToken) :
    parseUnregisterMethod (tokenOf method customToken) = (method, rawCustom method customToken) := by
  by_cases hm : method = .custom
  · obtain ⟨parsed, star, -⟩ := h hm
    simp [tokenOf, rawCustom, parseUnregisterMethod, parsed, star, hm]
  · rw [tokenOf, if_neg hm, rawCustom, if_neg hm, parse_methodToken method hm]

theorem space_not_mem_tokenOf {method : Method} {customToken : Bytes}
    (h : TokenOk method customToken) : space ∉ tokenOf method customToken := by
  by_cases hm : method = .custom
  · rw [tokenOf, if_pos hm]
    exact (h hm).2.2
  · rw [tokenOf, if_neg hm]
    exact space_not_mem_methodToken method

theorem tokenOf_rawCustom (method : Method) (customToken : Bytes) :
    tokenOf method (rawCustom method customToken) = tokenOf method customToken := by
  simp only [tokenOf, rawCustom]
  split <;> rfl

/-- The token of a route that `TokenOk` admits. -/
def OkToken (token : Bytes) : Prop := ∃ method customToken, TokenOk method customToken ∧
  token = tokenOf method customToken

theorem okToken_get : OkToken (ascii "GET") := ⟨.get, [], fun h => by (cases h), rfl⟩

theorem OkToken.space_not_mem {token : Bytes} (h : OkToken token) : space ∉ token := by
  obtain ⟨m, c, hok, rfl⟩ := h
  exact space_not_mem_tokenOf hok

/-- Tokens that address the same method are equal. -/
theorem OkToken.place_inj {token token' pattern pattern' : Bytes} (h : OkToken token)
    (h' : OkToken token') (same : unregisterPlace token pattern = unregisterPlace token' pattern') :
    token = token' ∧ slotOf pattern = slotOf pattern' := by
  obtain ⟨m, c, hok, rfl⟩ := h
  obtain ⟨m', c', hok', rfl⟩ := h'
  simp only [unregisterPlace, parse_tokenOf hok, parse_tokenOf hok', Prod.mk.injEq,
    methodKey_eq_iff] at same
  obtain ⟨slot, rfl, tokens⟩ := same
  refine ⟨?_, slot⟩
  simp only [tokenOf]
  by_cases hm : m = .custom
  · have := tokens hm
    simpa [rawCustom, hm] using this
  · rw [if_neg hm, if_neg hm]

theorem unkey_routeKey {token : Bytes} (h : space ∉ token) (pattern : Bytes) :
    unkey (routeKey token pattern) = (token, pattern) := by
  have keep : ∀ b ∈ token, decide (b ≠ space) = true := by
    intro b hb
    simpa using fun hs : b = space => h (hs ▸ hb)
  simp only [unkey, routeKey]
  rw [List.takeWhile_append_of_pos keep, List.dropWhile_append_of_pos keep]
  simp

/-! ### The latest registration -/

/-- What a route answers with. -/
inductive Target (U : UserCode) where
  | handler (h : U.Handler)
  | static (response : StaticResponse)
  | ws (h : U.WsHandler)

/-- What a registration puts at its slot. -/
def Op.target : Op U → Option (Target U)
  | .addRoute _ _ _ _ handler _ _ _ => some (.handler handler)
  | .addStaticRoute _ _ _ response => some (.static response)
  | .addWsRoute _ handler _ _ => some (.ws handler)
  | _ => none

def Op.writeTarget (o : Op U) (x : Slot × Bytes) : Option (Target U) :=
  match o.registers with
  | some config => if x = place config then o.target else none
  | none => none

/-- What the latest registration of a place put there. -/
def latest (history : List (Op U)) (x : Slot × Bytes) : Option (Target U) :=
  Assoc.lastWrite Op.writeTarget history x

theorem latest_append (history : List (Op U)) (o : Op U) (x : Slot × Bytes) :
    latest (history ++ [o]) x = (o.writeTarget x).or (latest history x) := by
  simp only [latest, Assoc.lastWrite, List.reverse_append, List.reverse_singleton,
    List.singleton_append, List.findSome?_cons]
  cases o.writeTarget x <;> rfl

/-- The kind and handler the tables hold for an engine entry. -/
def Tables.targetOf (s : Tables U) (e : RouteEntry) : Option (Target U) :=
  match e.staticResponse with
  | some response => some (.static response)
  | none =>
      if e.isWebSocket then (s.wsHandlers.lookup e.pattern).map fun w => .ws w.handler
      else (s.routes.lookup (tokenOf e.method e.customMethod, e.pattern)).map fun r =>
        .handler r.handler

/-- What `_dispatch` finds for a request: `_entryFor` first, then `_wsHandlers`. -/
def Tables.resolve (s : Tables U) (method : Method) (custom pattern : Bytes) : Option (Target U) :=
  match s.entryFor method custom pattern with
  | some r => some (.handler r.handler)
  | none => (s.wsHandlers.lookup pattern).map fun w => .ws w.handler

/-- The engine's entries and the runner's tables agree: an entry for exactly the listed
slots, each of the kind and with the handler of its latest registration, and every
request the engine dispatches finds that handler. -/
structure InStep (s : Tables U) (history : List (Op U)) : Prop where
  listed : ∀ x, (s.entry x).isSome ↔ ∃ k ∈ s.registered, unregisterPlace k.1 k.2 = x
  kind : ∀ x e, s.entry x = some e → (latest history x).isSome ∧ s.targetOf e = latest history x
  found : ∀ method custom path e, (s.engine.match method custom path).route = some e →
    e.staticResponse = none → s.resolve method custom e.pattern = latest history (place e)

/-! ### Orderly histories -/

/-- No listed pattern names the slot of `pattern` in another spelling. -/
def Spelled (listed : List (Bytes × Bytes)) (token pattern : Bytes) : Prop :=
  ∀ p, (token, p) ∈ listed → slotOf p = slotOf pattern → p = pattern

/-- The operation keeps to known tokens and spellings and does not put a WebSocket route
and an all-methods handler on one pattern. -/
def Careful (listed : List (Bytes × Bytes)) (s : Tables U) : Op U → Prop
  | .addRoute method customToken pattern _ _ _ _ _ =>
      TokenOk method customToken ∧ Spelled listed (tokenOf method customToken) pattern ∧
        (method = .all → s.wsHandlers.lookup pattern = none)
  | .addStaticRoute method customToken pattern _ =>
      TokenOk method customToken ∧ Spelled listed (tokenOf method customToken) pattern
  | .addWsRoute pattern _ _ _ =>
      Spelled listed (ascii "GET") pattern ∧ s.routes.lookup (ascii "*", pattern) = none
  | .removeRoute method customToken pattern =>
      TokenOk method customToken ∧ Spelled listed (tokenOf method customToken) pattern
  | _ => True

/-- The operations of a setup: the patterns listed before the reload count too. -/
def CarefulAll (old : List (Bytes × Bytes)) : Tables U → List (Op U) → Prop
  | _, [] => True
  | s, o :: ops => Careful (old ++ s.registered) s o ∧ CarefulAll old (s.perform o) ops

def CarefulCall (s : Tables U) : Call U → Prop
  | .op o => Careful s.registered s o
  | .reload ops => CarefulAll s.registered s.beginReload ops
  | .reloadFailed _ => False

/-- Every call of the history is careful in the state it is made in. -/
def Orderly : Tables U → List (Call U) → Prop
  | _, [] => True
  | s, c :: calls => CarefulCall s c ∧ Orderly (s.call c) calls

/-- The operations a call performs. -/
def Call.ops : Call U → List (Op U)
  | .op o => [o]
  | .reload ops => ops
  | .reloadFailed ops => ops

/-! ### The invariant -/

/-- The token and pattern an engine entry answers to. -/
def entryKey (e : RouteEntry) : Bytes × Bytes := (tokenOf e.method e.customMethod, e.pattern)

/-- The runner's records of an engine entry whose latest registration was `target`. -/
def Recorded (s : Tables U) (e : RouteEntry) : Target U → Prop
  | .handler h =>
      e.staticResponse = none ∧ e.isWebSocket = false ∧
        (∃ r, s.record (entryKey e) = some r ∧ r.handler = h) ∧
        ((entryKey e).1 = ascii "GET" → s.wsHandlers.lookup e.pattern = none)
  | .static response =>
      e.staticResponse = some response ∧ s.record (entryKey e) = none ∧
        ((entryKey e).1 = ascii "GET" → s.wsHandlers.lookup e.pattern = none)
  | .ws h =>
      e.staticResponse = none ∧ e.isWebSocket = true ∧ (entryKey e).1 = ascii "GET" ∧
        s.record (entryKey e) = none ∧
        ∃ w, s.wsHandlers.lookup e.pattern = some w ∧ w.handler = h

structure Aligned (s : Tables U) (history : List (Op U)) : Prop where
  token : ∀ k ∈ s.registered, OkToken k.1
  spelled : ∀ t p q, (t, p) ∈ s.registered → (t, q) ∈ s.registered → slotOf p = slotOf q → p = q
  listed : ∀ k ∈ s.registered, ∃ e, s.entry (unregisterPlace k.1 k.2) = some e ∧ entryKey e = k
  entries : ∀ x e, s.entry x = some e → entryKey e ∈ s.registered ∧
    unregisterPlace (entryKey e).1 (entryKey e).2 = x ∧ place e = x ∧
    ∃ target, latest history x = some target ∧ Recorded s e target
  records : ∀ k, s.record k ≠ none → k ∈ s.registered
  ws : ∀ p, s.wsHandlers.lookup p ≠ none → (ascii "GET", p) ∈ s.registered
  apart : ∀ p, s.wsHandlers.lookup p ≠ none → s.record (ascii "*", p) = none

theorem aligned_empty : Aligned ({} : Tables U) [] where
  token := fun _ h => by (cases h)
  spelled := fun _ _ _ h => by (cases h)
  listed := fun _ h => by (cases h)
  entries := fun x e h => by
    rw [Tables.entry, entryOf_empty] at h
    cases h
  records := fun _ h => absurd rfl h
  ws := fun _ h => absurd rfl h
  apart := fun _ h => absurd rfl h

/-- The records of an entry do not change where the tables are the same. -/
theorem Recorded.congr {s t : Tables U} {e : RouteEntry} {target : Target U}
    (h : Recorded s e target) (record : t.record (entryKey e) = s.record (entryKey e))
    (ws : (entryKey e).1 = ascii "GET" → t.wsHandlers.lookup e.pattern = s.wsHandlers.lookup e.pattern) :
    Recorded t e target := by
  cases target with
  | handler h' =>
      obtain ⟨hs, hw, hr, hg⟩ := h
      exact ⟨hs, hw, by rw [record]; exact hr, fun get => (ws get).trans (hg get)⟩
  | static response =>
      obtain ⟨hs, hr, hg⟩ := h
      exact ⟨hs, by rw [record]; exact hr, fun get => (ws get).trans (hg get)⟩
  | ws h' =>
      obtain ⟨hs, hw, get, hr, hv⟩ := h
      exact ⟨hs, hw, get, by rw [record]; exact hr, by rw [ws get]; exact hv⟩

/-- States with the same tables and histories with the same latest registrations. -/
theorem Aligned.congr {s t : Tables U} {history history' : List (Op U)} (h : Aligned s history)
    (entry : ∀ x, t.entry x = s.entry x) (record : ∀ k, t.record k = s.record k)
    (ws : ∀ p, t.wsHandlers.lookup p = s.wsHandlers.lookup p)
    (registered : ∀ k, k ∈ t.registered ↔ k ∈ s.registered)
    (last : ∀ x, latest history' x = latest history x) : Aligned t history' where
  token := fun k hk => h.token k ((registered k).mp hk)
  spelled := fun a p q hp hq => h.spelled a p q ((registered _).mp hp) ((registered _).mp hq)
  listed := fun k hk => by
    obtain ⟨e, he, key⟩ := h.listed k ((registered k).mp hk)
    exact ⟨e, by rw [entry]; exact he, key⟩
  entries := fun x e he => by
    rw [entry] at he
    obtain ⟨mem, here, at_x, target, hl, hr⟩ := h.entries x e he
    exact ⟨(registered _).mpr mem, here, at_x, target, by rw [last]; exact hl,
      hr.congr (record _) fun _ => ws _⟩
  records := fun k hk => (registered k).mpr (h.records k (by rwa [record] at hk))
  ws := fun p hp => (registered _).mpr (h.ws p (by rwa [ws] at hp))
  apart := fun p hp => by
    rw [record]
    exact h.apart p (by rwa [ws] at hp)

/-- A listed key at the place of a well-spelled one is that key. -/
theorem Aligned.key_unique {s : Tables U} {history : List (Op U)} (h : Aligned s history)
    {token pattern : Bytes} (ok : OkToken token) (spelled : Spelled s.registered token pattern)
    {k : Bytes × Bytes} (hk : k ∈ s.registered)
    (same : unregisterPlace k.1 k.2 = unregisterPlace token pattern) : k = (token, pattern) := by
  obtain ⟨t, p⟩ := k
  obtain ⟨rfl, slot⟩ := (h.token _ hk).place_inj ok same
  rw [spelled p hk slot]

/-- Clearing a key, in both tables at once, keeps them aligned. -/
theorem Aligned.clear {s t : Tables U} {history : List (Op U)} (h : Aligned s history)
    {token pattern : Bytes} (ok : OkToken token) (spelled : Spelled s.registered token pattern)
    (entry : ∀ x, t.entry x = if x = unregisterPlace token pattern then none else s.entry x)
    (record : ∀ k, t.record k = if k = (token, pattern) then none else s.record k)
    (ws : ∀ p, t.wsHandlers.lookup p =
      if token = ascii "GET" ∧ p = pattern then none else s.wsHandlers.lookup p)
    (registered : ∀ k, k ∈ t.registered ↔ k ∈ s.registered ∧ k ≠ (token, pattern)) :
    Aligned t history where
  token := fun k hk => h.token k ((registered k).mp hk).1
  spelled := fun a p q hp hq =>
    h.spelled a p q ((registered _).mp hp).1 ((registered _).mp hq).1
  listed := fun k hk => by
    obtain ⟨mem, hne⟩ := (registered k).mp hk
    obtain ⟨e, he, key⟩ := h.listed k mem
    refine ⟨e, ?_, key⟩
    rw [entry, if_neg fun same => hne (h.key_unique ok spelled mem same)]
    exact he
  entries := fun x e he => by
    rw [entry] at he
    split at he
    · cases he
    · rename_i hx
      obtain ⟨mem, here, at_x, target, hl, hr⟩ := h.entries x e he
      have other : entryKey e ≠ (token, pattern) := by
        intro same
        rw [same] at here
        exact hx here.symm
      refine ⟨(registered _).mpr ⟨mem, other⟩, here, at_x, target, hl, hr.congr ?_ fun get => ?_⟩
      · rw [record, if_neg other]
      · rw [ws, if_neg]
        rintro ⟨rfl, hp⟩
        exact other (Prod.ext get hp)
  records := fun k hk => by
    rw [record] at hk
    split at hk
    · exact absurd rfl hk
    · exact (registered k).mpr ⟨h.records k hk, ‹_›⟩
  ws := fun p hp => by
    rw [ws] at hp
    split at hp
    · exact absurd rfl hp
    · rename_i hne
      refine (registered _).mpr ⟨h.ws p hp, fun same => hne ?_⟩
      rw [Prod.mk.injEq] at same
      exact ⟨same.1.symm, same.2⟩
  apart := fun p hp => by
    rw [ws] at hp
    split at hp
    · exact absurd rfl hp
    · rw [record]
      split
      · rfl
      · exact h.apart p hp

/-! ### Registrations -/

/-- The place of a careful registration is the one its key addresses, and its entry
answers to its key. -/
theorem place_registers {listed : List (Bytes × Bytes)} {s : Tables U} {o : Op U}
    {config : RouteEntry} (h : o.registers = some config) (careful : Careful listed s o) :
    place config = unregisterPlace o.key.1 o.key.2 ∧ entryKey config = o.key ∧
      OkToken o.key.1 ∧ Spelled listed o.key.1 o.key.2 := by
  cases o with
  | addRoute method customToken pattern timeoutMs handler middleware streamBody maxBodyBytes =>
      obtain ⟨ok, spelled, -⟩ := careful
      simp only [Op.registers, Option.ite_none_right_eq_some, Option.some.injEq] at h
      obtain ⟨-, rfl⟩ := h
      refine ⟨?_, ?_, ⟨method, customToken, ok, rfl⟩, spelled⟩
      · simp only [place, unregisterPlace, Op.key, Tables.handlerConfig, parse_tokenOf ok]
      · simp only [entryKey, Op.key, Tables.handlerConfig, tokenOf_rawCustom]
  | addStaticRoute method customToken pattern response =>
      obtain ⟨ok, spelled⟩ := careful
      simp only [Op.registers, Option.ite_none_right_eq_some, Option.some.injEq] at h
      obtain ⟨-, rfl⟩ := h
      refine ⟨rfl, ?_, ⟨method, customToken, ok, rfl⟩, spelled⟩
      simp only [entryKey, Op.key, Tables.staticConfig, parse_tokenOf ok, tokenOf_rawCustom]
  | addWsRoute pattern handler protocols middleware =>
      obtain ⟨spelled, -⟩ := careful
      simp only [Op.registers, Option.ite_none_right_eq_some, Option.some.injEq] at h
      obtain ⟨-, rfl⟩ := h
      exact ⟨rfl, rfl, okToken_get, spelled⟩
  | removeRoute | use | setNotFound | setError => cases h

/-- Only GET registrations touch `_wsHandlers`. -/
theorem wsChange_get {listed : List (Bytes × Bytes)} {s : Tables U} {o : Op U}
    (careful : Careful listed s o) (h : o.wsChange ≠ none) : o.key.1 = ascii "GET" := by
  cases o with
  | addRoute method customToken pattern timeoutMs handler middleware streamBody maxBodyBytes =>
      simp only [Op.wsChange] at h
      split at h
      · assumption
      · exact absurd rfl h
  | addStaticRoute method customToken pattern response =>
      simp only [Op.wsChange] at h
      split at h
      · rename_i get
        rw [get]
        rfl
      · exact absurd rfl h
  | addWsRoute pattern handler protocols middleware => rfl
  | removeRoute | use | setNotFound | setError => exact absurd rfl h

/-- The records a registration leaves for its own entry. -/
theorem recorded_registers {s : Tables U} {o : Op U} {config : RouteEntry}
    {listed : List (Bytes × Bytes)} (h : o.registers = some config)
    (careful : Careful listed s o) :
    ∃ target, o.target = some target ∧ Recorded (s.perform o) config target := by
  obtain ⟨-, key, -, -⟩ := place_registers h careful
  have record := record_registers s h o.key
  rw [if_pos rfl] at record
  have pattern : config.pattern = o.key.2 := congrArg Prod.snd key
  have ws := ws_registers s h o.key.2
  rw [if_pos rfl] at ws
  cases o with
  | addRoute method customToken pat timeoutMs handler middleware streamBody maxBodyBytes =>
      refine ⟨.handler handler, rfl, ?_, ?_, ?_, fun get => ?_⟩
      · simp only [Op.registers, Option.ite_none_right_eq_some, Option.some.injEq] at h
        rw [← h.2]
        rfl
      · simp only [Op.registers, Option.ite_none_right_eq_some, Option.some.injEq] at h
        rw [← h.2]
        rfl
      · rw [key, record]
        exact ⟨_, rfl, rfl⟩
      · rw [key] at get
        have dropped : (Op.addRoute method customToken pat timeoutMs handler middleware streamBody
            maxBodyBytes).wsChange = some none := if_pos get
        rw [pattern, ws, dropped]
        rfl
  | addStaticRoute method customToken pat response =>
      refine ⟨.static response, rfl, ?_, ?_, fun get => ?_⟩
      · simp only [Op.registers, Option.ite_none_right_eq_some, Option.some.injEq] at h
        rw [← h.2]
        rfl
      · rw [key, record]
        rfl
      · rw [key] at get
        have isGet : method = .get := by
          have parsed := parse_tokenOf careful.1
          rw [show tokenOf method customToken = ascii "GET" from get] at parsed
          exact (congrArg Prod.fst parsed).symm
        have dropped : (Op.addStaticRoute (U := U) method customToken pat response).wsChange =
            some none := if_pos isGet
        rw [pattern, ws, dropped]
        rfl
  | addWsRoute pat handler protocols middleware =>
      refine ⟨.ws handler, rfl, ?_, ?_, ?_, ?_, ?_⟩
      · simp only [Op.registers, Option.ite_none_right_eq_some, Option.some.injEq] at h
        rw [← h.2]
        rfl
      · simp only [Op.registers, Option.ite_none_right_eq_some, Option.some.injEq] at h
        rw [← h.2]
        rfl
      · rw [key]
        rfl
      · rw [key, record]
        rfl
      · rw [pattern, ws]
        exact ⟨_, rfl, rfl⟩
  | removeRoute | use | setNotFound | setError => cases h

theorem writeTarget_registers {o : Op U} {config : RouteEntry} (h : o.registers = some config)
    (x : Slot × Bytes) : o.writeTarget x = if x = place config then o.target else none := by
  rw [Op.writeTarget, h]

/-- A careful registration keeps WebSocket routes and all-methods handlers apart. -/
theorem apart_registers {s : Tables U} {o : Op U} {config : RouteEntry}
    (hc : o.registers = some config) {listed : List (Bytes × Bytes)}
    (careful : Careful listed s o)
    (apart : ∀ p, s.wsHandlers.lookup p ≠ none → s.record (ascii "*", p) = none) (p : Bytes)
    (hp : (s.perform o).wsHandlers.lookup p ≠ none) :
    (s.perform o).record (ascii "*", p) = none := by
  rw [ws_registers s hc] at hp
  rw [record_registers s hc]
  cases o with
  | addRoute method customToken pattern timeoutMs handler middleware streamBody maxBodyBytes =>
      have kept : s.wsHandlers.lookup p ≠ none := by
        split at hp
        · rename_i same
          simp only [Op.wsChange] at hp
          split at hp
          · exact absurd rfl hp
          · exact hp
        · exact hp
      split
      · rename_i same
        simp only [Op.key, Prod.mk.injEq] at same
        have parsed := parse_tokenOf careful.1
        rw [← same.1] at parsed
        have isAll : method = .all := (congrArg Prod.fst parsed).symm
        rw [same.2] at kept
        exact absurd (careful.2.2 isAll) kept
      · exact apart p kept
  | addStaticRoute method customToken pattern response =>
      have kept : s.wsHandlers.lookup p ≠ none := by
        split at hp
        · simp only [Op.wsChange] at hp
          split at hp
          · exact absurd rfl hp
          · exact hp
        · exact hp
      split
      · rfl
      · exact apart p kept
  | addWsRoute pattern handler protocols middleware =>
      split
      · rfl
      · by_cases same : p = pattern
        · rw [same, Tables.record, careful.2]
          rfl
        · rw [show (Op.addWsRoute pattern handler protocols middleware).key.2 = pattern from rfl,
            if_neg same] at hp
          exact apart p hp
  | removeRoute | use | setNotFound | setError => cases hc

/-- A careful registration keeps the tables aligned. -/
theorem Aligned.registers {s : Tables U} {history : List (Op U)} (h : Aligned s history)
    {o : Op U} {config : RouteEntry} (hc : o.registers = some config)
    {listed : List (Bytes × Bytes)} (sub : ∀ k ∈ s.registered, k ∈ listed)
    (careful : Careful listed s o) : Aligned (s.perform o) (history ++ [o]) := by
  obtain ⟨here, key, ok, spelledAll⟩ := place_registers hc careful
  have spelled : Spelled s.registered o.key.1 o.key.2 := fun p hp => spelledAll p (sub _ hp)
  have entry := entry_registers s hc
  have record := record_registers s hc
  have ws := ws_registers s hc
  have registered := registered_registers s hc
  -- a listed key at the new entry's place is the new key
  have unique : ∀ k ∈ s.registered, unregisterPlace k.1 k.2 = place config → k = o.key := by
    intro k hk same
    rw [here] at same
    exact h.key_unique ok spelled hk same
  have wsOther : ∀ p, (ascii "GET", p) ≠ o.key →
      (s.perform o).wsHandlers.lookup p = s.wsHandlers.lookup p := by
    intro p hne
    rw [ws]
    split
    · rename_i hp
      cases hw : o.wsChange with
      | none => rfl
      | some change =>
          have get := wsChange_get careful (by rw [hw]; simp)
          exact absurd (Prod.ext get.symm hp) hne
    · rfl
  refine ⟨fun k hk => ?_, fun a p q hp hq slot => ?_, fun k hk => ?_, fun x e he => ?_,
    fun k hk => ?_, fun p hp => ?_, fun p hp => ?_⟩
  · rcases (registered k).mp hk with rfl | mem
    · exact ok
    · exact h.token k mem
  · rcases (registered _).mp hp with hp | hp <;> rcases (registered _).mp hq with hq | hq
    · exact congrArg Prod.snd (hp.trans hq.symm)
    · obtain ⟨rfl, rfl⟩ := Prod.ext_iff.mp hp
      exact (spelled q hq slot.symm).symm
    · obtain ⟨rfl, rfl⟩ := Prod.ext_iff.mp hq
      exact spelled p hp slot
    · exact h.spelled a p q hp hq slot
  · by_cases hk' : k = o.key
    · refine ⟨config, ?_, by rw [key, hk']⟩
      rw [entry, hk', ← here, if_pos rfl]
    · have mem := ((registered k).mp hk).resolve_left hk'
      obtain ⟨e, he, ke⟩ := h.listed k mem
      refine ⟨e, ?_, ke⟩
      rw [entry, if_neg fun same => hk' (unique k mem same)]
      exact he
  · rw [entry] at he
    by_cases hx : x = place config
    · rw [if_pos hx] at he
      cases he
      obtain ⟨target, ht, hr⟩ := recorded_registers (s := s) hc careful
      refine ⟨(registered _).mpr (.inl key), by rw [key, hx, here], hx.symm, target, ?_, hr⟩
      rw [latest_append, writeTarget_registers hc, if_pos hx, ht]
      rfl
    · rw [if_neg hx] at he
      obtain ⟨mem, keyed, at_x, target, hl, hr⟩ := h.entries x e he
      have other : entryKey e ≠ o.key := by
        intro same
        rw [same, ← here] at keyed
        exact hx keyed.symm
      refine ⟨(registered _).mpr (.inr mem), keyed, at_x, target, ?_, hr.congr ?_ fun get => ?_⟩
      · rw [latest_append, writeTarget_registers hc, if_neg hx]
        exact hl
      · rw [record, if_neg other]
      · refine wsOther _ fun same => other ?_
        rw [← same, ← get]
        rfl
  · rw [record] at hk
    by_cases hk' : k = o.key
    · exact (registered k).mpr (.inl hk')
    · rw [if_neg hk'] at hk
      exact (registered k).mpr (.inr (h.records k hk))
  · by_cases hk' : (ascii "GET", p) = o.key
    · exact (registered _).mpr (.inl hk')
    · rw [wsOther p hk'] at hp
      exact (registered _).mpr (.inr (h.ws p hp))
  · exact apart_registers hc careful h.apart p hp

/-! ### Operations and reloads -/

/-- A careful operation keeps the tables aligned. -/
theorem Aligned.perform {s : Tables U} {history : List (Op U)} (h : Aligned s history) (o : Op U)
    {listed : List (Bytes × Bytes)} (sub : ∀ k ∈ s.registered, k ∈ listed)
    (careful : Careful listed s o) : Aligned (s.perform o) (history ++ [o]) := by
  cases hc : o.registers with
  | some config => exact h.registers hc sub careful
  | none =>
      have last : ∀ x, latest (history ++ [o]) x = latest history x := by
        intro x
        rw [latest_append, Op.writeTarget, hc]
        rfl
      by_cases hr : o.isRemoval = true
      · cases o with
        | removeRoute method customToken pattern =>
            obtain ⟨ok, spelledAll⟩ := careful
            obtain ⟨-, same⟩ | ⟨entry, record, ws, registered, -⟩ :=
              perform_remove s method customToken pattern
            · rw [same]
              exact h.congr (fun _ => rfl) (fun _ => rfl) (fun _ => rfl) (fun _ => Iff.rfl) last
            · have isGet : tokenOf method customToken = ascii "GET" ↔ method = .get := by
                constructor
                · intro get
                  have parsed := parse_tokenOf ok
                  rw [get] at parsed
                  exact (congrArg Prod.fst parsed).symm
                · rintro rfl
                  rfl
              have cleared : Aligned (s.perform (.removeRoute method customToken pattern)) history :=
                h.clear ⟨method, customToken, ok, rfl⟩ (fun p hp => spelledAll p (sub _ hp)) entry
                  record (fun p => by rw [ws]; simp only [isGet]) registered
              exact cleared.congr (fun _ => rfl) (fun _ => rfl) (fun _ => rfl) (fun _ => Iff.rfl) last
        | addRoute | addStaticRoute | addWsRoute | use | setNotFound | setError => cases hr
      · obtain ⟨engine, record, ws, registered, -⟩ :=
          perform_quiet s (Bool.not_eq_true _ ▸ hr) hc
        exact h.congr (fun x => by rw [Tables.entry, engine]; rfl) record (fun p => by rw [ws])
          (fun k => by rw [registered]) last

/-- Spellings that agree with a list of old ones. -/
def SpelledLike (old now : List (Bytes × Bytes)) : Prop := ∀ k ∈ old, Spelled now k.1 k.2

/-- What holds while the setup of a reload runs: the tables are aligned, every spelling
agrees with the old ones, and every listed key is an old one or a touched one. -/
structure Reloading (old : List (Bytes × Bytes)) (s : Tables U) (history : List (Op U)) : Prop where
  aligned : Aligned s history
  spelled : SpelledLike old s.registered
  touched : ∃ touched, s.reloadTouched = some touched ∧
    ∀ k ∈ s.registered, k ∈ old ∨ routeKey k.1 k.2 ∈ touched

theorem Reloading.perform {old : List (Bytes × Bytes)} {s : Tables U} {history : List (Op U)}
    (h : Reloading old s history) (o : Op U) (careful : Careful (old ++ s.registered) s o) :
    Reloading old (s.perform o) (history ++ [o]) := by
  obtain ⟨touched, ht, listed⟩ := h.touched
  have aligned := h.aligned.perform o (fun k hk => List.mem_append_right _ hk) careful
  cases hc : o.registers with
  | some config =>
      obtain ⟨-, -, -, spelledAll⟩ := place_registers hc careful
      obtain ⟨touched', ht', mem⟩ := touched_registers s hc ht
      refine ⟨aligned, fun k hk p hp slot => ?_, touched', ht', fun k hk => ?_⟩
      · rcases (registered_registers s hc _).mp hp with same | hp
        · obtain ⟨t, q⟩ := k
          have tokens : t = o.key.1 := congrArg Prod.fst same
          have patterns : p = o.key.2 := congrArg Prod.snd same
          rw [patterns] at slot ⊢
          exact (spelledAll q (List.mem_append_left _ (tokens ▸ hk)) slot.symm).symm
        · exact h.spelled k hk p hp slot
      · rcases (registered_registers s hc _).mp hk with rfl | hk
        · exact .inr ((mem _).mpr (.inl rfl))
        · exact (listed k hk).imp id fun hm => (mem _).mpr (.inr hm)
  | none =>
      have shrinks : (∀ k ∈ (s.perform o).registered, k ∈ s.registered) ∧
          (s.perform o).reloadTouched = s.reloadTouched := by
        by_cases hr : o.isRemoval = true
        · cases o with
          | removeRoute method customToken pattern =>
              obtain ⟨-, same⟩ | ⟨-, -, -, registered, same⟩ :=
                perform_remove s method customToken pattern
              · rw [same]
                exact ⟨fun _ hk => hk, rfl⟩
              · exact ⟨fun k hk => ((registered k).mp hk).1, same⟩
          | addRoute | addStaticRoute | addWsRoute | use | setNotFound | setError => cases hr
        · obtain ⟨-, -, -, registered, same⟩ := perform_quiet s (Bool.not_eq_true _ ▸ hr) hc
          exact ⟨fun k hk => registered ▸ hk, same⟩
      exact ⟨aligned, fun k hk p hp => h.spelled k hk p (shrinks.1 _ hp), touched,
        shrinks.2.trans ht, fun k hk => listed k (shrinks.1 k hk)⟩

theorem Reloading.performAll {old : List (Bytes × Bytes)} {s : Tables U} {history : List (Op U)}
    (h : Reloading old s history) {ops : List (Op U)} (careful : CarefulAll old s ops) :
    Reloading old (s.performAll ops) (history ++ ops) := by
  induction ops generalizing s history with
  | nil => simpa [Tables.performAll] using h
  | cons o ops ih =>
      have step := ih (h.perform o careful.1) careful.2
      rw [List.append_assoc, List.singleton_append] at step
      exact step

/-- Unregistering keys that are spelled like every listed one keeps the tables aligned. -/
theorem aligned_unregisterAll (keys : List (Bytes × Bytes)) {s : Tables U}
    {history : List (Op U)} (h : Aligned s history) (token : ∀ k ∈ keys, OkToken k.1)
    (spelled : SpelledLike keys s.registered) :
    Aligned ((keys.map fun k => routeKey k.1 k.2).foldl Tables.unregisterKey s) history := by
  induction keys generalizing s with
  | nil => exact h
  | cons k keys ih =>
      have ok := token k (List.mem_cons_self ..)
      have read : unkey (routeKey k.1 k.2) = (k.1, k.2) := unkey_routeKey ok.space_not_mem k.2
      have cleared : Aligned (s.unregisterKey (routeKey k.1 k.2)) history := by
        refine h.clear ok (spelled k (List.mem_cons_self ..)) (fun x => ?_) (fun k' => ?_)
          (fun p => ?_) (fun k' => ?_)
        · rw [entry_unregisterKey, read]
        · rw [Tables.record, routes_unregisterKey, read]
          split <;> rfl
        · rw [ws_unregisterKey, read]
          refine if_congr ?_ rfl rfl
          rw [Prod.mk.injEq, eq_comm (a := ascii "GET")]
        · rw [registered_unregisterKey, read]
      refine ih cleared (fun k' hk' => token k' (List.mem_cons_of_mem _ hk')) ?_
      intro k' hk' p hp
      exact spelled k' (List.mem_cons_of_mem _ hk') p ((registered_unregisterKey s _ _).mp hp).1

/-- A successful reload whose setup is careful keeps the tables aligned. -/
theorem aligned_reload {s : Tables U} {history : List (Op U)} (h : Aligned s history)
    {ops : List (Op U)} (careful : CarefulAll s.registered s.beginReload ops) :
    Aligned (s.reload ops) (history ++ ops) := by
  have start : Reloading s.registered s.beginReload history :=
    ⟨h.congr (fun _ => rfl) (fun _ => rfl) (fun _ => rfl) (fun _ => Iff.rfl) (fun _ => rfl),
      fun k hk p hp => h.spelled k.1 p k.2 hp hk, [], rfl, fun k hk => .inl hk⟩
  have done := start.performAll careful
  obtain ⟨touched, ht, -⟩ := done.touched
  have untouched : s.registeredKeys.filter (· ∉ touched) =
      (s.registered.filter fun k => routeKey k.1 k.2 ∉ touched).map fun k => routeKey k.1 k.2 := by
    rw [Tables.registeredKeys, List.filter_map]
    rfl
  have dropped := aligned_unregisterAll
    (s.registered.filter fun k => routeKey k.1 k.2 ∉ touched)
    (s := { s.beginReload.performAll ops with reloadTouched := none })
    (done.aligned.congr (fun _ => rfl) (fun _ => rfl) (fun _ => rfl) (fun _ => Iff.rfl)
      (fun _ => rfl))
    (fun k hk => h.token k (List.mem_of_mem_filter hk))
    (fun k hk => done.spelled k (List.mem_of_mem_filter hk))
  rw [Tables.reload, ht, Option.getD_some, untouched]
  exact dropped.congr (fun _ => rfl) (fun k => record_recompose _ k) (fun _ => rfl)
    (fun _ => Iff.rfl) (fun _ => rfl)

/-! ### Dispatch -/

/-- `match` returns the entry picked at some slot. -/
theorem picked_of_match {r : Routing.Router} {method : Method} {custom path : Bytes}
    {e : RouteEntry} (h : (r.match method custom path).route = some e) :
    ∃ p, r.root.picks method custom p = some e := by
  rw [match_eq_argmax] at h
  cases hc : (r.root.candidates method custom path).argmax Candidate.rank with
  | none =>
      rw [hc] at h
      cases h
  | some c =>
      rw [hc] at h
      obtain ⟨hp, -⟩ := mem_candidates.mp (List.argmax_mem hc)
      exact ⟨c.slot, by rw [hp]; exact congrArg _ (Option.some.inj h)⟩

theorem record_none_iff {s : Tables U} {k : Bytes × Bytes} :
    s.record k = none ↔ s.routes.lookup k = none := by
  rw [Tables.record, Option.map_eq_none_iff]

/-- A standard method with no engine entry at a slot has no record there either. -/
theorem Aligned.no_record {s : Tables U} {history : List (Op U)} (h : Aligned s history)
    {method : Method} (custom : Bytes) (named : method ≠ .custom) {pattern : Bytes}
    (absent : s.entry (slotOf pattern, methodKey method custom) = none) :
    s.routes.lookup (tokenOf method custom, pattern) = none := by
  rw [← record_none_iff]
  by_contra hr
  obtain ⟨e, he, -⟩ := h.listed _ (h.records _ hr)
  have parsed : parseUnregisterMethod (tokenOf method custom) = (method, rawCustom method custom) :=
    parse_tokenOf fun hm => absurd hm named
  rw [unregisterPlace, parsed, rawCustom, if_neg named, ← methodKey_named named custom, absent] at he
  cases he

/-- The token of an entry found under a method's key. -/
theorem Aligned.token_of_entry {s : Tables U} {history : List (Op U)} (h : Aligned s history)
    {p : Slot} {method : Method} {custom : Bytes} {e : RouteEntry}
    (he : s.entry (p, methodKey method custom) = some e) :
    (entryKey e).1 = tokenOf method custom ∧ slotOf e.pattern = p := by
  obtain ⟨mem, here, -, -⟩ := h.entries _ e he
  obtain ⟨m, c, ok, token⟩ := h.token _ mem
  rw [unregisterPlace, token, parse_tokenOf ok, Prod.mk.injEq, methodKey_eq_iff] at here
  obtain ⟨slot, rfl, same⟩ := here
  refine ⟨?_, slot⟩
  rw [token, tokenOf, tokenOf]
  by_cases hm : m = .custom
  · have := same hm
    rw [if_pos hm, if_pos hm]
    simpa [rawCustom, hm] using this
  · rw [if_neg hm, if_neg hm]

/-- The three lookups of `_entryFor`, then `_wsHandlers`: an entry with its records is
found when the lookups before its own find nothing. -/
theorem Aligned.resolve_entry {s : Tables U} {history : List (Op U)} (h : Aligned s history)
    {x : Slot × Bytes} {e : RouteEntry} (he : s.entry x = some e) (live : e.staticResponse = none)
    (method : Method) (custom : Bytes)
    (turn : (entryKey e).1 = tokenOf method custom ∨
      (s.routes.lookup (tokenOf method custom, e.pattern) = none ∧
        ((entryKey e).1 = ascii "GET" ∧ method = .head ∨
          (entryKey e).1 = ascii "*" ∧
            (method = .head → s.routes.lookup (ascii "GET", e.pattern) = none)))) :
    s.resolve method custom e.pattern = latest history (place e) := by
  obtain ⟨-, -, at_x, target, hl, hr⟩ := h.entries x e he
  rw [at_x, hl]
  cases target with
  | static response =>
      rw [hr.1] at live
      cases live
  | handler f =>
      obtain ⟨-, -, ⟨r, record, rfl⟩, -⟩ := hr
      obtain ⟨entry, found, rfl⟩ := Option.map_eq_some_iff.mp record
      have lookup : s.entryFor method custom e.pattern = some entry := by
        have key : entryKey e = ((entryKey e).1, e.pattern) := rfl
        rw [key] at found
        rcases turn with own | ⟨no_own, ⟨get, head⟩ | ⟨all, no_get⟩⟩
        · rw [own] at found
          rw [Tables.entryFor, found]
        · rw [get] at found
          rw [Tables.entryFor, no_own, if_pos head, found]
        · rw [all] at found
          rw [Tables.entryFor, no_own]
          by_cases head : method = .head
          · rw [if_pos head, no_get head]
            exact found
          · rw [if_neg head]
            exact found
      rw [Tables.resolve, lookup]
      rfl
  | ws f =>
      obtain ⟨-, -, get, record, w, hw, rfl⟩ := hr
      have no_all := record_none_iff.mp (h.apart e.pattern (by rw [hw]; simp))
      have no_get : s.routes.lookup (ascii "GET", e.pattern) = none := by
        have key : entryKey e = (ascii "GET", e.pattern) := Prod.ext get rfl
        rw [key] at record
        exact record_none_iff.mp record
      have no_own : s.routes.lookup (tokenOf method custom, e.pattern) = none := by
        rcases turn with own | ⟨none_own, -⟩
        · rw [← own, get]
          exact no_get
        · exact none_own
      have lookup : s.entryFor method custom e.pattern = none := by
        rw [Tables.entryFor, no_own]
        by_cases head : method = .head
        · rw [if_pos head, no_get]
          exact no_all
        · rw [if_neg head]
          exact no_all
      rw [Tables.resolve, lookup, hw]
      rfl

/-- Every request the engine dispatches finds the handler of the latest registration. -/
theorem Aligned.found {s : Tables U} {history : List (Op U)} (h : Aligned s history)
    {method : Method} {custom path : Bytes} {e : RouteEntry}
    (hm : (s.engine.match method custom path).route = some e) (live : e.staticResponse = none) :
    s.resolve method custom e.pattern = latest history (place e) := by
  obtain ⟨p, hp⟩ := picked_of_match hm
  rw [picks_eq] at hp
  cases own : s.entry (p, methodKey method custom) with
  | some a =>
      rw [show s.engine.root.entryOf p (methodKey method custom) = some a from own,
        Option.some_or, Option.some.injEq] at hp
      subst hp
      exact h.resolve_entry own live method custom (.inl (h.token_of_entry own).1)
  | none =>
      rw [show s.engine.root.entryOf p (methodKey method custom) = none from own,
        Option.none_or] at hp
      cases get : (if method = .head then s.entry (p, methodKey .get []) else none) with
      | some b =>
          rw [show (if method = .head then s.engine.root.entryOf p (methodKey .get []) else none) =
            some b from get, Option.some_or, Option.some.injEq] at hp
          subst hp
          by_cases head : method = .head
          · rw [if_pos head] at get
            obtain ⟨token, slot⟩ := h.token_of_entry get
            refine h.resolve_entry get live method custom (.inr ⟨?_, .inl ⟨token, head⟩⟩)
            exact h.no_record custom (by rw [head]; decide) (by rw [slot]; exact own)
          · rw [if_neg head] at get
            cases get
      | none =>
          rw [show (if method = .head then s.engine.root.entryOf p (methodKey .get []) else none) =
            none from get, Option.none_or] at hp
          by_cases allowed : method ≠ .all ∧ method ≠ .custom
          · rw [if_pos allowed] at hp
            have all : s.entry (p, methodKey .all []) = some e := hp
            obtain ⟨token, slot⟩ := h.token_of_entry all
            refine h.resolve_entry all live method custom (.inr ⟨?_, .inr ⟨token, fun head => ?_⟩⟩)
            · exact h.no_record custom allowed.2 (by rw [slot]; exact own)
            · rw [if_pos head] at get
              exact h.no_record [] (by decide : Method.get ≠ .custom) (by rw [slot]; exact get)
          · rw [if_neg allowed] at hp
            cases hp

theorem Aligned.targetOf {s : Tables U} {history : List (Op U)} (h : Aligned s history)
    {x : Slot × Bytes} {e : RouteEntry} (he : s.entry x = some e) :
    (latest history x).isSome ∧ s.targetOf e = latest history x := by
  obtain ⟨-, -, -, target, hl, hr⟩ := h.entries x e he
  refine ⟨by rw [hl]; rfl, ?_⟩
  rw [hl]
  cases target with
  | static response => simp only [Tables.targetOf, hr.1]
  | handler f =>
      obtain ⟨live, plain, ⟨r, record, rfl⟩, -⟩ := hr
      obtain ⟨entry, found, rfl⟩ := Option.map_eq_some_iff.mp record
      simp only [Tables.targetOf, live, plain, Bool.false_eq_true, if_false]
      rw [show s.routes.lookup (tokenOf e.method e.customMethod, e.pattern) = some entry from found]
      rfl
  | ws f =>
      obtain ⟨live, isWs, -, -, w, hw, rfl⟩ := hr
      simp only [Tables.targetOf, live, isWs, if_true, hw, Option.map_some]

theorem Aligned.inStep {s : Tables U} {history : List (Op U)} (h : Aligned s history) :
    InStep s history where
  listed := fun x => by
    constructor
    · intro hx
      obtain ⟨e, he⟩ := Option.isSome_iff_exists.mp hx
      obtain ⟨mem, here, -⟩ := h.entries x e he
      exact ⟨entryKey e, mem, here⟩
    · rintro ⟨k, hk, rfl⟩
      obtain ⟨e, he, -⟩ := h.listed k hk
      rw [he]
      rfl
  kind := fun x e he => h.targetOf he
  found := fun method custom path e hm live => h.found hm live

/-! ### Histories -/

theorem Aligned.call {s : Tables U} {history : List (Op U)} (h : Aligned s history) {c : Call U}
    (careful : CarefulCall s c) : Aligned (s.call c) (history ++ c.ops) := by
  cases c with
  | op o => exact h.perform o (fun _ hk => hk) careful
  | reload ops => exact aligned_reload h careful
  | reloadFailed ops => exact careful.elim

theorem Aligned.calls {s : Tables U} {history : List (Op U)} (h : Aligned s history)
    {calls : List (Call U)} (orderly : Orderly s calls) :
    Aligned (calls.foldl Tables.call s) (history ++ calls.flatMap Call.ops) := by
  induction calls generalizing s history with
  | nil => simpa using h
  | cons c calls ih =>
      have step := ih (h.call orderly.1) orderly.2
      rw [List.append_assoc] at step
      exact step

theorem Orderly.left {s : Tables U} {before after : List (Call U)}
    (h : Orderly s (before ++ after)) : Orderly s before := by
  induction before generalizing s with
  | nil => trivial
  | cons c before ih => exact ⟨h.1, ih h.2⟩

/-- After every call of an orderly history the engine and the runner are in step. -/
theorem tables_in_step (calls : List (Call U)) (orderly : Orderly {} calls)
    (before : List (Call U)) (made : before <+: calls) :
    InStep (tables before) (before.flatMap Call.ops) := by
  obtain ⟨after, rfl⟩ := made
  have aligned := aligned_empty.calls orderly.left
  exact aligned.inStep

/-- Registering `/u/:id` and reloading with another handler for it. -/
def sameSpelling : List (Call sampleCode) :=
  [.op (sampleGet "/u/:id" 1), .reload [sampleGet "/u/:id" 2]]

theorem tables_in_step_reload :
    Orderly {} sameSpelling ∧
      InStep (tables sameSpelling) (sameSpelling.flatMap Call.ops) := by
  have once : ∀ p, (ascii "GET", p) ∈
      [(ascii "GET", ascii "/u/:id"), (ascii "GET", ascii "/u/:id")] → p = ascii "/u/:id" := by
    intro p hp
    simpa using hp
  have orderly : Orderly {} sameSpelling := by
    refine ⟨⟨fun h => by (cases h), fun p hp => by (cases hp), fun h => by (cases h)⟩,
      ⟨⟨fun h => by (cases h), fun p hp _ => once p hp, fun h => by (cases h)⟩, trivial⟩, trivial⟩
  exact ⟨orderly, tables_in_step sameSpelling orderly sameSpelling (List.prefix_refl _)⟩

/-- A reload whose setup spells the same slot `/u/:name`. -/
def respelled : List (Call sampleCode) :=
  [.op (sampleGet "/u/:id" 1), .reload [sampleGet "/u/:name" 2]]

/-- The reload unregisters the old key, which removes the entry it has just put in that
slot; the runner still lists `/u/:name`. -/
theorem respelled_reload_drops_route :
    ¬ InStep (tables respelled) (respelled.flatMap Call.ops) := by
  intro h
  have listed : (ascii "GET", ascii "/u/:name") ∈ (tables respelled).registered := by decide +kernel
  have gone : ((tables respelled).entry (unregisterPlace (ascii "GET") (ascii "/u/:name"))).isSome =
      false := by decide +kernel
  have held := (h.listed _).mpr ⟨_, listed, rfl⟩
  rw [gone] at held
  cases held

end NitroServer.Runner
