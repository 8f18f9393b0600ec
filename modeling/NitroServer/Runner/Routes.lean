/-
The route table of the Dart runner (`server_runner.dart`: `addRoute`, `use`, `removeRoute`,
`addStaticRoute`, `addWsRoute`, `reload`), over the engine's router.

Handlers, WebSocket handlers, middleware and the two fallbacks are user code; `UserCode`
names their types and how a middleware wraps a handler. Dart strings are byte strings.
The two-level maps `_routes` and `_registered` (method token, then pattern) are keyed by
the pair. A call that throws leaves the tables as they are and is `none`.

Only `UserCode` is a parameter: the engine side is `Routing.Router`, reached through
`registerRoute`, `registerStaticRoute` and `unregisterRoute` as the bridge calls them.
-/

import NitroServer.Router.Registry

namespace NitroServer.Runner

open NitroServer.Engine NitroServer.Lib NitroServer.Routing

/-- The user's code, as the runner sees it. -/
structure UserCode where
  Handler : Type
  WsHandler : Type
  Middleware : Type
  NotFound : Type
  ErrorHandler : Type
  /-- The handler `(request) => middleware(request, next)`. -/
  around : Middleware → Handler → Handler

/-! ### Tokens and keys -/

/-- `_tokenOf`: the custom token for custom methods, the enum's token otherwise. -/
def tokenOf (method : Method) (customToken : Bytes) : Bytes :=
  if method = .custom then customToken else methodToken method

/-- The custom token `rawMethodOf` sends along: empty unless the method is custom. -/
def rawCustom (method : Method) (customToken : Bytes) : Bytes :=
  if method = .custom then customToken else []

/-- `parseUnregisterMethod`. -/
def parseUnregisterMethod (token : Bytes) : Method × Bytes :=
  if token = ascii "*" then (.all, []) else parseMethod token

def space : UInt8 := 32

/-- `_key`. -/
def routeKey (token pattern : Bytes) : Bytes := token ++ space :: pattern

/-- The token and pattern `_unregisterKey` reads back from a key: cut at the first space. -/
def unkey (key : Bytes) : Bytes × Bytes :=
  (key.takeWhile (· ≠ space), (key.dropWhile (· ≠ space)).drop 1)

/-- The comma-separated list `registerRoute` receives, cut and trimmed; `cur` is the
piece read so far. -/
def splitProtocols : Bytes → Bytes → List Bytes
  | cur, [] => trimmed cur
  | cur, b :: rest => if b = 44 then trimmed cur ++ splitProtocols [] rest
      else splitProtocols (cur ++ [b]) rest
where
  /-- One piece without its outer blanks, if anything is left. -/
  trimmed (s : Bytes) : List Bytes :=
    let t := ((s.dropWhile (· = space)).reverse.dropWhile (· = space)).reverse
    if t = [] then [] else [t]

/-- `protocols.join(',')`. -/
def joinProtocols (protocols : List Bytes) : Bytes := [(44 : UInt8)].intercalate protocols

/-! ### The tables -/

section Tables

variable (U : UserCode)

/-- `_RouteEntry`. -/
structure Entry where
  handler : U.Handler
  routeComposer : U.Handler → U.Handler
  piped : U.Handler
  streamBody : Bool

/-- A record of `_wsHandlers`. -/
structure WsEntry where
  handler : U.WsHandler
  protocols : List Bytes
  gate : U.Handler → U.Handler

/-- The routing state: the engine's router and the runner's tables. -/
structure Tables where
  engine : Routing.Router := {}
  routes : List ((Bytes × Bytes) × Entry U) := []
  wsHandlers : List (Bytes × WsEntry U) := []
  registered : List (Bytes × Bytes) := []
  middlewares : List U.Middleware := []
  compose : U.Handler → U.Handler := id
  /-- `none` is the default fallback. -/
  notFoundHandler : Option U.NotFound := none
  errorHandler : Option U.ErrorHandler := none
  /-- Keys registered while a reload runs. -/
  reloadTouched : Option (List Bytes) := none

end Tables

variable {U : UserCode}

/-- `_composeAll`: the first middleware is the outermost. -/
def composeAll (middlewares : List U.Middleware) : U.Handler → U.Handler :=
  middlewares.foldr (fun m next handler => U.around m (next handler)) id

/-- The entry with its handler wrapped by the chain `compose`. -/
def Entry.repipe (compose : U.Handler → U.Handler) (e : Entry U) : Entry U :=
  { e with piped := compose (e.routeComposer e.handler) }

namespace Tables

variable (s : Tables U)

/-- `registerRoute` on the bridge. -/
def registerRoute (route : RouteEntry) : Option (Tables U) :=
  (s.engine.add route).map fun engine => { s with engine := engine }

/-- `unregisterRoute` on the bridge; the boolean is false when there was no such route. -/
def unregisterRoute (token pattern : Bytes) : Tables U × Bool :=
  let m := parseUnregisterMethod token
  match s.engine.remove m.1 m.2 pattern with
  | none => (s, false)
  | some engine => ({ s with engine := engine }, true)

/-- Add to `_registered` and, inside a reload, to the touched keys. -/
def note (token pattern : Bytes) : Tables U :=
  { s with
    registered := if (token, pattern) ∈ s.registered then s.registered
      else s.registered ++ [(token, pattern)]
    reloadTouched := s.reloadTouched.map fun touched =>
      if routeKey token pattern ∈ touched then touched else touched ++ [routeKey token pattern] }

def dropRoute (token pattern : Bytes) : Tables U :=
  { s with routes := Assoc.erase (token, pattern) s.routes }

def dropWs (pattern : Bytes) : Tables U :=
  { s with wsHandlers := Assoc.erase pattern s.wsHandlers }

/-- The entry `addRoute` sends to the engine. -/
def handlerConfig (method : Method) (customToken pattern : Bytes) (timeoutMs : Option Int)
    (streamBody : Bool) (maxBodyBytes : Option Int) : RouteEntry :=
  { method := method, customMethod := rawCustom method customToken, pattern := pattern
    timeoutMs := timeoutMs.getD (-1), streamBody := streamBody
    maxBodyBytes := maxBodyBytes.getD (-1) }

/-- The entry `addStaticRoute` sends to the engine. -/
def staticConfig (method : Method) (customToken pattern : Bytes) (response : StaticResponse) :
    RouteEntry :=
  let m := parseUnregisterMethod (tokenOf method customToken)
  { method := m.1, customMethod := m.2, pattern := pattern, staticResponse := some response }

/-- The entry `addWsRoute` sends to the engine. -/
def wsConfig (pattern : Bytes) (protocols : List Bytes) : RouteEntry :=
  { pattern := pattern, isWebSocket := true
    wsProtocols := splitProtocols [] (joinProtocols protocols) }

/-- `addRoute`. -/
def addRoute (method : Method) (customToken pattern : Bytes) (timeoutMs : Option Int)
    (handler : U.Handler) (middleware : List U.Middleware) (streamBody : Bool)
    (maxBodyBytes : Option Int) : Option (Tables U) :=
  (s.registerRoute (handlerConfig method customToken pattern timeoutMs streamBody
    maxBodyBytes)).map fun s =>
      let routeComposer := composeAll middleware
      let entry : Entry U := ⟨handler, routeComposer, s.compose (routeComposer handler), streamBody⟩
      let token := tokenOf method customToken
      let s := { s with routes := Assoc.set (token, pattern) entry s.routes }
      let s := s.note token pattern
      if token = ascii "GET" then s.dropWs pattern else s

/-- `_recompose`. -/
def recompose : Tables U :=
  let compose := composeAll s.middlewares
  { s with
    compose := compose
    routes := s.routes.map fun e => (e.1, e.2.repipe compose) }

/-- `use`. -/
def use (middleware : U.Middleware) : Tables U :=
  recompose { s with middlewares := s.middlewares ++ [middleware] }

/-- `removeRoute`. -/
def removeRoute (method : Method) (customToken pattern : Bytes) : Option (Tables U) :=
  let token := tokenOf method customToken
  match s.unregisterRoute token pattern with
  | (_, false) => none
  | (s, true) =>
      let s := s.dropRoute token pattern
      let s := { s with registered := s.registered.filter (· ≠ (token, pattern)) }
      some (if method = .get then s.dropWs pattern else s)

/-- `addStaticRoute`. -/
def addStaticRoute (method : Method) (customToken pattern : Bytes) (response : StaticResponse) :
    Option (Tables U) :=
  let token := tokenOf method customToken
  (s.registerRoute (staticConfig method customToken pattern response)).map fun s =>
    let s := (s.dropRoute token pattern).note token pattern
    if method = .get then s.dropWs pattern else s

/-- `addWsRoute`. -/
def addWsRoute (pattern : Bytes) (handler : U.WsHandler) (protocols : List Bytes)
    (middleware : List U.Middleware) : Option (Tables U) :=
  (s.registerRoute (wsConfig pattern protocols)).map fun s =>
    let s := (s.dropRoute (ascii "GET") pattern).note (ascii "GET") pattern
    { s with wsHandlers := Assoc.set pattern ⟨handler, protocols, composeAll middleware⟩ s.wsHandlers }

/-- `_unregisterKey`. -/
def unregisterKey (key : Bytes) : Tables U :=
  let (token, pattern) := unkey key
  let s := (s.unregisterRoute token pattern).1
  let s := s.dropRoute token pattern
  let s := { s with registered := s.registered.filter (· ≠ (token, pattern)) }
  if token = ascii "GET" then s.dropWs pattern else s

end Tables

/-! ### Calls -/

/-- What a setup, or any other code, does to the tables. -/
inductive Op (U : UserCode) where
  | addRoute (method : Method) (customToken pattern : Bytes) (timeoutMs : Option Int)
      (handler : U.Handler) (middleware : List U.Middleware) (streamBody : Bool)
      (maxBodyBytes : Option Int)
  | addStaticRoute (method : Method) (customToken pattern : Bytes) (response : StaticResponse)
  | addWsRoute (pattern : Bytes) (handler : U.WsHandler) (protocols : List Bytes)
      (middleware : List U.Middleware)
  | removeRoute (method : Method) (customToken pattern : Bytes)
  | use (middleware : U.Middleware)
  | setNotFound (handler : U.NotFound)
  | setError (handler : U.ErrorHandler)

namespace Tables

/-- One operation; one that throws changes nothing. -/
def perform (s : Tables U) : Op U → Tables U
  | .addRoute method customToken pattern timeoutMs handler middleware streamBody maxBodyBytes =>
      (s.addRoute method customToken pattern timeoutMs handler middleware streamBody
        maxBodyBytes).getD s
  | .addStaticRoute method customToken pattern response =>
      (s.addStaticRoute method customToken pattern response).getD s
  | .addWsRoute pattern handler protocols middleware =>
      (s.addWsRoute pattern handler protocols middleware).getD s
  | .removeRoute method customToken pattern => (s.removeRoute method customToken pattern).getD s
  | .use middleware => s.use middleware
  | .setNotFound handler => { s with notFoundHandler := some handler }
  | .setError handler => { s with errorHandler := some handler }

def performAll (s : Tables U) (ops : List (Op U)) : Tables U := ops.foldl perform s

/-- `_registeredKeys`. -/
def registeredKeys (s : Tables U) : List Bytes := s.registered.map fun k => routeKey k.1 k.2

/-- The start of `reload`, before the setup runs. -/
def beginReload (s : Tables U) : Tables U :=
  { s with
    middlewares := [], notFoundHandler := none, errorHandler := none, reloadTouched := some [] }

/-- `reload` when the setup, having done `ops`, returns. -/
def reload (s : Tables U) (ops : List (Op U)) : Tables U :=
  let t := s.beginReload.performAll ops
  let touched := t.reloadTouched.getD []
  let t := { t with reloadTouched := none }
  recompose ((s.registeredKeys.filter (· ∉ touched)).foldl unregisterKey t)

/-- `reload` when the setup throws after `ops`: undo the new keys, restore the saved
middleware and fallbacks. -/
def reloadFailed (s : Tables U) (ops : List (Op U)) : Tables U :=
  let t := s.beginReload.performAll ops
  let touched := t.reloadTouched.getD []
  let t := { t with reloadTouched := none }
  let t := (touched.filter (· ∉ s.registeredKeys)).foldl unregisterKey t
  recompose { t with
    middlewares := s.middlewares
    notFoundHandler := s.notFoundHandler
    errorHandler := s.errorHandler }

/-- `_entryFor`: the method's own registration, GET for HEAD, then `*`. -/
def entryFor (s : Tables U) (method : Method) (custom pattern : Bytes) : Option (Entry U) :=
  match s.routes.lookup (tokenOf method custom, pattern) with
  | some e => some e
  | none =>
      match (if method = .head then s.routes.lookup (ascii "GET", pattern) else none) with
      | some e => some e
      | none => s.routes.lookup (ascii "*", pattern)

end Tables

end NitroServer.Runner
