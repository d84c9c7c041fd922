import HotReload.Host.Setup
import HotReload.Operator.Request

/-!
# Operator routes

The operator's controls: what is loaded, watched and exported, watching and unwatching,
and running cycles. A route without an attached host is unavailable. What a route raises
is logged and answered as an internal error.
-/
namespace HotReload.Operator

inductive Endpoint where
  | description
  | pages
  | health
  | scripts
  | watched
  | watch
  | unwatch
  | reconcile
  | preload
  | exports
  deriving Repr, DecidableEq

/-- What the operator talks to. -/
structure Service where
  settings : Settings
  /-- Whether a host is attached. -/
  isAttached : Bool := false

/-- The paths with their methods; the pages about the routes are for development. -/
def routes (s : Service) : List (String × List String × Endpoint) :=
  [("/openapi.json", ["GET", "HEAD"], .description)]
  ++ (if s.settings.isDevelopment then
      [("/docs", ["GET", "HEAD"], .pages), ("/docs/oauth2-redirect", ["GET", "HEAD"], .pages),
        ("/redoc", ["GET", "HEAD"], .pages)]
    else [])
  ++ [("/health", ["GET"], .health), ("/scripts", ["GET"], .scripts),
    ("/scripts/watched", ["GET"], .watched), ("/scripts/watch", ["POST"], .watch),
    ("/scripts/unwatch", ["POST"], .unwatch), ("/scripts/reconcile", ["POST"], .reconcile),
    ("/scripts/preload", ["POST"], .preload), ("/scripts/exports", ["GET"], .exports)]

/-- The other spelling of a path: without slashes at its end, or with one. -/
def otherSpelling (path : String) : String :=
  if path.endsWith "/" then
    String.ofList ((path.toList.reverse.dropWhile (· = '/')).reverse)
  else path ++ "/"

/-- The route of a path; a request for its other spelling is sent on to it. -/
def route? (s : Service) (path : String) : Option (String × List String × Endpoint) :=
  let find (p : String) := (routes s).find? (·.1 = p)
  match find path with
  | some r => some r
  | none => if path = "/" then none else find (otherSpelling path)

def ok (fields : List (String × Value)) : Response := ⟨200, .json (.record fields), none⟩

def pathList (paths : List Path) : Value := .strings (paths.map (·.toText))

def watchedResponse : Act Response := do
  return ok [("watched", pathList (← get).watched)]

def logRequest (event : String) (paths : List String) : Act Unit :=
  World.enter ⟨.info, event, [("paths", .strings paths)]⟩

def exportInfo (e : String × Value) : Value :=
  .record [("id", .text e.1), ("has_value", .bool !e.2.isNull),
    ("type", if e.2.isNull then .null else .text e.2.typeName)]

def exportsResponse : Act Response := do
  let exports : ExportRegistry := ((← get).exports[0]?).getD {}
  let entries := exports.entries.mergeSort fun a b => a.1 ≤ b.1
  return ok [("exports", .list (entries.map exportInfo)), ("total", .int entries.length)]

def scriptsResponse : Act Response := do
  let w ← get
  let scripts := w.registry.filterMap fun (_, n) => (w.script? n).map fun s => .record s.describe
  return ok [("scripts", .list scripts), ("total", .int scripts.length)]

def healthResponse (s : Service) : Act Response := do
  let w ← get
  return ok [("status", .text "healthy"), ("version", .text s.settings.appVersion),
    ("loader", .text (if s.isAttached then "attached" else "detached")),
    ("polling", .bool (s.isAttached && w.isPolling)),
    ("scripts", .int (if s.isAttached then w.registry.length else 0))]

/-- Does what a route is for, with a body that was read. -/
def perform (s : Service) (body : Option Value) : Endpoint → Act Response
  | .description => return ok []
  | .pages => return ⟨200, .text "", none⟩
  | .health => healthResponse s
  | endpoint => do
    if !s.isAttached then return detail 503 "Script loader unavailable"
    match endpoint with
    | .watched => watchedResponse
    | .watch =>
      match readPaths body with
      | .error faults => return ⟨422, .rejected faults, none⟩
      | .ok paths =>
        logRequest "watch_requested" paths
        World.watchPaths (paths.map Path.parse)
        watchedResponse
    | .unwatch =>
      match readPaths body with
      | .error faults => return ⟨422, .rejected faults, none⟩
      | .ok paths =>
        logRequest "unwatch_requested" paths
        World.unwatchPaths (paths.map Path.parse)
        watchedResponse
    | .reconcile =>
      let plan ← World.reconcile World.host
      return ok (plan.summary.map fun (name, paths) => (name, pathList paths))
    | .preload =>
      let cycles ← World.preload World.host
      return ok [("cycles", .int cycles), ("scripts", .int (← get).registry.length)]
    | .exports => exportsResponse
    | _ => scriptsResponse

def readsBody : Endpoint → Bool
  | .watch | .unwatch => true
  | _ => false

/-- Reads the body if the route has one, and does what the route is for. -/
def handle (s : Service) (r : Request) (endpoint : Endpoint) : Act Response :=
  if readsBody endpoint then
    match readBody r with
    | .error fault => return ⟨422, .rejected [fault], none⟩
    | .ok body => perform s body endpoint
  else perform s none endpoint

/-- What the operator is told of a failure: outside development, nothing. -/
def internalError (s : Service) (e : Failure) : Response :=
  ⟨500, .json (.record [("error", .text "Internal server error"),
    ("message", .text (if s.settings.isDevelopment then e.message
      else "An unexpected error occurred"))]), none⟩

/-- Whether pages of an origin may use the routes. -/
def allowsOrigin (s : Service) (origin : String) : Bool :=
  s.settings.api.corsOrigins.contains "*" || s.settings.api.corsOrigins.contains origin

/-- The origin that a response names. -/
def namedOrigin (s : Service) (r : Request) : Option String :=
  match r.header? "origin" with
  | none => none
  | some origin =>
    if s.settings.api.corsOrigins.contains "*" then
      some (if (r.header? "cookie").isSome then origin else "*")
    else if s.settings.api.corsOrigins.contains origin then some origin
    else none

def knownMethods : List String := ["DELETE", "GET", "HEAD", "OPTIONS", "PATCH", "POST", "PUT"]

/-- Answers a browser that asks whether a page of an origin may send a request. -/
def preflight (s : Service) (origin method : String) : Response :=
  let allowed := allowsOrigin s origin
  let refused := (if allowed then [] else ["origin"])
    ++ (if knownMethods.contains method then [] else ["method"])
  let named := if allowed then some origin else none
  if refused.isEmpty then ⟨200, .text "OK", named⟩
  else ⟨400, .text ("Disallowed CORS " ++ String.intercalate ", " refused), named⟩

/-- Finds the route of a request and does what it is for. -/
def dispatch (s : Service) (r : Request) : Act Response := do
  match route? s r.path with
  | none => return { detail 404 "Not Found" with allowedOrigin := namedOrigin s r }
  | some (path, methods, endpoint) =>
    if !methods.contains r.method then
      return { detail 405 "Method Not Allowed" with allowedOrigin := namedOrigin s r }
    match ← World.attempt Failure.isOrdinary (handle s r endpoint) with
    | .ok response => return { response with allowedOrigin := namedOrigin s r }
    | .error e =>
      World.enter ⟨.error, "unhandled_exception", [("path", .text path), ("method", .text r.method),
        ("error", .text e.message), LogEntry.attached e]⟩
      return internalError s e

/-- Answers a request. -/
def respond (s : Service) (r : Request) : Act Response :=
  match r.method, r.header? "origin", r.header? "access-control-request-method" with
  | "OPTIONS", some origin, some method => return preflight s origin method
  | _, _, _ => dispatch s r

/-- The thread that serves requests. -/
def servingThread : String := "portal"

/-- Does something on the thread that serves requests. -/
def serving {α : Type} (action : Act α) : Act α := do
  let caller := (← get).thread
  modify fun w => { w with thread := servingThread }
  let result ← World.attempt (fun _ => true) action
  modify fun w => { w with thread := caller }
  World.liftExcept result

end HotReload.Operator
