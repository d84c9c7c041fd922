import HotReload.Host.World

/-!
# Watching paths

Owners claim paths through their scoped claims; what is new to an owner is passed on and
counted. The operator may also release a path that only a script claimed.
-/
namespace HotReload.World

/-- The paths up to the first whose canonical form cannot be found. -/
def reachable (w : World) (paths : List Path) : List Path :=
  paths.takeWhile fun p => (w.circle? p).isNone

/-- Fails if the canonical form of one of the paths cannot be found. -/
def checkForms (paths : List Path) : Act Unit := do
  match (← get).circleAmong? paths with
  | some e => throw e
  | none => pure ()

/-- Adds one claim on each path, up to the first whose form cannot be found. -/
def claimAll (paths : List Path) : Act Unit := do
  modify fun w => { w with claims := w.claims.claimAll ((w.reachable paths).map w.canonical) }
  checkForms paths

/-- Releases one claim on each path, up to the first whose form cannot be found. -/
def releaseAll (paths : List Path) : Act Unit := do
  modify fun w => { w with claims := w.claims.releaseAll ((w.reachable paths).map w.canonical) }
  checkForms paths

/-- Passes a request of a script on to where claims go. -/
def request (r : ClaimRequest) : Act Unit := do
  match (← get).claimTarget, r with
  | .counted, .watch paths => claimAll paths
  | .counted, .unwatch paths => releaseAll paths
  | .recorded refusesWatch _, .watch _ =>
    record (.requested r)
    if refusesWatch then throw (.raised "RuntimeError" "parent refused watch")
  | .recorded _ refusesUnwatch, .unwatch _ =>
    record (.requested r)
    if refusesUnwatch then throw (.raised "RuntimeError" "parent refused unwatch")

def requestAny : Option ClaimRequest → Act Unit
  | some r => request r
  | none => pure ()

/-- An instance claims paths: first in its own list, and then with the host. -/
def scriptWatch (n : Nat) (paths : List Path) : Act Unit := do
  let s ← script n
  let forms ← liftExcept ((← get).normalizeAll paths)
  let (claims, added) := s.claims.watch forms
  updateScript n ({ · with claims })
  requestAny (ScopedClaims.watchRequest? added)

def scriptUnwatch (n : Nat) (paths : List Path) : Act Unit := do
  let s ← script n
  let forms ← liftExcept ((← get).normalizeAll paths)
  let (claims, removed) := s.claims.unwatch forms
  updateScript n ({ · with claims })
  requestAny (ScopedClaims.unwatchRequest? removed)

/-- An instance releases everything it claims. -/
def scriptUnwatchAll (n : Nat) : Act Unit := do
  let s ← script n
  scriptUnwatch n s.claims.paths

/-- The operator watches paths; watching a path twice is watching it once. -/
def watchPaths (paths : List Path) : Act Unit := do
  let forms ← liftExcept ((← get).normalizeAll paths)
  let w ← get
  let (operator, added) := w.operator.watch forms
  set { w with operator }
  claimAll added

def operatorUnwatch (paths : List Path) : Act Unit := do
  let forms ← liftExcept ((← get).normalizeAll paths)
  let w ← get
  let (operator, removed) := w.operator.unwatch forms
  set { w with operator }
  releaseAll removed

/-- The operator stops watching paths: its own claim where it has one, else one claim of
whichever script watched the path. -/
def unwatchPaths (paths : List Path) : Act Unit := do
  let w ← get
  let normalized := ScopedClaims.distinct (← liftExcept (w.normalizeAll paths))
  let owned := w.operator.paths
  operatorUnwatch (normalized.filter (· ∈ owned))
  releaseAll (normalized.filter (· ∉ owned))

def watched (w : World) : List Path := w.claims.watched

end HotReload.World
