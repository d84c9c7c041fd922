import HotReload.Path.Canonical

/-!
# Scoped claims

The paths that one owner has claimed. Claiming a path twice is one claim, and only
claimed paths are released. Each change is in two steps: the owner's own list, and
then what is passed on to the reconciler.
-/
namespace HotReload

/-- The paths claimed by one owner, in the order of the claims. -/
structure ScopedClaims where
  paths : List Path := []
  deriving Repr, DecidableEq, Inhabited

/-- What an owner passes on to the reconciler. -/
inductive ClaimRequest where
  | watch (paths : List Path)
  | unwatch (paths : List Path)
  deriving Repr, DecidableEq

namespace ScopedClaims

/-- The members of a list, each once, in the order of their first places. -/
def distinct (paths : List Path) : List Path :=
  paths.foldl (fun seen p => if p ∈ seen then seen else seen ++ [p]) []

/-- Claims paths: the list with the new ones, and the new ones to pass on. -/
def watch (paths : List Path) (s : ScopedClaims) : ScopedClaims × List Path :=
  let added := distinct (paths.filter (· ∉ s.paths))
  (⟨s.paths ++ added⟩, added)

/-- Releases paths: the list without them, and the claimed ones among them to pass on. -/
def unwatch (paths : List Path) (s : ScopedClaims) : ScopedClaims × List Path :=
  let removed := distinct (paths.filter (· ∈ s.paths))
  (⟨removed.foldl List.erase s.paths⟩, removed)

/-- The request to pass on, if there is anything to ask for. -/
def watchRequest? (added : List Path) : Option ClaimRequest :=
  if added.isEmpty then none else some (.watch added)

def unwatchRequest? (removed : List Path) : Option ClaimRequest :=
  if removed.isEmpty then none else some (.unwatch removed)

end ScopedClaims

end HotReload
