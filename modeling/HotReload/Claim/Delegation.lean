import HotReload.Claim.Scoped
import HotReload.Failure

/-!
# Owners under one parent

Several owners pass on to one parent what is new to them and what they give up. The parent may
refuse what it is asked; the owner has changed its list by then.
-/
namespace HotReload

/-- What is asked of an owner. -/
inductive ScopedCall where
  | watch (paths : List Path)
  | unwatch (paths : List Path)
  /-- Releases whatever is listed. -/
  | close

/-- What an owner makes of a call, and the request that it passes on, if there is anything to ask
for. `form` brings a path to its canonical form. -/
def ScopedClaims.answer (form : Path → Path) (s : ScopedClaims) :
    ScopedCall → ScopedClaims × Option ClaimRequest
  | .watch paths =>
    let (s, added) := s.watch (paths.map form)
    (s, watchRequest? added)
  | .unwatch paths =>
    let (s, removed) := s.unwatch (paths.map form)
    (s, unwatchRequest? removed)
  | .close =>
    let (s, removed) := s.unwatch (s.paths.map form)
    (s, unwatchRequest? removed)

/-- A request that a parent received, and whether it accepted it. -/
structure Receipt where
  owner : Nat
  request : ClaimRequest
  isAccepted : Bool
  deriving DecidableEq

/-- A call to one of the owners, and what the parent raises if it is asked anything. -/
structure ScopedTurn where
  owner : Nat
  call : ScopedCall
  refusal : Option Failure := none

/-- Owners, and what their parent received from them in the order it came. -/
structure Delegation where
  owners : List ScopedClaims
  receipts : List Receipt := []

namespace Delegation

/-- Carries out a call; what the parent raises leaves it. -/
def perform (form : Path → Path) (t : ScopedTurn) (d : Delegation) :
    Except Failure Unit × Delegation :=
  match d.owners[t.owner]? with
  | none => (.ok (), d)
  | some s =>
    match s.answer form t.call with
    | (s, none) => (.ok (), { d with owners := d.owners.set t.owner s })
    | (s, some request) =>
      ((match t.refusal with
        | none => .ok ()
        | some e => .error e),
        { owners := d.owners.set t.owner s
          receipts := d.receipts ++ [⟨t.owner, request, t.refusal.isNone⟩] })

/-- So many owners after a sequence of calls, which goes on whatever a call raises. -/
def after (form : Path → Path) (owners : Nat) (turns : List ScopedTurn) : Delegation :=
  turns.foldl (fun d t => (d.perform form t).2) { owners := List.replicate owners {} }

end Delegation

end HotReload
