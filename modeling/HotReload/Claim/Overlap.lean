import HotReload.Claim.Count
import HotReload.Claim.Delegation

/-!
# Overlapping calls

A call that watches or releases paths takes two steps, each of them in one piece: the owner changes
its list, and then what it passes on reaches the counts. Between its two steps other callers may
take theirs, also with the same owner.
-/
namespace HotReload

/-- What a caller has yet to pass on for an owner. -/
structure Underway where
  caller : Nat
  owner : Nat
  request : ClaimRequest
  deriving DecidableEq

/-- A step of a caller. -/
inductive OverlapStep where
  /-- An owner lists paths for the caller. -/
  | watch (caller owner : Nat) (paths : List Path)
  | unwatch (caller owner : Nat) (paths : List Path)
  /-- The caller passes on what it has to, and its call returns. -/
  | deliver (caller : Nat)

/-- The counts after a request, whose paths are counted in the form that `form` brings them to. -/
def ClaimRequest.reach (form : Path → Path) : ClaimRequest → ClaimCounts → ClaimCounts
  | .watch paths, counts => counts.claimAll (paths.map form)
  | .unwatch paths, counts => counts.releaseAll (paths.map form)

/-- The lists of some owners, the counts, and the requests on the way from these to those, in the
order in which the lists were changed. -/
structure Overlap where
  owners : List ScopedClaims
  counts : ClaimCounts := []
  underway : List Underway := []

namespace Overlap

/-- What a caller has yet to pass on. -/
def ofCaller? (caller : Nat) (d : Overlap) : Option Underway := d.underway.find? (·.caller = caller)

/-- An owner answers a call. A caller that has something to pass on makes no other call before. -/
def list (form : Path → Path) (caller owner : Nat) (call : ScopedCall) (d : Overlap) : Overlap :=
  match d.ofCaller? caller, d.owners[owner]? with
  | none, some s =>
    { d with
      owners := d.owners.set owner (s.answer form call).1
      underway :=
        d.underway ++ ((s.answer form call).2.map fun request => ⟨caller, owner, request⟩).toList }
  | _, _ => d

def deliver (form : Path → Path) (caller : Nat) (d : Overlap) : Overlap :=
  match d.ofCaller? caller with
  | none => d
  | some u =>
    { d with
      counts := u.request.reach form d.counts
      underway := d.underway.eraseP (·.caller = caller) }

/-- Takes a step; one that is not its caller's next changes nothing. -/
def perform (form : Path → Path) (d : Overlap) : OverlapStep → Overlap
  | .watch caller owner paths => d.list form caller owner (.watch paths)
  | .unwatch caller owner paths => d.list form caller owner (.unwatch paths)
  | .deliver caller => d.deliver form caller

/-- Takes steps one after the other. -/
def after (form : Path → Path) (d : Overlap) (steps : List OverlapStep) : Overlap :=
  steps.foldl (perform form) d

end Overlap

end HotReload
