import HotReload.Failure
import HotReload.Value.Basic

/-!
# Rejected data

What is wrong with a field of some data: the kind of fault, where it is, and a message.
-/
namespace HotReload

/-- A step on the way to a field: a name or a place in a list. -/
inductive FieldStep where
  | name (s : String)
  | index (n : Nat)
  deriving Repr, DecidableEq

structure FieldFault where
  kind : String
  place : List FieldStep
  message : String
  deriving Repr, DecidableEq

namespace FieldFault

/-- The fault of a field inside another one. -/
def inside (step : FieldStep) (f : FieldFault) : FieldFault := { f with place := step :: f.place }

end FieldFault

/-- A value with what was wrong with what it was read from. -/
structure Checked (α : Type) where
  value : α
  faults : List FieldFault := []

namespace Checked

variable {α β : Type}

def ok (x : α) : Checked α := ⟨x, []⟩

/-- A stand-in value with its one fault. -/
def fault (standIn : α) (name kind message : String) : Checked α :=
  ⟨standIn, [⟨kind, [.name name], message⟩]⟩

def map (f : α → β) (c : Checked α) : Checked β := ⟨f c.value, c.faults⟩

end Checked

end HotReload
