import HotReload.Failure

/-!
# Resource registry

What a script allocated, to be closed together: the most recent first, each once,
whichever of them fail. A resource that comes after the registry has closed is closed
on the spot. Closing a resource may register further ones.
-/
namespace HotReload

/-- A resource, with the failure its closing ends in and the resources it registers
while it is being closed. -/
inductive Resource where
  | mk (name : String) (failure : Option Failure) (adds : List Resource)
  deriving Inhabited

namespace Resource

def name : Resource → String
  | mk n _ _ => n

def failure : Resource → Option Failure
  | mk _ f _ => f

def adds : Resource → List Resource
  | mk _ _ a => a

end Resource

/-- What a registry holds: a resource, or a call that closes one. Only a resource itself
can report that it is closed. -/
structure Registration where
  resource : Resource
  isCall : Bool := false
  deriving Inhabited

structure ResourceRegistry where
  /-- What is to be closed, in the order of its registration. -/
  held : List Registration := []
  isClosed : Bool := false
  /-- The names of the resources closed so far, in that order. -/
  closings : List String := []
  deriving Inhabited

namespace ResourceRegistry

/-- Registers something while `close` says how it is closed if it comes late. -/
def addWith (close : ResourceRegistry → Option Failure × ResourceRegistry)
    (registration : Registration) (r : ResourceRegistry) : Option Failure × ResourceRegistry :=
  if r.isClosed then
    match close r with
    | (some e, r) => (some (if e.isOrdinary then .composed [e] true else e), r)
    | (none, r) => (none, r)
  else (none, { r with held := r.held ++ [registration] })

mutual

/-- Closes one resource: it reports, registers what it adds and then fails if it is to
fail. A failing registration ends the closing. -/
def closeOne : Resource → ResourceRegistry → Option Failure × ResourceRegistry
  | .mk name failure adds, r =>
    match addEach adds { r with closings := r.closings ++ [name] } with
    | (some e, r) => (some e, r)
    | (none, r) => (failure, r)

/-- Registers resources one after the other until one of them fails. -/
def addEach : List Resource → ResourceRegistry → Option Failure × ResourceRegistry
  | [], r => (none, r)
  | resource :: rest, r =>
    match addWith (closeOne resource) { resource } r with
    | (some e, r) => (some e, r)
    | (none, r) => addEach rest r

end

/-- Registers a resource. A late one is closed on the spot, and its failure is raised. -/
def add (resource : Resource) (r : ResourceRegistry) : Option Failure × ResourceRegistry :=
  addWith (closeOne resource) { resource } r

/-- Registers a call that closes a resource. -/
def defer (resource : Resource) (r : ResourceRegistry) : Option Failure × ResourceRegistry :=
  addWith (closeOne resource) { resource, isCall := true } r

/-- Registers the resources of a list, skipping gaps. -/
def addAll (resources : List (Option Resource)) (r : ResourceRegistry) :
    Option Failure × ResourceRegistry :=
  addEach (resources.filterMap id) r

/-- Closes resources in turn and collects what they raise; a failure that ends the run
ends the closing too. -/
def closeEach : List Resource → List Failure → ResourceRegistry →
    Except Failure (List Failure) × ResourceRegistry
  | [], errors, r => (.ok errors, r)
  | resource :: rest, errors, r =>
    match closeOne resource r with
    | (none, r) => closeEach rest errors r
    | (some e, r) => if e.isOrdinary then closeEach rest (errors ++ [e]) r else (.error e, r)

/-- Closes everything that is held, the last first. Answers the failures, or the one that
ended the run or that putting them together raised. -/
def closeHeld (r : ResourceRegistry) : Except Failure (List Failure) × ResourceRegistry :=
  match closeEach (r.held.reverse.map (·.resource)) [] { r with held := [], isClosed := true } with
  | (.ok errors, r) => (Failure.gather errors, r)
  | (.error e, r) => (.error e, r)

/-- Closes everything that is held and raises what that raised. -/
def close (r : ResourceRegistry) : Option Failure × ResourceRegistry :=
  match r.closeHeld with
  | (.error e, r) => (some e, r)
  | (.ok [], r) => (none, r)
  | (.ok errors, r) => (some (.closing errors false), r)

/-- Forgets the resources that report themselves closed. -/
def cleanup (reportsClosed : Resource → Bool) (r : ResourceRegistry) : ResourceRegistry :=
  { r with held := r.held.filter fun h => h.isCall || !reportsClosed h.resource }

def size (r : ResourceRegistry) : Nat := r.held.length

end ResourceRegistry

end HotReload
