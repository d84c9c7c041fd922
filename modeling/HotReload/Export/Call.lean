import HotReload.Export.Registry

/-!
# Calls to an export registry

What scripts ask of the registry by key, and of a slot that they have got hold of.
-/
namespace HotReload

/-- What an empty slot is to be filled with: what the factory makes if there is one,
and else the default. -/
structure ExportOffer where
  default : Value := .null
  factory : Option ExportFactory := none

def ExportOffer.source (o : ExportOffer) : ExportSource :=
  match o.factory with
  | some factory => .made factory
  | none => .given o.default

inductive ExportCall where
  | handle (key : String) (offer : ExportOffer)
  | get (key : String) (offer : ExportOffer)
  | set (key : String) (v : Value)
  /-- Fills the slot of a key, which is made first if there is none. -/
  | setIfAbsent (key : String) (offer : ExportOffer)
  | has (key : String)
  /-- Whether anything at all is a key that holds a value. -/
  | contains (key : Value)
  | remove (key : String)
  /-- The value of a slot, filled first if it is empty. -/
  | slotGet (slot : Nat) (offer : ExportOffer)
  | slotSet (slot : Nat) (v : Value)
  | slotSetIfAbsent (slot : Nat) (offer : ExportOffer)

inductive ExportAnswer where
  | slot (n : Nat)
  | value (v : Value)
  | truth (b : Bool)
  | done

structure ExportReply where
  answer : Except Failure ExportAnswer
  /-- How many times a factory was called. -/
  factoryCalls : Nat := 0

namespace ExportRegistry

/-- The reply to a call that may fill a slot, and the registry after it. -/
def replied {α : Type} (answer : α → ExportAnswer) (called : Except Failure α × ExportRun) :
    ExportReply × ExportRegistry :=
  (⟨called.1.map answer, called.2.factoryCalls⟩, called.2.registry)

/-- What a call is answered, and what it makes of the registry. -/
def perform (r : ExportRegistry) : ExportCall → ExportReply × ExportRegistry
  | .handle key o => replied .slot (ExportRun.handle { registry := r } key o.source)
  | .get key o => replied .value (ExportRun.get { registry := r } key o.source)
  | .set key v =>
    let (slot, r') := r.set key v
    ({ answer := .ok (.slot slot) }, r')
  | .setIfAbsent key o => replied .slot (ExportRun.setIfAbsent { registry := r } key o.source)
  | .has key => ({ answer := .ok (.truth (r.has key)) }, r)
  | .contains key =>
    ({ answer := .ok (.truth (match key with
      | .text key => r.has key
      | _ => false)) }, r)
  | .remove key => ({ answer := .ok .done }, r.remove key)
  | .slotGet slot o => replied .value (ExportRun.slotGet { registry := r } slot o.source)
  | .slotSet slot v => ({ answer := .ok (.slot slot) }, r.write slot v)
  | .slotSetIfAbsent slot o =>
    replied .slot (ExportRun.slotSetIfAbsent { registry := r } slot o.source)

/-- The registry after a sequence of calls, which goes on whatever a call raises. -/
def after (calls : List ExportCall) : ExportRegistry := calls.foldl (fun r c => (r.perform c).2) {}

end ExportRegistry

end HotReload
