import HotReload.Failure
import HotReload.Text.LowerCase
import HotReload.Value.Basic

/-!
# Export registry

Named values that scripts share and that outlive a reload. A key reads the same in
upper and lower case. A key's slot stays the same until the key is removed; whoever
holds the slot can write to it even after that. A slot that holds null is empty.
-/
namespace HotReload

/-- A named place for a value. -/
structure ExportSlot where
  id : String
  value : Value := .null
  deriving Inhabited

/-- The slots ever made, and which of them each key leads to. -/
structure ExportRegistry where
  slots : List ExportSlot := []
  keys : List (String × Nat) := []

/-- A factory, as what it makes or raises each time it is called. -/
structure ExportFactory where
  result : Nat → Except Failure Value

namespace ExportFactory

/-- A factory that makes the same value every time. -/
def ok (v : Value) : ExportFactory := ⟨fun _ => .ok v⟩

/-- A factory that raises the same failure every time. -/
def error (e : Failure) : ExportFactory := ⟨fun _ => .error e⟩

end ExportFactory

/-- Where the value of an empty slot comes from. -/
inductive ExportSource where
  | given (v : Value)
  | made (factory : ExportFactory)

/-- A registry while it is called, with how many times the call has called its factory. -/
structure ExportRun where
  registry : ExportRegistry
  factoryCalls : Nat := 0

/-- What a source has to give. A factory is called for it. -/
def ExportSource.ask (source : ExportSource) (run : ExportRun) : Except Failure Value × ExportRun :=
  match source with
  | .given v => (.ok v, run)
  | .made factory =>
    (factory.result run.factoryCalls, { run with factoryCalls := run.factoryCalls + 1 })

namespace ExportRegistry

def normalize (key : String) : String := Text.lower key

/-- The slot a key leads to. -/
def slotOf? (r : ExportRegistry) (key : String) : Option Nat :=
  (r.keys.find? (·.1 = normalize key)).map (·.2)

def read (r : ExportRegistry) (slot : Nat) : Value :=
  (r.slots[slot]?).elim .null (·.value)

/-- Writes to a slot, whether a key still leads to it or not. -/
def write (r : ExportRegistry) (slot : Nat) (v : Value) : ExportRegistry :=
  { r with slots := r.slots.modify slot ({ · with value := v }) }

/-- The slot of a key, made first if there is none. -/
def slotFor (r : ExportRegistry) (key : String) : Nat × ExportRegistry :=
  match r.slotOf? key with
  | some slot => (slot, r)
  | none =>
    (r.slots.length,
      { slots := r.slots ++ [{ id := normalize key }],
        keys := r.keys ++ [(normalize key, r.slots.length)] })

def set (r : ExportRegistry) (key : String) (v : Value) : Nat × ExportRegistry :=
  let (slot, r) := r.slotFor key
  (slot, r.write slot v)

/-- Whether a key holds a value. -/
def has (r : ExportRegistry) (key : String) : Bool :=
  match r.slotOf? key with
  | some slot => !(r.read slot).isNull
  | none => false

def remove (r : ExportRegistry) (key : String) : ExportRegistry :=
  { r with keys := r.keys.filter (·.1 ≠ normalize key) }

/-- The slots that keys lead to, in the order in which their keys were made. -/
def listed (r : ExportRegistry) : List Nat := r.keys.map (·.2)

def size (r : ExportRegistry) : Nat := r.keys.length

def idOf (r : ExportRegistry) (slot : Nat) : String := (r.slots[slot]?).elim "" (·.id)

/-- Each key's identifier and value. -/
def entries (r : ExportRegistry) : List (String × Value) :=
  r.listed.map fun slot => (r.idOf slot, r.read slot)

/-- A slot as a literal. -/
def slotLiteral (r : ExportRegistry) (slot : Nat) : String :=
  "ScriptExport(id=" ++ Text.quote (r.idOf slot) ++ ", value=" ++ (r.read slot).literal ++ ")"

end ExportRegistry

namespace ExportRun

/-- The slot of a key, made first if there is none. -/
def slotFor (run : ExportRun) (key : String) : Nat × ExportRun :=
  let (slot, registry) := run.registry.slotFor key
  (slot, { run with registry })

/-- Fills a slot if it is empty; the source is asked only then. -/
def fill (run : ExportRun) (slot : Nat) (source : ExportSource) : Except Failure Unit × ExportRun :=
  if (run.registry.read slot).isNull then
    match source.ask run with
    | (.ok v, run) => (.ok (), { run with registry := run.registry.write slot v })
    | (.error e, run) => (.error e, run)
  else (.ok (), run)

/-- The value of a slot, filled first if it is empty. -/
def slotGet (run : ExportRun) (slot : Nat) (source : ExportSource) :
    Except Failure Value × ExportRun :=
  let (filled, run) := run.fill slot source
  (filled.map fun _ => run.registry.read slot, run)

/-- The slot, filled first if it is empty. -/
def slotSetIfAbsent (run : ExportRun) (slot : Nat) (source : ExportSource) :
    Except Failure Nat × ExportRun :=
  let (filled, run) := run.fill slot source
  (filled.map fun _ => slot, run)

/-- The slot of a key; a source other than null fills it if it is empty. -/
def handle (run : ExportRun) (key : String) (source : ExportSource) :
    Except Failure Nat × ExportRun :=
  let (slot, run) := run.slotFor key
  match source with
  | .given .null => (.ok slot, run)
  | source => run.slotSetIfAbsent slot source

/-- The value of a key, filled first if it is empty. -/
def get (run : ExportRun) (key : String) (source : ExportSource) :
    Except Failure Value × ExportRun :=
  let (slot, run) := run.slotFor key
  run.slotGet slot source

/-- The slot of a key, filled if it is empty. -/
def setIfAbsent (run : ExportRun) (key : String) (source : ExportSource) :
    Except Failure Nat × ExportRun :=
  let (slot, run) := run.slotFor key
  run.slotSetIfAbsent slot source

end ExportRun

end HotReload
