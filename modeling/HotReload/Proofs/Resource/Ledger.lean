import HotReload.Proofs.Resource.Closing

/-!
# Registrations one by one

A registry knows a resource by nothing but its place among those it holds, and the same
resource may be registered twice. A ledger is a registry that numbers the registrations
and keeps a log: each registration has the number of the entry that reports it. Apart
from that it works as the registry does, entry for entry.
-/
namespace HotReload

namespace ResourceRegistry

/-- What a registry can be asked for. -/
inductive Request where
  | add (resource : Resource)
  | addAll (resources : List (Option Resource))
  | defer (resource : Resource)
  | close
  /-- Close, and answer the failure instead of raising it. -/
  | closeSilently
  | cleanup (reportsClosed : Resource → Bool)

/-- Whether a request closes the registry. -/
def Request.Closes : Request → Prop
  | .close | .closeSilently => True
  | _ => False

/-- Whether what a request registers raises only what is handled. -/
def Request.IsHandled : Request → Prop
  | .add resource | .defer resource => resource.IsHandled
  | .addAll resources => ∀ a, some a ∈ resources → a.IsHandled
  | _ => True

/-- What an operation without an answer comes to. -/
def returned {σ : Type} : Option Failure × σ → Except Failure (Option Failure) × σ
  | (some e, s) => (.error e, s)
  | (none, s) => (.ok none, s)

/-- Answers what closing met, if anything. -/
def answered {σ : Type} : Except Failure (List Failure) × σ → Except Failure (Option Failure) × σ
  | (.error e, s) => (.error e, s)
  | (.ok [], s) => (.ok none, s)
  | (.ok errors, s) => (.ok (some (.closing errors false)), s)

/-- What a request raises, or else the failure that it answers. -/
def perform : Request → ResourceRegistry → Except Failure (Option Failure) × ResourceRegistry
  | .add resource, r => returned (r.add resource)
  | .addAll resources, r => returned (r.addAll resources)
  | .defer resource, r => returned (r.defer resource)
  | .close, r => returned r.close
  | .closeSilently, r => answered r.closeHeld
  | .cleanup reportsClosed, r => (.ok none, r.cleanup reportsClosed)

/-- A new registry after some requests. -/
def after (requests : List Request) : ResourceRegistry :=
  requests.foldl (fun r q => (r.perform q).2) {}

end ResourceRegistry

inductive Ledger.Entry where
  | made (registration : Registration)
  | closed (number : Nat) (resource : Resource)
  | dropped (number : Nat)
  /-- The registry closes. -/
  | shut

structure Ledger where
  held : List (Nat × Registration) := []
  isClosed : Bool := false
  log : List Ledger.Entry := []

namespace Ledger

open ResourceRegistry (Request returned answered)

def enter (entry : Entry) (l : Ledger) : Ledger := { l with log := l.log ++ [entry] }

/-- Registers something under the number of its entry. -/
def addWith (close : Nat → Ledger → Option Failure × Ledger) (g : Registration) (l : Ledger) :
    Option Failure × Ledger :=
  if l.isClosed then
    match close l.log.length (l.enter (.made g)) with
    | (some e, l) => (some (if e.isOrdinary then .composed [e] true else e), l)
    | (none, l) => (none, l)
  else (none, { l.enter (.made g) with held := l.held ++ [(l.log.length, g)] })

mutual

def closeOne : Resource → Nat → Ledger → Option Failure × Ledger
  | .mk name failure adds, n, l =>
    match addEach adds (l.enter (.closed n (.mk name failure adds))) with
    | (some e, l) => (some e, l)
    | (none, l) => (failure, l)

def addEach : List Resource → Ledger → Option Failure × Ledger
  | [], l => (none, l)
  | resource :: rest, l =>
    match addWith (closeOne resource) { resource } l with
    | (some e, l) => (some e, l)
    | (none, l) => addEach rest l

end

def closeEach : List (Nat × Registration) → List Failure → Ledger →
    Except Failure (List Failure) × Ledger
  | [], errors, l => (.ok errors, l)
  | h :: rest, errors, l =>
    match closeOne h.2.resource h.1 l with
    | (none, l) => closeEach rest errors l
    | (some e, l) => if e.isOrdinary then closeEach rest (errors ++ [e]) l else (.error e, l)

def closeHeld (l : Ledger) : Except Failure (List Failure) × Ledger :=
  match closeEach l.held.reverse [] { l.enter .shut with held := [], isClosed := true } with
  | (.ok errors, l) => (Failure.gather errors, l)
  | (.error e, l) => (.error e, l)

def close (l : Ledger) : Option Failure × Ledger :=
  match l.closeHeld with
  | (.error e, l) => (some e, l)
  | (.ok [], l) => (none, l)
  | (.ok errors, l) => (some (.closing errors false), l)

/-- Whether cleaning up drops a registration. -/
def IsGone (reportsClosed : Resource → Bool) (h : Nat × Registration) : Bool :=
  !h.2.isCall && reportsClosed h.2.resource

def cleanup (reportsClosed : Resource → Bool) (l : Ledger) : Ledger where
  held := l.held.filter fun h => !IsGone reportsClosed h
  isClosed := l.isClosed
  log := l.log ++ (l.held.filter (IsGone reportsClosed)).map fun h => .dropped h.1

def perform : Request → Ledger → Except Failure (Option Failure) × Ledger
  | .add resource, l => returned (addWith (closeOne resource) { resource } l)
  | .addAll resources, l => returned (addEach (resources.filterMap id) l)
  | .defer resource, l => returned (addWith (closeOne resource) { resource, isCall := true } l)
  | .close, l => returned l.close
  | .closeSilently, l => answered l.closeHeld
  | .cleanup reportsClosed, l => (.ok none, l.cleanup reportsClosed)

@[simp] theorem returned_state {σ : Type} (x : Option Failure × σ) : (returned x).2 = x.2 := by
  rcases x with ⟨_ | e, s⟩ <;> rfl

@[simp] theorem answered_state {σ : Type} (x : Except Failure (List Failure) × σ) :
    (answered x).2 = x.2 := by
  rcases x with ⟨e | _ | _, s⟩ <;> rfl

@[simp] theorem close_state (l : Ledger) : l.close.2 = l.closeHeld.2 := by
  rw [close]
  rcases l.closeHeld with ⟨e | _ | _, l'⟩ <;> rfl

def after (requests : List Request) : Ledger := requests.foldl (fun l q => (l.perform q).2) {}

section Registry

/-- The name of the resource whose closing an entry reports. -/
def Entry.closing? : Entry → Option String
  | .closed _ resource => some resource.name
  | _ => none

/-- The registry whose ledger it is. -/
def registry (l : Ledger) : ResourceRegistry where
  held := l.held.map (·.2)
  isClosed := l.isClosed
  closings := l.log.filterMap Entry.closing?

variable {l : Ledger}

theorem registry_enter_made (g : Registration) : (l.enter (.made g)).registry = l.registry := by
  simp [registry, enter, Entry.closing?]

theorem registry_enter_closed (n : Nat) (resource : Resource) :
    (l.enter (.closed n resource)).registry =
      { l.registry with closings := l.registry.closings ++ [resource.name] } := by
  simp [registry, enter, Entry.closing?]

theorem addWith_registry {close : Nat → Ledger → Option Failure × Ledger}
    {close' : ResourceRegistry → Option Failure × ResourceRegistry}
    (h : ∀ n l, (close n l).map id registry = close' l.registry) (g : Registration) (l : Ledger) :
    (addWith close g l).map id registry = ResourceRegistry.addWith close' g l.registry := by
  have hc := h l.log.length (l.enter (.made g))
  rw [registry_enter_made] at hc
  rw [addWith, ResourceRegistry.addWith, ← hc]
  by_cases ho : l.isClosed = true
  · have ho' : l.registry.isClosed = true := ho
    rw [if_pos ho, if_pos ho']
    rcases close l.log.length (l.enter (.made g)) with ⟨_ | e, l'⟩ <;> rfl
  · have ho' : ¬ l.registry.isClosed = true := ho
    rw [if_neg ho, if_neg ho']
    simp [registry, enter, Entry.closing?]

mutual

theorem closeOne_registry : ∀ (resource : Resource) (n : Nat) (l : Ledger),
    (closeOne resource n l).map id registry = ResourceRegistry.closeOne resource l.registry
  | .mk name f adds, n, l => by
    have h := addEach_registry adds (l.enter (.closed n (.mk name f adds)))
    rw [registry_enter_closed] at h
    dsimp only [Resource.name] at h
    rw [closeOne, ResourceRegistry.closeOne, ← h]
    rcases addEach adds (l.enter (.closed n (.mk name f adds))) with ⟨_ | e, l'⟩ <;> rfl

theorem addEach_registry : ∀ (resources : List Resource) (l : Ledger),
    (addEach resources l).map id registry = ResourceRegistry.addEach resources l.registry
  | [], l => by rw [addEach, ResourceRegistry.addEach]; rfl
  | a :: rest, l => by
    have h := addWith_registry (closeOne_registry a) { resource := a } l
    rw [addEach, ResourceRegistry.addEach, ← h]
    rcases addWith (closeOne a) { resource := a } l with ⟨_ | e, l'⟩
    · exact addEach_registry rest l'
    · rfl

end

theorem closeEach_registry (hs : List (Nat × Registration)) (errors : List Failure) (l : Ledger) :
    (closeEach hs errors l).map id registry =
      ResourceRegistry.closeEach (hs.map (·.2.resource)) errors l.registry := by
  induction hs generalizing errors l with
  | nil => rfl
  | cons h rest ih =>
    have hc := closeOne_registry h.2.resource h.1 l
    rw [closeEach, List.map_cons, ResourceRegistry.closeEach, ← hc]
    rcases closeOne h.2.resource h.1 l with ⟨_ | e, l'⟩
    · exact ih errors l'
    · by_cases he : e.isOrdinary = true
      · simp only [if_pos he, Prod.map_apply, id_eq]
        exact ih (errors ++ [e]) l'
      · simp only [if_neg he, Prod.map_apply, id_eq]

theorem closeHeld_registry (l : Ledger) : l.closeHeld.map id registry = l.registry.closeHeld := by
  have hs : ({ l.enter .shut with held := [], isClosed := true } : Ledger).registry =
      { l.registry with held := [], isClosed := true } := by
    simp [registry, enter, Entry.closing?]
  have hheld : l.registry.held.reverse.map (·.resource) = l.held.reverse.map (·.2.resource) := by
    simp [registry, Function.comp_def]
  rw [closeHeld, ResourceRegistry.closeHeld, hheld, ← hs, ← closeEach_registry]
  rcases closeEach l.held.reverse []
    { l.enter .shut with held := [], isClosed := true } with ⟨_ | _, l'⟩ <;> rfl

/-- A ledger does what its registry does, and answers the same. -/
theorem perform_registry (q : Request) (l : Ledger) :
    (l.perform q).map id registry = l.registry.perform q := by
  have hr : ∀ {x : Option Failure × Ledger} {y : Option Failure × ResourceRegistry},
      x.map id registry = y → (returned x).map id registry = returned y := by
    rintro ⟨_ | e, l⟩ _ rfl <;> rfl
  have hh := l.closeHeld_registry
  cases q with
  | add a => exact hr (addWith_registry (closeOne_registry a) _ l)
  | addAll resources => exact hr (addEach_registry _ l)
  | defer a => exact hr (addWith_registry (closeOne_registry a) _ l)
  | close =>
    refine hr ?_
    rw [close, ResourceRegistry.close, ← hh]
    rcases l.closeHeld with ⟨e | _ | _, l'⟩ <;> rfl
  | closeSilently =>
    rw [perform, ResourceRegistry.perform, ← hh]
    rcases l.closeHeld with ⟨e | _ | _, l'⟩ <;> rfl
  | cleanup reportsClosed =>
    rw [perform, ResourceRegistry.perform, cleanup, ResourceRegistry.cleanup]
    refine Prod.ext rfl ?_
    have hg : ((fun g : Registration => g.isCall || !reportsClosed g.resource) ∘ (·.2)) =
        fun h : Nat × Registration => !IsGone reportsClosed h := by
      funext h
      simp [IsGone]
    have hc : ((l.held.filter (IsGone reportsClosed)).map fun h => Entry.dropped h.1).filterMap
      Entry.closing? = [] := by
      rw [List.filterMap_map]
      exact List.filterMap_eq_nil_iff.mpr fun h _ => rfl
    simp only [Prod.map_apply, registry, List.filter_map, hg, List.filterMap_append, hc,
      List.append_nil]

theorem after_registry (requests : List Request) :
    (after requests).registry = ResourceRegistry.after requests := by
  have h : ∀ (l : Ledger), (requests.foldl (fun l q => (l.perform q).2) l).registry =
      requests.foldl (fun r q => (r.perform q).2) l.registry := by
    intro l
    induction requests generalizing l with
    | nil => rfl
    | cons q rest ih =>
      rw [List.foldl_cons, List.foldl_cons, ih, ← perform_registry q l]
      rfl
  exact h {}

end Registry

end Ledger

end HotReload
