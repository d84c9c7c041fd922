import HotReload.Resource.Registry

/-!
# Closing resources

What the closing of a resource comes to in a registry that has closed: what it raises and
what is closed on the way, over all that it adds and that those add in turn. Registering
one resource after the other ends with the first that fails late, so what stands behind
that one is neither held nor closed.
-/
namespace HotReload

namespace Failure

/-- Whether a failure is handled, and so is what asking for its literal raises. -/
def IsHandled : Failure → Prop
  | .unprintable kind argument fault => (raised kind argument).isOrdinary = true ∧ fault.IsHandled
  | e => e.isOrdinary = true

variable {e fault : Failure} {errors : List Failure}

theorem IsHandled.ordinary (h : e.IsHandled) : e.isOrdinary = true := by
  cases e with
  | unprintable => exact h.1
  | raised | file | malformed | loading | closing => exact h

theorem IsHandled.literal (h : e.IsHandled) (hf : e.literalFault? = some fault) :
    fault.IsHandled := by
  cases e with
  | unprintable =>
    cases hf
    exact h.2
  | raised | file | malformed | loading | closing => cases hf

/-- Putting failures together raises what asking the first without a literal for it does. -/
theorem gather_error (h : gather errors = .error fault) :
    ∃ before e after, errors = before ++ e :: after ∧
    (∀ e ∈ before, e.literalFault? = none) ∧ e.literalFault? = some fault := by
  unfold gather at h
  split at h
  · rename_i hf
    cases h
    obtain ⟨before, e, after, rfl, hf, hbefore⟩ := List.findSome?_eq_some_iff.mp hf
    exact ⟨before, e, after, rfl, hbefore, hf⟩
  · cases h

/-- Failures can be put together exactly if each of them has a literal. -/
theorem gather_eq_ok : gather errors = .ok errors ↔ ∀ e ∈ errors, e.literalFault? = none := by
  rw [← List.findSome?_eq_none_iff, gather]
  cases errors.findSome? literalFault? <;> simp

theorem gather_ok {gathered : List Failure} (h : gather errors = .ok gathered) :
    gathered = errors := by
  unfold gather at h
  split at h
  · cases h
  · cases h
    rfl

theorem composed_of_printable (h : ∀ e ∈ errors, e.literalFault? = none) (late : Bool) :
    composed errors late = .closing errors late := by
  rw [composed, gather_eq_ok.mpr h]

theorem isHandled_composed (h : ∀ e ∈ errors, e.IsHandled) (late : Bool) :
    (composed errors late).IsHandled := by
  unfold composed
  split
  · exact rfl
  · rename_i hf
    obtain ⟨before, e, after, rfl, -, hl⟩ := gather_error hf
    exact (h e (by simp)).literal hl

end Failure

namespace Resource

mutual

/-- Whether a resource, and all that it adds, raises only what is handled. -/
def IsHandled : Resource → Prop
  | mk _ failure adds => (∀ e, failure = some e → e.IsHandled) ∧ AreHandled adds

def AreHandled : List Resource → Prop
  | [] => True
  | resource :: rest => resource.IsHandled ∧ AreHandled rest

end

mutual

/-- What closing a resource raises late: the failure of an addition ends it, and
else it ends in its own. -/
def raises : Resource → Option Failure
  | mk _ failure adds => (raisesEach adds).or failure

/-- What registering resources in turn raises late: the first failure, as one of a late closing. -/
def raisesEach : List Resource → Option Failure
  | [] => none
  | resource :: rest => (resource.raises.map (.composed [·] true)).or (raisesEach rest)

end

mutual

/-- The names of what is closed when a resource is closed late, in that order. -/
def trace : Resource → List String
  | mk name _ adds => name :: traceEach adds

def traceEach : List Resource → List String
  | [] => []
  | resource :: rest => resource.trace ++ if resource.raises.isSome then [] else traceEach rest

end

/-- The resources up to and with the first whose late closing fails. -/
def attempted : List Resource → List Resource
  | [] => []
  | resource :: rest => if resource.raises.isSome then [resource] else resource :: attempted rest

theorem areHandled_iff {resources : List Resource} :
    AreHandled resources ↔ ∀ a ∈ resources, a.IsHandled := by
  induction resources with
  | nil => simp [AreHandled]
  | cons a rest ih => simp [AreHandled, ih]

mutual

theorem handled_raises : ∀ {resource : Resource}
    {e : Failure}, resource.IsHandled → resource.raises = some e →
    e.IsHandled
  | .mk name failure adds, e, h, he => by
    rw [raises] at he
    cases ha : raisesEach adds with
    | none => exact h.1 e (by simpa [ha] using he)
    | some f =>
      simp only [ha, Option.some_or, Option.some.injEq] at he
      exact he ▸ handled_raisesEach h.2 ha

theorem handled_raisesEach : ∀ {resources : List Resource} {e : Failure}, AreHandled resources →
    raisesEach resources = some e → e.IsHandled
  | [], e, _, he => by simp [raisesEach] at he
  | a :: rest, e, h, he => by
    rw [raisesEach] at he
    cases ha : a.raises with
    | none => exact handled_raisesEach h.2 (by simpa [ha] using he)
    | some f =>
      simp only [ha, Option.map_some, Option.some_or, Option.some.injEq] at he
      exact he ▸ Failure.isHandled_composed (List.forall_mem_singleton.mpr (handled_raises h.1 ha))
        true

end

theorem ordinary_raises {resource : Resource} (h : resource.IsHandled) {e : Failure}
    (he : resource.raises = some e) : e.isOrdinary = true := (handled_raises h he).ordinary

theorem traceEach_eq (resources : List Resource) :
    traceEach resources = (attempted resources).flatMap trace := by
  induction resources with
  | nil => rfl
  | cons a rest ih =>
    rw [traceEach, attempted]
    split <;> simp [ih]

theorem raisesEach_attempted (resources : List Resource) :
    raisesEach (attempted resources) = raisesEach resources := by
  induction resources with
  | nil => rfl
  | cons a rest ih =>
    rw [attempted]
    cases ha : a.raises with
    | none => simp [raisesEach, ha, ih]
    | some e => simp [raisesEach, ha]

/-- What is attempted ends in the first failure, if there is one, and what it
leaves out is not heard of. -/
theorem attempted_split (resources : List Resource) :
    ∃ left, resources = attempted resources ++ left ∧
      (∀ a ∈ (attempted resources).dropLast, a.raises = none) ∧
      (left ≠ [] → ∃ a, (attempted resources).getLast? = some a ∧ a.raises.isSome = true) := by
  induction resources with
  | nil => exact ⟨[], rfl, by simp [attempted], by simp⟩
  | cons a rest ih =>
    rw [attempted]
    by_cases ha : a.raises.isSome = true
    · rw [if_pos ha]
      exact ⟨rest, rfl, by simp, fun _ => ⟨a, rfl, ha⟩⟩
    · obtain ⟨left, he, hnone, hlast⟩ := ih
      rw [if_neg ha]
      refine ⟨left, by rw [List.cons_append, ← he], fun b hb => ?_, fun hl => ?_⟩
      · cases hrest : attempted rest with
        | nil => simp [hrest] at hb
        | cons c cs =>
          rw [hrest] at hb hnone
          rw [List.dropLast_cons_cons] at hb
          rcases List.mem_cons.mp hb with rfl | hb
          · exact Option.not_isSome_iff_eq_none.mp ha
          · exact hnone b hb
      · obtain ⟨b, hb, hs⟩ := hlast hl
        exact ⟨b, by rw [List.getLast?_cons, hb]; rfl, hs⟩

/-- Nothing is left out exactly if no resource but the last fails. -/
theorem attempted_eq_iff (resources : List Resource) :
    attempted resources = resources ↔ ∀ a ∈ resources.dropLast, a.raises = none := by
  obtain ⟨left, he, hnone, hlast⟩ := attempted_split resources
  constructor
  · intro h
    rwa [h] at hnone
  · intro h
    by_cases hl : left = []
    · rw [hl, List.append_nil] at he
      exact he.symm
    · obtain ⟨a, ha, hs⟩ := hlast hl
      have hm : a ∈ resources.dropLast := by
        rw [he, List.dropLast_append_of_ne_nil hl]
        exact List.mem_append_left _ (List.mem_of_getLast? ha)
      rw [h a hm] at hs
      cases hs

end Resource

namespace ResourceRegistry

open Resource

variable {r : ResourceRegistry}

mutual

/-- Closing a resource late: what it adds is closed on the spot, and so on down. -/
theorem closeOne_late : ∀ (resource : Resource) (r : ResourceRegistry), resource.IsHandled →
    r.isClosed = true →
    closeOne resource r = (resource.raises, { r with closings := r.closings ++ resource.trace })
  | .mk name _ adds, r, h, hr => by
    rw [closeOne, addEach_late adds { r with closings := r.closings ++ [name] } h.2 hr,
      raises, trace]
    cases raisesEach adds <;> simp

/-- Registering resources in turn, late, closes each until one fails. -/
theorem addEach_late : ∀ (resources : List Resource) (r : ResourceRegistry), AreHandled resources →
    r.isClosed = true →
    addEach resources r =
      (raisesEach resources, { r with closings := r.closings ++ traceEach resources })
  | [], r, _, _ => by simp [addEach, raisesEach, traceEach]
  | a :: rest, r, h, hr => by
    rw [addEach, addWith, if_pos hr, closeOne_late a r h.1 hr, raisesEach, traceEach]
    cases ha : a.raises with
    | none => simp [addEach_late rest { r with closings := r.closings ++ a.trace } h.2 hr]
    | some e => simp [ordinary_raises h.1 ha]

end

/-- Closing what was held goes on whatever fails, and collects what was raised. -/
theorem closeEach_late (resources : List Resource) (errors : List Failure) (r : ResourceRegistry)
    (h : ∀ a ∈ resources, a.IsHandled) (hr : r.isClosed = true) :
    closeEach resources errors r =
      (.ok (errors ++ resources.filterMap raises),
        { r with closings := r.closings ++ resources.flatMap trace }) := by
  induction resources generalizing errors r with
  | nil => simp [closeEach]
  | cons a rest ih =>
    obtain ⟨ha, hrest⟩ := List.forall_mem_cons.mp h
    have hnext := fun errors => ih errors { r with closings := r.closings ++ a.trace } hrest hr
    rw [closeEach, closeOne_late a r ha hr]
    cases he : a.raises with
    | none => simp [hnext, he]
    | some e => simp [hnext, he, ordinary_raises ha he]

theorem closeHeld_eq (r : ResourceRegistry) (h : ∀ g ∈ r.held, g.resource.IsHandled) :
    r.closeHeld = (Failure.gather (r.held.reverse.filterMap (·.resource.raises)),
      { held := [], isClosed := true,
        closings := r.closings ++ r.held.reverse.flatMap (·.resource.trace) }) := by
  rw [closeHeld, closeEach_late _ _ { r with held := [], isClosed := true } (fun a ha => ?_) rfl]
  · simp only [List.nil_append, List.filterMap_map, List.flatMap_map, Function.comp_def]
  · obtain ⟨g, hg, rfl⟩ := List.mem_map.mp ha
    exact h g (List.mem_reverse.mp hg)

/-- A registry that is open only takes what it is given. -/
theorem addEach_open (resources : List Resource) (hr : r.isClosed = false) :
    addEach resources r =
      (none, { r with held := r.held ++ resources.map fun a => { resource := a } }) := by
  induction resources generalizing r with
  | nil => simp [addEach]
  | cons a rest ih =>
    have hn : ¬ r.isClosed = true := by simp [hr]
    rw [addEach, addWith, if_neg hn]
    dsimp only
    rw [ih (by exact hr)]
    simp

/-- An open registry takes all the resources of a list. One that has closed closes them on
the spot up to the first that fails, raises that failure, and does nothing about those behind
it: it closes them all exactly if none but the last fails. -/
theorem addAll_attempts (r : ResourceRegistry) (resources : List (Option Resource))
    (h : ∀ a, some a ∈ resources → a.IsHandled) :
    (r.isClosed = false → r.addAll resources =
      (none,
        { r with held := r.held ++ (resources.filterMap id).map fun a => { resource := a } })) ∧
    (r.isClosed = true → ∃ tried left, resources.filterMap id = tried ++ left ∧
      r.addAll resources =
        (raisesEach tried, { r with closings := r.closings ++ tried.flatMap trace }) ∧
      (∀ a ∈ tried.dropLast, a.raises = none) ∧
      (left ≠ [] → ∃ a, tried.getLast? = some a ∧ a.raises.isSome = true) ∧
      (left = [] ↔ ∀ a ∈ (resources.filterMap id).dropLast, a.raises = none)) := by
  refine ⟨addEach_open _, fun hr => ?_⟩
  have hh : AreHandled (resources.filterMap id) :=
    areHandled_iff.mpr fun a ha => h a (by simpa using ha)
  obtain ⟨left, he, hnone, hlast⟩ := attempted_split (resources.filterMap id)
  refine ⟨attempted (resources.filterMap id), left, he, ?_, hnone, hlast, ?_⟩
  · rw [addAll, addEach_late _ r hh hr, traceEach_eq, raisesEach_attempted]
  · rw [← attempted_eq_iff]
    constructor
    · intro hl
      rw [hl, List.append_nil] at he
      exact he.symm
    · intro ha
      rw [ha] at he
      exact List.self_eq_append_right.mp he

/-- A resource that fails to close. -/
def failing : Resource := .mk "bad" (some (.raised "ValueError" "x")) []

def lasting : Resource := .mk "good" none []

/-- Of two late resources, the second is not heard of when the first fails. -/
theorem addAll_attempts_failing :
    (∀ a, some a ∈ [some failing, none, some lasting] → a.IsHandled) ∧
    addAll [some failing, none, some lasting] { isClosed := true } =
      (some (.closing [.raised "ValueError" "x"] true), { isClosed := true, closings := ["bad"] }) ∧
    ∃ tried left, [failing, lasting] = tried ++ left ∧ left ≠ [] := by
  have hh : ∀ a, some a ∈ [some failing, none, some lasting] → a.IsHandled := by
    intro a ha
    obtain rfl | rfl : a = failing ∨ a = lasting := by simpa using ha
    · rw [failing, IsHandled]
      exact ⟨fun e he => by cases he; rfl, trivial⟩
    · rw [lasting, IsHandled]
      exact ⟨fun e he => (by cases he), trivial⟩
  obtain ⟨tried, left, he, -, -, -, hl⟩ :=
    (addAll_attempts { isClosed := true } [some failing, none, some lasting] hh).2 rfl
  refine ⟨hh, rfl, tried, left, he, fun h => ?_⟩
  have hf : failing.raises = none := hl.mp h failing (by simp)
  cases hf

end ResourceRegistry

end HotReload
