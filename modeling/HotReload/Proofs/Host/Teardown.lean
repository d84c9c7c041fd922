import HotReload.Proofs.Host.Running
import HotReload.Proofs.Host.Termination
import HotReload.Proofs.Resource.Closing

/-!
# Tearing an instance down

What a termination does, to the letter: what it releases, closes and drops, in which order, what it
logs of that and what it answers. Each of its stages touches the instance, the engine, the counts or
the journal, and none raises anything as long as closing resources fails with what is handled.
-/
namespace HotReload

theorem Journal.append_append (j k l : Journal) :
    (j.append k).append l = j.append (k.append l) := by
  simp [Journal.append]

theorem Journal.append_empty (j : Journal) : j.append ⟨[], []⟩ = j := by
  simp [Journal.append]

theorem Journal.append_event (j : Journal) (event : TraceEvent) :
    j.append ⟨[event], []⟩ = j.record event := by
  simp [Journal.append, Journal.record]

theorem Journal.append_entry (j : Journal) (entry : LogEntry) :
    j.append ⟨[], [entry]⟩ = j.enter entry := by
  simp [Journal.append, Journal.enter]

namespace ResourceRegistry

/-- The names of what is closed when everything held is closed, the last first. -/
def names (r : ResourceRegistry) : List String := r.held.reverse.flatMap (·.resource.trace)

/-- What closing everything held meets. -/
def failures (r : ResourceRegistry) : List Failure := r.held.reverse.filterMap (·.resource.raises)

/-- A registry that has closed everything it held. -/
def emptied (r : ResourceRegistry) : ResourceRegistry :=
  { isClosed := true, closings := r.closings ++ r.names }

theorem failures_eq_nil_iff (r : ResourceRegistry) :
    r.failures = [] ↔ ∀ g ∈ r.held, g.resource.raises = none := by
  simp [failures, List.filterMap_eq_nil_iff]

theorem handled_of_held {r : ResourceRegistry} (h : ∀ g ∈ r.held, g.resource.IsHandled) :
    ∀ a ∈ r.held.reverse.map (·.resource), a.IsHandled := by
  intro a ha
  obtain ⟨g, hg, rfl⟩ := List.mem_map.mp ha
  exact h g (List.mem_reverse.mp hg)

end ResourceRegistry

namespace World

open Operation

/-- What happens to a world around one instance. -/
structure Touch where
  script : Script → Script := id
  engine : Engine → Engine := id
  claims : ClaimCounts → ClaimCounts := id
  events : List TraceEvent := []
  entries : List LogEntry := []

namespace Touch

/-- A world of which an instance was touched. -/
def on (t : Touch) (n : Nat) (w : World) : World :=
  { w with
    scripts := w.scripts.modify n t.script, engine := t.engine w.engine, claims := t.claims w.claims
    journal := w.journal.append ⟨t.events, t.entries⟩ }

def andThen (t u : Touch) : Touch where
  script := u.script ∘ t.script
  engine := u.engine ∘ t.engine
  claims := u.claims ∘ t.claims
  events := t.events ++ u.events
  entries := t.entries ++ u.entries

variable {t u : Touch} {n : Nat} {w : World} {s : Script}

theorem on_on : u.on n (t.on n w) = (t.andThen u).on n w := by
  simp only [on, andThen, List.modify_modify_eq, Journal.append_append]
  rfl

theorem script?_on (hs : w.script? n = some s) : (t.on n w).script? n = some (t.script s) :=
  (script?_modify w n t.script n).trans (by rw [if_pos rfl, hs]; rfl)

theorem modify_eq (f : Script → Script) (n : Nat) (w : World) :
    { w with scripts := w.scripts.modify n f } = on { script := f } n w := by
  simp only [on, Journal.append_empty, id]

theorem enter_eq (entry : LogEntry) (n : Nat) (w : World) :
    { w with journal := w.journal.enter entry } = on { entries := [entry] } n w := by
  simp only [on, List.modify_id, Journal.append_entry, id]

theorem record_eq (event : TraceEvent) (n : Nat) (w : World) :
    { w with journal := w.journal.record event } = on { events := [event] } n w := by
  simp only [on, List.modify_id, Journal.append_event, id]

end Touch

variable {w w' : World} {n : Nat} {s : Script}

/-- What an operation comes to that answers nothing and raises one failure or none. -/
def outcome (failure : Option Failure) : Except Failure Unit := failure.elim (.ok ()) .error

/-! What the stages do, one after the other. -/

/-- The paths that an instance passes on to be released. -/
def passedOn (s : Script) (w : World) : List Path := (disclaimed s w).2

/-- What passing those paths on raises. -/
def rejection? (s : Script) (w : World) : Option Failure :=
  match w.claimTarget with
  | .counted => w.circleAmong? (passedOn s w)
  | .recorded _ true =>
    if passedOn s w = [] then none else some (.raised "RuntimeError" "parent refused unwatch")
  | .recorded _ false => none

/-- What the release of an instance's paths raises: the form of one of them cannot be
found, or it is rejected. -/
def refusal? (s : Script) (w : World) : Option Failure :=
  (w.circleAmong? s.claims.paths).or (rejection? s w)

def releasing (s : Script) (w : World) : Touch where
  script t := { t with claims := leftover s w }
  claims counts :=
    match w.claimTarget with
    | .counted => counts.releaseAll ((w.reachable (passedOn s w)).map w.canonical)
    | .recorded _ _ => counts
  events :=
    match w.claimTarget with
    | .counted => []
    | .recorded _ _ => if passedOn s w = [] then [] else [.requested (.unwatch (passedOn s w))]

theorem releaseAll_eq (paths : List Path) (n : Nat) (w : World) :
    releaseAll paths w = (outcome (w.circleAmong? paths),
    Touch.on { claims := (·.releaseAll ((w.reachable paths).map w.canonical)) } n w) := by
  have hon : Touch.on { claims := (·.releaseAll ((w.reachable paths).map w.canonical)) } n w =
      { w with claims := w.claims.releaseAll ((w.reachable paths).map w.canonical) } := by
    simp only [Touch.on, List.modify_id, Journal.append_empty, id]
  have hcircle : (Touch.on { claims := (·.releaseAll ((w.reachable paths).map w.canonical)) } n
      w).circleAmong? paths = w.circleAmong? paths := rfl
  rw [releaseAll, modify_bind, ← hon, checkForms, get_bind, hcircle]
  cases w.circleAmong? paths <;> rfl

/-- What an instance passes on goes to where claims go. -/
theorem requestAny_passedOn (s : Script) (n : Nat) (w : World) :
    requestAny (ScopedClaims.unwatchRequest? (passedOn s w)) w = (outcome (rejection? s w),
      Touch.on { claims := (releasing s w).claims, events := (releasing s w).events } n w) := by
  cases ht : w.claimTarget with
  | counted =>
    have hall := releaseAll_eq (passedOn s w) n w
    by_cases hp : passedOn s w = []
    · simp only [rejection?, releasing, ht, ← hall]
      rw [hp]
      rfl
    · rw [ScopedClaims.unwatchRequest?, if_neg (by simpa using hp), requestAny, request, get_bind]
      simpa only [rejection?, releasing, ht] using hall
  | recorded refusesWatch refuses =>
    by_cases hp : passedOn s w = []
    · have hon : Touch.on {} n w = w := by
        simp only [Touch.on, List.modify_id, Journal.append_empty, id]
      have hnone : rejection? s w = none := by cases refuses <;> simp [rejection?, ht, hp]
      rw [hnone]
      simp only [releasing, ht, hp, if_true]
      exact congrArg (Prod.mk _) hon.symm
    · rw [ScopedClaims.unwatchRequest?, if_neg (by simpa using hp), requestAny, request,
        get_bind, ht]
      simp only [rejection?, releasing, ht, if_neg hp]
      cases refuses with
      | false => exact congrArg (Prod.mk _) (Touch.record_eq ..)
      | true =>
        rw [if_pos rfl, record, modify_bind, Touch.record_eq _ n]
        rfl

theorem scriptUnwatchAll_eq (hs : w.script? n = some s) :
    scriptUnwatchAll n w = (outcome (refusal? s w), (releasing s w).on n w) := by
  rw [scriptUnwatchAll, bind_of_ok (script_of_some hs), refusal?]
  cases hc : w.circleAmong? s.claims.paths with
  | some e =>
    have hdisclaimed := disclaimed_of_some hc
    have hpassed : passedOn s w = [] := by rw [passedOn, hdisclaimed]
    have hon : (releasing s w).on n w = w := by
      have hsame : w.scripts.modify n (releasing s w).script = w.scripts := by
        refine modify_scripts_eq hs ?_
        simp only [releasing, leftover, hdisclaimed]
      have hclaims : (releasing s w).claims w.claims = w.claims := by
        simp only [releasing, hpassed]
        cases w.claimTarget <;> rfl
      have hevents : (releasing s w).events = [] := by
        simp only [releasing, hpassed]
        cases w.claimTarget <;> rfl
      rw [Touch.on, hsame, hclaims, hevents]
      exact congrArg (fun journal => { w with journal }) (Journal.append_empty _)
    rw [scriptUnwatch_of_some hs hc, hon]
    rfl
  | none =>
    rw [scriptUnwatch_of_none hs hc, ← disclaimed_of_none hc]
    let listing : Touch := { script := ({ · with claims := leftover s w }) }
    have hlisted : { w with scripts := w.scripts.modify n ({ · with claims := leftover s w }) } =
      listing.on n w :=
      Touch.modify_eq ..
    show requestAny (ScopedClaims.unwatchRequest? (passedOn s w))
      { w with scripts := w.scripts.modify n ({ · with claims := leftover s w }) } = _
    rw [hlisted]
    refine (requestAny_passedOn s n (listing.on n w)).trans ?_
    rw [Touch.on_on]
    rfl

/-- What an operation raised and was handled, as it is logged. -/
def complaint (event : String) (s : Script) (failure : Option Failure) : Touch where
  entries := failure.toList.map fun e =>
    .ofComponent "Script" .error event [("path", .text s.path.toText), LogEntry.attached e]

theorem cleanly_eq {t : Touch} {event : String} {action : Act Unit} {failure : Option Failure}
    (h : action w = (outcome failure, t.on n w)) (ho : ∀ e, failure = some e → Ordinary e) :
    cleanly event s.path action w =
      (.ok failure.isNone, (t.andThen (complaint event s failure)).on n w) := by
  rw [← Touch.on_on]
  cases failure with
  | none =>
    rw [cleanly, bind_of_ok (World.attempt_of_ok h)]
    simp [complaint, Touch.on, Journal.append_empty]
    rfl
  | some e =>
    have ha := World.attempt_of_handled h (ho e rfl)
    rw [cleanly, bind_of_ok ha]
    simp [complaint, ← Touch.enter_eq]
    rfl

theorem forM_record {α : Type} (event : α → TraceEvent) (as : List α) (n : Nat) (w : World) :
    (as.forM fun a => record (event a)) w = (.ok (), Touch.on { events := as.map event } n w) := by
  induction as generalizing w with
  | nil => simp [Touch.on, Journal.append_empty]; rfl
  | cons a as ih =>
    rw [List.forM, record, modify_bind, ih, Touch.record_eq (event a) n w, Touch.on_on]
    rfl

theorem forM_enter {α : Type} (entry : α → LogEntry) (as : List α) (n : Nat) (w : World) :
    (as.forM fun a => enter (entry a)) w = (.ok (), Touch.on { entries := as.map entry } n w) := by
  induction as generalizing w with
  | nil => simp [Touch.on, Journal.append_empty]; rfl
  | cons a as ih =>
    rw [List.forM, enter, modify_bind, ih, Touch.enter_eq (entry a) n w, Touch.on_on]
    rfl

/-- What a resource failed with when it was closed, as it is logged. -/
def closeComplaint (s : Script) (e : Failure) : LogEntry :=
  .ofComponent "Script" .error "script_resource_close_failed"
    [("path", .text s.path.toText), ("error", .text e.literal)]

/-- What is logged of the failures of closings: nothing if they cannot be put together. -/
def closeComplaints (s : Script) : List LogEntry :=
  match Failure.gather s.resources.failures with
  | .ok errors => errors.map (closeComplaint s)
  | .error _ => []

def closing (s : Script) : Touch where
  script t := { t with resources := s.resources.emptied }
  events := s.resources.names.map .closed
  entries := closeComplaints s

/-- Once the resources of an instance are closed, their failures are logged, if
they can be put together. -/
theorem forM_closeComplaint (s : Script) (n : Nat) (w : World) :
    (do let errors ← liftExcept (Failure.gather s.resources.failures)
        errors.forM fun e => enter (closeComplaint s e)
        return errors.isEmpty : Act Bool) w =
      ((Failure.gather s.resources.failures).map List.isEmpty,
        Touch.on { entries := closeComplaints s } n w) := by
  cases hg : Failure.gather s.resources.failures with
  | error fault =>
    have hon : Touch.on { entries := closeComplaints s } n w = w := by
      simp only [closeComplaints, hg, Touch.on, List.modify_id, Journal.append_empty, id]
    rw [hon]
    rfl
  | ok errors =>
    simp only [closeComplaints, hg]
    exact bind_of_ok (forM_enter (closeComplaint s) errors n w) _

theorem closeSilently_eq (hs : w.script? n = some s)
    (hr : ∀ g ∈ s.resources.held, g.resource.IsHandled) :
    closeSilently n w = ((Failure.gather s.resources.failures).map List.isEmpty,
      (closing s).on n w) := by
  have hdrop : s.resources.emptied.closings.drop s.resources.closings.length = s.resources.names :=
    List.drop_left
  have hset : setResources n s.resources s.resources.emptied w = (.ok (), Touch.on
      { script := ({ · with resources := s.resources.emptied }),
        events := s.resources.names.map .closed } n w) := by
    rw [setResources, updateScript, modify_bind, hdrop, forM_record _ _ n, Touch.modify_eq,
      Touch.on_on]
    rfl
  rw [closeSilently, bind_of_ok (script_of_some hs), ResourceRegistry.closeHeld_eq _ hr]
  show (setResources n s.resources s.resources.emptied >>= _) w = _
  rw [bind_of_ok hset]
  refine (forM_closeComplaint s n _).trans ?_
  rw [Touch.on_on]
  simp only [Touch.andThen, List.append_nil]
  rfl

/-- What the release of an instance's context raises. -/
def releaseFault? (s : Script) (w : World) : Option Failure :=
  if w.releaseFaults.contains s.path then
    some (.raised "RuntimeError" ("release of " ++ s.path.toText)) else none

def dropping (n : Nat) (s : Script) : Touch where
  engine e := e.release s.path n
  events := [.release n s.path]

theorem releaseContext_eq (hs : w.script? n = some s) :
    releaseContext n w = (outcome (releaseFault? s w), (dropping n s).on n w) := by
  have hw : { w with journal := w.journal.record (.release n s.path),
                     engine := w.engine.release s.path n } =
      (dropping n s).on n w := by
    simp only [dropping, Touch.on, List.modify_id, Journal.append_event, id]
  rw [releaseContext, bind_of_ok (script_of_some hs), record, modify_bind, modify_bind, get_bind,
    ← hw, releaseFault?]
  show (if w.releaseFaults.contains s.path = true then _ else _ : Act Unit) _ = _
  split <;> rfl

/-! The termination as a whole. -/

/-- What the release of the context of an instance fails with, if the instance was ever run. -/
def contextFault? (s : Script) (w : World) : Option Failure :=
  if s.hasContext then releaseFault? s w else none

/-- What a termination does that finds an instance not yet over and comes to its end. -/
def teardown (n : Nat) (s : Script) (w : World) : Touch where
  script t :=
    { t with state := .terminated, claims := leftover s w, resources := s.resources.emptied }
  engine := if s.hasContext then (·.release s.path n) else id
  claims := (releasing s w).claims
  events := (releasing s w).events ++ s.resources.names.map .closed ++ if s.hasContext then
    [.release n s.path] else []
  entries :=
    (complaint "script_unwatch_failed" s (refusal? s w)).entries ++ s.resources.failures.map
      (closeComplaint s) ++
      (complaint "script_release_failed" s (contextFault? s w)).entries

/-- Whether nothing fails in the termination of an instance. -/
def endsCleanly (s : Script) (w : World) : Bool :=
  (refusal? s w).isNone && s.resources.failures.isEmpty && (contextFault? s w).isNone

theorem endsCleanly_eq_false_iff : endsCleanly s w = false ↔ (refusal? s w).isSome ∨
    (∃ g ∈ s.resources.held, g.resource.raises.isSome) ∨ s.hasContext ∧
      (releaseFault? s w).isSome := by
  have hcontext : (contextFault? s w).isNone = false ↔ s.hasContext = true ∧
    (releaseFault? s w).isSome = true := by
    rw [contextFault?]
    split <;> simp_all [Option.isSome_iff_ne_none]
  have hfailures : s.resources.failures.isEmpty = false ↔ ∃ g ∈ s.resources.held,
    g.resource.raises.isSome = true := by
    rw [← Bool.not_eq_true, List.isEmpty_iff, ResourceRegistry.failures_eq_nil_iff]
    simp [Option.isSome_iff_ne_none]
  have hrefusal : (refusal? s w).isNone = false ↔ (refusal? s w).isSome = true := by simp
  rw [endsCleanly, Bool.and_eq_false_iff, Bool.and_eq_false_iff, hcontext, hfailures, hrefusal,
    or_assoc]

/-- A path stays listed if it is not the canonical form of a listed path, or if that of one of
them cannot be found. -/
theorem mem_leftover {p : Path} (hn : s.claims.paths.Nodup) : p ∈ (leftover s w).paths ↔
    p ∈ s.claims.paths ∧
      (w.circleAmong? s.claims.paths = none → ∀ q ∈ s.claims.paths, w.canonical q ≠ p) := by
  cases hc : w.circleAmong? s.claims.paths with
  | some e =>
    rw [leftover, disclaimed_of_some hc]
    simp
  | none =>
    rw [leftover, disclaimed_of_none hc, ScopedClaims.mem_unwatch hn]
    simp

/-- A termination in which the resources of the instance are closed by a given operation. -/
def terminateBy (close : Act Bool) (n : Nat) : Act Bool := do
  let s ← script n
  if s.isOver then return true
  updateScript n ({ · with state := .terminating })
  let unwatched ← cleanly "script_unwatch_failed" s.path (scriptUnwatchAll n)
  let closed ← close
  let released ←
    if (← script n).hasContext then cleanly "script_release_failed" s.path (releaseContext n)
    else pure true
  updateScript n ({ · with state := .terminated })
  return unwatched && closed && released

theorem terminateBy_closeSilently (n : Nat) : terminateBy (closeSilently n) n = terminate n := rfl

theorem ordinary_refusal {e : Failure} (h : refusal? s w = some e) : Ordinary e := by
  have hcircle {paths : List Path} (hc : w.circleAmong? paths = some e) : Ordinary e := by
    obtain ⟨argument, rfl⟩ := circleAmong?_failure hc
    rfl
  rcases Option.or_eq_some_iff.mp h with hc | ⟨-, hr⟩
  · exact hcircle hc
  · rw [rejection?] at hr
    split at hr
    · exact hcircle hr
    · split at hr <;> cases hr
      rfl
    · cases hr

theorem ordinary_releaseFault {e : Failure} (h : releaseFault? s w = some e) : Ordinary e := by
  rw [releaseFault?] at h
  split at h <;> cases h
  rfl

/-- What a termination has done before the resources are closed. -/
def unlisting (s : Script) (w : World) : Touch :=
  ({ script := ({ · with state := .terminating }) } : Touch).andThen
    ((releasing s w).andThen (complaint "script_unwatch_failed" s (refusal? s w)))

theorem cleanly_unlisting (hs : w.script? n = some s) :
    cleanly "script_unwatch_failed" s.path (scriptUnwatchAll n) (w.turned n .terminating) =
      (.ok (refusal? s w).isNone, (unlisting s w).on n w) := by
  rw [unlisting, ← Touch.on_on, turned, Touch.modify_eq]
  exact cleanly_eq
    (scriptUnwatchAll_eq (s := { s with state := .terminating }) (Touch.script?_on hs))
    fun e => ordinary_refusal

/-- What a termination does that is given up once the resources of the instance are closed. -/
def surrender (s : Script) (w : World) : Touch := (unlisting s w).andThen (closing s)

/-- What a termination comes to that finds an instance not yet over. -/
def torn (n : Nat) (s : Script) (w : World) : Except Failure Bool × World :=
  match Failure.gather s.resources.failures with
  | .ok _ => (.ok (endsCleanly s w), (teardown n s w).on n w)
  | .error fault => (.error fault, (surrender s w).on n w)

/-- It is enough to know what closing the resources does while the instance is terminating. -/
theorem terminateBy_eq {close : Act Bool} (hs : w.script? n = some s) (ho : s.isOver = false)
    (hclose : ∀ v, v.script? n = some { s with state := .terminating, claims := leftover s w } →
      close v = ((Failure.gather s.resources.failures).map List.isEmpty, (closing s).on n v)) :
    terminateBy close n w = torn n s w := by
  have hclosed := hclose ((unlisting s w).on n w) (Touch.script?_on hs)
  rw [terminateBy, bind_of_ok (script_of_some hs), if_neg (by rw [ho]; decide), updateScript,
    modify_bind]
  refine (bind_of_ok (cleanly_unlisting hs) _).trans ?_
  rw [torn]
  cases hg : Failure.gather s.resources.failures with
  | error fault =>
    rw [hg] at hclosed
    rw [bind_of_error hclosed, Touch.on_on]
    rfl
  | ok errors =>
    obtain rfl := Failure.gather_ok hg
    have hcomplaints : closeComplaints s = s.resources.failures.map (closeComplaint s) := by
      rw [closeComplaints, hg]
    rw [hg] at hclosed
    rw [bind_of_ok hclosed, Touch.on_on, bind_of_ok (script_of_some (Touch.script?_on hs))]
    -- The stages so far are one touch; with those that follow it is the whole teardown.
    let done := (unlisting s w).andThen (closing s)
    let finishing : Touch := { script := ({ · with state := .terminated }) }
    have hfinish (t : Touch) (released : Bool) :
        (do updateScript n ({ · with state := .terminated })
            return (refusal? s w).isNone && s.resources.failures.isEmpty && released :
              Act Bool) (t.on n w) =
          (.ok ((refusal? s w).isNone && s.resources.failures.isEmpty && released),
            (t.andThen finishing).on n w) := by
      rw [updateScript, modify_bind, Touch.modify_eq, Touch.on_on]
      rfl
    show (if s.hasContext = true then cleanly "script_release_failed" s.path (releaseContext n) >>=
      _ else _ : Act Bool)
      (done.on n w) = _
    by_cases hc : s.hasContext = true
    · let dropped :=
        (dropping n s).andThen (complaint "script_release_failed" s (releaseFault? s w))
      have hrelease : cleanly "script_release_failed" s.path (releaseContext n) (done.on n w) =
          (.ok (releaseFault? s w).isNone, dropped.on n (done.on n w)) :=
        cleanly_eq (releaseContext_eq (s := done.script s) (Touch.script?_on hs)) fun e =>
          ordinary_releaseFault
      have hall : (done.andThen dropped).andThen finishing = teardown n s w := by
        simp [done, unlisting, dropped, finishing, Touch.andThen, teardown, complaint, closing,
          releasing, dropping, contextFault?, hc, hcomplaints]
        rfl
      rw [if_pos hc, bind_of_ok hrelease, Touch.on_on, endsCleanly, contextFault?,
        if_pos hc, ← hall]
      exact hfinish _ _
    · have hall : done.andThen finishing = teardown n s w := by
        simp [done, unlisting, finishing, Touch.andThen, teardown, complaint, closing, releasing,
          contextFault?, hc, hcomplaints]
        rfl
      rw [if_neg hc, pure_bind, endsCleanly, contextFault?, if_neg hc, ← hall]
      exact hfinish _ _

theorem terminate_eq (hs : w.script? n = some s) (ho : s.isOver = false)
    (hr : ∀ g ∈ s.resources.held, g.resource.IsHandled) :
    terminate n w = torn n s w := by
  rw [← terminateBy_closeSilently]
  exact terminateBy_eq hs ho fun _ hv =>
    closeSilently_eq (s := { s with state := .terminating, claims := leftover s w }) hv hr

/-- An instance that is over is not terminated again. -/
theorem terminate_of_over (hs : w.script? n = some s) (ho : s.isOver = true) :
    terminate n w = (.ok true, w) := by
  rw [terminate, bind_of_ok (script_of_some hs), if_pos ho]
  rfl

end World

end HotReload
