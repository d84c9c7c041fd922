import HotReload.Proofs.Host.Locality

/-!
# What a termination comes to

An instance that was terminated lists what is left once it has released all that it listed, its
resources are closed, and the engine keeps nothing for it if it has ever run. The counts and the
journal apart, nothing else is touched. Where a closer raises what has no literal the termination is
given up, with the resources closed and the context kept.
-/
namespace HotReload.World

open Operation

/-- What a world is once one instance was changed, the engine has kept or dropped something, and the
counts are what they should be; no script was started. -/
structure Altered (n : Nat) (f : Script → Script) (engine : Engine) (counts : ClaimCounts)
    (w w' : World) :
    Prop where
  frame : w' = { w with scripts := w.scripts.modify n f, engine, claims := w'.claims,
                        journal := w'.journal }
  counts : w.claimTarget = .counted → w'.claims = counts
  executed : w'.journal.executed = w.journal.executed

variable {w w' w'' : World} {n : Nat} {s : Script} {f : Script → Script} {engine : Engine}
  {counts : ClaimCounts}
  {E : Failure → Prop} {R : Regime}

theorem altered_modify (f : Script → Script) (n : Nat) (w : World) :
    Altered n f w.engine w.claims w { w with scripts := w.scripts.modify n f } :=
  ⟨rfl, fun _ => rfl, rfl⟩

namespace Altered

theorem script? (h : Altered n f engine counts w w') (hs : w.script? n = some s) :
    w'.script? n = some (f s) := by
  rw [World.script?, h.frame]
  exact (script?_modify w n f n).trans (by rw [if_pos rfl, hs]; rfl)

theorem others (h : Altered n f engine counts w w') {k : Nat} (hk : n ≠ k) :
    w'.script? k = w.script? k := by
  rw [World.script?, h.frame]
  exact (script?_modify w n f k).trans (if_neg hk)

theorem length (h : Altered n f engine counts w w') : w'.scripts.length = w.scripts.length := by
  rw [h.frame]
  exact List.length_modify ..

theorem trans {g : Script → Script} {engine' : Engine} {counts' : ClaimCounts}
    (h : Altered n f engine counts w w') (h' : Altered n g engine' counts' w' w'') :
    Altered n (g ∘ f) engine' counts' w w'' where
  frame := by rw [h'.frame, h.frame, List.modify_modify_eq]
  counts ht := h'.counts (by rw [h.frame]; exact ht)
  executed := h'.executed.trans h.executed

theorem modify (h : Altered n f engine counts w w') (g : Script → Script) :
    Altered n (g ∘ f) engine counts w { w' with scripts := w'.scripts.modify n g } where
  frame := by rw [h.frame, List.modify_modify_eq]
  counts := h.counts
  executed := h.executed

theorem journal (h : Altered n f engine counts w w') {j : Journal}
    (hj : j.executed = w'.journal.executed) :
    Altered n f engine counts w { w' with journal := j } where
  frame := by rw [h.frame]
  counts := h.counts
  executed := hj.trans h.executed

theorem drops (h : Altered n f engine counts w w') (engine' : Engine) :
    Altered n f engine' counts w { w' with engine := engine' } where
  frame := by rw [h.frame]
  counts := h.counts
  executed := h.executed

theorem keeps_enter (entry : LogEntry) : Keeps (Altered n f engine counts w) E (enter entry) :=
  keeps_modify fun _ h => h.journal rfl

theorem recorded (h : Altered n f engine counts w w') {event : TraceEvent}
    (he : event.executed? = none) :
    Altered n f engine counts w { w' with journal := w'.journal.record event } :=
  h.journal (by rw [Journal.executed_record, he, Option.toList_none, List.append_nil])

/-- What an operation raises is only logged. -/
theorem ends_cleanly {event : String} {path : Path} {action : Act Unit}
    (h : Ends (Altered n f engine counts w) Ordinary (action w')) :
    Ends (Altered n f engine counts w) E (cleanly event path action w') := by
  refine Ends.bind (ends_attempt (E := E) h fun e he => Or.inl he) fun result => ?_
  cases result with
  | ok _ => exact keeps_pure true
  | error e => exact (keeps_enter _).bind fun _ => keeps_pure false

end Altered

/-- What an instance lists once it has released all that it lists. -/
def leftover (s : Script) (w : World) : ScopedClaims := (disclaimed s w).1

theorem leftover_subset (s : Script) (w : World) : (leftover s w).paths ⊆ s.claims.paths := by
  cases hc : w.circleAmong? s.claims.paths with
  | some e =>
    rw [leftover, disclaimed_of_some hc]
    exact List.Subset.refl _
  | none =>
    rw [leftover, disclaimed_of_none hc]
    exact ScopedClaims.unwatch_subset ..

/-- Nothing is left of a list of paths that are their own canonical forms. -/
theorem leftover_of_settled (hn : s.claims.paths.Nodup)
    (h : ∀ p ∈ s.claims.paths, w.form? p = some p) :
    (leftover s w).paths = [] := by
  rw [leftover, disclaimed_of_none (circleAmong?_of_settled h)]
  exact ScopedClaims.unwatch_all hn fun p hp => (form?_eq_some.mp (h p hp)).2

/-- A change that leaves an instance as it is leaves the instances as they are. -/
theorem modify_scripts_eq (hs : w.script? n = some s) (hf : f s = s) :
    w.scripts.modify n f = w.scripts := by
  refine List.ext_getElem? fun k => ?_
  rw [List.getElem?_modify]
  split
  · rename_i hk
    subst hk
    have hget : w.scripts[n]? = some s := hs
    rw [hget]
    exact congrArg some hf
  · cases w.scripts[k]? <;> rfl

/-- Releasing everything that an instance lists concerns its list and the counts. -/
theorem ends_scriptUnwatchAll (hs : w.script? n = some s) :
    Ends (Altered n ({ · with claims := leftover s w }) w.engine (closings s w) w) Ordinary
      (scriptUnwatchAll n w) := by
  rw [scriptUnwatchAll, bind_of_ok (script_of_some hs)]
  cases hc : w.circleAmong? s.claims.paths with
  | some e =>
    obtain ⟨argument, rfl⟩ := circleAmong?_failure hc
    have hsame : w.scripts.modify n ({ · with claims := leftover s w }) = w.scripts := by
      refine modify_scripts_eq hs ?_
      rw [leftover, disclaimed_of_some hc]
    rw [scriptUnwatch_of_some hs hc]
    refine ends_error ⟨?_, fun _ => ?_, rfl⟩ ?_
    · rw [hsame]
    · rw [closings, disclaimed_of_some hc]
      rfl
    · exact ordinary_of_isClaimFailure ⟨_, _, rfl, Or.inr rfl⟩
  | none =>
    have hrelease := ends_scriptUnwatch n s.claims.paths w
    have hleft : leftover s w = (s.claims.unwatch (s.claims.paths.map w.canonical)).1 := by
      rw [leftover, disclaimed_of_none hc]
    refine ⟨⟨?_, fun ht => ?_, Journal.executed_of_lives hrelease.1.lives⟩, fun e he =>
      ordinary_of_isClaimFailure (hrelease.2 e he)⟩
    · obtain ⟨hf, -⟩ := (keeps_requestAny
        (ScopedClaims.unwatchRequest? (s.claims.unwatch (s.claims.paths.map w.canonical)).2)
        { w with scripts := w.scripts.modify n ({ · with claims := leftover s w }) } ⟨rfl, rfl⟩).1
      rw [scriptUnwatch_of_none hs hc, ← hleft]
      exact hf
    · rw [scriptUnwatch_eq hs ht hc, closings, disclaimed_of_none hc]

/-- Closing what an instance holds leaves its registry closed and empty. -/
theorem ends_closeSilently (h : Altered n f engine counts w w') (hs : w.script? n = some s)
    (ht : (f s).resources.IsTame R) :
    Ends (fun w'' => ∃ resources : ResourceRegistry, resources.IsSealed ∧
      Altered n (({ · with resources }) ∘ f) engine counts w w'') R.GivesUp
        (closeSilently n w') := by
  obtain ⟨result, resources, hc, hsealed, hfault⟩ := ResourceRegistry.closeHeld_tame ht
  rw [closeSilently, bind_of_ok (script_of_some (h.script? hs)), hc]
  refine Ends.imp (I := Altered n (({ · with resources }) ∘ f) engine counts w) ?_ fun w'' h'' =>
    ⟨resources, hsealed, h''⟩
  have hset : Ends (Altered n (({ · with resources }) ∘ f) engine counts w) R.GivesUp
      (setResources n (f s).resources resources w') :=
    Ends.bind (ends_ok (h.modify ({ · with resources }))) fun _ => keeps_forM fun _ _ =>
      keeps_modify fun _ h => h.recorded rfl
  refine hset.bind fun _ => (keeps_liftExcept fun e he => ?_).bind fun errors => ?_
  · obtain ⟨hh, ha⟩ := hfault e he
    exact ⟨hh.ordinary, ha⟩
  · exact (keeps_forM fun e _ => Altered.keeps_enter _).bind fun _ => keeps_pure _

theorem ends_releaseContext (h : Altered n f engine counts w w') (hs : w.script? n = some s)
    (hp : (f s).path = s.path) :
    Ends (Altered n f (engine.release s.path n) counts w) Ordinary (releaseContext n w') := by
  have he : w'.engine = engine := by rw [h.frame]
  have hw : Altered n f (engine.release s.path n) counts w
      { w' with journal := w'.journal.record (.release n s.path),
                engine := w'.engine.release s.path n } := by
    rw [he]
    exact (h.recorded rfl).drops (engine.release s.path n)
  rw [releaseContext, bind_of_ok (script_of_some (h.script? hs)), hp, record, modify_bind,
    modify_bind, get_bind]
  split
  · refine keeps_throw ?_ _ hw
    rfl
  · exact keeps_pure _ _ hw

/-- What has become of a world in which an instance was relieved of what it listed and
held, and left in a state. -/
def Unburdened (n : Nat) (s : Script) (state : ScriptState) (engine : Engine) (w w' : World) :
    Prop :=
  ∃ resources : ResourceRegistry, resources.IsSealed ∧
    Altered n ({ · with state, claims := leftover s w, resources }) engine (closings s w) w w'

/-- What has become of a world in which an instance was terminated that was not over. -/
def Ended (n : Nat) (s : Script) (w w' : World) : Prop :=
  Unburdened n s .terminated (if s.hasContext then w.engine.release s.path n else w.engine) w w'

/-- What has become of it if the termination was given up. -/
def Abandoned (n : Nat) (s : Script) (w w' : World) : Prop :=
  Unburdened n s .terminating w.engine w w'

/-- A termination comes to its end, or is given up with a failure. -/
theorem ends_ended (ht : s.resources.IsTame R) (hs : w.script? n = some s) (ho : s.isOver = false) :
    Ends (fun w' => Ended n s w w' ∨ R.abandons ∧ Abandoned n s w w') R.GivesUp
      (terminate n w) := by
  let f (claims : ScopedClaims) (t : Script) : Script := { t with state := .terminating, claims }
  have hturned : Altered n ({ · with state := .terminating }) w.engine w.claims w
    (w.turned n .terminating) :=
    altered_modify ({ · with state := .terminating }) n w
  have hunwatch : Ends (Altered n (f (leftover s w)) w.engine (closings s w) w) Ordinary
      (scriptUnwatchAll n (w.turned n .terminating)) :=
    (ends_scriptUnwatchAll (hturned.script? hs)).imp fun w₂ h₂ => hturned.trans h₂
  rw [terminate, bind_of_ok (script_of_some hs), if_neg (by rw [ho]; decide), updateScript,
    modify_bind]
  refine (Altered.ends_cleanly (E := fun _ => False) hunwatch).andThen fun unwatched w₂ h₂ => ?_
  refine (ends_closeSilently h₂ hs ht).bindInto
    (fun e w₃ h₃ he => ⟨Or.inr ⟨he.2, h₃⟩, he⟩) fun closed w₃ h₃ => ?_
  obtain ⟨resources, hsealed, h₃⟩ := h₃
  obtain ⟨s₃, hs₃, hcontext⟩ : ∃ s₃, w₃.script? n = some s₃ ∧ s₃.hasContext = s.hasContext :=
    ⟨_, h₃.script? hs, rfl⟩
  rw [bind_of_ok (script_of_some hs₃)]
  have hfinish {engine : Engine} {w₄ : World}
      (he : engine = if s.hasContext then w.engine.release s.path n else w.engine)
      (h₄ : Altered n (({ · with resources }) ∘ f (leftover s w)) engine (closings s w) w w₄) :
      Ended n s w (w₄.turned n .terminated) := by
    rw [Ended, ← he]
    exact ⟨resources, hsealed, h₄.modify ({ · with state := .terminated })⟩
  by_cases hc : s₃.hasContext = true
  · simp only [if_pos hc]
    have hrelease := ends_releaseContext h₃ hs rfl
    refine (Altered.ends_cleanly (E := fun _ => False) hrelease).andThen fun released w₄ h₄ => ?_
    exact ends_ok (Or.inl (hfinish (if_pos (hcontext ▸ hc)).symm h₄))
  · simp only [if_neg hc]
    exact ends_ok (Or.inl (hfinish (if_neg (hcontext ▸ hc)).symm h₃))

/-- Where every closer raises what has a literal, a termination comes to its end. -/
theorem ends_thorough {E : Failure → Prop} (hR : ¬R.abandons) (ht : s.resources.IsTame R)
    (hs : w.script? n = some s) (ho : s.isOver = false) : Ends (Ended n s w) E (terminate n w) :=
  ((ends_ended ht hs ho).imp fun _ h => h.resolve_right fun ha => hR ha.1).mono fun _ he =>
    absurd he.2 hR

end HotReload.World
