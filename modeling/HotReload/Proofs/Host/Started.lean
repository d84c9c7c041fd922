import HotReload.Proofs.Host.Likeness
import HotReload.Proofs.Host.Traversal

/-!
# A started watch

The first cycle starts the watch, and nothing that the host or its scripts do makes a later cycle
start it again: not what they raise, and not that starting it failed.
-/
namespace HotReload.World

open Operation

/-- Whether a cycle has no watch to start: it was started, or there is none. -/
def IsStarted (w : World) : Prop := w.watch.isSome = true → w.watchStarted = true

variable {w : World} {n : Nat} {s : Script} {α : Type} {host : HostRequest → Act HostAnswer}

theorem ensureWatch_of_started (h : IsStarted w) : ensureWatch w = (.ok (), w) := by
  rw [ensureWatch, get_bind]
  rcases hx : w.watch with _ | x
  · rfl
  · have hs : w.watchStarted = true := h (by rw [hx]; rfl)
    simp only [hs]
    rfl

namespace IsStarted

theorem aside {w' : World} (h : IsStarted w)
    (hw : w'.watch = w.watch ∧ w'.watchStarted = w.watchStarted) :
    IsStarted w' := by
  rw [IsStarted, hw.1, hw.2]
  exact h

theorem turn {x : Watch} (h : IsStarted w) (hx : w.watch = some x) (y : Watch) :
    IsStarted { w with watch := some y } := fun _ => h (by rw [hx]; rfl)

/-! The watch. -/

theorem ends_scripted {d : ScriptedWatch} {x : Watch}
    (act : ScriptedWatch → Except Failure α × ScriptedWatch) (h : IsStarted w)
    (hx : w.watch = some x) : Ends IsStarted anything (scripted d act w) :=
  ⟨h.turn hx _, fun _ _ => trivial⟩

theorem ends_watching {d : DirectoryWatch} {x : Watch} (act : Watching α) (h : IsStarted w)
    (hx : w.watch = some x) :
    Ends IsStarted anything (watching d act w) :=
  ⟨h.turn hx _, fun _ _ => trivial⟩

theorem keeps_log (component : String) (level : LogLevel) (event : String)
    (fields : List (String × Value)) :
    Keeps IsStarted anything (log component level event fields) :=
  keeps_modify fun _ h => h

theorem keeps_ensureWatch : Keeps IsStarted anything ensureWatch := by
  intro w h
  rw [ensureWatch_of_started h]
  exact ends_ok h

theorem keeps_pollChanges : Keeps IsStarted anything pollChanges := by
  have hlift (results : List (Except Failure Change)) :
      Keeps IsStarted anything (results.mapM liftExcept : Act (List Change)) := by
    intro w h
    rcases liftAll_cases (E := anything) w results fun _ _ _ _ =>
      trivial with ⟨hl, -⟩ | ⟨e, hl, -⟩ <;>
      rw [hl]
    · exact ends_ok h
    · exact ends_error h trivial
  refine keeps_get_bind fun w h => ?_
  rcases hx : w.watch with _ | x
  · exact keeps_pure _ w h
  · refine Ends.bind (ends_attempting ?_) fun result => ?_
    · rcases x with d | d
      · exact (ends_scripted _ h hx).bind fun _ => keeps_pure _
      · exact (ends_watching _ h hx).bind fun _ => keeps_pure _
    · cases result with
      | ok changes => exact hlift changes
      | error e => exact (keeps_log _ _ _ _).bind fun _ => keeps_pure _

theorem keeps_rearmWatch : Keeps IsStarted anything rearmWatch := by
  refine keeps_get_bind fun w h => ?_
  rcases hx : w.watch with _ | x
  · exact keeps_pure _ w h
  · refine Ends.bind (ends_attempting ?_) fun armed => ?_
    · rcases x with d | d
      · exact ends_scripted _ h hx
      · exact ends_watching _ h hx
    · rcases armed with e | ⟨_ | _⟩
      on_goal 3 => exact keeps_pure _
      on_goal 1 => refine (keeps_log _ _ _ _).bind fun _ => ?_
      -- a stale watch is replaced in the same way whether the check failed or said so
      all_goals
        refine (keeps_log _ _ _ _).bind fun _ => keeps_get_bind fun w' h' => ?_
        refine Ends.bind (ends_attempting ?_) fun recreated => ?_
        · rcases hx' : w'.watch with _ | d | d
          · exact keeps_pure _ w' h'
          · exact ends_scripted _ h' hx'
          · exact ends_watching _ h' hx'
        · rcases recreated with e | ⟨_ | _⟩
          · exact keeps_log _ _ _ _
          · exact keeps_log _ _ _ _
          · exact keeps_pure _

theorem keeps_stopWatch : Keeps IsStarted anything stopWatch := by
  refine keeps_get_bind fun w h => ?_
  rcases hx : w.watch with _ | d | d
  · exact keeps_pure _ w h
  · exact ends_scripted _ h hx
  · exact ends_watching _ h hx

theorem keeps_pushEvent (path kind : String) : Keeps IsStarted anything (pushEvent path kind) :=
  World.keeps_pushEvent fun _ _ h hx => h.turn hx _

/-! Everything else. -/

/-- Worlds with a started watch, each like itself alone. -/
def Same (w w' : World) : Prop := w' = w ∧ IsStarted w

theorem respects {act : Act α} (h : Keeps IsStarted anything act) : Respects Same act := by
  rintro _ w ⟨rfl, hw⟩
  exact ⟨rfl, rfl, (h w hw).1⟩

theorem keeps {act : Act α} (h : Respects Same act) : Keeps IsStarted anything act :=
  fun w hw => ⟨(h w w ⟨rfl, hw⟩).2.2, fun _ _ => trivial⟩

theorem likens : Likens Same where
  frame := by
    rintro _ w ⟨rfl, -⟩
    rfl
  edit := by
    rintro g _ w hg ⟨rfl, hw⟩
    obtain ⟨hwatch, hstarted, -⟩ := hg.kept w
    exact ⟨rfl, hw.aside ⟨hwatch, hstarted⟩⟩
  note := by
    rintro f _ w - ⟨rfl, hw⟩
    exact ⟨rfl, hw⟩
  ensureWatch := respects keeps_ensureWatch
  pollChanges := respects keeps_pollChanges
  rearmWatch := respects keeps_rearmWatch
  stopWatch := respects keeps_stopWatch
  pushEvent path kind := respects (keeps_pushEvent path kind)

/-- Whatever is asked of a host whose watch is started, it stays so. -/
theorem keeps_hostAt (depth : Nat) (request : HostRequest) :
    Keeps IsStarted anything (hostAt depth request) :=
  keeps (likens.respects_hostAt depth request)

end IsStarted

end HotReload.World
