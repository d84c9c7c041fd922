import HotReload.Proofs.Watch.Attention

/-!
# Faults of observers

Observers that fail with system failures, or die, make a watch deaf at most: no operation of the
watch raises anything then, every observer that it ever made is the one in use or was told to stop,
and the changes that wait in it stay there. What is left behind about the watch can be told from all
else.
-/
namespace HotReload

namespace DirectoryWatch

open Operation

/-- Whether every observer that was ever made is the one in use or was told to stop. -/
def IsAccounted (d : DirectoryWatch) : Prop :=
  ∀ n o, d.observers[n]? = some o → o.isStopped = true ∨ d.current = some n

theorem isAccounted_iff {d : DirectoryWatch} : d.IsAccounted ↔ d.IsMinded True := by
  constructor
  · intro h
    exact ⟨rfl, fun n o ho _ => h n o ho⟩
  · intro h n o ho
    exact h.others n o ho (Or.inl trivial)

/-- Whether a watch has come from another by what was done to observers, and all its
observers are accounted for. -/
structure Tidies (r r' : Run) : Prop where
  tends : Tends r r'
  accounted : r'.watch.IsAccounted

variable {r : Run} {E : Failure → Prop}

/-- What an operation raises goes by what is done, and what becomes of observers by who was told. -/
theorem ends_tidying {α : Type} {result : Except Failure α × Run} (ht : Ends (Tends r) E result)
    (hm : Ends (fun r' => r'.watch.IsMinded True) (fun _ => True) result) :
    Ends (Tidies r) E result :=
  ⟨⟨ht.1, isAccounted_iff.mpr hm.1⟩, ht.2⟩

section Sound

variable (hs : r.watch.behavior.Sound) (h : r.watch.IsAccounted)
include hs h

/-- Starting a watch raises nothing: an observer that cannot be started is told to stop. -/
theorem ends_tidying_start : Ends (Tidies r) (fun _ => False) (start r) :=
  ends_tidying (keeps_start hs r (tends_refl r)) (ends_start (fun _ => hs) (isAccounted_iff.mp h))

/-- Stopping a watch raises nothing. -/
theorem ends_tidying_stop : Ends (Tidies r) (fun _ => False) (stop r) :=
  ends_tidying (keeps_stop hs r (tends_refl r))
    ((ends_stop (isAccounted_iff.mp h)).imp fun _ h' => h'.isMinded)

theorem ends_tidying_recreate : Ends (Tidies r) (fun _ => False) (recreate r) :=
  ends_tidying (keeps_recreate hs r (tends_refl r))
    (ends_recreate (fun _ => hs) (isAccounted_iff.mp h))

end Sound

/-- Checking a watch raises only what finding the root raises. -/
theorem ends_tidying_rearm {rootExists : Except Failure Bool}
    (he : ∀ e, rootExists = .error e → E e) (h : r.watch.IsAccounted) :
    Ends (Tidies r) E (rearm rootExists r) :=
  ends_tidying (keeps_rearm he r (tends_refl r)) (ends_rearm rootExists (isAccounted_iff.mp h))

/-! What observers have no part in. -/

/-- Whatever observers do and raise, the changes that wait in a watch wait in it after it was
started, stopped, replaced or checked. -/
theorem debouncer_kept (r : Run) (rootExists : Except Failure Bool) :
    (start r).2.watch.debouncer = r.watch.debouncer ∧
      (stop r).2.watch.debouncer = r.watch.debouncer ∧
    (recreate r).2.watch.debouncer = r.watch.debouncer ∧
    (rearm rootExists r).2.watch.debouncer = r.watch.debouncer := by
  have hraises := r.watch.behavior.raises_anything
  have hkept {α : Type} {act : Watching α} (h : Keeps (Tends r) (fun _ => True) act) :
      (act r).2.watch.debouncer = r.watch.debouncer := by
    have hessence : (act r).2.watch.essence.debouncer = r.watch.essence.debouncer := by
      rw [(h r (tends_refl r)).1.essence]
    exact hessence
  exact ⟨hkept (keeps_start hraises), hkept (keeps_stop hraises), hkept (keeps_recreate hraises),
    hkept (keeps_rearm fun _ _ => trivial)⟩

/-- A watch apart from its observers and from how they behave. -/
def bare (d : DirectoryWatch) : DirectoryWatch :=
  { d with behavior := {}, observers := [], current := none }

theorem debouncer_of_bare {d d' : DirectoryWatch} (h : d'.bare = d.bare) :
    d'.debouncer = d.debouncer := by
  have hbare : d'.bare.debouncer = d.bare.debouncer := by rw [h]
  exact hbare

theorem scope_of_bare {d d' : DirectoryWatch} (h : d'.bare = d.bare) : d'.scope = d.scope := by
  have hbare : d'.bare.scope = d.bare.scope := by rw [h]
  exact hbare

/-- A watch in which other changes wait. -/
def holding (d : DirectoryWatch) (debouncer : Debouncer) : DirectoryWatch := { d with debouncer }

theorem bare_holding {d d' : DirectoryWatch} (h : d'.bare = d.bare) (debouncer : Debouncer) :
    (d'.holding debouncer).bare = (d.holding debouncer).bare :=
  congrArg (DirectoryWatch.holding · debouncer) h

/-- What a poll leaves in the journal. -/
def handedOut (settled : List Change) : Journal :=
  if settled.isEmpty then {}
  else ({} : Journal).enter
    (.ofComponent "Debouncer" .debug "releasing_debounced_changes" [("count", .int settled.length)])

theorem poll_run (now : Float) (d : DirectoryWatch) : poll now { watch := d } =
    (.ok (d.debouncer.drain now).1,
      ⟨d.holding (d.debouncer.drain now).2, handedOut (d.debouncer.drain now).1⟩) := by
  rcases hd : d.debouncer.drain now with ⟨settled, debouncer⟩
  rw [poll, get_bind]
  simp only [hd, handedOut]
  rw [change, modify_bind]
  rcases settled with _ | ⟨c, rest⟩ <;> rfl

/-- What the handler notes of a change. -/
def noted (j : Journal) (c : Change) : Journal :=
  j.enter
    (.ofComponent "ScriptFileHandler" .debug ("file_" ++ c.kind.word)
      [("path", .text c.path.toText)])

theorem deliver_run (resolve : Path → Option Path) (now : Float) (event : FileEvent) (r : Run) :
    deliver resolve now event r =
      (.ok (),
        ⟨r.watch.holding
          ((r.watch.scope.changes resolve event).foldl (·.add now ·) r.watch.debouncer),
          (r.watch.scope.changes resolve event).foldl noted r.journal⟩) := by
  rw [deliver, get_bind]
  generalize r.watch.scope.changes resolve event = changes
  induction changes generalizing r with
  | nil => rfl
  | cons c rest ih =>
    exact ih ⟨r.watch.holding (r.watch.debouncer.add now c), noted r.journal c⟩

end DirectoryWatch

end HotReload
