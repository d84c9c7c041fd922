import HotReload.Proofs.Host.Started

/-!
# Hosts that differ in observers

Nothing that a host or its scripts do tells worlds apart that differ in observers alone, in how
these behave and in what is noted about them. Only looking after the watch goes by observers, and
that is the same apart from them again.
-/
namespace HotReload.World

open Operation

/-- A watch whose observers fail with system failures alone, and are all accounted for. -/
structure IsServed (d : DirectoryWatch) : Prop where
  sound : d.behavior.Sound
  accounted : d.IsAccounted

theorem IsServed.holding {d : DirectoryWatch} (h : IsServed d) (debouncer : Debouncer) :
    IsServed (d.holding debouncer) := ⟨h.sound, h.accounted⟩

/-- Whether worlds have a watch on a directory, and are the same apart from its observers and what
was noted about them. -/
structure Alike (w w' : World) : Prop where
  frame : w' = { w with watch := w'.watch, journal := w'.journal }
  journal : w'.journal.aside = w.journal.aside
  watch : ∃ d d', w.watch = some (.directory d) ∧ w'.watch = some (.directory d') ∧ IsServed d ∧
    IsServed d' ∧
    d'.bare = d.bare

variable {w w' w₀ : World} {α : Type} {E : Failure → Prop}

namespace Alike

theorem symm (h : Alike w w') : Alike w' w := by
  obtain ⟨d, d', hd, hd', hs, hs', hb⟩ := h.watch
  refine ⟨?_, h.journal.symm, d', d, hd', hd, hs', hs, hb.symm⟩
  rw [h.frame]

theorem trans {w'' : World} (h : Alike w w') (h' : Alike w' w'') : Alike w w'' := by
  obtain ⟨d, d', hd, hd', hs, hs', hb⟩ := h.watch
  obtain ⟨e, e', he, he', ht, ht', hc⟩ := h'.watch
  rw [hd'] at he
  cases he
  refine ⟨?_, h'.journal.trans h.journal, d, e', hd, he', hs, ht', hc.trans hb⟩
  rw [h'.frame, h.frame]

theorem started (h : Alike w w') : w'.watchStarted = w.watchStarted := by rw [h.frame]

/-- Worlds that are alike stay so under changes that concern neither the watch nor the journal. -/
theorem edit {g : World → World} (hg : Spares g) (h : Alike w w') : Alike (g w) (g w') := by
  obtain ⟨hwatch, hstarted, hjournal⟩ := hg.kept w
  obtain ⟨hwatch', -, hjournal'⟩ := hg.kept w'
  refine ⟨?_, ?_, ?_⟩
  · have hframe : w' = w.withWatch w'.watch w.watchStarted w'.journal := h.frame
    rw [hwatch', hjournal']
    exact (congrArg g hframe).trans ((hg _ _ _ _).trans (by rw [withWatch, ← hstarted]))
  · rw [hjournal', hjournal]
    exact h.journal
  · rw [hwatch', hwatch]
    exact h.watch

/-- What is noted in both worlds. -/
theorem note {f : Journal → Journal}
    (hf : ∀ j k : Journal, j.aside = k.aside → (f j).aside = (f k).aside) (h : Alike w w') :
    Alike { w with journal := f w.journal } { w' with journal := f w'.journal } where
  frame := by rw [h.frame]
  journal := hf _ _ h.journal
  watch := h.watch

theorem start (h : Alike w w') :
    Alike { w with watchStarted := true } { w' with watchStarted := true } where
  frame := by rw [h.frame]
  journal := h.journal
  watch := h.watch

end Alike

/-! The watch. -/

/-- Whatever an operation does to the observers of a watch, the world stays as
it was apart from them. -/
theorem ends_alike_watching {d : DirectoryWatch} {act : Watching α} (h : Alike w₀ w)
    (hd : w.watch = some (.directory d))
    (ha : IsServed d → Ends (DirectoryWatch.Tidies { watch := d }) E (act { watch := d })) :
    Ends (Alike w₀) E (watching d act w) := by
  obtain ⟨_, e, -, he, -, hs, -⟩ := h.watch
  obtain rfl : e = d := by
    rw [hd] at he
    cases he
    rfl
  obtain ⟨ht, herror⟩ := ha hs
  have hsound : (act { watch := e }).2.watch.behavior.Sound := ht.tends.behavior ▸ hs.sound
  refine ⟨h.trans ⟨rfl, ?_, e, _, hd, rfl, hs, ⟨hsound, ht.accounted⟩, ?_⟩, herror⟩
  · show (w.journal.append (act { watch := e }).2.journal).aside = w.journal.aside
    rw [Journal.aside_append, ht.tends.aside]
    simp [Journal.append, Journal.aside]
  · show (act { watch := e }).2.watch.essence.bare = e.essence.bare
    rw [ht.tends.essence]

theorem keeps_alike_log {component event : String} {level : LogLevel}
    {fields : List (String × Value)} (he : LogEntry.watchEvents.contains event = true) :
    Keeps (Alike w₀) E (log component level event fields) :=
  keeps_modify fun w h => h.trans ⟨rfl, by
    have hentry : (LogEntry.ofComponent component level event fields).isOfWatch = true := he
    show (w.journal.enter _).aside = w.journal.aside
    rw [Journal.aside_enter, hentry]
    rfl, (h.symm.trans h).watch⟩

/-- An operation that always succeeds, and changes nothing of the world but, perhaps, whether
the watch was started. -/
theorem respects_of_ends {act : Act Unit} {g : World → World}
    (hg : ∀ w w', Alike w w' → Alike (g w) (g w'))
    (h : ∀ w, Alike w w → Ends (Alike (g w)) (fun _ => False) (act w)) : Respects Alike act :=
  fun w w' hw => by
  obtain ⟨_, t, ha, ht⟩ := (h w (hw.trans hw.symm)).succeeds
  obtain ⟨_, t', ha', ht'⟩ := (h w' (hw.symm.trans hw)).succeeds
  rw [ha, ha']
  exact ⟨rfl, ht.symm.trans ((hg w w' hw).trans ht')⟩

theorem respects_ensureWatch : Respects Alike ensureWatch := by
  refine respects_of_ends (fun _ _ h => h.start) fun w h => ?_
  obtain ⟨d, -, hd, -⟩ := h.watch
  have hstarted : Alike { w with watchStarted := true } { w with watchStarted := true } := h.start
  rcases hb : w.watchStarted with _ | _
  · rw [ensureWatch, get_bind]
    simp only [hd, hb, Bool.not_false, if_true]
    rw [set_bind]
    have hstart : Ends (Alike { w with watchStarted := true }) (fun _ => False)
        (watching d DirectoryWatch.start { w with watchStarted := true }) :=
      ends_alike_watching hstarted hd fun hs =>
        DirectoryWatch.ends_tidying_start hs.sound hs.accounted
    rw [hd] at hstart
    refine Ends.bind (ends_attempt (hstart.bind fun _ => keeps_pure ()) fun _ he => he.elim)
      fun result => ?_
    cases result with
    | ok _ => exact keeps_pure _
    | error e => exact keeps_alike_log (by decide)
  · have hsame : { w with watchStarted := true } = w := by rw [← hb]
    rw [ensureWatch_of_started fun _ => hb]
    rw [hsame]
    exact ends_ok h

theorem ends_alike_rearmWatch (h : Alike w₀ w) :
    Ends (Alike w₀) (fun _ => False) (rearmWatch w) := by
  obtain ⟨-, d, -, hd, -⟩ := h.watch
  rw [rearmWatch, get_bind, hd]
  dsimp only
  have hrearm : Ends (Alike w₀) (fun e => e.isSystem = true)
    (watching d (DirectoryWatch.rearm w.rootExists) w) :=
    ends_alike_watching h hd fun hs =>
      DirectoryWatch.ends_tidying_rearm (fun e he => isDirectory_error he) hs.accounted
  refine Ends.bind (ends_attempt hrearm fun _ he => .inl he) fun armed => ?_
  rcases armed with e | ⟨_ | _⟩
  on_goal 3 => exact keeps_pure _
  on_goal 1 => refine (keeps_alike_log (by decide)).bind fun _ => ?_
  -- a stale watch is replaced in the same way whether the check failed or said so
  all_goals
    refine (keeps_alike_log (by decide)).bind fun _ => keeps_get_bind fun w' h' => ?_
    obtain ⟨-, d', -, hd', -⟩ := h'.watch
    rw [hd']
    dsimp only
    have hrecreate : Ends (Alike w₀) (fun _ => False) (watching d' DirectoryWatch.recreate w') :=
      ends_alike_watching h' hd' fun hs =>
        DirectoryWatch.ends_tidying_recreate hs.sound hs.accounted
    refine Ends.bind (ends_attempt hrecreate fun _ he => he.elim) fun recreated => ?_
    rcases recreated with e | ⟨_ | _⟩
    · exact keeps_alike_log (by decide)
    · exact keeps_alike_log (by decide)
    · exact keeps_pure _

theorem respects_rearmWatch : Respects Alike rearmWatch :=
  respects_of_ends (g := id) (fun _ _ h => h) fun _ h => ends_alike_rearmWatch h

theorem respects_stopWatch : Respects Alike stopWatch := by
  refine respects_of_ends (g := id) (fun _ _ h => h) fun w h => ?_
  obtain ⟨d, -, hd, -⟩ := h.watch
  rw [stopWatch, get_bind, hd]
  exact ends_alike_watching h hd fun hs =>
    DirectoryWatch.ends_tidying_stop hs.sound hs.accounted

/-- Only a scripted watch takes events in that way. -/
theorem pushEvent_of_directory {d : DirectoryWatch} (path kind : String)
    (hd : w.watch = some (.directory d)) :
    pushEvent path kind w = (.ok (), w) := by
  cases w
  cases hd
  rfl

theorem respects_pushEvent (path kind : String) : Respects Alike (pushEvent path kind) := by
  refine respects_of_ends (g := id) (fun _ _ h => h) fun w h => ?_
  obtain ⟨d, -, hd, -⟩ := h.watch
  rw [pushEvent_of_directory path kind hd]
  exact ends_ok h

/-- A world whose watch has come to be this one, with what that left in the journal. -/
def refitted (w : World) (d : DirectoryWatch) (k : Journal) : World :=
  w.withWatch (some (.directory d)) w.watchStarted (w.journal.append k)

/-- What is done alike to the watches of worlds that are alike, and noted in both. -/
theorem Alike.refit {d d' : DirectoryWatch} (h : Alike w w') (hs : IsServed d) (hs' : IsServed d')
    (hb : d'.bare = d.bare) (k : Journal) : Alike (w.refitted d k) (w'.refitted d' k) where
  frame := by
    rw [h.frame]
    rfl
  journal := by
    show (w'.journal.append k).aside = (w.journal.append k).aside
    rw [Journal.aside_append, Journal.aside_append, h.journal]
  watch := ⟨d, d', rfl, rfl, hs, hs', hb⟩

theorem pollChanges_eq {d : DirectoryWatch} (hd : w.watch = some (.directory d)) : pollChanges w =
    (((d.debouncer.drain w.now).1.map fun c => (w.normalize c.path).map (⟨·, c.kind⟩)).mapM
      liftExcept :
      Act (List Change))
      (w.refitted (d.holding (d.debouncer.drain w.now).2)
        (DirectoryWatch.handedOut (d.debouncer.drain w.now).1)) := by
  have hpoll : watching d (DirectoryWatch.poll w.now) w = (.ok (d.debouncer.drain w.now).1,
      w.refitted (d.holding (d.debouncer.drain w.now).2)
        (DirectoryWatch.handedOut (d.debouncer.drain w.now).1)) := by
    rw [watching, DirectoryWatch.poll_run]
    rfl
  rw [pollChanges, get_bind, hd]
  dsimp only
  rw [bind_of_ok (World.attempt_of_ok (bind_of_ok hpoll _))]

theorem respects_pollChanges : Respects Alike pollChanges := by
  intro w w' h
  obtain ⟨d, d', hd, hd', hs, hs', hb⟩ := h.watch
  have hsame : w'.now = w.now ∧ w'.normalize = w.normalize := by
    rw [h.frame]
    exact ⟨rfl, rfl⟩
  rw [pollChanges_eq hd, pollChanges_eq hd', hsame.1, hsame.2, DirectoryWatch.debouncer_of_bare hb]
  exact respects_mapM (fun result => respects_liftExcept result) _ _
    (h.refit (hs.holding _) (hs'.holding _) (DirectoryWatch.bare_holding hb _) _)

theorem Alike.likens : Likens Alike where
  frame h := h.frame.trans (by rw [withWatch, h.started])
  edit hg h := h.edit hg
  note hf h := h.note hf
  ensureWatch := respects_ensureWatch
  pollChanges := respects_pollChanges
  rearmWatch := respects_rearmWatch
  stopWatch := respects_stopWatch
  pushEvent := respects_pushEvent

end HotReload.World
