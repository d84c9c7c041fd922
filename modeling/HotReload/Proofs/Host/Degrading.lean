import HotReload.Proofs.Host.Convergence
import HotReload.Proofs.Host.Observers

/-!
# Runs with failing observers

Whatever observers fail at, and whenever they die, a host goes on as with observers that do neither,
as long as the same events are delivered and the clock and the files are the same.
-/
namespace HotReload.World

open Operation

/-- What happens to a host that watches a directory. -/
inductive Incident where
  | ask (request : HostRequest)
  /-- The poll loop goes round once. -/
  | round
  /-- The first waiting commits are run. -/
  | pump (count : Nat)
  /-- The executor runs what waits. -/
  | settle
  /-- An instance is run by hand. -/
  | run (n : Nat)
  | terminate (n : Nat)
  /-- The watch is started as the first cycle starts it, so that observers can behave in another way
  in what is left of that cycle. -/
  | arm
  /-- Files change; the script root may disappear and return. -/
  | change (files : FileTree FileContent)
  | tick (now : Float)
  /-- The handler of the watch is told of an event. -/
  | observe (event : FileEvent)
  /-- From now on observers behave like this. -/
  | behave (behavior : ObserverBehavior)

/-- A world whose observers behave in a certain way. -/
def behaving (behavior : ObserverBehavior) (w : World) : World :=
  match w.watch with
  | some (.directory d) => { w with watch := some (.directory { d with behavior }) }
  | _ => w

namespace Incident

def perform : Incident → Act (Option HostAnswer)
  | .ask request => do return some (← host request)
  | .round => do
    pollRound host
    return none
  | .pump count => do
    let _ ← World.pump host count
    return none
  | .settle => do
    World.settle host
    return none
  | .run n => do
    World.run host n
    return none
  | .terminate n => do
    let _ ← World.terminate n
    return none
  | .arm => do
    ensureWatch
    return none
  | .change files => do
    modify fun w => { w with files }
    return none
  | .tick now => do
    modify fun w => { w with now }
    return none
  | .observe event => do
    modify (report · event)
    return none
  | .behave behavior => do
    modify (behaving behavior)
    return none

/-- The same with observers that neither fail nor die. -/
def spared : Incident → Incident
  | .behave _ => .behave {}
  | i => i

/-- Whether observers, if it is about them, fail with system failures alone. -/
def IsSound : Incident → Prop
  | .behave behavior => behavior.Sound
  | _ => True

end Incident

/-- An incident in a run, between the worlds that it found and left. -/
structure Episode where
  before : World
  answer : Except Failure (Option HostAnswer)
  after : World

/-- The episodes of a run. -/
def course : List Incident → World → List Episode
  | [], _ => []
  | i :: rest, w => ⟨w, (i.perform w).1, (i.perform w).2⟩ :: course rest (i.perform w).2

/-- Whether an episode of one run and one of another are the same for the host: a cycle makes the
same plan of what they found, they have the same answer, and leave the same registry and, apart from
observers, the same world. -/
structure Episode.IsLike (e e' : Episode) : Prop where
  plan : (planCycle e'.before).1 = (planCycle e.before).1
  answer : e'.answer = e.answer
  registry : e'.after.registry = e.after.registry
  after : Alike e.after e'.after

variable {w w' : World} {i : Incident}

theorem behaving_eq {d : DirectoryWatch} (hd : w.watch = some (.directory d))
    (b : ObserverBehavior) :
    w.behaving b = { w with watch := some (.directory { d with behavior := b }) } := by
  rw [behaving, hd]

theorem alike_behaving {b b' : ObserverBehavior} (h : Alike w w') (hb : b.Sound) (hb' : b'.Sound) :
    Alike (w.behaving b) (w'.behaving b') := by
  obtain ⟨d, d', hd, hd', hs, hs', hbare⟩ := h.watch
  rw [behaving_eq hd, behaving_eq hd']
  refine ⟨?_, h.journal, _, _, rfl, rfl, ⟨hb, hs.accounted⟩, ⟨hb', hs'.accounted⟩, hbare⟩
  rw [h.frame]

theorem report_eq {d : DirectoryWatch} (hd : w.watch = some (.directory d)) (event : FileEvent) :
    w.report event = w.refitted
      (d.holding ((d.scope.changes w.files.resolve? event).foldl (·.add w.now ·) d.debouncer))
      ((d.scope.changes w.files.resolve? event).foldl DirectoryWatch.noted {}) := by
  rw [report, hd]
  dsimp only
  rw [watching, DirectoryWatch.deliver_run]
  rfl

theorem alike_report (h : Alike w w') (event : FileEvent) :
    Alike (w.report event) (w'.report event) := by
  obtain ⟨d, d', hd, hd', hs, hs', hbare⟩ := h.watch
  have hsame : w'.now = w.now ∧ w'.files = w.files := by
    rw [h.frame]
    exact ⟨rfl, rfl⟩
  rw [report_eq hd, report_eq hd', hsame.1, hsame.2, DirectoryWatch.debouncer_of_bare hbare,
    DirectoryWatch.scope_of_bare hbare]
  exact h.refit (hs.holding _) (hs'.holding _) (DirectoryWatch.bare_holding hbare _) _

theorem sound_default : ObserverBehavior.Sound {} := ⟨nofun, nofun, nofun⟩

theorem sound_of_all {b : ObserverBehavior}
    (hschedule : b.scheduleError.all Failure.isSystem = true)
    (hstart : b.startError.all Failure.isSystem = true)
    (hstop : b.stopError.all (fun e => e.isSystem || e.isState) = true) : b.Sound where
  schedule e he := .inl (by rwa [he] at hschedule)
  start e he := .inl (by rwa [he] at hstart)
  stop e he := .inl (by rwa [he] at hstop)

/-- An incident has the same answer with observers that do not fail, and leaves
worlds that are alike. -/
theorem Incident.matches_perform (hi : i.IsSound) (h : Alike w w') :
    Matches Alike (i.perform w) (i.spared.perform w') := by
  have hh (request : HostRequest) : Respects Alike (host request) :=
    Alike.likens.respects_hostAt depthLimit request
  have hnone {α : Type} {act : Act α} (ha : Respects Alike act) :
      Respects Alike (do let _ ← act; return (none : Option HostAnswer)) :=
        ha.bind fun _ => respects_pure none
  cases i with
  | ask request => exact ((hh request).bind fun answer => respects_pure (some answer)) w w' h
  | round => exact hnone (Alike.likens.respects_pollRound hh) w w' h
  | pump count => exact hnone (Alike.likens.respects_pump hh count) w w' h
  | settle => exact hnone (Alike.likens.respects_settle hh) w w' h
  | run n => exact hnone (Alike.likens.respects_run hh) w w' h
  | terminate n => exact hnone Alike.likens.respects_terminate w w' h
  | arm => exact hnone respects_ensureWatch w w' h
  | change files => exact ⟨rfl, h.edit (g := fun w => { w with files }) fun _ _ _ _ => rfl⟩
  | tick now => exact ⟨rfl, h.edit (g := fun w => { w with now }) fun _ _ _ _ => rfl⟩
  | observe event => exact ⟨rfl, alike_report h event⟩
  | behave behavior => exact ⟨rfl, alike_behaving h hi sound_default⟩

/-- Runs that differ in what observers do take the same course apart from them. -/
theorem course_spared (is : List Incident) (hi : ∀ i ∈ is, i.IsSound) (h : Alike w w') :
    List.Forall₂ Episode.IsLike (course is w) (course (is.map .spared) w') := by
  induction is generalizing w w' with
  | nil => exact .nil
  | cons i rest ih =>
    obtain ⟨hfirst, hrest⟩ := List.forall_mem_cons.mp hi
    obtain ⟨hanswer, hafter⟩ := Incident.matches_perform hfirst h
    have hregistry : (i.spared.perform w').2.registry = (i.perform w).2.registry := by
      rw [hafter.frame]
    exact .cons ⟨(Alike.likens.respects_planCycle w w' h).1.symm, hanswer.symm, hregistry, hafter⟩
      (ih hrest hafter)

/-- Let the observers of a watch fail with system failures, and die, at any time of a run in which
also files and the root come and go. Then every observer ever made is the one in use or was told to
stop; whatever they do, starting, stopping, replacing and checking a watch keeps the changes that
wait in it; and the run goes on, answer for answer, as the same run with observers that neither fail
nor die: cycles make the same plans and leave the same registry. -/
theorem degrades_delivery {d : DirectoryWatch} (hd : w.watch = some (.directory d))
    (hs : IsServed d) (is : List Incident) (hi : ∀ i ∈ is, i.IsSound) :
    (∀ e ∈ course is w, ∃ d', e.after.watch = some (.directory d') ∧ d'.IsAccounted) ∧
    (∀ (r : DirectoryWatch.Run) (rootExists : Except Failure Bool),
      (DirectoryWatch.start r).2.watch.debouncer = r.watch.debouncer ∧
      (DirectoryWatch.stop r).2.watch.debouncer = r.watch.debouncer ∧
      (DirectoryWatch.recreate r).2.watch.debouncer = r.watch.debouncer ∧
      (DirectoryWatch.rearm rootExists r).2.watch.debouncer = r.watch.debouncer) ∧
    List.Forall₂ Episode.IsLike (course is w) (course (is.map .spared) (w.behaving {})) := by
  have hspared : Alike w (w.behaving {}) := by
    rw [behaving_eq hd]
    exact ⟨rfl, rfl, d, _, hd, rfl, hs, ⟨sound_default, hs.accounted⟩, rfl⟩
  have hlike := course_spared is hi hspared
  have haccounted {e e' : Episode} (h : e.IsLike e') :
      ∃ d', e.after.watch = some (.directory d') ∧ d'.IsAccounted := by
    obtain ⟨d', -, hd', -, hs', -⟩ := h.after.watch
    exact ⟨d', hd', hs'.accounted⟩
  have hall := ((List.forall₂_and_left _ _).mp (hlike.imp fun _ _ h => ⟨haccounted h, h⟩)).1
  exact ⟨hall, DirectoryWatch.debouncer_kept, hlike⟩

/-- A time at which observers cannot be started, and one at which they die and cannot be stopped. -/
def failing : List Incident :=
  [.behave { startError := some (.raised "OSError" "limit") }, .ask (.watch ["a"]), .arm,
    .behave { startError := some (.raised "OSError" "limit"),
              stopError := some (.raised "OSError" "gone") },
    .ask .reconcile, .change oneFile, .observe { kind := .created, source := ⟨.root, ["s", "a"]⟩ },
      .behave {},
    .round, .behave { isDead := true, stopError := some (.raised "OSError" "gone") },
      .change emptied.files, .round]

theorem isSound_failing : ∀ i ∈ failing, i.IsSound := by
  simp only [failing, List.forall_mem_cons, Incident.IsSound]
  exact ⟨sound_of_all rfl rfl rfl, trivial, trivial, sound_of_all rfl rfl rfl, trivial, trivial,
    trivial, sound_default, trivial, sound_of_all rfl rfl rfl, trivial, trivial, nofun⟩

/-- A file is loaded and unloaded again while observers fail, as it is with
observers that do not. -/
theorem degrades_delivery_failing : ∃ d, emptied.watch = some (.directory d) ∧ IsServed d ∧
    (∀ i ∈ failing, i.IsSound) ∧
    List.Forall₂ Episode.IsLike (course failing emptied)
      (course (failing.map .spared) (emptied.behaving {})) := by
  have hserved : IsServed
      { scope := ⟨⟨.root, ["s"]⟩, ⟨.root, ["s"]⟩, []⟩, recursive := true,
        debouncer := { delay := 0.0 } } :=
    ⟨sound_default, nofun⟩
  exact ⟨_, rfl, hserved, isSound_failing,
    (degrades_delivery rfl hserved failing isSound_failing).2.2⟩

end HotReload.World
