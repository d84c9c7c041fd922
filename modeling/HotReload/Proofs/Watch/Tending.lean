import HotReload.Proofs.Operation

/-!
# Looking after a watch

Starting, checking, replacing and stopping a watch concerns its observers alone: the scope,
the settings and the changes that wait in it stay as they are, and what is left behind about
observers can be told from all else.
-/
namespace HotReload

/-- Whether an event is about observers. -/
def TraceEvent.isOfWatch : TraceEvent → Bool
  | .scheduled .. | .observerStopped | .observerJoined => true
  | _ => false

namespace LogEntry

/-- The names of what is logged about observers and their replacement. -/
def watchEvents : List String :=
  ["file_watch_start_failed", "file_watch_started", "file_watch_stop_failed", "file_watch_stopped",
    "watch_start_failed", "watch_rearm_raised", "watch_rearm_failed", "watch_recreate_failed"]

def isOfWatch (e : LogEntry) : Bool := watchEvents.contains e.event

end LogEntry

/-- Whether an event is the start of a body or the release of a context. -/
def TraceEvent.isLife : TraceEvent → Bool
  | .execute .. | .release .. => true
  | _ => false

/-- The starts of bodies and the releases of contexts, in order. -/
def Journal.lives (j : Journal) : List TraceEvent := j.trace.filter TraceEvent.isLife

/-- The path whose script is about to run. -/
def TraceEvent.executed? : TraceEvent → Option Path
  | .execute _ path _ _ => some path
  | _ => none

/-- The paths whose scripts were run, in order. -/
def Journal.executed (j : Journal) : List Path := j.trace.filterMap TraceEvent.executed?

namespace Journal

theorem lives_record {event : TraceEvent} (j : Journal) :
    (j.record event).lives = j.lives ++ if event.isLife then [event] else [] := by
  cases h : event.isLife <;> simp [lives, record, List.filter_append, h]

theorem lives_append (j k : Journal) : (j.append k).lives = j.lives ++ k.lives := by
  simp [lives, append, List.filter_append]

theorem executed_record (event : TraceEvent) (j : Journal) :
    (j.record event).executed = j.executed ++ event.executed?.toList := by
  rw [executed, record, List.filterMap_append]
  cases event <;> rfl

theorem executed_of_lives {j k : Journal} (h : j.lives = k.lives) : j.executed = k.executed := by
  have hlives (j : Journal) : j.executed = j.lives.filterMap TraceEvent.executed? := by
    rw [executed, lives, List.filterMap_filter]
    refine congrArg (List.filterMap · j.trace) (funext fun event => ?_)
    cases event <;> rfl
  rw [hlives, hlives, h]

/-- What a journal says apart from observers. -/
def aside (j : Journal) : Journal := ⟨j.trace.filter (!·.isOfWatch), j.log.filter (!·.isOfWatch)⟩

theorem aside_record (event : TraceEvent) (j : Journal) :
    (j.record event).aside = if event.isOfWatch then j.aside else j.aside.record event := by
  rw [aside, record, List.filter_append]
  cases h : event.isOfWatch <;> simp [aside, record, h]

theorem aside_enter (entry : LogEntry) (j : Journal) :
    (j.enter entry).aside = if entry.isOfWatch then j.aside else j.aside.enter entry := by
  rw [aside, enter, List.filter_append]
  cases h : entry.isOfWatch <;> simp [aside, enter, h]

theorem aside_append (j k : Journal) : (j.append k).aside = j.aside.append k.aside := by
  simp [aside, append, List.filter_append]

/-- Observers have no part in the lives of scripts. -/
theorem lives_of_aside {j k : Journal} (h : j.aside = k.aside) : j.lives = k.lives := by
  have hlives (j : Journal) : j.lives = j.aside.lives := by
    rw [lives, lives, aside, List.filter_filter]
    refine List.filter_congr fun event _ => ?_
    cases event <;> rfl
  rw [hlives j, hlives k, h]

end Journal

/-- Observers that fail with system failures, or as `E` says; stopping may
also find a wrong state. -/
structure ObserverBehavior.Raises (E : Failure → Prop) (b : ObserverBehavior) : Prop where
  schedule : ∀ e, b.scheduleError = some e → e.isSystem = true ∨ E e
  start : ∀ e, b.startError = some e → e.isSystem = true ∨ E e
  stop : ∀ e, b.stopError = some e → (e.isSystem || e.isState) = true ∨ E e

theorem ObserverBehavior.Raises.mono {E E' : Failure → Prop} {b : ObserverBehavior} (h : b.Raises E)
    (hE : ∀ e, E e → E' e) : b.Raises E' where
  schedule e he := (h.schedule e he).imp_right (hE e)
  start e he := (h.start e he).imp_right (hE e)
  stop e he := (h.stop e he).imp_right (hE e)

theorem ObserverBehavior.raises_anything (b : ObserverBehavior) : b.Raises fun _ => True where
  schedule _ _ := Or.inr trivial
  start _ _ := Or.inr trivial
  stop _ _ := Or.inr trivial

/-- Observers that fail with nothing else. -/
def ObserverBehavior.Sound (b : ObserverBehavior) : Prop := b.Raises fun _ => False

namespace DirectoryWatch

open Operation

/-- A watch apart from its observers. -/
def essence (d : DirectoryWatch) : DirectoryWatch := { d with observers := [], current := none }

/-- Whether a step of a watch concerns its observers alone. -/
structure Tends (r r' : Run) : Prop where
  essence : r'.watch.essence = r.watch.essence
  aside : r'.journal.aside = r.journal.aside

theorem tends_refl (r : Run) : Tends r r := ⟨rfl, rfl⟩

theorem Tends.trans {a b c : Run} (h : Tends a b) (k : Tends b c) : Tends a c :=
  ⟨k.essence.trans h.essence, k.aside.trans h.aside⟩

theorem Tends.behavior {r r' : Run} (h : Tends r r') : r'.watch.behavior = r.watch.behavior := by
  have he : r'.watch.essence.behavior = r.watch.essence.behavior := by rw [h.essence]
  exact he

theorem Tends.lives {r r' : Run} (h : Tends r r') : r'.journal.lives = r.journal.lives :=
  Journal.lives_of_aside h.aside

variable {α : Type} {r : Run} {E : Failure → Prop}

theorem keeps_record {event : TraceEvent} (he : event.isOfWatch = true) :
    Keeps (Tends r) E (record event) :=
  keeps_modify fun s hs => hs.trans ⟨rfl, by rw [Journal.aside_record, he]; rfl⟩

theorem keeps_log {component event : String} {level : LogLevel} {fields : List (String × Value)}
    (he : LogEntry.watchEvents.contains event = true) :
    Keeps (Tends r) E (log component level event fields) :=
  keeps_modify fun s hs => hs.trans ⟨rfl, by
    have hentry : (LogEntry.ofComponent component level event fields).isOfWatch = true := he
    rw [Journal.aside_enter, hentry]
    rfl⟩

theorem keeps_change {f : DirectoryWatch → DirectoryWatch} (h : ∀ d, (f d).essence = d.essence) :
    Keeps (Tends r) E (change f) :=
  keeps_modify fun s hs => hs.trans ⟨h s.watch, rfl⟩

theorem keeps_attempt {handles : Failure → Bool} {act : Watching α} {F : Failure → Prop}
    (h : Keeps (Tends r) F act) (he : ∀ e, F e → handles e = true ∨ E e) :
    Keeps (Tends r) E (attempt handles act) := by
  rw [attempt_eq]
  exact Operation.keeps_attempt h he

theorem keeps_raise? {e : Option Failure} (h : ∀ f, e = some f → E f) :
    Keeps (Tends r) E (raise? e) := by
  cases e with
  | none => exact keeps_pure _
  | some f => exact keeps_throw (h f rfl)

/-! System failures of observers are handled, and others raised. -/

section Raises

variable (hr : r.watch.behavior.Raises E)
include hr

/-- What launching an observer raises comes from scheduling or starting it. -/
theorem keeps_launch (n : Nat) : Keeps (Tends r) (fun e => e.isSystem = true ∨ E e) (launch n) := by
  refine keeps_get_bind fun s hs => ?_
  rw [← hs.behavior] at hr
  refine (keeps_record rfl).bind (fun _ => ?_) s hs
  refine (keeps_raise? hr.schedule).bind fun _ => ?_
  exact (keeps_raise? hr.start).bind fun _ => keeps_change fun _ => rfl

theorem keeps_halt (n : Nat) :
    Keeps (Tends r) (fun e => (e.isSystem || e.isState) = true ∨ E e) (halt n) := by
  refine (keeps_record rfl).bind fun _ => Keeps.bind (keeps_change fun _ => rfl) fun _ => ?_
  refine keeps_get_bind fun s hs => ?_
  rw [← hs.behavior] at hr
  refine (keeps_raise? hr.stop).bind (fun _ => keeps_get_bind fun s hs => ?_) s hs
  split
  · refine (keeps_record rfl).bind (fun _ => ?_) s hs
    exact keeps_change fun _ => rfl
  · exact keeps_pure _ s hs

theorem keeps_stopObserver (n : Nat) : Keeps (Tends r) E (stopObserver n) := by
  refine Keeps.bind (keeps_attempt (keeps_halt hr n) fun _ he => he) fun result => ?_
  cases result with
  | ok _ => exact keeps_pure _
  | error e => exact keeps_log (by decide)

omit hr in
theorem keeps_makeObserver : Keeps (Tends r) E makeObserver := by
  refine keeps_get_bind fun s hs => ?_
  refine Keeps.bind (keeps_change ?_) (fun _ => keeps_pure _) s hs
  exact fun _ => rfl

theorem keeps_start : Keeps (Tends r) E start := by
  refine keeps_get_bind fun s hs => ?_
  split
  · exact keeps_pure _ s hs
  · refine keeps_makeObserver.bind (fun n => ?_) s hs
    refine Keeps.bind (keeps_attempt (keeps_launch hr n) fun _ he => he) fun result => ?_
    cases result with
    | error e =>
      refine keeps_get_bind fun s hs => ?_
      refine (keeps_log (by decide)).bind (fun _ => ?_) s hs
      exact (keeps_stopObserver hr n).bind fun _ => keeps_pure _
    | ok _ =>
      refine Keeps.bind (keeps_change ?_) fun _ => keeps_get_bind fun s hs => ?_
      · exact fun _ => rfl
      · exact (keeps_log (by decide)).bind (fun _ => keeps_pure _) s hs

theorem keeps_stop : Keeps (Tends r) E stop := by
  refine keeps_get_bind fun s hs => ?_
  rcases s.watch.current with _ | n
  · exact keeps_pure _ s hs
  · refine Keeps.bind (keeps_change ?_) (fun _ => ?_) s hs
    · exact fun _ => rfl
    · refine (keeps_stopObserver hr n).bind fun _ => keeps_get_bind fun s hs => ?_
      exact keeps_log (by decide) s hs

theorem keeps_recreate : Keeps (Tends r) E recreate := (keeps_stop hr).bind fun _ => keeps_start hr

end Raises

/-- Checking a watch raises only what finding the root raises. -/
theorem keeps_rearm {rootExists : Except Failure Bool} (h : ∀ e, rootExists = .error e → E e) :
    Keeps (Tends r) E (rearm rootExists) := by
  refine keeps_get_bind fun s hs => ?_
  rcases s.watch.current with _ | n
  · exact keeps_pure _ s hs
  · dsimp only
    split
    · exact keeps_pure _ s hs
    · refine Keeps.bind ?_ (fun exists? => ?_) s hs
      · cases rootExists with
        | ok x => exact keeps_pure x
        | error e => exact keeps_throw (h e rfl)
      · split <;> exact keeps_pure _

/-- A poll hands out what has settled and keeps what has not. -/
theorem poll_eq (now : Float) (r : Run) :
    ∃ r', poll now r = (.ok (r.watch.debouncer.drain now).1, r') ∧
      r'.watch = { r.watch with debouncer := (r.watch.debouncer.drain now).2 } ∧
      r'.journal.lives = r.journal.lives := by
  rcases hd : r.watch.debouncer.drain now with ⟨settled, debouncer⟩
  rw [poll, get_bind]
  simp only [hd]
  rw [change, modify_bind]
  by_cases hs : settled.isEmpty = true
  · simp only [hs]
    exact ⟨_, rfl, rfl, rfl⟩
  · simp only [hs]
    exact ⟨_, rfl, rfl, rfl⟩

/-- A delivered event adds the changes it stands for. -/
theorem deliver_eq (resolve : Path → Option Path) (now : Float) (event : FileEvent) (r : Run) :
    ∃ r', deliver resolve now event r = (.ok (), r') ∧
      r'.watch = { r.watch with
        debouncer := (r.watch.scope.changes resolve event).foldl (·.add now ·) r.watch.debouncer } ∧
      r'.journal.lives = r.journal.lives := by
  rw [deliver, get_bind]
  generalize r.watch.scope.changes resolve event = changes
  induction changes generalizing r with
  | nil => exact ⟨r, rfl, rfl, rfl⟩
  | cons c rest ih =>
    obtain ⟨r', h, hw, hl⟩ := ih
      { watch := { r.watch with debouncer := r.watch.debouncer.add now c }
        journal := r.journal.enter (.ofComponent "ScriptFileHandler" .debug ("file_" ++ c.kind.word)
          [("path", .text c.path.toText)]) }
    exact ⟨r', h, hw, hl⟩

end DirectoryWatch

end HotReload
