import HotReload.Host.Cycle
import HotReload.Proofs.Host.Forms
import HotReload.Proofs.Plan.Passes
import HotReload.Proofs.Watch.Tending

/-!
# Planning a cycle

Planning looks after the watch, takes the settled changes out of it and otherwise changes
nothing; what it answers is the plan of what is registered, watched, there and reported.
-/
namespace HotReload

/-- What reading the word for a kind raises if there is no such kind. -/
def ChangeKind.unknown (word : String) : Failure :=
  .raised "ValueError" (Text.quote word ++ " is not a valid ChangeKind")

/-- A scripted watch that fails with system failures, or as `E` says. -/
structure ScriptedWatch.Raises (E : Failure → Prop) (s : ScriptedWatch) : Prop where
  start : ∀ e, s.startError = some e → e.isSystem = true ∨ E e
  poll : ∀ e, s.pollError = some e → e.isSystem = true ∨ E e
  rearm : ∀ e, s.rearmError = some e → e.isSystem = true ∨ E e
  recreate : ∀ e, s.recreateError = some e → e.isSystem = true ∨ E e
  stop : ∀ e, s.stopError = some e → e.isSystem = true ∨ E e
  kinds : ∀ event ∈ s.events,
    (ChangeKind.ofWord? event.2).isSome = true ∨ E (ChangeKind.unknown event.2)

namespace ScriptedWatch

/-- A scripted watch apart from how often it was called. -/
def essence (s : ScriptedWatch) : ScriptedWatch :=
  { s with rearmResults := [], starts := 0, polls := 0, rearms := 0, recreates := 0, stops := 0 }

theorem outcome_error {α : Type} {error : Option Failure} {x : α} {e : Failure}
    (h : outcome error x = .error e) : error = some e := by
  cases error with
  | none => cases h
  | some f =>
    cases h
    rfl

theorem poll_of_none {s : ScriptedWatch} (h : s.pollError = none) :
    s.poll = (.ok s.events, { s with events := [], polls := s.polls + 1 }) := by
  simp only [poll, h]

theorem poll_of_some {s : ScriptedWatch} {e : Failure} (h : s.pollError = some e) :
    s.poll = (.error e, { s with polls := s.polls + 1 }) := by
  simp only [poll, h]

theorem essence_rearm (s : ScriptedWatch) : s.rearm.2.essence = s.essence := by
  simp only [rearm]
  split
  · rfl
  · split <;> rfl

theorem rearm_error {s : ScriptedWatch} {e : Failure} (h : s.rearm.1 = .error e) :
    s.rearmError = some e := by
  simp only [rearm] at h
  split at h
  · cases h
    assumption
  · split at h <;> cases h

end ScriptedWatch

namespace Watch

def Raises (E : Failure → Prop) : Watch → Prop
  | .scripted s => s.Raises E
  | .directory d => d.behavior.Raises E

/-- A watch that fails with system failures only, and whose events have valid kinds. -/
def Sound (x : Watch) : Prop := x.Raises fun _ => False

/-- A watch apart from its observers and from how often it was called. -/
def essence : Watch → Watch
  | .scripted s => .scripted s.essence
  | .directory d => .directory d.essence

/-- The paths that a watch has to report at a time. -/
def paths (now : Float) : Watch → List Path
  | .scripted s => if s.pollError.isSome then [] else s.events.map fun event => Path.parse event.1
  | .directory d => (d.debouncer.drain now).1.map (·.path)

theorem Raises.mono {E E' : Failure → Prop} {x : Watch} (h : x.Raises E) (hE : ∀ e, E e → E' e) :
    x.Raises E' := by
  cases x with
  | scripted s =>
    exact ⟨fun e he => (h.start e he).imp_right (hE e), fun e he => (h.poll e he).imp_right (hE e),
      fun e he => (h.rearm e he).imp_right (hE e), fun e he => (h.recreate e he).imp_right (hE e),
      fun e he =>
        (h.stop e he).imp_right (hE e), fun event he => (h.kinds event he).imp_right (hE _)⟩
  | directory d => exact ObserverBehavior.Raises.mono h hE

theorem paths_essence (x : Watch) (now : Float) : x.essence.paths now = x.paths now := by
  cases x <;> rfl

/-- A watch after a poll at a time: without what it handed out. -/
def polled (now : Float) : Watch → Watch
  | .scripted s => .scripted { s with events := if s.pollError.isSome then s.events else [] }
  | .directory d => .directory { d with debouncer := (d.debouncer.drain now).2 }

theorem essence_polled_essence (x : Watch) (now : Float) :
    (x.essence.polled now).essence = (x.polled now).essence := by
  cases x <;> rfl

/-- A watch hands out nothing twice. -/
theorem paths_polled (x : Watch) (now : Float) : (x.polled now).paths now = [] := by
  rcases x with s | d
  · simp only [polled, paths]
    split <;> rfl
  · have hsettled : (((d.debouncer.drain now).2).drain now).1 = [] := by
      simp only [Debouncer.drain, List.partition_eq_filter_filter]
      rw [List.map_eq_nil_iff, List.filter_eq_nil_iff]
      intro p hp
      have hwaits : d.debouncer.isSettled now p = false := by simpa using (List.mem_filter.mp hp).2
      exact Bool.eq_false_iff.mp hwaits
    exact List.map_eq_nil_iff.mpr hsettled

theorem raises_polled {E : Failure → Prop} {x : Watch} (h : x.Raises E) (now : Float) :
    (x.polled now).Raises E := by
  rcases x with s | d
  · refine ⟨h.start, h.poll, h.rearm, h.recreate, h.stop, fun event he => h.kinds event ?_⟩
    by_cases hp : s.pollError.isSome = true
    · simpa only [if_pos hp] using he
    · simp [hp] at he
  · exact h

theorem raises_of_essence {E : Failure → Prop} {x y : Watch} (h : x.essence = y.essence)
    (hy : y.Raises E) : x.Raises E := by
  rcases x with s | d <;> rcases y with t | e
  · have he : s.essence = t.essence := Watch.scripted.inj h
    have hs := congrArg ScriptedWatch.startError he
    have hp := congrArg ScriptedWatch.pollError he
    have hr := congrArg ScriptedWatch.rearmError he
    have hc := congrArg ScriptedWatch.recreateError he
    have ht := congrArg ScriptedWatch.stopError he
    have hk := congrArg ScriptedWatch.events he
    simp only [ScriptedWatch.essence] at hs hp hr hc ht hk
    exact ⟨hs ▸ hy.start, hp ▸ hy.poll, hr ▸ hy.rearm, hc ▸ hy.recreate, ht ▸ hy.stop,
      hk ▸ hy.kinds⟩
  · cases h
  · cases h
  · have he : d.essence = e.essence := Watch.directory.inj h
    have hb : d.essence.behavior = e.essence.behavior := by rw [he]
    have hb' : d.behavior = e.behavior := hb
    rw [Raises, hb']
    exact hy

end Watch

namespace World

open Operation

/-- Whether nothing changed but the watch and the journal, and no instance lived or died. -/
structure Framed (w w' : World) : Prop where
  frame : w' = { w with watch := w'.watch, watchStarted := w'.watchStarted, journal := w'.journal }
  lives : w'.journal.lives = w.journal.lives

/-- Whether, of the watch, only its observers changed. -/
structure Tended (w w' : World) : Prop extends Framed w w' where
  watch : w'.watch.map Watch.essence = w.watch.map Watch.essence

theorem tended_refl (w : World) : Tended w w := ⟨⟨rfl, rfl⟩, rfl⟩

theorem Framed.trans {a b c : World} (h : Framed a b) (k : Framed b c) : Framed a c where
  frame := by rw [k.frame, h.frame]
  lives := k.lives.trans h.lives

theorem Tended.trans {a b c : World} (h : Tended a b) (k : Tended b c) : Tended a c :=
  ⟨h.toFramed.trans k.toFramed, k.watch.trans h.watch⟩

/-- The paths that the watch has to report. -/
def reportedPaths (w : World) : List Path := w.watch.elim [] (·.paths w.now)

/-- Whether the watch, if there is one, fails with system failures, or as `E` says. -/
def WatchRaises (E : Failure → Prop) (w : World) : Prop := ∀ x, w.watch = some x → x.Raises E

/-- Whether so does the watch, and finding the canonical form of a path that it
reports fails as `E` says. -/
structure Raises (E : Failure → Prop) (w : World) : Prop where
  watch : WatchRaises E w
  paths : ∀ p ∈ w.reportedPaths, ∀ e, w.circle? p = some e → E e

/-- Whether the watch, if there is one, is sound, and every path that it reports
has a canonical form. -/
def IsSound (w : World) : Prop := Raises (fun _ => False) w

/-- Where nothing is polled, nothing fails. -/
theorem isSound_of_none {w : World} (h : w.watch = none) : IsSound w where
  watch x hx := by
    rw [h] at hx
    cases hx
  paths p hp := by
    rw [reportedPaths, h] at hp
    cases hp

/-- A sound watch that reports relative paths only. -/
theorem isSound_of_relative {w : World} (hw : WatchRaises (fun _ => False) w)
    (hp : ∀ p ∈ w.reportedPaths, p.isAbsolute = false) : IsSound w where
  watch := hw
  paths p hm e he := by
    rw [circle?_of_relative (hp p hm)] at he
    cases he

theorem Tended.reportedPaths {w w' : World} (h : Tended w w') :
    w'.reportedPaths = w.reportedPaths := by
  have he (x : Option Watch) (now : Float) : x.elim [] (·.paths now) = (x.map Watch.essence).elim []
    (·.paths now) := by
    cases x with
    | none => rfl
    | some x => exact (Watch.paths_essence x now).symm
  have hn : w'.now = w.now := by rw [h.frame]
  rw [World.reportedPaths, World.reportedPaths, he w'.watch, h.watch, ← he w.watch, hn]

theorem Tended.circle? {w w' : World} (h : Tended w w') (p : Path) :
    w'.circle? p = w.circle? p := by
  rw [h.frame]
  rfl

theorem Tended.watchRaises {E : Failure → Prop} {w w' : World} (h : Tended w w')
    (hw : WatchRaises E w) :
    WatchRaises E w' := by
  intro x hx
  have hm := h.watch
  rw [hx, Option.map_some] at hm
  obtain ⟨y, hy, he⟩ := Option.map_eq_some_iff.mp hm.symm
  exact Watch.raises_of_essence he.symm (hw y hy)

theorem Tended.raises {E : Failure → Prop} {w w' : World} (h : Tended w w') (hw : Raises E w) :
    Raises E w' where
  watch := h.watchRaises hw.watch
  paths p hp e he := hw.paths p (h.reportedPaths ▸ hp) e (h.circle? p ▸ he)

variable {α : Type} {w : World} {E : Failure → Prop}

theorem keeps_log (component : String) (level : LogLevel) (event : String)
    (fields : List (String × Value)) : Keeps (Tended w) E (log component level event fields) :=
  keeps_modify fun _ hs => hs.trans ⟨⟨rfl, rfl⟩, rfl⟩

theorem ends_scripted {d : ScriptedWatch} {act : ScriptedWatch → Except Failure α × ScriptedWatch}
    {s : World} (hs : Tended w s) (hd : s.watch = some (.scripted d))
    (ha : (act d).2.essence = d.essence) (he : ∀ e, (act d).1 = .error e → E e) :
    Ends (Tended w) E (scripted d act s) := by
  refine ⟨hs.trans ⟨⟨rfl, rfl⟩, ?_⟩, he⟩
  rw [hd]
  exact congrArg (some ∘ Watch.scripted) ha

theorem ends_watching {d : DirectoryWatch} {act : Watching α} {s : World} (hs : Tended w s)
    (hd : s.watch = some (.directory d)) (ha : Keeps (DirectoryWatch.Tends { watch := d }) E act) :
    Ends (Tended w) E (watching d act s) := by
  have ht := ha { watch := d } (DirectoryWatch.tends_refl _)
  refine ⟨hs.trans ⟨⟨rfl, ?_⟩, ?_⟩, ht.2⟩
  · show (s.journal.append (act { watch := d }).2.journal).lives = s.journal.lives
    rw [Journal.lives_append, ht.1.lives]
    exact List.append_nil _
  · rw [hd]
    exact congrArg (some ∘ Watch.directory) ht.1.essence

/-- Faults of a path that do not only mean absence are system failures. -/
theorem isSystem_of_not_absence {fault : FileFault} {path : String}
    (h : ¬FileTree.isAbsence fault = true) : (Failure.file fault path).isSystem = true := by
  cases fault <;> first | rfl | exact absurd rfl h

theorem isDirectory_error {t : FileTree FileContent} {p : Path} {e : Failure}
    (h : t.isDirectory p = .error e) : e.isSystem = true := by
  unfold FileTree.isDirectory at h
  split at h
  · cases h
  · cases h
  · split at h
    · cases h
    · cases h
      exact isSystem_of_not_absence ‹_›

section Raises

variable (hw : WatchRaises E w)
include hw

theorem keeps_ensureWatch : Keeps (Tended w) E ensureWatch := by
  refine keeps_get_bind fun s hs => ?_
  have hraises := hs.watchRaises hw
  rcases hx : s.watch with _ | x
  · exact keeps_pure _ s hs
  · dsimp only
    split
    · rw [set_bind]
      have ht : Tended w { s with watch := some x, watchStarted := true } :=
        hs.trans ⟨⟨rfl, rfl⟩, by rw [hx]⟩
      refine Ends.bind (ends_attempt ?_ fun e (he : e.isSystem = true ∨ E e) => he) fun result => ?_
      · have hx' := hraises x hx
        rcases x with d | d
        · exact ends_scripted ht rfl rfl fun e he => hx'.start e (ScriptedWatch.outcome_error he)
        · refine Ends.bind (ends_watching ht rfl ?_) fun _ => keeps_pure _
          have hk : Keeps (DirectoryWatch.Tends { watch := d }) E DirectoryWatch.start :=
            DirectoryWatch.keeps_start hx'
          exact hk.mono fun _ => Or.inr
      · cases result with
        | ok _ => exact keeps_pure _
        | error e => exact keeps_log _ _ _ _
    · exact keeps_pure _ s hs

theorem keeps_rearmWatch : Keeps (Tended w) E rearmWatch := by
  refine keeps_get_bind fun s hs => ?_
  have hraises := hs.watchRaises hw
  rcases hx : s.watch with _ | x
  · exact keeps_pure _ s hs
  · dsimp only
    refine Ends.bind (ends_attempt ?_ fun e (he : e.isSystem = true ∨ E e) => he) fun armed => ?_
    · have hx' := hraises x hx
      rcases x with d | d
      · exact ends_scripted hs hx d.essence_rearm fun e he =>
          hx'.rearm e (ScriptedWatch.rearm_error he)
      · exact ends_watching hs hx
          (DirectoryWatch.keeps_rearm fun e he => Or.inl (isDirectory_error he))
    · rcases armed with e | ⟨_ | _⟩
      on_goal 3 => exact keeps_pure _
      on_goal 1 => refine (keeps_log _ _ _ _).bind fun _ => ?_
      -- a stale watch is replaced in the same way whether the check failed or said so
      all_goals
        refine (keeps_log _ _ _ _).bind fun _ => keeps_get_bind fun s' hs' => ?_
        refine Ends.bind (ends_attempt ?_ fun e (he : e.isSystem = true ∨ E e) => he)
          fun recreated => ?_
        · rcases hx' : s'.watch with _ | d | d
          · exact keeps_pure _ s' hs'
          · have hd := hs'.watchRaises hw _ hx'
            exact ends_scripted hs' hx' rfl fun e he =>
              hd.recreate e (ScriptedWatch.outcome_error he)
          · refine ends_watching hs' hx' ?_
            have hk : Keeps (DirectoryWatch.Tends { watch := d }) E DirectoryWatch.recreate :=
              DirectoryWatch.keeps_recreate (hs'.watchRaises hw _ hx')
            exact hk.mono fun _ => Or.inr
        · rcases recreated with e | ⟨_ | _⟩
          · exact keeps_log _ _ _ _
          · exact keeps_log _ _ _ _
          · exact keeps_pure _

end Raises

/-! What is read. -/

/-- Whether a path leads to a file, as far as that can be told. -/
def hasFile (w : World) (p : Path) : Bool := (w.files.isFile (w.fileOf p)).toOption.getD false

/-- Whether it can be told of every watched path. -/
def IsReadable (w : World) : Prop := ∀ p ∈ w.watched, ∃ b, w.files.isFile (w.fileOf p) = .ok b

theorem hasFile_of_isFile {p : Path} {b : Bool} (h : w.files.isFile (w.fileOf p) = .ok b) :
    w.hasFile p = b := by
  simp only [hasFile, h, Except.toOption, Option.getD_some]

theorem isFile_of_hasFile {p : Path} (h : w.hasFile p = true) :
    w.files.isFile (w.fileOf p) = .ok true := by
  unfold hasFile at h
  rcases hf : w.files.isFile (w.fileOf p) with e | b
  · rw [hf] at h
    cases h
  · rw [hf] at h
    exact congrArg Except.ok h

theorem isFile_error {t : FileTree FileContent} {p : Path} {e : Failure}
    (h : t.isFile p = .error e) : e.isSystem = true := by
  unfold FileTree.isFile at h
  split at h
  · cases h
  · cases h
  · split at h
    · cases h
    · cases h
      exact isSystem_of_not_absence ‹_›

/-- Asks for the files of some paths. -/
def askFiles (w : World) (paths : List Path) : Act (List (Path × Bool)) :=
  paths.mapM fun path => do
    return (path, ← liftExcept (w.files.isFile (w.fileOf path)))

/-- Asking for files changes nothing, and fails only where a file cannot be asked for. -/
theorem askFiles_cases (w s : World) (paths : List Path) :
    (askFiles w paths s = (.ok (paths.map fun p => (p, w.hasFile p)), s) ∧
      ∀ p ∈ paths, ∃ b, w.files.isFile (w.fileOf p) = .ok b) ∨
    ∃ e p, askFiles w paths s = (.error e, s) ∧ e.isSystem = true ∧ p ∈ paths ∧
      w.files.isFile (w.fileOf p) = .error e := by
  induction paths with
  | nil => exact Or.inl ⟨rfl, by simp⟩
  | cons p rest ih =>
    rw [askFiles, List.mapM_cons]
    rcases hp : w.files.isFile (w.fileOf p) with e | b
    · exact Or.inr ⟨e, p, rfl, isFile_error hp, by simp, hp⟩
    · have hb : w.hasFile p = b := hasFile_of_isFile hp
      have hone : (do return (p, ← liftExcept (.ok b)) : Act (Path × Bool)) s = (.ok (p, b), s) :=
        rfl
      rw [bind_of_ok hone]
      rcases ih with ⟨h, hall⟩ | ⟨e, q, h, he, hq, hqe⟩
      · left
        rw [askFiles] at h
        rw [bind_of_ok h, List.map_cons, hb]
        exact ⟨rfl, List.forall_mem_cons.mpr ⟨⟨b, hp⟩, hall⟩⟩
      · right
        rw [askFiles] at h
        exact ⟨e, q, bind_of_error h _, he, List.mem_cons_of_mem _ hq, hqe⟩

theorem watchedFiles_eq (w : World) : watchedFiles w = askFiles w w.watched w := rfl

/-- What a watch has to report, with the paths in canonical form. -/
def reports (w : World) : Watch → List Change
  | .scripted s =>
    if s.pollError.isSome then [] else (s.events.map w.readChange).filterMap Except.toOption
  | .directory d => (d.debouncer.drain w.now).1.map fun c => ⟨w.canonical c.path, c.kind⟩

def reported (w : World) : List Change := w.watch.elim [] w.reports

theorem reports_essence (w : World) (x : Watch) : w.reports x.essence = w.reports x := by
  cases x <;> rfl

/-- The world after a poll. -/
def polled (w : World) : World := { w with watch := w.watch.map (Watch.polled w.now) }

theorem readChange_error {event : String × String} {e : Failure}
    (h : w.readChange event = .error e) :
    w.circle? (Path.parse event.1) = some e ∨
      ChangeKind.ofWord? event.2 = none ∧ e = ChangeKind.unknown event.2 := by
  unfold readChange at h
  split at h
  · cases h
  · cases h
    exact Or.inr ⟨by assumption, rfl⟩
  · cases h
    exact Or.inl (normalize_error.mp ‹_›)

theorem circle?_of_readChange {event : String × String} {c : Change}
    (h : w.readChange event = .ok c) :
    w.circle? (Path.parse event.1) = none := by
  unfold readChange at h
  split at h
  · exact (normalize_ok ‹_›).1
  · cases h
  · cases h

theorem readChange_of_none {event : String × String} {kind : ChangeKind}
    (hc : w.circle? (Path.parse event.1) = none) (hk : ChangeKind.ofWord? event.2 = some kind) :
    w.readChange event = .ok ⟨w.canonical (Path.parse event.1), kind⟩ := by
  rw [readChange, normalize_of_none hc, hk]

/-- Results that may be failures are handed on if none of them is one. -/
theorem liftAll_cases (s : World) (results : List (Except Failure α))
    (h : ∀ r ∈ results, ∀ e, r = .error e → E e) :
    (results.mapM liftExcept : Act (List α)) s = (.ok (results.filterMap Except.toOption), s) ∧
        (∀ r ∈ results, ∃ x, r = .ok x) ∨
      ∃ e, (results.mapM liftExcept : Act (List α)) s = (.error e, s) ∧ E e := by
  induction results with
  | nil => exact Or.inl ⟨rfl, by simp⟩
  | cons r rest ih =>
    rw [List.mapM_cons]
    cases r with
    | error e => exact Or.inr ⟨e, rfl, h _ (by simp) e rfl⟩
    | ok x =>
      have hone : (liftExcept (.ok x) : Act α) s = (.ok x, s) := rfl
      rw [bind_of_ok hone]
      rcases ih fun r hr => h r (List.mem_cons_of_mem _ hr) with ⟨hall, hok⟩ | ⟨e, he, hE⟩
      · rw [bind_of_ok hall]
        exact Or.inl ⟨rfl, List.forall_mem_cons.mpr ⟨⟨x, rfl⟩, hok⟩⟩
      · exact Or.inr ⟨e, bind_of_error he _, hE⟩

/-- Takes what a watch has to report. -/
def pollWatch (w : World) : Watch → Act (List (Except Failure Change))
  | .scripted s => do return (← scripted s ScriptedWatch.poll).map w.readChange
  | .directory d => do
    return (← watching d (DirectoryWatch.poll w.now)).map fun c =>
      (w.normalize c.path).map (⟨·, c.kind⟩)

theorem scripted_eq {s t : ScriptedWatch} {act : ScriptedWatch → Except Failure α × ScriptedWatch}
    {result : Except Failure α} (h : act s = (result, t)) (w : World) :
    scripted s act w = (result, { w with watch := some (.scripted t) }) := by
  simp only [scripted, h]

/-- Whether every reported path has a canonical form. -/
def HasForms (w : World) : Prop := ∀ p ∈ w.reportedPaths, w.circle? p = none

/-- A scripted watch hands out its events, or keeps them and fails. -/
theorem pollWatch_scripted {s : ScriptedWatch} (hx : w.watch = some (.scripted s))
    (hw : Raises E w) :
    ∃ w', Tended w.polled w' ∧
      ((∃ results, pollWatch w (.scripted s) w = (.ok results, w') ∧
          (∀ r ∈ results, ∀ e, r = .error e → E e) ∧
            results.filterMap Except.toOption = w.reported ∧
          ((∀ r ∈ results, ∃ x, r = .ok x) → HasForms w)) ∨
        ∃ e, pollWatch w (.scripted s) w = (.error e, w') ∧ (e.isSystem = true ∨ E e) ∧
          w.reported = [] ∧ HasForms w) := by
  have hs : s.Raises E := hw.watch _ hx
  rcases he : s.pollError with _ | e
  · have hp := scripted_eq (ScriptedWatch.poll_of_none he) w
    have hpaths : w.reportedPaths = s.events.map fun event => Path.parse event.1 := by
      rw [reportedPaths, hx, Option.elim_some, Watch.paths, he]
      rfl
    refine ⟨_, ?_,
      Or.inl ⟨s.events.map w.readChange, bind_of_ok hp _, fun r hr e hre => ?_, ?_, fun hok => ?_⟩⟩
    · refine ⟨⟨rfl, rfl⟩, ?_⟩
      simp only [polled, hx, Option.map_some, Watch.polled, Watch.essence,
        ScriptedWatch.essence, he]
      rfl
    · obtain ⟨event, hm, rfl⟩ := List.mem_map.mp hr
      rcases readChange_error hre with hcircle | ⟨hnone, rfl⟩
      · exact hw.paths (Path.parse event.1) (hpaths ▸ List.mem_map_of_mem hm) e hcircle
      · refine (hs.kinds event hm).resolve_left ?_
        rw [hnone]
        decide
    · simp only [reported, hx, Option.elim_some, reports, he]
      rfl
    · intro p hp
      rw [hpaths] at hp
      obtain ⟨event, hm, rfl⟩ := List.mem_map.mp hp
      obtain ⟨x, hread⟩ := hok _ (List.mem_map_of_mem hm)
      exact circle?_of_readChange hread
  · have hp := scripted_eq (ScriptedWatch.poll_of_some he) w
    refine ⟨_, ?_, Or.inr ⟨e, bind_of_error hp _, hs.poll e he, ?_, fun p hp => ?_⟩⟩
    · refine ⟨⟨rfl, rfl⟩, ?_⟩
      simp only [polled, hx, Option.map_some, Watch.polled, Watch.essence,
        ScriptedWatch.essence, he]
      rfl
    · simp only [reported, hx, Option.elim_some, reports, he]
      rfl
    · rw [reportedPaths, hx, Option.elim_some, Watch.paths, he] at hp
      cases hp

/-- A directory watch hands out what has settled. -/
theorem pollWatch_directory {d : DirectoryWatch} (hx : w.watch = some (.directory d))
    (hw : Raises E w) :
    ∃ w', Tended w.polled w' ∧ ∃ results, pollWatch w (.directory d) w = (.ok results, w') ∧
      (∀ r ∈ results, ∀ e, r = .error e → E e) ∧
      ((∀ r ∈ results, ∃ x, r = .ok x) → results.filterMap Except.toOption = w.reported ∧
        HasForms w) := by
  obtain ⟨r', hp, hwatch, hl⟩ := DirectoryWatch.poll_eq w.now { watch := d }
  have hq : watching d (DirectoryWatch.poll w.now) w = (.ok (d.debouncer.drain w.now).1,
      { w with watch := some (.directory r'.watch), journal := w.journal.append r'.journal }) := by
    simp only [watching, hp]
  have hpaths : w.reportedPaths = (d.debouncer.drain w.now).1.map (·.path) := by
    rw [reportedPaths, hx]
    rfl
  refine ⟨_, ?_, _, bind_of_ok hq _, fun r hr e he => ?_, fun hok => ⟨?_, fun p hp => ?_⟩⟩
  · refine ⟨⟨rfl, ?_⟩, ?_⟩
    · show (w.journal.append r'.journal).lives = w.journal.lives
      rw [Journal.lives_append, hl]
      exact List.append_nil _
    · simp only [polled, hx, Option.map_some, Watch.polled, hwatch]
  · obtain ⟨c, hc, rfl⟩ := List.mem_map.mp hr
    rcases hform : w.normalize c.path with f | form
    · rw [hform] at he
      cases he
      exact hw.paths c.path (hpaths ▸ List.mem_map_of_mem hc) e (normalize_error.mp hform)
    · rw [hform] at he
      cases he
  · simp only [reported, hx, Option.elim_some, reports, List.filterMap_map]
    rw [← List.filterMap_eq_map]
    refine List.filterMap_congr fun c hc => ?_
    obtain ⟨x, hform⟩ := hok _ (List.mem_map_of_mem hc)
    rcases hn : w.normalize c.path with f | form
    · rw [hn] at hform
      cases hform
    · rw [Function.comp_apply, hn, (normalize_ok hn).2]
      rfl
  · rw [hpaths] at hp
    obtain ⟨c, hc, rfl⟩ := List.mem_map.mp hp
    obtain ⟨x, hform⟩ := hok _ (List.mem_map_of_mem hc)
    rcases hn : w.normalize c.path with f | form
    · rw [hn] at hform
      cases hform
    · exact (normalize_ok hn).1

/-- A poll answers what was reported and takes it out of the watch; what it raises is
not a system failure. -/
theorem pollChanges_cases (hw : Raises E w) :
    ∃ w', Tended w.polled w' ∧
      (pollChanges w = (.ok w.reported, w') ∧ HasForms w ∨ ∃ e, pollChanges w = (.error e, w') ∧
        E e) := by
  rw [pollChanges, get_bind]
  rcases hx : w.watch with _ | s | d
  · refine ⟨w, ⟨⟨rfl, rfl⟩, ?_⟩, Or.inl ⟨by rw [reported, hx]; rfl, fun p hp => ?_⟩⟩
    · rw [polled, hx]
      rfl
    · rw [reportedPaths, hx] at hp
      cases hp
  · obtain ⟨w', ht, ⟨results, hp, hok, hr, hforms⟩ | ⟨e, hp, he, hr, hforms⟩⟩ :=
      pollWatch_scripted hx hw
    · refine ⟨w', ht, ?_⟩
      have ha : attempt Failure.isSystem (pollWatch w (.scripted s)) w = _ := attempt_of_ok hp
      rcases liftAll_cases w' results hok with ⟨hl, hall⟩ | ⟨e, hl, he⟩
      · left
        rw [← hr]
        exact ⟨(bind_of_ok ha _).trans hl, hforms hall⟩
      · exact Or.inr ⟨e, (bind_of_ok ha _).trans hl, he⟩
    · have ha : attempt Failure.isSystem (pollWatch w (.scripted s)) w = _ := attempt_of_error hp
      by_cases hs : e.isSystem = true
      · rw [if_pos hs] at ha
        rw [hr]
        refine ⟨_, ?_, Or.inl ⟨bind_of_ok ha _, hforms⟩⟩
        exact ht.trans ⟨⟨rfl, rfl⟩, rfl⟩
      · rw [if_neg hs] at ha
        exact ⟨w', ht, Or.inr ⟨e, bind_of_error ha _, he.resolve_left hs⟩⟩
  · obtain ⟨w', ht, results, hp, hok, hr⟩ := pollWatch_directory hx hw
    refine ⟨w', ht, ?_⟩
    have ha : attempt Failure.isSystem (pollWatch w (.directory d)) w = _ := attempt_of_ok hp
    rcases liftAll_cases w' results hok with ⟨hl, hall⟩ | ⟨e, hl, he⟩
    · left
      rw [← (hr hall).1]
      exact ⟨(bind_of_ok ha _).trans hl, (hr hall).2⟩
    · exact Or.inr ⟨e, (bind_of_ok ha _).trans hl, he⟩

theorem Tended.reported {w w' : World} (h : Tended w w') : w'.reported = w.reported := by
  have hr : w'.reports = w.reports := by
    funext x
    rw [h.frame]
    rfl
  have he (x : Option Watch) : x.elim [] w.reports = (x.map Watch.essence).elim [] w.reports := by
    cases x with
    | none => rfl
    | some x => exact (reports_essence w x).symm
  unfold World.reported
  rw [hr, he w'.watch, h.watch, ← he w.watch]

theorem Tended.polled {w w' : World} (h : Tended w w') : Tended w.polled w'.polled := by
  have hn : w'.now = w.now := by rw [h.frame]
  have he (x : Option Watch) : (x.map (Watch.polled w.now)).map Watch.essence =
      ((x.map Watch.essence).map (Watch.polled w.now)).map Watch.essence := by
    cases x with
    | none => rfl
    | some x => exact congrArg some (Watch.essence_polled_essence x w.now).symm
  refine ⟨⟨?_, h.lives⟩, ?_⟩
  · simp only [World.polled]
    rw [h.frame]
  · simp only [World.polled]
    rw [hn, he w'.watch, h.watch, ← he w.watch]

theorem framed_polled (w : World) : Framed w w.polled := ⟨rfl, rfl⟩

theorem reportedPaths_polled (w : World) : w.polled.reportedPaths = [] := by
  rw [reportedPaths, polled]
  cases w.watch with
  | none => rfl
  | some x => exact Watch.paths_polled x w.now

theorem watchRaises_polled (hw : WatchRaises E w) : WatchRaises E w.polled := by
  intro x hx
  obtain ⟨y, hy, rfl⟩ := Option.map_eq_some_iff.mp hx
  exact Watch.raises_polled (hw y hy) _

theorem raises_polled (hw : Raises E w) : Raises E w.polled where
  watch := watchRaises_polled hw.watch
  paths p hp := by
    rw [reportedPaths_polled] at hp
    cases hp

theorem Tended.hasForms {w w' : World} (h : Tended w w') : HasForms w' ↔ HasForms w := by
  rw [HasForms, h.reportedPaths]
  exact forall₂_congr fun p _ => by rw [h.circle?]

theorem Tended.isReadable {w w' : World} (h : Tended w w') : IsReadable w' ↔ IsReadable w := by
  rw [h.frame]
  rfl

/-- The plan of what is registered, watched, there and reported. -/
def plan (w : World) : Plan Nat :=
  Plan.compute w.registry w.dependencyTable (w.watched.map fun p => (p, w.hasFile p)) w.reported

/-- Planning ends with the plan, or with a watched file that cannot be asked for, or with
what the watch raises. -/
theorem planCycle_cases (hw : Raises E w) :
    (∃ w', planCycle w = (.ok w.plan, w') ∧ Tended w.polled w' ∧ HasForms w) ∨
      ∃ e w', planCycle w = (.error e, w') ∧
        (¬ IsReadable w ∧ e.isSystem = true ∧ Tended w w' ∨
          E e ∧ (Tended w w' ∨ Tended w.polled w')) := by
  rw [planCycle]
  obtain ⟨hs₁, he₁⟩ := keeps_ensureWatch hw.watch w (tended_refl w)
  rcases h₁ : ensureWatch w with ⟨e | u₁, w₁⟩
  · rw [h₁] at hs₁ he₁
    exact Or.inr ⟨e, w₁, bind_of_error h₁ _, Or.inr ⟨he₁ e rfl, Or.inl hs₁⟩⟩
  rw [h₁] at hs₁
  have ht₁ : Tended w w₁ := hs₁
  rw [bind_of_ok h₁]
  rcases askFiles_cases w₁ w₁ w₁.watched with ⟨h₂, -⟩ | ⟨e, p, h₂, he, hp, hpe⟩
  on_goal 2 =>
    refine Or.inr ⟨e, w₁, bind_of_error ((watchedFiles_eq w₁).trans h₂) _,
      Or.inl ⟨fun hr => ?_, he, ht₁⟩⟩
    obtain ⟨b, hb⟩ := (ht₁.isReadable.mpr hr) p hp
    rw [hb] at hpe
    cases hpe
  rw [bind_of_ok ((watchedFiles_eq w₁).trans h₂)]
  obtain ⟨w₂, ht₂, ⟨h₃, hforms⟩ | ⟨e, h₃, he⟩⟩ := pollChanges_cases (ht₁.raises hw)
  on_goal 2 =>
    exact Or.inr ⟨e, w₂, bind_of_error h₃ _, Or.inr ⟨he, Or.inr (ht₁.polled.trans ht₂)⟩⟩
  rw [bind_of_ok h₃]
  have ht : Tended w.polled w₂ := ht₁.polled.trans ht₂
  obtain ⟨hs₃, he₃⟩ :=
    keeps_rearmWatch (ht.watchRaises (watchRaises_polled hw.watch)) w₂ (tended_refl w₂)
  rcases h₄ : rearmWatch w₂ with ⟨e | u₃, w₃⟩
  · rw [h₄] at hs₃ he₃
    exact Or.inr ⟨e, w₃, bind_of_error h₄ _, Or.inr ⟨he₃ e rfl, Or.inr (ht.trans hs₃)⟩⟩
  rw [h₄] at hs₃
  have ht₃ : Tended w.polled w₃ := ht.trans hs₃
  refine Or.inl ⟨w₃, ?_, ht₃, ht₁.hasForms.mp hforms⟩
  have hfiles : (w₁.watched.map fun p => (p, w₁.hasFile p)) = w.watched.map fun p =>
    (p, w.hasFile p) := by
    rw [ht₁.frame]
    rfl
  have hregistry : w₃.registry = w.registry := by rw [ht₃.frame]; rfl
  have htable : w₃.dependencyTable = w.dependencyTable := by rw [ht₃.frame]; rfl
  rw [bind_of_ok h₄, get_bind, hfiles, hregistry, htable, ht₁.reported]
  rfl

theorem planCycle_eq (hw : IsSound w) (hf : IsReadable w) :
    ∃ w', planCycle w = (.ok w.plan, w') ∧ Tended w.polled w' := by
  rcases planCycle_cases hw with ⟨w', hp, ht, -⟩ | ⟨e, w', -, ⟨hr, -⟩ | ⟨he, -⟩⟩
  · exact ⟨w', hp, ht⟩
  · exact absurd hf hr
  · exact he.elim

/-- Where links lead a reported path round in a circle, planning fails once what
was reported is taken. -/
theorem planCycle_of_circle (hw : WatchRaises (fun _ => False) w) (hf : IsReadable w)
    (hc : ¬HasForms w) :
    ∃ argument w', planCycle w = (.error (.raised "RuntimeError" argument), w') ∧
      Tended w.polled w' := by
  obtain ⟨⟨⟩, w₁, h₁, ht₁⟩ := (keeps_ensureWatch hw w (tended_refl w)).succeeds
  have hfiles : ∃ files, watchedFiles w₁ = (.ok files, w₁) := by
    rcases askFiles_cases w₁ w₁ w₁.watched with ⟨h₂, -⟩ | ⟨e, p, -, -, hp, hpe⟩
    · exact ⟨_, (watchedFiles_eq w₁).trans h₂⟩
    · obtain ⟨b, hb⟩ := (ht₁.isReadable.mpr hf) p hp
      rw [hb] at hpe
      cases hpe
  obtain ⟨files, h₂⟩ := hfiles
  let IsCircle (e : Failure) : Prop := ∃ argument, e = .raised "RuntimeError" argument
  have hraises : Raises IsCircle w₁ :=
    ⟨fun x hx =>
      (ht₁.watchRaises hw x hx).mono fun _ he => he.elim, fun _ _ _ he => circle?_failure he⟩
  rw [planCycle, bind_of_ok h₁, bind_of_ok h₂]
  obtain ⟨w₂, ht₂, ⟨-, hforms⟩ | ⟨e, h₃, argument, rfl⟩⟩ := pollChanges_cases hraises
  · exact absurd (ht₁.hasForms.mp hforms) hc
  · exact ⟨argument, w₂, bind_of_error h₃ _, ht₁.polled.trans ht₂⟩

end World

end HotReload
