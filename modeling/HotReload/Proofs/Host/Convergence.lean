import Mathlib.Logic.Function.Basic
import HotReload.FileTree.Edit
import HotReload.Proofs.Change.Debouncer
import HotReload.Proofs.FileTree.Lookup
import HotReload.Proofs.Host.Claiming
import HotReload.Proofs.Host.Outcome
import HotReload.Proofs.Path.Canonical

/-!
# Convergence under faithful reporting

Files come and go, every change is reported at once, and cycles take in what has settled.
Whatever the order and the times, each cycle ends with the watched paths that have a file,
and an instance is never older than the last change of its file unless a change still waits.
-/
namespace HotReload

theorem EventScope.change?_join {scope : EventScope} {resolve : Path → Option Path} {p : Path}
    (hp : p.anchor = .relative) (hi : ignores scope.ignorePatterns p = false) (kind : ChangeKind) :
    scope.change? resolve kind (scope.root.join p) = some ⟨p, kind⟩ := by
  obtain ⟨anchor, parts⟩ := p
  subst hp
  have hj : scope.root.join ⟨.relative, parts⟩ = ⟨scope.root.anchor, scope.root.parts ++ parts⟩ :=
    rfl
  have hr : scope.relative? resolve (scope.root.join ⟨.relative, parts⟩) =
    some ⟨.relative, parts⟩ := by
    rw [relative?, hj, Path.relativeTo?, if_pos ⟨rfl, List.prefix_append _ _⟩]
    simp
  simp only [change?, hr, hi]
  rfl

namespace World

/-- Whether a path is written as one below the root, without steps up. -/
def IsBelow (p : Path) : Prop := p.anchor = .relative ∧ ".." ∉ p.parts

theorem IsBelow.isAbsolute {p : Path} (h : IsBelow p) : p.isAbsolute = false := by
  simp [Path.isAbsolute, h.1]

theorem canonical_of_below {p : Path} (h : IsBelow p) (w : World) : w.canonical p = p := by
  rw [canonical, Path.canonical, h.isAbsolute]
  exact Path.fold_of_names h.2

/-- Whether changes of a path's file are observed: it is below the root and not ignored. -/
def IsObserved (w : World) (p : Path) : Prop :=
  IsBelow p ∧ ∀ d, w.watch = some (.directory d) →
    EventScope.ignores d.scope.ignorePatterns p = false

/-- Whether other files have the same paths below the root, apart from some paths. -/
def ChangesOnly (w : World) (files : FileTree FileContent) (paths : List Path) : Prop :=
  ∀ p, IsBelow p → p ∉ paths → ({ w with files } : World).hasFile p = w.hasFile p

/-- An observed event reaches the debouncer of the watch. -/
def report (w : World) (event : FileEvent) : World :=
  match w.watch with
  | some (.directory d) => (watching d (DirectoryWatch.deliver w.files.resolve? w.now event) w).2
  | _ => w

/-- Whether a step concerns neither files nor the registry nor the watch, and keeps the
instances there are. -/
structure Quiet (w w' : World) : Prop where
  root : w'.root = w.root
  files : w'.files = w.files
  registry : w'.registry = w.registry
  watch : w'.watch = w.watch
  scripts : ∀ n s, w.script? n = some s → ∃ s', w'.script? n = some s' ∧ s'.path = s.path

/-- Runs of file operations that are reported at once, of operators and scripts, and of cycles.
With each state comes how many instances there were when a path's file was last operated on. -/
inductive Run : World → (Path → Nat) → Prop
  | start {w : World} {d : DirectoryWatch} : w.registry = [] → w.watch = some (.directory d) →
      d.scope.root = w.root → d.behavior.Sound → d.debouncer.pending = [] → Run w fun _ => 0
  | write {w : World} {stamp : Path → Nat} {files : FileTree FileContent} {p : Path}
      {kind : FileEventKind} : Run w stamp → IsObserved w p → kind = .created ∨ kind = .modified →
      ChangesOnly w files [p] → ({ w with files } : World).hasFile p = true →
      Run (report { w with files } { kind, source := w.fileOf p })
        (Function.update stamp p w.scripts.length)
  | delete {w : World} {stamp : Path → Nat} {files : FileTree FileContent} {p : Path} :
      Run w stamp → IsObserved w p → ChangesOnly w files [p] →
      ({ w with files } : World).hasFile p = false →
      Run (report { w with files } { kind := .deleted, source := w.fileOf p })
        (Function.update stamp p w.scripts.length)
  | move {w : World} {stamp : Path → Nat} {files : FileTree FileContent} {p q : Path} :
      Run w stamp → IsObserved w p → IsObserved w q → p ≠ q → ChangesOnly w files [p, q] →
      ({ w with files } : World).hasFile p = false → ({ w with files } : World).hasFile q = true →
      Run (report { w with files } { kind := .moved, source := w.fileOf p, target := w.fileOf q })
        (Function.update (Function.update stamp p w.scripts.length) q w.scripts.length)
  | tick {w : World} {stamp : Path → Nat} (now : Float) : Run w stamp → Run { w with now } stamp
  | watch {w : World} {stamp : Path → Nat} (paths : List Path) : Run w stamp →
      Run (watchPaths paths w).2 stamp
  | unwatch {w : World} {stamp : Path → Nat} (paths : List Path) : Run w stamp →
      Run (unwatchPaths paths w).2 stamp
  | other {w w' : World} {stamp : Path → Nat} : Run w stamp → Quiet w w' → Run w' stamp
  | cycle {w : World} {stamp : Path → Nat} : Run w stamp → IsReadable w → Run (cycle w).2 stamp

/-- What holds of the changes that wait: each path waits once, and for a deletion exactly
when its file is gone. -/
structure Agrees (w : World) (pending : List PendingChange) : Prop where
  nodup : (pending.map (·.path)).Nodup
  below : ∀ c ∈ pending, IsBelow c.path
  gone : ∀ c ∈ pending, c.kind = .deleted ↔ w.hasFile c.path = false

/-- What holds along a run. -/
structure Tracks (w : World) (stamp : Path → Nat) (d : DirectoryWatch) : Prop where
  watch : w.watch = some (.directory d)
  root : d.scope.root = w.root
  sound : d.behavior.Sound
  registered : IsRegistered w
  named : ∀ p n, w.registry.get? p = some n → IsNamed w p
  pending : Agrees w d.debouncer.pending
  stamped : ∀ p, stamp p ≤ w.scripts.length
  fresh : ∀ p n, w.registry.get? p = some n → p ∉ d.debouncer.pendingPaths → stamp p ≤ n

variable {w w' : World} {stamp : Path → Nat} {d : DirectoryWatch}

/-- Reported changes keep the agreement when they tell of every path whose file may have
changed whether it is gone. -/
theorem agrees_fold {now : Float} {changes : List Change} {pending : List PendingChange}
    (hn : (pending.map (·.path)).Nodup) (hb : ∀ c ∈ pending, IsBelow c.path)
    (hg : ∀ c ∈ pending, c.path ∉ changes.map (·.path) →
      (c.kind = .deleted ↔ w.hasFile c.path = false))
    (hcn : (changes.map (·.path)).Nodup) (hcb : ∀ c ∈ changes, IsBelow c.path)
    (hcg : ∀ c ∈ changes, c.kind = .deleted ↔ w.hasFile c.path = false) :
    Agrees w (changes.foldl (fun pending c => Debouncer.insert now c pending) pending) := by
  induction changes generalizing pending with
  | nil => exact ⟨hn, hb, fun c hc => hg c hc (by simp)⟩
  | cons change rest ih =>
    rw [List.map_cons, List.nodup_cons] at hcn
    refine ih (Debouncer.nodup_insert hn) (fun c hc => ?_) (fun c hc hr => ?_) hcn.2
      (fun c hc => hcb c (List.mem_cons_of_mem _ hc)) fun c hc => hcg c (List.mem_cons_of_mem _ hc)
    · rcases Debouncer.mem_insert hn hc with ⟨hm, -⟩ | ⟨hp, -⟩
      · exact hb c hm
      · rw [hp]
        exact hcb change (by simp)
    · rcases Debouncer.mem_insert hn hc with ⟨hm, hne⟩ | ⟨hp, hk⟩
      · refine hg c hm ?_
        rw [List.map_cons, List.mem_cons, not_or]
        exact ⟨hne, hr⟩
      · rw [hk, hp]
        exact hcg change (by simp)

/-- A file operation: the files of some paths change, and an event tells of
each whether it is gone. -/
theorem Tracks.changed {files : FileTree FileContent} {event : FileEvent} {changes : List Change}
    {stamp' : Path → Nat} (h : Tracks w stamp d)
    (hc : d.scope.changes files.resolve? event = changes)
    (hn : (changes.map (·.path)).Nodup) (hb : ∀ c ∈ changes, IsBelow c.path)
    (hg : ∀ c ∈ changes, c.kind = .deleted ↔ ({ w with files } : World).hasFile c.path = false)
    (ho : ChangesOnly w files (changes.map (·.path)))
    (hs : ∀ p, stamp' p ≤ w.scripts.length)
    (hs' : ∀ p, p ∉ changes.map (·.path) → stamp' p = stamp p) :
    ∃ d', Tracks (report { w with files } event) stamp' d' := by
  obtain ⟨r', hd, hw, -⟩ := DirectoryWatch.deliver_eq files.resolve? w.now event { watch := d }
  have hr : report { w with files } event =
      { w with
        files, watch := some (.directory r'.watch), journal := w.journal.append r'.journal } := by
    simp only [report, h.watch, watching, hd]
  simp only [hc, Debouncer.foldl_add] at hw
  rw [hr]
  refine ⟨r'.watch, rfl, ?_, ?_, ⟨h.registered.nodup, h.registered.script⟩, h.named, ?_, hs, ?_⟩
  · rw [hw]
    exact h.root
  · rw [hw]
    exact h.sound
  · rw [hw]
    refine agrees_fold h.pending.nodup h.pending.below (fun c hc hp => ?_) hn hb hg
    rw [h.pending.gone c hc, ← ho c.path (h.pending.below c hc) hp]
    rfl
  · intro p n hp hw'
    rw [hw, Debouncer.pendingPaths, Debouncer.mem_paths_foldl_insert, not_or] at hw'
    rw [hs' p hw'.2]
    exact h.fresh p n hp hw'.1

theorem Quiet.length_le (h : Quiet w w') : w.scripts.length ≤ w'.scripts.length := by
  by_contra hl
  have hs : w.script? w'.scripts.length = some w.scripts[w'.scripts.length] :=
    List.getElem?_eq_getElem (by omega)
  obtain ⟨s', hs', -⟩ := h.scripts _ _ hs
  have := (List.getElem?_eq_some_iff.mp hs').1
  omega

theorem Tracks.quiet (h : Tracks w stamp d) (hq : Quiet w w') : Tracks w' stamp d := by
  have hf : w'.hasFile = w.hasFile := by
    funext p
    simp only [hasFile, fileOf, hq.files, hq.root]
  refine ⟨hq.watch.trans h.watch, h.root.trans hq.root.symm, h.sound, ⟨?_, ?_⟩, ?_, ?_, ?_, ?_⟩
  · rw [hq.registry]
    exact h.registered.nodup
  · intro p n hp
    rw [hq.registry] at hp
    obtain ⟨s, hs, rfl⟩ := h.registered.script p n hp
    exact hq.scripts n s hs
  · intro p n hp
    rw [hq.registry] at hp
    simp only [IsNamed, fileOf, hq.root]
    exact h.named p n hp
  · refine ⟨h.pending.nodup, h.pending.below, ?_⟩
    rw [hf]
    exact h.pending.gone
  · exact fun p => (h.stamped p).trans hq.length_le
  · rw [hq.registry]
    exact h.fresh

theorem Tracks.reported (h : Tracks w stamp d) : w.reported = (d.debouncer.drain w.now).1 := by
  simp only [World.reported, h.watch, Option.elim_some, reports]
  refine (List.map_congr_left fun c hc => ?_).trans (List.map_id _)
  obtain ⟨p, hp, -, rfl⟩ := Debouncer.mem_settled.mp hc
  rw [canonical_of_below (h.pending.below p hp)]
  rfl

/-- What was reported of a path tells whether its file is gone. -/
theorem Tracks.hasFile_of_updated (h : Tracks w stamp d) {p : Path}
    (hu : Plan.Updated w.reported p) :
    w.hasFile p = true := by
  obtain ⟨c, hc, rfl, hk⟩ := hu
  rw [h.reported] at hc
  obtain ⟨q, hq, -, rfl⟩ := Debouncer.mem_settled.mp hc
  by_contra hf
  exact hk ((h.pending.gone q hq).mpr (Bool.eq_false_of_not_eq_true hf))

theorem Tracks.hasFile_of_deleted (h : Tracks w stamp d) {p : Path}
    (hu : Plan.Deleted w.reported p) :
    w.hasFile p = false := by
  obtain ⟨c, hc, rfl, hk⟩ := hu
  rw [h.reported] at hc
  obtain ⟨q, hq, -, rfl⟩ := Debouncer.mem_settled.mp hc
  exact (h.pending.gone q hq).mp hk

theorem Tracks.isNullFree (h : Tracks w stamp d) : IsNullFree w := by
  rintro p (⟨n, hn⟩ | hu)
  · exact h.named p n hn
  · exact named_of_hasFile (h.hasFile_of_updated hu)

theorem Tracks.isSound (h : Tracks w stamp d) : IsSound w where
  watch x hx := by
    rw [h.watch] at hx
    cases hx
    exact h.sound
  paths p hp e he := by
    rw [reportedPaths, h.watch] at hp
    obtain ⟨c, hc, rfl⟩ := List.mem_map.mp hp
    obtain ⟨q, hq, -, rfl⟩ := Debouncer.mem_settled.mp hc
    rw [circle?_of_relative (h.pending.below q hq).isAbsolute] at he
    cases he

/-- After a cycle the registered paths are the watched ones that have a file. -/
theorem Tracks.contains_iff (h : Tracks w stamp d) {done : Applied} (ho : Outcome w done w')
    {p : Path} :
    w'.registry.contains p = true ↔ p ∈ w.watched ∧ w.hasFile p = true := by
  rw [Registry.contains_iff, ← Option.ne_none_iff_exists']
  cases hp : w.registry.get? p with
  | none =>
    have hl := ho.loads p hp
    constructor
    · intro hne
      have hfresh : IsFresh w w' p := by
        by_contra hn
        exact hne (hl.2 hn)
      obtain ⟨hw, hf⟩ := hl.1.mp hfresh
      exact ⟨hw, hf.elim id h.hasFile_of_updated⟩
    · rintro ⟨hw, hf⟩
      exact (hl.1.mpr ⟨hw, Or.inl hf⟩).get?_ne_none
  | some n =>
    have hu := ho.unloads p n hp
    constructor
    · intro hne
      rw [ne_eq, hu, not_or, not_not, not_or] at hne
      exact ⟨hne.1, by simpa using hne.2.1⟩
    · rintro ⟨hw, hf⟩ hnone
      rcases hu.mp hnone with hn | hn | ⟨hd, -⟩
      · exact hn hw
      · rw [hf] at hn
        cases hn
      · rw [h.hasFile_of_deleted hd] at hf
        cases hf

/-- An instance that a cycle keeps is of a path with no change among the reported ones. -/
theorem Tracks.not_pending_of_kept (h : Tracks w stamp d) {done : Applied} (ho : Outcome w done w')
    {p : Path} {n : Nat} (hp : w.registry.get? p = some n) (hp' : w'.registry.get? p ≠ none)
    (hk : ¬ IsFresh w w' p) (hw : p ∉ (d.debouncer.drain w.now).2.pendingPaths) :
    p ∉ d.debouncer.pendingPaths := by
  intro hm
  obtain ⟨c, hc, rfl⟩ := List.mem_map.mp hm
  have hfile :=
    ((h.contains_iff ho).mp (Registry.contains_iff.mpr (Option.ne_none_iff_exists'.mp hp'))).2
  have hu : ¬ w.Unloads c.path := fun hu => hp' ((ho.unloads _ n hp).mpr hu.2)
  have hsettled : d.debouncer.isSettled w.now c = true := by
    by_contra hs
    exact hw (List.mem_map.mpr ⟨c, Debouncer.mem_waiting.mpr ⟨hc, by simpa using hs⟩, rfl⟩)
  have hupdated : Plan.Updated w.reported c.path := by
    refine ⟨c.toChange, ?_, rfl, fun hd => ?_⟩
    · rw [h.reported]
      exact Debouncer.mem_settled.mpr ⟨c, hc, hsettled, rfl⟩
    · rw [(h.pending.gone c hc).mp hd] at hfile
      cases hfile
  exact hk ((ho.reloads _ n hp hp').1.mpr (.seed (Or.inr ⟨hupdated, Or.inl ⟨⟨n, hp⟩, hu⟩⟩) hu))

/-- A cycle keeps what holds along a run. -/
theorem Tracks.outcome (h : Tracks w stamp d) {done : Applied} (ho : Outcome w done w') :
    ∃ d', Tracks w' stamp d' := by
  have hwatch := ho.watch
  rw [polled, h.watch] at hwatch
  obtain ⟨x, hx, hess⟩ := Option.map_eq_some_iff.mp hwatch
  obtain ⟨d', rfl⟩ : ∃ d', x = .directory d' := by
    rcases x with s | d'
    · cases hess
    · exact ⟨d', rfl⟩
  have hd : d'.essence = { d with debouncer := (d.debouncer.drain w.now).2 }.essence :=
    Watch.directory.inj hess
  have hscope : d'.essence.scope = d.scope := by rw [hd]; rfl
  have hbehavior : d'.essence.behavior = d.behavior := by rw [hd]; rfl
  have hdebouncer : d'.essence.debouncer = (d.debouncer.drain w.now).2 := by rw [hd]; rfl
  have hlen : w.scripts.length ≤ w'.scripts.length := ho.kept.length_le
  have hroot : w'.root = w.root := by rw [ho.frame]
  have hfile : w'.hasFile = w.hasFile := by
    funext p
    rw [ho.frame]
    rfl
  refine ⟨d', hx, ?_, ?_, ho.registered, ?_, ⟨?_, ?_, ?_⟩, ?_, ?_⟩
  · exact (congrArg EventScope.root hscope).trans (h.root.trans hroot.symm)
  · exact (show d'.behavior = d.behavior from hbehavior) ▸ h.sound
  · intro p n hp
    have hf := ((h.contains_iff ho).mp (Registry.contains_iff.mpr ⟨n, hp⟩)).2
    rw [← hfile] at hf
    exact named_of_hasFile hf
  · rw [show d'.debouncer = _ from hdebouncer]
    exact Debouncer.nodup_waiting h.pending.nodup
  · rw [show d'.debouncer = _ from hdebouncer]
    exact fun c hc => h.pending.below c (Debouncer.mem_waiting.mp hc).1
  · rw [show d'.debouncer = _ from hdebouncer, hfile]
    exact fun c hc => h.pending.gone c (Debouncer.mem_waiting.mp hc).1
  · exact fun p => (h.stamped p).trans hlen
  · intro p n hp hw
    rw [show d'.debouncer = _ from hdebouncer] at hw
    by_cases hk : IsFresh w w' p
    · obtain ⟨m, s, hm, hl, -⟩ := hk
      rw [hm] at hp
      cases hp
      exact (h.stamped p).trans hl
    · cases hold : w.registry.get? p with
      | none =>
        rw [(ho.loads p hold).2 hk] at hp
        cases hp
      | some m =>
        have hne : w'.registry.get? p ≠ none := by rw [hp]; exact Option.some_ne_none n
        have hmn := (ho.reloads p m hold hne).2 hk
        rw [hp] at hmn
        cases hmn
        exact h.fresh p n hold (h.not_pending_of_kept ho hold hne hk hw)

theorem Tracks.cycle (h : Tracks w stamp d) (hf : IsReadable w) :
    ∃ done w' d', World.cycle w = (.ok done, w') ∧ Outcome w done w' ∧ Tracks w' stamp d' := by
  obtain ⟨w₁, w', ht, hc, hm⟩ := cycle_eq h.registered h.isSound hf h.isNullFree
  have ho := outcome_of_remade h.registered ht hm
  obtain ⟨d', ht'⟩ := h.outcome ho
  exact ⟨_, w', d', hc, ho, ht'⟩

theorem Operated.quiet (h : Operated w w') : Quiet w w' := by
  rw [h]
  exact ⟨rfl, rfl, rfl, rfl, fun _ s hs => ⟨s, hs, rfl⟩⟩

theorem Tracks.change? (h : Tracks w stamp d) {p : Path} (hp : IsObserved w p)
    {resolve : Path → Option Path} {kind : ChangeKind} :
    d.scope.change? resolve kind (w.fileOf p) = some ⟨p, kind⟩ := by
  rw [fileOf, ← h.root]
  exact EventScope.change?_join hp.1.1 (hp.2 d h.watch) kind

theorem Tracks.update_le (h : Tracks w stamp d) (p q : Path) :
    Function.update stamp p w.scripts.length q ≤ w.scripts.length := by
  by_cases hq : q = p
  · rw [hq, Function.update_self]
  · rw [Function.update_of_ne hq]
    exact h.stamped q

/-- What holds along every run. -/
theorem Run.tracks (h : Run w stamp) : ∃ d, Tracks w stamp d := by
  induction h with
  | @start w d hr hd hroot hs hp =>
    have hnone (p : Path) (n : Nat) (hn : w.registry.get? p = some n) : False := by
      rw [hr] at hn
      cases hn
    refine ⟨d, hd, hroot, hs, ⟨?_, fun p n hn => (hnone p n hn).elim⟩,
      fun p n hn => (hnone p n hn).elim, ⟨?_, ?_, ?_⟩,
      fun p => Nat.zero_le _, fun p n hn => (hnone p n hn).elim⟩
    · rw [hr]
      exact List.nodup_nil
    · rw [hp]
      exact List.nodup_nil
    · rw [hp]
      exact fun c hc => absurd hc List.not_mem_nil
    · rw [hp]
      exact fun c hc => absurd hc List.not_mem_nil
  | @write w stamp files p kind run hp hk ho hf ih =>
    obtain ⟨d, ht⟩ := ih
    obtain ⟨k, hne, hc⟩ : ∃ k : ChangeKind, k ≠ .deleted ∧
        d.scope.changes files.resolve? { kind, source := w.fileOf p } = [⟨p, k⟩] := by
      rcases hk with rfl | rfl
      · exact ⟨.created, by decide, by simp [EventScope.changes, EventScope.reports, ht.change? hp]⟩
      · exact ⟨.modified, by decide, by
          simp [EventScope.changes, EventScope.reports, ht.change? hp]⟩
    exact ht.changed hc (by simp) (by simpa using hp.1) (by simp [hne, hf]) ho (ht.update_le p)
      fun q hq => Function.update_of_ne (by simpa using hq) _ _
  | @delete w stamp files p run hp ho hf ih =>
    obtain ⟨d, ht⟩ := ih
    have hc : d.scope.changes files.resolve? { kind := .deleted, source := w.fileOf p } =
        [⟨p, .deleted⟩] := by
      simp [EventScope.changes, EventScope.reports, ht.change? hp]
    exact ht.changed hc (by simp) (by simpa using hp.1) (by simp [hf]) ho (ht.update_le p)
      fun q hq => Function.update_of_ne (by simpa using hq) _ _
  | @move w stamp files p q run hp hq hne ho hf hf' ih =>
    obtain ⟨d, ht⟩ := ih
    have hc : d.scope.changes files.resolve?
        { kind := .moved, source := w.fileOf p, target := w.fileOf q } =
        [⟨p, .deleted⟩, ⟨q, .created⟩] := by
      simp [EventScope.changes, EventScope.reports, ht.change? hp, ht.change? hq]
    refine ht.changed hc (by simpa using hne) (by simp [hp.1, hq.1]) (by simp [hf, hf']) ho ?_ ?_
    · intro r
      by_cases hr : r = q
      · rw [hr, Function.update_self]
      · rw [Function.update_of_ne hr]
        exact ht.update_le p r
    · intro r hr
      simp only [List.map_cons, List.map_nil, List.mem_cons, List.not_mem_nil, or_false,
        not_or] at hr
      rw [Function.update_of_ne hr.2, Function.update_of_ne hr.1]
  | @tick w stamp now run ih =>
    obtain ⟨d, ht⟩ := ih
    exact ⟨d, ht.watch, ht.root, ht.sound, ⟨ht.registered.nodup, ht.registered.script⟩, ht.named,
      ⟨ht.pending.nodup, ht.pending.below, ht.pending.gone⟩, ht.stamped, ht.fresh⟩
  | @watch w stamp paths run ih =>
    obtain ⟨d, ht⟩ := ih
    exact ⟨d, ht.quiet (operated_watchPaths paths w).quiet⟩
  | @unwatch w stamp paths run ih =>
    obtain ⟨d, ht⟩ := ih
    exact ⟨d, ht.quiet (operated_unwatchPaths paths w).quiet⟩
  | other run hq ih =>
    obtain ⟨d, ht⟩ := ih
    exact ⟨d, ht.quiet hq⟩
  | @cycle w stamp run hf ih =>
    obtain ⟨d, ht⟩ := ih
    obtain ⟨done, w', d', hc, -, ht'⟩ := ht.cycle hf
    rw [hc]
    exact ⟨d', ht'⟩

/-- Each cycle of a run ends with exactly the watched paths that have a file, and with
instances that are made no earlier than the last operation on their files, unless a change
of these still waits. -/
theorem converges (h : Run w stamp) (hf : IsReadable w) :
    ∃ done w' d', World.cycle w = (.ok done, w') ∧ w'.watch = some (.directory d') ∧
      (∀ p, w'.registry.contains p = true ↔ p ∈ w'.watched ∧ w'.hasFile p = true) ∧
      ∀ p n, w'.registry.get? p = some n → p ∉ d'.debouncer.pendingPaths → stamp p ≤ n := by
  obtain ⟨d, ht⟩ := h.tracks
  obtain ⟨done, w', d', hc, ho, ht'⟩ := ht.cycle hf
  refine ⟨done, w', d', hc, ht'.watch, fun p => ?_, ht'.fresh⟩
  rw [ht.contains_iff ho, ho.frame]
  rfl

/-- A host whose root is empty. -/
def emptied : World where
  root := ⟨.root, ["s"]⟩
  base := ⟨.root, ["s"]⟩
  files := { here := ⟨.root, []⟩, nodes := [(["s"], .directory)] }
  watch := some (.directory {
    scope := ⟨⟨.root, ["s"]⟩, ⟨.root, ["s"]⟩, []⟩, recursive := true, debouncer :=
      { delay := 0.0 } })

/-- Its root with one file. -/
def oneFile : FileTree FileContent where
  here := ⟨.root, []⟩
  nodes := [(["s"], .directory), (["s", "a"], .file (.text "") 0.0)]

theorem isFile_oneFile : oneFile.isFile ⟨.root, ["s", "a"]⟩ = .ok true :=
  FileTree.isFile_entry rfl (by decide) (by decide) rfl

theorem file_oneFile {loc : Location} {content : FileContent} {time : Float}
    (h : oneFile.node? loc = some (.file content time)) : loc = ["s", "a"] := by
  simp only [FileTree.node?, oneFile, List.find?_cons, List.find?_nil] at h
  split at h
  · cases h
  · by_cases hs : ["s"] = loc
    · simp [hs] at h
    · by_cases ha : ["s", "a"] = loc
      · exact ha.symm
      · simp [hs, ha] at h

theorem changesOnly_oneFile : ChangesOnly emptied oneFile [⟨.relative, ["a"]⟩] := by
  have hplain : FileTree.IsPlain oneFile ∧ FileTree.IsPlain emptied.files := by
    constructor <;> intro loc target h
    all_goals
      simp only [FileTree.node?, oneFile, emptied, List.find?_cons, List.find?_nil] at h
      repeat' split at h
      all_goals simp_all
  intro p hp hne
  have hparts : (emptied.fileOf p).parts = "s" :: p.parts := by
    simp [fileOf, Path.join, Path.isAbsolute, hp.1, emptied]
  have habsolute : (emptied.fileOf p).isAbsolute = true := by
    simp [fileOf, Path.join, Path.isAbsolute, hp.1, emptied]
  have hnames : ".." ∉ (emptied.fileOf p).parts := by
    rw [hparts, List.mem_cons, not_or]
    exact ⟨by decide, hp.2⟩
  have hjoin (here : Path) : here.join (emptied.fileOf p) = emptied.fileOf p := by
    rw [Path.join, if_pos habsolute]
  have hnode {t : FileTree FileContent} (ht : FileTree.IsPlain t)
      (h : t.isFile (emptied.fileOf p) = .ok true) :
      ∃ content time, t.node? ("s" :: p.parts) = some (.file content time) := by
    have h' := FileTree.node?_of_isFile ht (by rw [hjoin]; exact hnames) h
    rwa [hjoin, hparts] at h'
  have hafter : ({ emptied with files := oneFile } : World).hasFile p ≠ true := by
    intro h
    obtain ⟨content, time, hn⟩ := hnode hplain.1 (isFile_of_hasFile h)
    have hp' : p.parts = ["a"] := List.tail_eq_of_cons_eq (file_oneFile hn)
    exact hne (List.mem_singleton.mpr (by cases p; simp_all [IsBelow]))
  have hbefore : emptied.hasFile p ≠ true := by
    intro h
    obtain ⟨content, time, hn⟩ := hnode hplain.2 (isFile_of_hasFile h)
    simp only [FileTree.node?, emptied, List.find?_cons, List.find?_nil] at hn
    split at hn
    · cases hn
    · split at hn <;> cases hn
  rw [Bool.eq_false_of_not_eq_true hafter, Bool.eq_false_of_not_eq_true hbefore]

/-- A written file is loaded by the next cycle once it is watched. -/
theorem converges_emptied :
    ∃ done w' d',
      World.cycle (watchPaths [⟨.relative, ["a"]⟩] (report { emptied with files := oneFile }
        { kind := .created, source := emptied.fileOf ⟨.relative, ["a"]⟩ })).2 = (.ok done, w') ∧
      w'.watch = some (.directory d') ∧
      (∀ p, w'.registry.contains p = true ↔ p ∈ w'.watched ∧ w'.hasFile p = true) ∧
      ∀ p n, w'.registry.get? p = some n → p ∉ d'.debouncer.pendingPaths →
        Function.update (fun _ => 0) ⟨.relative, ["a"]⟩ 0 p ≤ n := by
  refine converges (.watch _ (.write (.start rfl rfl rfl ?_ rfl) ⟨⟨rfl, by decide⟩, ?_⟩ (Or.inl rfl)
    changesOnly_oneFile (hasFile_of_isFile isFile_oneFile))) ?_
  · constructor <;> intro e h <;> cases h
  · rintro d ⟨⟩
    rfl
  · intro p hp
    have hp' : p ∈ [(⟨.relative, ["a"]⟩ : Path)] := hp
    rw [List.mem_singleton] at hp'
    subst hp'
    exact ⟨true, isFile_oneFile⟩

/-- A host whose root has a directory and a link to it. -/
def linked : World :=
  { emptied with
    files :=
      { here := ⟨.root, []⟩
        nodes :=
          [(["s"], .directory), (["s", "d"], .directory),
          (["s", "l"], .link ⟨.root, ["s", "d"]⟩)] } }

/-- An edit of the files that is reported at once. -/
def edited (w : World) (edit : FileEdit) (event : FileEvent) : Except Failure World :=
  (edit.apply w.files).map fun files => report { w with files } event

/-- A file below the linked directory, by its two paths. -/
def throughLink : Path := ⟨.relative, ["l", "x"]⟩

def direct : Path := ⟨.relative, ["d", "x"]⟩

def linkedFile : FileTree FileContent :=
  { linked.files with nodes := linked.files.nodes ++ [(["s", "d", "x"], .file (.text "") 0.0)] }

/-- The host after the file was written through the link, with the event of its other path. -/
def writtenThrough : World :=
  report { linked with files := linkedFile }
    { kind := .created, source := linked.fileOf throughLink }

/-- The host after the file was removed. -/
def removedDirectly : World :=
  report { writtenThrough with files := linked.files }
    { kind := .deleted, source := linked.fileOf direct }

def stale : World := (watchPaths [throughLink] removedDirectly).2

theorem edited_linked : linked.edited (.write (linked.fileOf throughLink) (.text "") 0.0)
    { kind := .created, source := linked.fileOf throughLink } = .ok writtenThrough := by
  have hw : (FileEdit.write (linked.fileOf throughLink) (.text "") 0.0).apply linked.files =
    .ok linkedFile := by
    simp [FileEdit.apply, FileTree.write, FileTree.makeDirectory, FileTree.makeDirectories,
      FileTree.place, FileTree.lookup, FileTree.find, FileTree.walk, FileTree.stepLimit,
      FileTree.node?, FileTree.nameLimit, Path.hasNull, Path.join, Path.parent, Path.isAbsolute,
      fileOf, linked, throughLink, emptied]
    rfl
  rw [edited, hw]
  rfl

theorem edited_writtenThrough : writtenThrough.edited (.remove (linked.fileOf direct))
    { kind := .deleted, source := linked.fileOf direct } = .ok removedDirectly := by
  have hr : (FileEdit.remove (linked.fileOf direct)).apply linkedFile = .ok linked.files := by
    simp [FileEdit.apply, FileTree.remove, FileTree.place, FileTree.find, FileTree.walk,
      FileTree.stepLimit, FileTree.node?, FileTree.nameLimit, Path.hasNull, Path.join, Path.parent,
      Path.isAbsolute, fileOf, linkedFile, linked, direct, emptied]
    rfl
  have hf : writtenThrough.files = linkedFile := rfl
  rw [edited, hf, hr]
  rfl

theorem isFile_linked : linked.files.isFile ⟨.root, ["s", "l", "x"]⟩ = .ok false := by
  simp [FileTree.isFile, FileTree.lookup, FileTree.find, FileTree.walk, FileTree.stepLimit,
    FileTree.node?, FileTree.nameLimit, Path.hasNull, Path.join, Path.isAbsolute, linked, emptied]
  rfl

theorem reported_stale : stale.reported = [⟨throughLink, .created⟩, ⟨direct, .deleted⟩] := rfl

/-- A file that was written through a link and removed without it is loaded, although it is
gone: its removal was reported for the other path. -/
theorem loads_missing_file :
    ∃ w₁ w₂ done w',
      linked.edited (.write (linked.fileOf throughLink) (.text "") 0.0)
        { kind := .created, source := linked.fileOf throughLink } = .ok w₁ ∧
      w₁.edited (.remove (linked.fileOf direct))
        { kind := .deleted, source := linked.fileOf direct } = .ok w₂ ∧
      World.cycle (watchPaths [throughLink] w₂).2 = (.ok done, w') ∧
      w'.registry.contains throughLink = true ∧ w'.hasFile throughLink = false := by
  have hfile : stale.hasFile throughLink = false := hasFile_of_isFile isFile_linked
  have hr : IsRegistered stale := ⟨List.nodup_nil, fun p n hn => by cases hn⟩
  have hsound : IsSound stale := by
    refine ⟨?_, fun p hp e he => ?_⟩
    · rintro x ⟨⟩
      constructor <;> intro e h <;> cases h
    · have hp' : p ∈ [throughLink, direct] := hp
      have hrelative : p.isAbsolute = false := by
        rcases List.mem_cons.mp hp' with rfl | hp'
        · rfl
        · rw [List.mem_singleton.mp hp']
          rfl
      rw [circle?_of_relative hrelative] at he
      cases he
  have hreadable : IsReadable stale := by
    intro p hp
    have hp' : p ∈ [throughLink] := hp
    rw [List.mem_singleton] at hp'
    subst hp'
    exact ⟨false, isFile_linked⟩
  have hnull : IsNullFree stale := by
    rintro p (⟨n, hn⟩ | ⟨c, hc, rfl, hk⟩)
    · cases hn
    · rw [reported_stale] at hc
      simp only [List.mem_cons, List.not_mem_nil, or_false] at hc
      have hroot : stale.root = linked.root := rfl
      rcases hc with rfl | rfl <;>
        simp [IsNamed, Path.hasNull, fileOf, Path.join, Path.isAbsolute, hroot, throughLink, direct,
          linked, emptied]
  obtain ⟨w₁, w', ht, hc, hm⟩ := cycle_eq hr hsound hreadable hnull
  have ho := outcome_of_remade hr ht hm
  have hupdated : Plan.Updated stale.reported throughLink := by
    rw [reported_stale]
    exact ⟨_, List.mem_cons_self, rfl, by decide⟩
  have hwatched : throughLink ∈ stale.watched := List.mem_singleton.mpr rfl
  have hfresh := (ho.loads throughLink rfl).1.mpr ⟨hwatched, Or.inr hupdated⟩
  refine ⟨_, _, _, w', edited_linked, edited_writtenThrough, hc, ?_, ?_⟩
  · rw [Registry.contains_iff, ← Option.ne_none_iff_exists']
    exact hfresh.get?_ne_none
  · rw [ho.frame]
    exact hfile

end World

end HotReload
