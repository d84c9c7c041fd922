import HotReload.Proofs.Host.Started
import HotReload.Proofs.Host.Unreadable

/-!
# Cycles that are tried again

A cycle that cannot ask for the file of a watched path is given up before anything was changed or
polled. So a run may be cut short by the calls that failed this way: all others answer and leave
behind what they did with those between them.
-/
namespace HotReload.World

open Operation

variable {w v : World}

/-- Whether reconciling comes to ask for the files of the watched paths, and
one cannot be asked for. -/
def isStuck (w : World) : Bool :=
  !w.isClosed && (ensureWatch w).1.isOk && w.watched.any fun p =>
    !(w.files.isFile (w.fileOf p)).isOk

theorem isStuck_iff : w.isStuck = true ↔
    w.isClosed = false ∧ (∃ w₁, ensureWatch w = (.ok (), w₁)) ∧ ∃ p, IsBlocked w p := by
  have hensure : (ensureWatch w).1.isOk = true ↔ ∃ w₁, ensureWatch w = (.ok (), w₁) := by
    rcases ensureWatch w with ⟨e | ⟨⟩, w₁⟩
    · exact iff_of_false (fun h => by cases h) fun ⟨_, h⟩ => by cases h
    · exact iff_of_true rfl ⟨w₁, rfl⟩
  have hasked (p : Path) : (w.files.isFile (w.fileOf p)).isOk = false ↔
      ∃ e, w.files.isFile (w.fileOf p) = .error e := by
    cases w.files.isFile (w.fileOf p) with
    | error e => exact iff_of_true rfl ⟨e, rfl⟩
    | ok b => exact iff_of_false (fun h => by cases h) fun ⟨_, h⟩ => by cases h
  simp only [isStuck, Bool.and_eq_true, Bool.not_eq_true', hensure, List.any_eq_true, hasked,
    and_assoc, IsBlocked]

/-- What a call of `reconcile` that cannot ask for a file comes to: it raises the failure, and it
has done nothing but start the watch if need be. -/
structure GivesUp (w : World) (e : Failure) (w' : World) : Prop where
  system : e.isSystem = true
  path : ∃ p ∈ w.watched, w.files.isFile (w.fileOf p) = .error e
  raises : ∀ host, reconcile host w = (.error e, w')
  /-- The poll loop notes the failure and goes on. -/
  noted : ∀ host,
    ∃ entry, pollRound host w = (.ok (), { w' with journal := w'.journal.enter entry })
  tended : Tended w w'
  started : IsStarted w → w' = w

theorem tended_ensureWatch (w : World) : Tended w (ensureWatch w).2 := by
  have hraises : WatchRaises anything w := by
    rintro (d | d) -
    · exact ⟨fun _ _ => Or.inr trivial, fun _ _ => Or.inr trivial, fun _ _ => Or.inr trivial,
        fun _ _ => Or.inr trivial, fun _ _ => Or.inr trivial, fun _ _ => Or.inr trivial⟩
    · exact ⟨fun _ _ => Or.inr trivial, fun _ _ => Or.inr trivial, fun _ _ => Or.inr trivial⟩
  exact (keeps_ensureWatch hraises w (tended_refl w)).1

/-- Reconciling gives up before it polls the watch. -/
theorem gives_up (h : w.isStuck = true) : ∃ e w', GivesUp w e w' := by
  obtain ⟨ho, ⟨w₁, hensure⟩, p, hp, e₀, he₀⟩ := isStuck_iff.mp h
  have htended : Tended w w₁ := by
    have ht := tended_ensureWatch w
    rwa [hensure] at ht
  have hasks : askFiles w₁ w₁.watched = askFiles w w.watched := by rw [htended.frame]; rfl
  rcases askFiles_cases w w₁ w.watched with ⟨-, hall⟩ | ⟨e, q, hask, he, hq, hqe⟩
  · obtain ⟨b, hb⟩ := hall p hp
    rw [hb] at he₀
    cases he₀
  · have hfiles : watchedFiles w₁ = (.error e, w₁) := by rw [watchedFiles_eq, hasks, hask]
    have hplan : planCycle w = (.error e, w₁) := by
      rw [planCycle, bind_of_ok hensure, bind_of_error hfiles]
    have hcycle : cycle w = (.error e, w₁) := bind_of_error hplan apply
    have hreconcile (host : HostRequest → Act HostAnswer) : reconcile host w = (.error e, w₁) := by
      rw [reconcile, get_bind, if_neg (by rw [ho]; decide), bind_of_error hcycle]
    let entry :=
      LogEntry.ofComponent "Reconciler" .error "reconcile_cycle_failed" [LogEntry.attached e]
    refine ⟨e, w₁, he, ⟨q, hq, hqe⟩, hreconcile, fun host => ⟨entry, ?_⟩, htended, fun hs => ?_⟩
    · rw [pollRound,
        bind_of_ok (attempt_of_handled (hreconcile host) (Failure.ordinary_of_isSystem he))]
      rfl
    · rw [ensureWatch_of_started hs] at hensure
      exact (congrArg Prod.snd hensure).symm

/-! Runs. -/

/-- What is done with a host. A round of the poll loop is a call of `reconcile`, and around it what
the loop notes of its failure. -/
inductive Call where
  | ask (request : HostRequest)
  /-- The first waiting commits are run. -/
  | pump (count : Nat)
  /-- The executor runs what waits. -/
  | settle
  /-- An instance is run by hand. -/
  | run (n : Nat)
  | terminate (n : Nat)
  /-- Files, the clock, what the watch has observed or whatever else there is
  around the host changes. -/
  | around (change : World → World) (started : ∀ w, IsStarted w → IsStarted (change w))

namespace Call

def perform : Call → Act (Option HostAnswer)
  | .ask request => do return some (← host request)
  | .pump count => do
    let _ ← World.pump host count
    return none
  | .settle => do
    World.settle host
    return none
  | .run n => do
    World.run host n
    return none
  | .terminate n => do
    let _ ← World.terminate n
    return none
  | .around change _ => do
    modify change
    return none

theorem keeps_perform (c : Call) : Keeps IsStarted anything c.perform := by
  have hh (request : HostRequest) : Respects IsStarted.Same (host request) :=
    IsStarted.likens.respects_hostAt _ request
  have hdone {α : Type} {act : Act α} (h : Respects IsStarted.Same act) :
      Keeps IsStarted anything (do let _ ← act; return (none : Option HostAnswer)) :=
    (IsStarted.keeps h).bind fun _ => keeps_pure _
  cases c with
  | ask request => exact (IsStarted.keeps_hostAt depthLimit request).bind fun _ => keeps_pure _
  | pump count => exact hdone (IsStarted.likens.respects_pump hh count)
  | settle => exact hdone (IsStarted.likens.respects_settle hh)
  | run n => exact hdone (IsStarted.likens.respects_run hh)
  | terminate n => exact hdone IsStarted.likens.respects_terminate
  | around change started => exact Keeps.bind (keeps_modify started) fun _ => keeps_pure _

/-- Whether a call is one of `reconcile` that cannot ask for a file. -/
def isStuck : Call → World → Bool
  | .ask .reconcile, w => w.isStuck
  | _, _ => false

/-- Where the watch is started, such a call does nothing. -/
theorem perform_of_stuck {c : Call} (h : c.isStuck w = true) (hs : IsStarted w) :
    ∃ e, c.perform w = (.error e, w) ∧ e.isSystem = true ∧
      ∃ p ∈ w.watched, w.files.isFile (w.fileOf p) = .error e := by
  have hreconcile : c = .ask .reconcile ∧ w.isStuck = true := by
    unfold isStuck at h
    split at h
    · exact ⟨rfl, h⟩
    · cases h
  obtain ⟨rfl, hstuck⟩ := hreconcile
  obtain ⟨e, w', hg⟩ := gives_up hstuck
  obtain rfl := hg.started hs
  exact ⟨e, bind_of_error (bind_of_error (hg.raises _) _) _, hg.system, hg.path⟩

end Call

/-- A call in a run, between the worlds that it found and left. -/
structure Turn where
  before : World
  call : Call
  answer : Except Failure (Option HostAnswer)
  after : World

def Turn.isStuck (t : Turn) : Bool := t.call.isStuck t.before

/-- The turns that calls take one after the other. -/
def turns : List Call → World → List Turn
  | [], _ => []
  | c :: rest, w => ⟨w, c, (c.perform w).1, (c.perform w).2⟩ :: turns rest (c.perform w).2

/-- The world that calls leave. -/
def left (calls : List Call) (w : World) : World := calls.foldl (fun w c => (c.perform w).2) w

/-- The calls that were not stuck, on their own. -/
def unstuck (calls : List Call) (w : World) : List Call :=
  ((turns calls w).filter (!·.isStuck)).map (·.call)

theorem isStarted_before {calls : List Call} (h : IsStarted w) {t : Turn} (ht : t ∈ turns calls w) :
    IsStarted t.before ∧ (t.answer, t.after) = t.call.perform t.before := by
  induction calls generalizing w with
  | nil => cases ht
  | cons c rest ih =>
    rcases List.mem_cons.mp ht with rfl | ht
    · exact ⟨h, rfl⟩
    · exact ih (c.keeps_perform w h).1 ht

/-- Without the calls that are stuck, the others take the same turns. -/
theorem turns_unstuck (calls : List Call) (h : IsStarted w) :
    turns (unstuck calls w) w = (turns calls w).filter (!·.isStuck) ∧
      left (unstuck calls w) w = left calls w := by
  induction calls generalizing w with
  | nil => exact ⟨rfl, rfl⟩
  | cons c rest ih =>
    obtain ⟨hturns, hleft⟩ := ih (c.keeps_perform w h).1
    by_cases hc : c.isStuck w = true
    · obtain ⟨e, he, -⟩ := c.perform_of_stuck hc h
      have hstays : (c.perform w).2 = w := congrArg Prod.snd he
      have hdropped : (turns (c :: rest) w).filter (!·.isStuck) = (turns rest w).filter
        (!·.isStuck) := by
        rw [turns, List.filter_cons, if_neg (by simp [Turn.isStuck, hc]), hstays]
      rw [hstays] at hturns hleft
      rw [unstuck, hdropped]
      refine ⟨hturns, hleft.trans ?_⟩
      rw [left, left, List.foldl_cons, hstays]
    · have hkept : (turns (c :: rest) w).filter (!·.isStuck) =
          ⟨w, c, (c.perform w).1, (c.perform w).2⟩ :: (turns rest (c.perform w).2).filter
            (!·.isStuck) := by
        rw [turns, List.filter_cons, if_pos (by simpa [Turn.isStuck] using hc)]
      rw [unstuck, hkept, List.map_cons]
      refine ⟨?_, hleft⟩
      rw [turns]
      exact congrArg _ hturns

/-- A call of `reconcile` that cannot ask for the file of a watched path raises that failure, and
nothing else has changed but that the watch may have been started. In a run with a watch that is
started such calls change nothing at all, so that all other calls find, answer and leave behind
the same without them. -/
theorem loses_nothing (calls : List Call) (h : IsStarted w) :
    (∀ v : World, v.isStuck = true → ∃ e v', GivesUp v e v') ∧
    (∀ t ∈ turns calls w, t.isStuck = true → t.after = t.before ∧
      ∃ e, t.answer = .error e ∧ e.isSystem = true ∧
        ∃ p ∈ t.before.watched, t.before.files.isFile (t.before.fileOf p) = .error e) ∧
    turns (unstuck calls w) w = (turns calls w).filter (!·.isStuck) ∧
      left (unstuck calls w) w = left calls w := by
  refine ⟨fun v hv => gives_up hv, fun t ht hstuck => ?_, turns_unstuck calls h⟩
  obtain ⟨hbefore, hperform⟩ := isStarted_before h ht
  obtain ⟨e, he, hpath⟩ := t.call.perform_of_stuck hstuck hbefore
  rw [he] at hperform
  obtain ⟨hanswer, hafter⟩ := Prod.mk.inj hperform
  exact ⟨hafter, e, hanswer, hpath⟩

/-- A host whose watch has a change to report, while one of the watched
paths cannot be asked for. -/
def impeded : World :=
  { overlong with watch := some (.scripted { events := [("a", "modified")] }),
                  watchStarted := true }

/-- The operator stops watching that path. -/
def relieving : Call :=
  .around (fun w => { w with claims := [(⟨.relative, ["a"]⟩, 1)] }) fun _ h => h

theorem isStuck_impeded : impeded.isStuck = true :=
  isStuck_iff.mpr ⟨rfl, ⟨impeded, ensureWatch_of_started fun _ => rfl⟩, longPath,
    isBlocked_overlong.mpr rfl⟩

theorem isStuck_relieving : (relieving.perform impeded).2.isStuck = false := by
  have hreadable : IsReadable (relieving.perform impeded).2 := relieved_overlong.readable
  refine Bool.eq_false_iff.mpr fun h => ?_
  obtain ⟨-, -, p, hp⟩ := isStuck_iff.mp h
  exact isReadable_iff.mp hreadable p hp

theorem unstuck_impeded : unstuck [.ask .reconcile, relieving, .ask .reconcile] impeded =
    [relieving, .ask .reconcile] := by
  obtain ⟨e, he, -⟩ := Call.perform_of_stuck (c := .ask .reconcile) isStuck_impeded fun _ => rfl
  have hstays : (Call.perform (.ask .reconcile) impeded).2 = impeded := congrArg Prod.snd he
  have hfirst : Call.isStuck (.ask .reconcile) impeded = true := isStuck_impeded
  have hsecond : Call.isStuck relieving impeded = false := rfl
  have hthird : Call.isStuck (.ask .reconcile) (relieving.perform impeded).2 = false :=
    isStuck_relieving
  simp [unstuck, turns, hstays, Turn.isStuck, hfirst, hsecond, hthird]

/-- Reconciling fails once, and the change waits until the operator stops watching the path. -/
theorem loses_nothing_impeded : IsStarted impeded ∧ impeded.isStuck = true ∧
    turns [relieving, .ask .reconcile] impeded =
      (turns [.ask .reconcile, relieving, .ask .reconcile] impeded).filter (!·.isStuck) ∧
    left [relieving, .ask .reconcile] impeded = left [.ask .reconcile, relieving, .ask .reconcile]
      impeded := by
  have hstarted : IsStarted impeded := fun _ => rfl
  obtain ⟨-, -, hturns, hleft⟩ :=
    loses_nothing [.ask .reconcile, relieving, .ask .reconcile] hstarted
  rw [unstuck_impeded] at hturns hleft
  exact ⟨hstarted, isStuck_impeded, hturns, hleft⟩

end HotReload.World
