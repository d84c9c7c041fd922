import Mathlib.Data.List.Nodup
import HotReload.Change.Debouncer

/-!
# A debouncer against the log of its events

A debouncer keeps one change a path, rewritten by each event. What it hands out is read off the log
of the events themselves: the events of a path since they were last handed out or dropped, in the
order they came, are one burst, and a burst is handed out whole, as the change that its events come
down to. So each event is handed out in one burst, dropped, or still in the log.
-/
namespace HotReload

/-- A change as it was reported: as which event, and when. -/
structure Event extends Change where
  number : Nat
  time : Float

/-- Events of one path in the order they came, of which there is at least one. -/
structure Burst where
  first : Event
  later : List Event

namespace Burst

def events (b : Burst) : List Event := b.first :: b.later

def path (b : Burst) : Path := b.first.path

def latest (b : Burst) : Event := b.later.getLastD b.first

/-- The one change that the events come down to. -/
def change (b : Burst) : Change where
  path := b.path
  kind := b.later.foldl (fun kind e => kind.coalesce e.kind) b.first.kind

/-- The change as it waits: since the latest event. -/
def waiting (b : Burst) : PendingChange := { b.change with time := b.latest.time }

/-- Whether the latest event lies `delay` seconds back. -/
def isSettled (delay now : Float) (b : Burst) : Bool := delay ≤ now - b.latest.time

/-- A burst with one event more. -/
def append (b : Burst) (e : Event) : Burst := ⟨b.first, b.later ++ [e]⟩

theorem waiting_append (b : Burst) (e : Event) :
    (b.append e).waiting =
      { path := b.path, kind := b.waiting.kind.coalesce e.kind, time := e.time } := by
  simp [waiting, change, latest, append, path]

/-- A burst is a deletion exactly when its latest event is one. -/
theorem kind_eq_deleted_iff (b : Burst) : b.change.kind = .deleted ↔ b.latest.kind = .deleted := by
  obtain ⟨first, later⟩ := b
  rcases List.eq_nil_or_concat' later with rfl | ⟨before, last, rfl⟩
  · rfl
  · simp [change, latest, ChangeKind.coalesce_eq_deleted_iff]

end Burst

/-! The bursts of a list of events. -/

/-- The events of a path. -/
def eventsOf (p : Path) (events : List Event) : List Event := events.filter (·.path = p)

/-- The events of all paths but one. -/
def eventsBut (p : Path) (events : List Event) : List Event := events.filter (·.path ≠ p)

/-- The bursts that events make up, one a path, in the order of their first events. -/
def bursts : List Event → List Burst
  | [] => []
  | e :: rest => ⟨e, eventsOf e.path rest⟩ :: bursts (eventsBut e.path rest)
termination_by events => events.length
decreasing_by exact Nat.lt_succ_of_le (List.length_filter_le _ _)

variable {events : List Event} {b : Burst} {p q : Path} {e : Event}

theorem mem_eventsBut : e ∈ eventsBut p events ↔ e ∈ events ∧ e.path ≠ p := by
  simp [eventsBut]

theorem eventsOf_cons_self : eventsOf e.path (e :: events) = e :: eventsOf e.path events :=
  List.filter_cons_of_pos (by simp)

theorem eventsOf_cons_of_ne (h : e.path ≠ p) : eventsOf p (e :: events) = eventsOf p events :=
  List.filter_cons_of_neg (by simpa using h)

theorem eventsOf_eventsBut (h : p ≠ q) : eventsOf p (eventsBut q events) = eventsOf p events := by
  rw [eventsOf, eventsBut, List.filter_filter, eventsOf]
  refine List.filter_congr fun x _ => ?_
  by_cases hx : x.path = p <;> simp [hx, h]

theorem map_path_bursts (events : List Event) :
    (bursts events).map (·.path) = (events.map (·.path)).eraseDups := by
  induction events using bursts.induct with
  | case1 => rw [bursts]; rfl
  | case2 e rest ih =>
    rw [bursts, List.map_cons, ih, List.map_cons, List.eraseDups_cons, List.filter_map, eventsBut]
    refine congrArg (fun others : List Event => e.path :: (others.map (·.path)).eraseDups) ?_
    exact List.filter_congr fun x _ => by
      simp only [Function.comp_apply, beq_eq_decide, ne_eq, decide_not]

theorem path_of_mem_bursts (h : b ∈ bursts events) : ∃ e ∈ events, e.path = b.path := by
  have hm : b.path ∈ (bursts events).map (·.path) := List.mem_map_of_mem h
  rw [map_path_bursts, List.mem_eraseDups] at hm
  exact List.mem_map.mp hm

theorem path_ne_of_mem_bursts (h : b ∈ bursts (eventsBut p events)) : b.path ≠ p := by
  obtain ⟨e, he, hpath⟩ := path_of_mem_bursts h
  rw [← hpath]
  exact (mem_eventsBut.mp he).2

/-- No path has two bursts. -/
theorem nodup_bursts (events : List Event) : ((bursts events).map (·.path)).Nodup := by
  induction events using bursts.induct with
  | case1 => rw [bursts]; exact List.nodup_nil
  | case2 e rest ih =>
    rw [bursts, List.map_cons, List.nodup_cons]
    refine ⟨fun hm => ?_, ih⟩
    obtain ⟨b, hb, hpath⟩ := List.mem_map.mp hm
    exact path_ne_of_mem_bursts hb hpath

/-- A burst has all events of its path. -/
theorem events_of_mem_bursts (h : b ∈ bursts events) : b.events = eventsOf b.path events := by
  induction events using bursts.induct with
  | case1 => rw [bursts] at h; cases h
  | case2 e rest ih =>
    rw [bursts, List.mem_cons] at h
    rcases h with rfl | h
    · exact eventsOf_cons_self.symm
    · have hne : b.path ≠ e.path := path_ne_of_mem_bursts h
      rw [ih h, eventsOf_eventsBut hne, eventsOf_cons_of_ne hne.symm]

theorem perm_bursts (events : List Event) : ((bursts events).flatMap (·.events)).Perm events := by
  induction events using bursts.induct with
  | case1 => rw [bursts]; exact List.Perm.refl _
  | case2 e rest ih =>
    rw [bursts, List.flatMap_cons]
    refine List.Perm.cons e ((ih.append_left _).trans ?_)
    simpa [eventsOf, eventsBut] using
      List.filter_append_perm (fun x : Event => decide (x.path = e.path)) rest

/-- Which other paths have events does not matter to a burst. -/
theorem bursts_filter (keeps : Path → Bool) (events : List Event) :
    bursts (events.filter fun e => keeps e.path) = (bursts events).filter fun b =>
      keeps b.path := by
  induction events using bursts.induct with
  | case1 => rw [List.filter_nil, bursts]; rfl
  | case2 e rest ih =>
    by_cases he : keeps e.path = true
    · have hown : eventsOf e.path (rest.filter fun x => keeps x.path) = eventsOf e.path rest := by
        rw [eventsOf, List.filter_filter, eventsOf]
        refine List.filter_congr fun x _ => ?_
        by_cases hx : x.path = e.path <;> simp [hx, he]
      have hothers : eventsBut e.path (rest.filter fun x => keeps x.path) =
          (eventsBut e.path rest).filter fun x => keeps x.path := List.filter_comm _ _ _
      have hhead : (e :: rest).filter (fun x => keeps x.path) = e :: rest.filter fun x =>
        keeps x.path :=
        List.filter_cons_of_pos he
      have hfirst : keeps (Burst.path ⟨e, eventsOf e.path rest⟩) = true := he
      rw [hhead, bursts, hown, hothers, ih, bursts, List.filter_cons, if_pos hfirst]
    · have hothers : rest.filter (fun x => keeps x.path) =
          (eventsBut e.path rest).filter fun x => keeps x.path := by
        rw [eventsBut, List.filter_filter]
        refine List.filter_congr fun x _ => ?_
        by_cases hx : x.path = e.path <;> simp [hx, he]
      have hhead : (e :: rest).filter (fun x => keeps x.path) = rest.filter fun x => keeps x.path :=
        List.filter_cons_of_neg he
      have hfirst : ¬keeps (Burst.path ⟨e, eventsOf e.path rest⟩) = true := he
      rw [hhead, hothers, ih, bursts, List.filter_cons, if_neg hfirst]

/-- Which bursts are picked can be told by their paths. -/
theorem mem_paths_filter (picks : Burst → Bool) (h : b ∈ bursts events) :
    b.path ∈ ((bursts events).filter picks).map (·.path) ↔ picks b = true := by
  constructor
  · intro hm
    obtain ⟨picked, hpicked, hpath⟩ := List.mem_map.mp hm
    obtain ⟨hmem, htrue⟩ := List.mem_filter.mp hpicked
    rwa [List.inj_on_of_nodup_map (nodup_bursts events) hmem h hpath] at htrue
  · exact fun htrue => List.mem_map_of_mem (List.mem_filter.mpr ⟨h, htrue⟩)

theorem bursts_picked (picks : Burst → Bool) (events : List Event) :
    bursts (events.filter fun e => e.path ∈ ((bursts events).filter picks).map (·.path)) =
      (bursts events).filter picks := by
  rw [bursts_filter fun p => decide (p ∈ ((bursts events).filter picks).map (·.path))]
  refine List.filter_congr fun b hb => ?_
  rw [Bool.eq_iff_iff, decide_eq_true_iff, mem_paths_filter picks hb]

theorem bursts_left (picks : Burst → Bool) (events : List Event) :
    bursts (events.filter fun e => e.path ∉ ((bursts events).filter picks).map (·.path)) =
      (bursts events).filter (not ∘ picks) := by
  rw [bursts_filter fun p => decide (p ∉ ((bursts events).filter picks).map (·.path))]
  refine List.filter_congr fun b hb => ?_
  rw [Bool.eq_iff_iff, decide_eq_true_iff, mem_paths_filter picks hb]
  simp

theorem perm_picked (picks : Burst → Bool) (events : List Event) :
    (((bursts events).filter picks).flatMap (·.events) ++
      events.filter fun e => e.path ∉ ((bursts events).filter picks).map (·.path)).Perm events := by
  have hpicked :=
    perm_bursts (events.filter fun e => e.path ∈ ((bursts events).filter picks).map (·.path))
  rw [bursts_picked] at hpicked
  refine (hpicked.append_right _).trans ?_
  simp only [decide_not]
  exact List.filter_append_perm _ _

/-- An event more goes into the debouncer as it goes into the log. -/
theorem waiting_bursts_append (events : List Event) (e : Event) :
    (bursts (events ++ [e])).map (·.waiting) =
      Debouncer.insert e.time e.toChange ((bursts events).map (·.waiting)) := by
  induction events using bursts.induct with
  | case1 =>
    simp [bursts, eventsOf, eventsBut, Debouncer.insert, Burst.waiting, Burst.change, Burst.latest,
      Burst.path]
  | case2 first rest ih =>
    rw [List.cons_append, bursts, bursts, List.map_cons, List.map_cons, Debouncer.insert]
    by_cases he : e.path = first.path
    · have hown : eventsOf first.path (rest ++ [e]) = eventsOf first.path rest ++ [e] := by
        simp [eventsOf, he]
      have hothers : eventsBut first.path (rest ++ [e]) = eventsBut first.path rest := by
        simp [eventsBut, he]
      have hpath : (Burst.waiting ⟨first, eventsOf first.path rest⟩).path = e.path := he.symm
      rw [hown, hothers, if_pos hpath]
      exact congrArg (· :: _) (Burst.waiting_append ⟨first, eventsOf first.path rest⟩ e)
    · have hown : eventsOf first.path (rest ++ [e]) = eventsOf first.path rest := by
        simp [eventsOf, he]
      have hothers : eventsBut first.path (rest ++ [e]) = eventsBut first.path rest ++ [e] := by
        simp [eventsBut, he]
      have hpath : (Burst.waiting ⟨first, eventsOf first.path rest⟩).path ≠ e.path := Ne.symm he
      rw [hown, hothers, if_neg hpath, ih]

/-! Requests. -/

/-- What is asked of a debouncer. -/
inductive Debouncer.Request where
  | report (change : Change)
  | drain
  | flush
  | clear

namespace Debouncer

variable {delay now : Float} {d : Debouncer}

/-- What a debouncer hands out when it is asked at the time `now`, and how it goes on. -/
def serve (d : Debouncer) (now : Float) : Request → List Change × Debouncer
  | .report change => ([], d.add now change)
  | .drain => d.drain now
  | .flush => d.flush
  | .clear => ([], d.clear)

/-- What is handed out at each request, and the debouncer in the end. -/
def serveAll (d : Debouncer) : List (Float × Request) → List (List Change) × Debouncer
  | [] => ([], d)
  | (now, request) :: rest =>
    let (changes, d) := d.serve now request
    let (others, d) := d.serveAll rest
    (changes :: others, d)

/-- The changes that are reported, as events that are numbered on from `count`. -/
def reports (count : Nat) : List (Float × Request) → List Event
  | [] => []
  | (now, .report change) :: rest =>
    { change with number := count, time := now } :: reports (count + 1) rest
  | _ :: rest => reports count rest

end Debouncer

/-- The events that came so far: how many, which of them were dropped, and which are
yet to be handed out. -/
structure EventLog where
  count : Nat := 0
  cleared : List Event := []
  unreleased : List Event := []

namespace EventLog

open Debouncer (Request reports)

variable {delay now : Float} {log : EventLog} {d : Debouncer}

/-- The bursts handed out at a request, and how the log goes on. -/
def serve (delay : Float) (log : EventLog) (now : Float) : Request → List Burst × EventLog
  | .report change =>
    let e : Event := { change with number := log.count, time := now }
    ([], { log with count := log.count + 1, unreleased := log.unreleased ++ [e] })
  | .drain =>
    let settled := (bursts log.unreleased).filter (·.isSettled delay now)
    (settled,
      { log with unreleased := log.unreleased.filter fun e => e.path ∉ settled.map (·.path) })
  | .flush => (bursts log.unreleased, { log with unreleased := [] })
  | .clear => ([], { log with cleared := log.cleared ++ log.unreleased, unreleased := [] })

/-- What is handed out at each request, and the log in the end. -/
def serveAll (delay : Float) (log : EventLog) :
    List (Float × Request) → List (List Burst) × EventLog
  | [] => ([], log)
  | (now, request) :: rest =>
    let (released, log) := log.serve delay now request
    let (others, log) := log.serveAll delay rest
    (released :: others, log)

/-- Whether a debouncer has a change waiting for each burst that is yet to be handed out. -/
structure Backs (delay : Float) (log : EventLog) (d : Debouncer) : Prop where
  delay : d.delay = delay
  pending : d.pending = (bursts log.unreleased).map (·.waiting)

/-- A debouncer and its log are asked alike. -/
theorem Backs.serve (h : log.Backs delay d) (now : Float) (request : Request) :
    (d.serve now request).1 = (log.serve delay now request).1.map (·.change) ∧
      (log.serve delay now request).2.Backs delay (d.serve now request).2 := by
  obtain ⟨rfl, hpending⟩ := h
  cases request with
  | report change =>
    refine ⟨rfl, rfl, ?_⟩
    simp only [Debouncer.serve, Debouncer.add, EventLog.serve, waiting_bursts_append, hpending]
  | drain =>
    have hsettled : d.isSettled now ∘ Burst.waiting = Burst.isSettled d.delay now := rfl
    simp only [Debouncer.serve, Debouncer.drain, EventLog.serve, hpending,
      List.partition_eq_filter_filter, List.filter_map, Function.comp_assoc not, hsettled,
      List.map_map]
    refine ⟨rfl, rfl, ?_⟩
    rw [bursts_left]
  | flush =>
    refine ⟨?_, rfl, ?_⟩
    · simp only [Debouncer.serve, Debouncer.flush, EventLog.serve, hpending, List.map_map]
      rfl
    · simp only [Debouncer.serve, Debouncer.flush, EventLog.serve, bursts, List.map_nil]
  | clear =>
    refine ⟨rfl, rfl, ?_⟩
    simp only [Debouncer.serve, Debouncer.clear, EventLog.serve, bursts, List.map_nil]

theorem Backs.serveAll (h : log.Backs delay d) (requests : List (Float × Request)) :
    (d.serveAll requests).1 = (log.serveAll delay requests).1.map (·.map (·.change)) ∧
      (log.serveAll delay requests).2.Backs delay (d.serveAll requests).2 := by
  induction requests generalizing log d with
  | nil => exact ⟨rfl, h⟩
  | cons r rest ih =>
    obtain ⟨now, request⟩ := r
    obtain ⟨hchanges, hbacks⟩ := h.serve now request
    obtain ⟨hrest, hfinal⟩ := ih hbacks
    refine ⟨?_, hfinal⟩
    rw [Debouncer.serveAll, EventLog.serveAll, List.map_cons, ← hchanges, ← hrest]

/-- What is handed out at once is of different paths. -/
theorem nodup_serve (delay now : Float) (log : EventLog) (request : Request) :
    (((log.serve delay now request).1).map (·.path)).Nodup := by
  cases request with
  | report | clear => exact List.nodup_nil
  | drain => exact (List.filter_sublist.map _).nodup (nodup_bursts _)
  | flush => exact nodup_bursts _

theorem nodup_serveAll {requests : List (Float × Request)} {released : List Burst}
    (h : released ∈ (log.serveAll delay requests).1) : (released.map (·.path)).Nodup := by
  induction requests generalizing log with
  | nil => cases h
  | cons r rest ih =>
    rw [EventLog.serveAll, List.mem_cons] at h
    rcases h with rfl | h
    · exact nodup_serve _ _ _ _
    · exact ih h

theorem perm_of_split {released left all cleared rest : List Event}
    (h : (released ++ left).Perm all) :
    (released ++ (cleared ++ left ++ rest)).Perm (cleared ++ all ++ rest) := by
  have hfront : (released ++ (cleared ++ left)).Perm (cleared ++ (released ++ left)) := by
    rw [← List.append_assoc, ← List.append_assoc]
    exact List.perm_append_comm.append_right _
  rw [← List.append_assoc]
  exact (hfront.trans (h.append_left _)).append_right _

/-- What a request does not hand out or drop stays, and no event gets lost or comes twice. -/
theorem perm_serve (delay now : Float) (log : EventLog) (request : Request)
    (rest : List (Float × Request)) :
    ((log.serve delay now request).1.flatMap (·.events) ++
      ((log.serve delay now request).2.cleared ++ (log.serve delay now request).2.unreleased ++
        reports (log.serve delay now request).2.count rest)).Perm
      (log.cleared ++ log.unreleased ++ reports log.count ((now, request) :: rest)) := by
  cases request with
  | report change =>
    simp only [EventLog.serve, reports, List.flatMap_nil, List.nil_append, List.append_assoc,
      List.cons_append]
    exact List.Perm.refl _
  | drain => exact perm_of_split (perm_picked _ _)
  | flush =>
    have hall : ((bursts log.unreleased).flatMap Burst.events ++ []).Perm log.unreleased := by
      rw [List.append_nil]
      exact perm_bursts _
    exact perm_of_split hall
  | clear =>
    simp only [EventLog.serve, reports, List.flatMap_nil, List.nil_append, List.append_nil]
    exact List.Perm.refl _

theorem perm_serveAll (requests : List (Float × Request)) (log : EventLog) :
    ((log.serveAll delay requests).1.flatten.flatMap (·.events) ++
      ((log.serveAll delay requests).2.cleared ++ (log.serveAll delay requests).2.unreleased)).Perm
      (log.cleared ++ log.unreleased ++ reports log.count requests) := by
  induction requests generalizing log with
  | nil =>
    rw [serveAll, reports, List.append_nil]
    exact List.Perm.refl _
  | cons r rest ih =>
    obtain ⟨now, request⟩ := r
    rw [serveAll, List.flatten_cons, List.flatMap_append, List.append_assoc]
    exact ((ih _).append_left _).trans (perm_serve delay now log request rest)

end EventLog

namespace Debouncer

variable {count : Nat} {requests : List (Float × Request)}

theorem le_number_of_mem_reports {e : Event} (h : e ∈ reports count requests) :
    count ≤ e.number := by
  induction requests generalizing count with
  | nil => cases h
  | cons r rest ih =>
    obtain ⟨now, request⟩ := r
    cases request with
    | report change =>
      rw [reports, List.mem_cons] at h
      rcases h with rfl | h
      · exact Nat.le_refl _
      · exact Nat.le_of_succ_le (ih h)
    | drain | flush | clear => exact ih h

/-- The events are numbered in the order they come. -/
theorem pairwise_reports (count : Nat) (requests : List (Float × Request)) :
    (reports count requests).Pairwise (·.number < ·.number) := by
  induction requests generalizing count with
  | nil => exact List.Pairwise.nil
  | cons r rest ih =>
    obtain ⟨now, request⟩ := r
    cases request with
    | report change => exact List.pairwise_cons.mpr ⟨fun e he => le_number_of_mem_reports he, ih _⟩
    | drain | flush | clear => exact ih _

/-- Whatever is asked of a debouncer, at each request it hands out the bursts of its event log, each
as the one change that its events come down to, which is a deletion exactly if the latest of them is
one. A burst has all events of its path since that path was last handed out or the log was cleared;
the bursts stand in the order of their first events. Each event reported is handed out in one burst,
dropped, or yet to be handed out. -/
theorem hands_out_bursts (delay : Float) (requests : List (Float × Request)) :
    let run := ({ delay := delay } : Debouncer).serveAll requests
    let released := (EventLog.serveAll delay {} requests).1
    let log := (EventLog.serveAll delay {} requests).2
    run.1 = released.map (·.map (·.change)) ∧
    run.2.pending = (bursts log.unreleased).map (·.waiting) ∧
    (bursts log.unreleased).map (·.path) = (log.unreleased.map (·.path)).eraseDups ∧
    (∀ b ∈ bursts log.unreleased, b.events = eventsOf b.path log.unreleased) ∧
    (∀ changes ∈ run.1, (changes.map (·.path)).Nodup) ∧
    (∀ b : Burst, b.change.kind = .deleted ↔ b.latest.kind = .deleted) ∧
    (released.flatten.flatMap (·.events) ++ (log.cleared ++ log.unreleased)).Perm
      (reports 0 requests) ∧
    (reports 0 requests).Pairwise (·.number < ·.number) := by
  intro run released log
  have hbacks : EventLog.Backs delay {} { delay := delay } := ⟨rfl, by rw [bursts]; rfl⟩
  obtain ⟨hchanges, -, hpending⟩ := hbacks.serveAll requests
  refine ⟨hchanges, hpending, map_path_bursts _, fun b hb => events_of_mem_bursts hb,
    fun changes hc => ?_, Burst.kind_eq_deleted_iff, EventLog.perm_serveAll requests {},
    pairwise_reports 0 requests⟩
  have hcr : changes ∈ released.map (·.map (·.change)) := hchanges ▸ hc
  obtain ⟨batch, hbatch, rfl⟩ := List.mem_map.mp hcr
  rw [List.map_map]
  exact EventLog.nodup_serveAll hbatch

end Debouncer

end HotReload
