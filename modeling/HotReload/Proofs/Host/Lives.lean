import HotReload.Proofs.Host.Walks

/-!
# Lives of instances

Every instance has one holder at every moment: the registry, one commit that is to
terminate it, its own termination, or nobody any more because it is terminated. Hence none
is lost and none is used twice, however cycles, bodies and queued commits are interleaved. Where a
termination may be given up, what it has left has no holder either.
-/
namespace HotReload

open World Moment

/-- The states that may follow one another. -/
inductive ScriptState.Next : ScriptState → ScriptState → Prop where
  | start : Next .created .running
  | abandon : Next .created .terminating
  | stop : Next .running .terminating
  | finish : Next .terminating .terminated

/-- What may become of an instance at once: its state stays or is followed by the next, and
whether its body was started is settled when it leaves its first state. -/
structure Script.Turns (s s' : Script) : Prop where
  path : s'.path = s.path
  state : s'.state = s.state ∨ s.state.Next s'.state
  context : s.state ≠ .created → s'.hasContext = s.hasContext

inductive Milestone where
  | started
  | released
  deriving DecidableEq

/-- What an event says of an instance. -/
def TraceEvent.milestone? (n : Nat) : TraceEvent → Option Milestone
  | .execute m .. => if m = n then some .started else none
  | .release m _ => if m = n then some .released else none
  | _ => none

/-- The starts of the body of an instance and the releases of its context, in order. -/
def Journal.life (n : Nat) (j : Journal) : List Milestone :=
  j.trace.filterMap (TraceEvent.milestone? n)

/-- What has happened to an instance whose context was released or not. -/
def Script.milestones (s : Script) (released : Bool) : List Milestone :=
  if s.hasContext then if released then [.started, .released] else [.started] else []

theorem Journal.life_of_lives (n : Nat) {j k : Journal} (h : j.lives = k.lives) :
    j.life n = k.life n := by
  have hl (j : Journal) : j.life n = j.lives.filterMap (TraceEvent.milestone? n) := by
    rw [life, lives, List.filterMap_filter]
    refine List.filterMap_congr fun e _ => ?_
    cases e <;> rfl
  rw [hl, hl, h]

theorem Journal.life_record (n : Nat) (event : TraceEvent) (j : Journal) :
    (j.record event).life n = j.life n ++ (event.milestone? n).toList := by
  rw [life, record, List.filterMap_append]
  cases h : event.milestone? n <;> simp [life, h]

/-- The instances that something is to terminate. -/
def Duty.ends : Duty → List Nat
  | .commit c => c.toTerminate
  | .body _ => []
  | .ending n _ => [n]

namespace Moment

/-- How often an instance is to be terminated. -/
def endings (m : Moment) (n : Nat) : Nat := (m.pending.flatMap Duty.ends).count n

/-- How often an instance is held. -/
def holders (m : Moment) (n : Nat) (s : Script) : Nat :=
  (if m.world.registry.get? s.path = some n then 1 else 0) + m.endings n +
    if s.state = .terminated then 1 else 0

/-- Whether the termination of an instance was given up. -/
def IsAbandoned (m : Moment) (n : Nat) (s : Script) : Prop :=
  s.state = .terminating ∧ ∀ released, .ending n released ∉ m.duties

/-- What is true of an instance at every moment. -/
structure Accounted (R : Regime) (m : Moment) (n : Nat) (s : Script) : Prop where
  held : ¬m.IsAbandoned n s → m.holders n s = 1
  abandoned : m.IsAbandoned n s → m.holders n s = 0 ∧ R.abandons
  ending : ∀ released, .ending n released ∈ m.duties → s.state = .terminating
  created : s.state = .created → s.hasContext = false
  running : s.state = .running → s.hasContext = true
  released : .ending n true ∈ m.duties → s.hasContext = true
  life : m.world.journal.life n = s.milestones (s.state = .terminated ∨ .ending n true ∈ m.duties)

structure IsOrderly (R : Regime) (m : Moment) : Prop where
  accounted : ∀ n s, m.world.script? n = some s → m.Accounted R n s
  /-- Nothing has happened to an instance that is not there yet. -/
  unborn : ∀ n, m.world.scripts.length ≤ n → m.world.journal.life n = []
  closed : m.world.isClosed = true → m.world.registry = []

variable {R : Regime} {w w' : World} {K K' : List Duty} {n : Nat} {s s' : Script}

theorem not_isAbandoned {m : Moment} (h : s.state ≠ .terminating) : ¬m.IsAbandoned n s :=
  fun ha => h ha.1

theorem not_isAbandoned_of_ending {m : Moment} {released : Bool}
    (h : .ending n released ∈ m.duties) :
    ¬m.IsAbandoned n s :=
  fun ha => ha.2 released h

/-- What a termination concerns that is neither going on nor given up has not begun. -/
theorem isAbandoned_or {m : Moment} (h : s.state = .terminating) :
    m.IsAbandoned n s ∨ ∃ released, .ending n released ∈ m.duties := by
  by_cases he : ∃ released, .ending n released ∈ m.duties
  · exact Or.inr he
  · exact Or.inl ⟨h, fun released hr => he ⟨released, hr⟩⟩

theorem endings_eq (w : World) (K : List Duty) (n : Nat) : endings ⟨w, K⟩ n =
    (K.flatMap Duty.ends).count n + (w.tasks.flatMap (·.toTerminate)).count n := by
  rw [endings, pending, List.flatMap_append, List.count_append, List.flatMap_map]
  rfl

theorem endings_commit (c : Commit) (n : Nat) :
    endings ⟨w, .commit c :: K⟩ n = c.toTerminate.count n + endings ⟨w, K⟩ n := List.count_append

theorem endings_body (k n : Nat) : endings ⟨w, .body k :: K⟩ n = endings ⟨w, K⟩ n := rfl

theorem endings_ending (k n : Nat) (released : Bool) :
    endings ⟨w, .ending k released :: K⟩ n = endings ⟨w, K⟩ n + if k = n then 1 else 0 := by
  refine List.count_cons.trans ?_
  simp only [beq_iff_eq]
  rfl

theorem endings_eq_zero {m : Moment} (h : n ∉ m.numbers) : m.endings n = 0 := by
  refine List.count_eq_zero.mpr fun hn => ?_
  obtain ⟨d, hd, hn⟩ := List.mem_flatMap.mp hn
  refine h (List.mem_flatMap.mpr ⟨d, hd, ?_⟩)
  cases d with
  | commit c => exact List.mem_append_right _ hn
  | body k => cases hn
  | ending k r => exact hn

theorem endings_pos {released : Bool} (h : .ending n released ∈ K) : 0 < endings ⟨w, K⟩ n := by
  have hm : .ending n released ∈ pending ⟨w, K⟩ := List.mem_append_left _ h
  exact List.count_pos_iff.mpr (List.mem_flatMap.mpr ⟨_, hm, List.mem_singleton.mpr rfl⟩)

/-- What holds of an instance depends on nothing else. -/
theorem Accounted.transfer (h : Accounted R ⟨w, K⟩ n s) (hs : s'.state = s.state)
    (hc : s'.hasContext = s.hasContext) (hheld : holders ⟨w', K'⟩ n s' = holders ⟨w, K⟩ n s)
    (hl : w'.journal.life n = w.journal.life n) (hd : ∀ r, .ending n r ∈ K' ↔ .ending n r ∈ K) :
    Accounted R ⟨w', K'⟩ n s' where
  held ha :=
    hheld.trans (h.held fun ⟨ht, hnone⟩ => ha ⟨hs.trans ht, fun r hr => hnone r ((hd r).mp hr)⟩)
  abandoned := fun ⟨ht, hnone⟩ => by
    obtain ⟨hzero, hR⟩ := h.abandoned ⟨hs.symm.trans ht, fun r hr => hnone r ((hd r).mpr hr)⟩
    exact ⟨hheld.trans hzero, hR⟩
  ending r hr := hs.trans (h.ending r ((hd r).mp hr))
  created ht := hc.trans (h.created (hs.symm.trans ht))
  running ht := hc.trans (h.running (hs.symm.trans ht))
  released hm := hc.trans (h.released ((hd true).mp hm))
  life := by
    have hh := h.life
    simp only [Script.milestones, hs, hc, hd, hl] at hh ⊢
    exact hh

/-- Where only what is to be done changes, and no termination begins or ends. -/
theorem IsOrderly.of_duties (h : IsOrderly R ⟨w, K⟩) (tasks : List Commit)
    (he : ∀ n, endings ⟨{ w with tasks }, K'⟩ n = endings ⟨w, K⟩ n)
    (hd : ∀ n r, .ending n r ∈ K' ↔ .ending n r ∈ K) : IsOrderly R ⟨{ w with tasks }, K'⟩ where
  accounted n s hs := by
    refine (h.accounted n s hs).transfer rfl rfl ?_ rfl (hd n)
    simp only [holders, he]
  unborn := h.unborn
  closed := h.closed

theorem IsOrderly.of_still (h : IsOrderly R ⟨w, K⟩) (hw : Still w w') : IsOrderly R ⟨w', K⟩ where
  accounted n s' hs' := by
    have hn : n < w.scripts.length := hw.length ▸ lt_of_script? hs'
    obtain ⟨s, hs⟩ : ∃ s, w.script? n = some s := ⟨_, List.getElem?_eq_getElem hn⟩
    obtain ⟨t, ht, hp, hstate, hc⟩ := hw.script n s hs
    obtain rfl : t = s' := Option.some.inj (ht.symm.trans hs')
    refine (h.accounted n s hs).transfer hstate hc ?_ (Journal.life_of_lives n hw.lives)
      fun _ => .rfl
    simp only [holders, endings_eq, hp, hstate, hw.registry, hw.tasks]
  unborn n hn := by
    have hn' : w.scripts.length ≤ n := hw.length ▸ hn
    exact (Journal.life_of_lives n hw.lives).trans (h.unborn n hn')
  closed hc := hw.registry.trans (h.closed (hw.isClosed.symm.trans hc))

/-- Where one instance changes and the others are left alone. -/
theorem IsOrderly.of_change (h : IsOrderly R ⟨w, K⟩) (hs : w.script? n = some s)
    (hr : w'.registry = w.registry) (ho : w'.isClosed = w.isClosed)
    (hlength : w'.scripts.length = w.scripts.length)
    (hother : ∀ k, n ≠ k → w'.script? k = w.script? k)
    (hl : ∀ k, n ≠ k → w'.journal.life k = w.journal.life k)
    (he : ∀ k, n ≠ k → endings ⟨w', K'⟩ k = endings ⟨w, K⟩ k)
    (hd : ∀ k, n ≠ k → ∀ r, .ending k r ∈ K' ↔ .ending k r ∈ K)
    (hn : ∃ s', w'.script? n = some s' ∧ Accounted R ⟨w', K'⟩ n s') : IsOrderly R ⟨w', K'⟩ where
  accounted k t ht := by
    by_cases hk : n = k
    · obtain ⟨s', hs', ha⟩ := hn
      obtain rfl : n = k := hk
      obtain rfl : s' = t := Option.some.inj (hs'.symm.trans ht)
      exact ha
    · have ht' : w.script? k = some t := (hother k hk).symm.trans ht
      refine (h.accounted k t ht').transfer rfl rfl ?_ (hl k hk) (hd k hk)
      simp only [holders, hr, he k hk]
  unborn k hk := by
    have hk' : w.scripts.length ≤ k := hlength ▸ hk
    have hlt := lt_of_script? hs
    exact (hl k (by omega)).trans (h.unborn k hk')
  closed hc := hr.trans (h.closed (ho.symm.trans hc))

theorem script?_turned (hs : w.script? n = some s) (state : ScriptState) :
    (w.turned n state).script? n = some { s with state } := by
  rw [turned, script?_modify, if_pos rfl, hs]
  rfl

theorem script?_started (hs : w.script? n = some s) :
    (w.started n s).script? n = some { s with state := .running, hasContext := true } := by
  refine (script?_modify w n ({ · with state := .running, hasContext := true }) n).trans ?_
  rw [if_pos rfl, hs]
  rfl

theorem script?_other (f : Script → Script) {k : Nat} (hk : n ≠ k) :
    ({ w with scripts := w.scripts.modify n f } : World).script? k = w.script? k := by
  rw [script?_modify, if_neg hk]

theorem life_started (w : World) (n : Nat) (s : Script) (k : Nat) :
    (w.started n s).journal.life k = w.journal.life k ++ if n = k then [.started] else [] := by
  rw [started, Journal.life_record, TraceEvent.milestone?]
  split <;> rfl

theorem life_released (w : World) (n : Nat) (s : Script) (k : Nat) :
    (w.released n s).journal.life k = w.journal.life k ++ if n = k then [.released] else [] := by
  rw [World.released, Journal.life_record, TraceEvent.milestone?]
  split <;> rfl

/-- An instance that was not run before is started. -/
theorem IsOrderly.start {toRun toTerminate : List Nat}
    (h : IsOrderly R ⟨w, .commit ⟨n :: toRun, toTerminate⟩ :: K⟩) (hs : w.script? n = some s)
    (hc : s.state = .created) :
    IsOrderly R ⟨w.started n s, .body n :: .commit ⟨toRun, toTerminate⟩ :: K⟩ := by
  have ha := h.accounted n s hs
  have hending : ∀ r, .ending n r ∉ K := by
    intro r hr
    have ht := ha.ending r (List.mem_cons_of_mem _ hr)
    rw [hc] at ht
    cases ht
  have hends : ∀ k, endings ⟨w.started n s, .body n :: .commit ⟨toRun, toTerminate⟩ :: K⟩ k =
      endings ⟨w, .commit ⟨n :: toRun, toTerminate⟩ :: K⟩ k := by
    intro k
    rw [endings_body, endings_commit, endings_commit]
    rfl
  refine h.of_change hs rfl rfl (List.length_modify ..) (fun k hk => script?_other _ hk)
    (fun k hk => ?_) (fun k hk => hends k) (fun k hk r => by simp) ⟨_, script?_started hs, ?_⟩
  · rw [life_started, if_neg hk, List.append_nil]
  · have hheld := ha.held (not_isAbandoned (by rw [hc]; decide))
    have hlife := ha.life
    refine { held := fun _ => ?_, abandoned := fun ht => (by cases ht.1), ending := ?_,
             created := ?_, life := ?_
             running := fun _ => rfl, released := fun _ => rfl }
    · simp only [holders, hends, hc] at hheld ⊢
      exact hheld
    · simp [hending]
    · exact fun ht => by cases ht
    · dsimp only at hlife ⊢
      rw [life_started, if_pos rfl, hlife]
      simp [Script.milestones, ha.created hc, hending]

theorem not_over (h : s.isOver = false) : s.state ≠ .terminating ∧ s.state ≠ .terminated := by
  simpa [Script.isOver] using h

/-- The termination of an instance begins. -/
theorem IsOrderly.begin {toTerminate : List Nat}
    (h : IsOrderly R ⟨w, .commit ⟨[], n :: toTerminate⟩ :: K⟩) (hs : w.script? n = some s)
    (ho : s.isOver = false) :
    IsOrderly R ⟨w.turned n .terminating, .ending n false :: .commit ⟨[], toTerminate⟩ :: K⟩ := by
  have ha := h.accounted n s hs
  obtain ⟨hnot, hnot'⟩ := not_over ho
  have hending : ∀ r, .ending n r ∉ K := fun r hr => hnot (ha.ending r (List.mem_cons_of_mem _ hr))
  have hends : ∀ k,
    endings ⟨w.turned n .terminating, .ending n false :: .commit ⟨[], toTerminate⟩ :: K⟩ k =
      endings ⟨w, .commit ⟨[], n :: toTerminate⟩ :: K⟩ k := by
    intro k
    have hw : endings ⟨w.turned n .terminating, K⟩ k = endings ⟨w, K⟩ k := rfl
    rw [endings_ending, endings_commit, endings_commit, hw, List.count_cons]
    simp only [beq_iff_eq]
    omega
  refine h.of_change hs rfl rfl (List.length_modify ..) (fun k hk => script?_other _ hk)
    (fun k hk => rfl) (fun k hk => hends k) (fun k hk r => ?_) ⟨_, script?_turned hs _, ?_⟩
  · simp [Ne.symm hk]
  · have hheld := ha.held (not_isAbandoned hnot)
    have hlife := ha.life
    refine { held := fun _ => ?_, abandoned := fun hn => ?_, ending := fun _ _ => rfl,
             created := ?_, running := ?_
             released := ?_, life := ?_ }
    · simp only [holders, hends, if_neg hnot'] at hheld ⊢
      exact hheld
    · exact absurd (List.mem_cons_self ..) (hn.2 false)
    · exact fun ht => by cases ht
    · exact fun ht => by cases ht
    · simp [hending]
    · simp only [turned, Script.milestones, hnot'] at hlife ⊢
      rw [hlife]
      simp [hending]

/-- The context of an instance that ends is released. -/
theorem IsOrderly.release (h : IsOrderly R ⟨w, .ending n false :: K⟩) (hs : w.script? n = some s)
    (hc : s.hasContext = true) : IsOrderly R ⟨w.released n s, .ending n true :: K⟩ := by
  have ha := h.accounted n s hs
  have hstate : s.state = .terminating := ha.ending false (List.mem_cons_self ..)
  have hends : ∀ k, endings ⟨w.released n s, .ending n true :: K⟩ k =
      endings ⟨w, .ending n false :: K⟩ k := by
    intro k
    rw [endings_ending, endings_ending]
    rfl
  have hheld := ha.held (not_isAbandoned_of_ending (List.mem_cons_self ..))
  have hending : ∀ r, .ending n r ∉ K := by
    intro r hr
    have hpos := endings_pos (w := w) hr
    simp only [holders, endings_ending, if_true] at hheld
    omega
  refine h.of_change hs rfl rfl rfl (fun k hk => rfl) (fun k hk => ?_) (fun k hk => hends k)
    (fun k hk r => ?_) ⟨s, hs, ?_⟩
  · rw [life_released, if_neg hk, List.append_nil]
  · simp [Ne.symm hk]
  · have hlife := ha.life
    refine { held := fun _ => ?_, abandoned := fun hn => ?_, ending := fun _ _ => hstate, life := ?_
             created := ha.created, running := ha.running, released := fun _ => hc }
    · simp only [holders, hends] at hheld ⊢
      exact hheld
    · exact absurd (List.mem_cons_self ..) (hn.2 true)
    · dsimp only at hlife ⊢
      rw [life_released, if_pos rfl, hlife]
      simp [Script.milestones, hc, hstate, hending]

/-- The termination of an instance comes to its end. -/
theorem IsOrderly.finish {released : Bool} (h : IsOrderly R ⟨w, .ending n released :: K⟩)
    (hs : w.script? n = some s) (hc : s.hasContext = true → released = true) :
    IsOrderly R ⟨w.turned n .terminated, K⟩ := by
  have ha := h.accounted n s hs
  have hstate : s.state = .terminating := ha.ending released (List.mem_cons_self ..)
  have hheld := ha.held (not_isAbandoned_of_ending (List.mem_cons_self ..))
  simp only [holders, endings_ending, if_true, hstate] at hheld
  have hending : ∀ r, .ending n r ∉ K := by
    intro r hr
    have hpos := endings_pos (w := w) hr
    omega
  refine h.of_change hs rfl rfl (List.length_modify ..) (fun k hk => script?_other _ hk)
    (fun k hk => rfl) (fun k hk => ?_) (fun k hk r => ?_) ⟨_, script?_turned hs _, ?_⟩
  · rw [endings_ending, if_neg hk]
    rfl
  · simp [Ne.symm hk]
  · have hlife := ha.life
    refine { held := fun _ => ?_, abandoned := fun hn => (by cases hn.1), ending := ?_,
             created := ?_, running := ?_
             released := ?_, life := ?_ }
    · have hw : endings ⟨w.turned n .terminated, K⟩ n = endings ⟨w, K⟩ n := rfl
      have hr : (w.turned n .terminated).registry = w.registry := rfl
      simp only [holders, hw, hr, if_true]
      simp only [reduceCtorEq, if_false] at hheld
      omega
    · simp [hending]
    · exact fun ht => by cases ht
    · exact fun ht => by cases ht
    · exact fun hr => absurd hr (hending true)
    · simp only [turned, Script.milestones, hstate] at hlife ⊢
      rw [hlife]
      cases released <;> simp_all

/-- The termination of an instance is given up. -/
theorem IsOrderly.abandon (h : IsOrderly R ⟨w, .ending n false :: K⟩) (hs : w.script? n = some s)
    (hR : R.abandons) :
    IsOrderly R ⟨w, K⟩ := by
  have ha := h.accounted n s hs
  have hstate : s.state = .terminating := ha.ending false (List.mem_cons_self ..)
  have hheld := ha.held (not_isAbandoned_of_ending (List.mem_cons_self ..))
  simp only [holders, endings_ending, if_true, hstate] at hheld
  have hending : ∀ r, .ending n r ∉ K := by
    intro r hr
    have hpos := endings_pos (w := w) hr
    omega
  refine h.of_change hs rfl rfl rfl (fun k hk => rfl) (fun k hk => rfl) (fun k hk => ?_)
    (fun k hk r => ?_)
    ⟨s, hs, ?_⟩
  · rw [endings_ending, if_neg hk]
    rfl
  · simp [Ne.symm hk]
  · have hlife := ha.life
    refine { held := fun hn => absurd ⟨hstate, hending⟩ hn, abandoned := fun _ => ⟨?_, hR⟩
             ending := fun _ _ => hstate, created := ha.created, running := ha.running
             released := fun hr => absurd hr (hending true), life := ?_ }
    · simp only [holders, hstate]
      omega
    · simp only [Script.milestones, hstate] at hlife ⊢
      rw [hlife]
      simp [hending]

/-! Registered instances that become those of a commit. -/

/-- How often an instance is registered under some of the paths. -/
theorem count_registered (h : IsRegistered w) (hs : w.script? n = some s) {paths : List Path}
    (hn : paths.Nodup) : (paths.filterMap w.registry.get?).count n =
      if s.path ∈ paths ∧ w.registry.get? s.path = some n then 1 else 0 := by
  induction paths with
  | nil => rfl
  | cons p rest ih =>
    obtain ⟨hp, hrest⟩ := List.nodup_cons.mp hn
    have hown : w.registry.get? p = some n → p = s.path := by
      intro hg
      obtain ⟨t, ht, hpath⟩ := h.script p n hg
      obtain rfl : t = s := Option.some.inj (ht.symm.trans hs)
      exact hpath.symm
    rw [List.filterMap_cons]
    by_cases hps : p = s.path
    · obtain rfl := hps
      have hz : (rest.filterMap w.registry.get?).count n = 0 := by
        rw [ih hrest, if_neg fun h => hp h.1]
      cases hg : w.registry.get? s.path with
      | none => simp [hz]
      | some k => simp [hz, List.count_cons]
    · have hne : w.registry.get? p ≠ some n := fun hg => hps (hown hg)
      cases hg : w.registry.get? p with
      | none => simp [ih hrest, Ne.symm hps]
      | some k =>
        rw [hg] at hne
        have hkn : ¬(k = n) := fun hkn => hne (congrArg some hkn)
        simp [ih hrest, Ne.symm hps, hkn]

theorem registered_eq (h : IsRegistered w) :
    w.registry.map (·.2) = (w.registry.map (·.1)).filterMap w.registry.get? := by
  have hg : ∀ e ∈ w.registry,
    w.registry.get? e.1 = some e.2 := fun e he => Registry.get?_of_mem h.nodup he
  rw [List.filterMap_map, ← List.filterMap_eq_map]
  exact List.filterMap_congr fun e he => (hg e he).symm

/-- When the host shuts down, what was registered is to be terminated. -/
theorem IsOrderly.close (h : IsOrderly R ⟨w, K⟩) (hr : IsRegistered w) :
    IsOrderly R ⟨w.closed, .commit ⟨[], w.registry.map (·.2)⟩ :: K⟩ where
  accounted n s hs := by
    refine (h.accounted n s hs).transfer rfl rfl ?_ rfl fun r => by simp
    have hcount := count_registered hr hs hr.nodup
    have hkey : w.registry.get? s.path = some n → s.path ∈ w.registry.map (·.1) := fun hg =>
      List.mem_map_of_mem (Registry.mem_of_get? hg)
    simp only [← registered_eq hr, and_iff_right_of_imp hkey] at hcount
    have hnone : w.closed.registry.get? s.path = none := rfl
    have hends : endings ⟨w.closed, K⟩ n = endings ⟨w, K⟩ n := rfl
    simp only [holders, endings_commit, hcount, hnone, hends, reduceCtorEq, if_false]
    omega
  unborn := h.unborn
  closed _ := rfl

/-- The instances that a plan replaces or removes, by their paths. -/
theorem toTerminate_commitOf (hf : Fits w w.plan) : (w.commitOf w.plan).toTerminate =
    (w.plan.reloadQueue ++ w.plan.toUnload.map (·.1)).filterMap w.registry.get? := by
  rw [commitOf, List.filterMap_append, List.filterMap_map, ← List.filterMap_eq_map]
  exact congrArg _ (List.filterMap_congr fun e he => (hf.unload e he).symm)

/-- An instance that a plan replaces or removes stays as held as it was. -/
theorem holders_planned (hr : IsRegistered w) (hf : Fits w w.plan)
    (hg : Grown w (w.reloads w.plan ++ w.plan.toLoad) (w.plan.toUnload.map (·.1)) w')
    (hs : w.script? n = some s) :
    holders ⟨w', .commit (w.commitOf w.plan) :: K⟩ n s = holders ⟨w, K⟩ n s := by
  have hn : n < w.scripts.length := lt_of_script? hs
  have hends : endings ⟨w', K⟩ n = endings ⟨w, K⟩ n := by rw [endings_eq, endings_eq, hg.tasks]
  have hnodup : (w.plan.reloadQueue ++ w.plan.toUnload.map (·.1)).Nodup := by
    refine List.nodup_append'.mpr ⟨hf.queueNodup, hf.unloadNodup, fun p hq hu => ?_⟩
    obtain ⟨e, he, rfl⟩ := List.mem_map.mp hu
    exact hf.apart e he hq
  have hcount := count_registered hr hs hnodup
  rw [← toTerminate_commitOf hf] at hcount
  have hfresh : ∀ i, some (w.scripts.length + i) ≠ some n := fun i h => by
    have := Option.some.inj h
    omega
  simp only [holders, endings_commit, hends, hcount, List.mem_append]
  by_cases hget : w.registry.get? s.path = some n
  · have hload : s.path ∉ w.plan.toLoad := fun hl => by
      rw [hf.load _ hl] at hget
      cases hget
    have hreload : s.path ∈ w.reloads w.plan ↔ s.path ∈ w.plan.reloadQueue :=
      mem_reloads.trans (and_iff_left ⟨n, hget⟩)
    simp only [hg.registry, List.mem_append, hreload, hload, or_false, hget, and_true, if_true]
    by_cases hq : s.path ∈ w.plan.reloadQueue
    · simp only [hq, if_true, true_or, if_neg (hfresh _)]
      omega
    · by_cases hu : s.path ∈ w.plan.toUnload.map (·.1)
      · simp only [hq, hu, if_false, if_true, false_or, reduceCtorEq]
        omega
      · simp only [hq, hu, if_false, or_self, if_true]
        omega
  · have hget' : w'.registry.get? s.path ≠ some n := by
      rw [hg.registry]
      split
      · exact hfresh _
      · split
        · exact fun h => by cases h
        · exact hget
    simp only [hget, hget', and_false, if_false]
    omega

/-- A new instance is registered under its path, and nothing is to terminate it. -/
theorem Accounted.made {c : Commit} {w₁ : World} {p : Path} (h : IsOrderly R ⟨w, K⟩)
    (hk : IsSane ⟨w, K⟩) (hn : w.scripts.length ≤ n) (hc : n ∉ c.toTerminate)
    (hr : w'.registry.get? p = some n) (htasks : w'.tasks = w.tasks)
    (hlives : w'.journal.lives = w.journal.lives) :
    Accounted R ⟨w', .commit c :: K⟩ n (w₁.made p) := by
  have hnumbers : n ∉ numbers ⟨w, K⟩ := fun hm => absurd (hk.known n hm) (Nat.not_lt.mpr hn)
  have hends : endings ⟨w', K⟩ n = 0 := by
    rw [← endings_eq_zero hnumbers, endings_eq, endings_eq, htasks]
  have hending : ∀ r, .ending n r ∉ K := fun r hr =>
    hnumbers (mem_numbers.mpr (Or.inl ⟨_, hr, List.mem_singleton.mpr rfl⟩))
  have hlife : w'.journal.life n = [] := (Journal.life_of_lives n hlives).trans (h.unborn n hn)
  have hpath : (w₁.made p).path = p := rfl
  have hstate : (w₁.made p).state = .created := rfl
  have hcontext : (w₁.made p).hasContext = false := rfl
  refine { held := fun _ => ?_, abandoned := fun hn => (by cases hn.1), ending := ?_,
           created := fun _ => rfl
           running := ?_, released := ?_, life := ?_ }
  · simp only [holders, endings_commit, hends, hpath, hr, hstate, List.count_eq_zero.mpr hc]
    rfl
  · simp [hstate, hending]
  · rw [hstate]
    exact fun ht => by cases ht
  · simp [hending]
  · simp [hlife, Script.milestones, hcontext]

/-- A cycle registers new instances, and leaves those they replace and those without
a file to its commit. -/
theorem IsOrderly.plan (h : IsOrderly R ⟨w, K⟩) (hsane : IsSane ⟨w, K⟩) (ho : w.isClosed = false)
    (hf : Fits w w.plan)
    (hg : Grown w (w.reloads w.plan ++ w.plan.toLoad) (w.plan.toUnload.map (·.1)) w') :
    IsOrderly R ⟨w', .commit (w.commitOf w.plan) :: K⟩ := by
  refine ⟨fun n s hs => ?_, fun n hn => ?_, fun hc => ?_⟩
  · rcases hg.script?_cases hf.nodup hs with hold | ⟨hn, hr, -, w₁, hmade⟩
    · exact (h.accounted n s hold).transfer rfl rfl (holders_planned hsane.registered hf hg hold)
        (Journal.life_of_lives n hg.lives) fun r => by simp
    · rw [hmade]
      refine Accounted.made h hsane hn (fun hmem => ?_) hr hg.tasks hg.lives
      rw [toTerminate_commitOf hf] at hmem
      obtain ⟨q, -, hq⟩ := List.mem_filterMap.mp hmem
      obtain ⟨t, ht, -⟩ := hsane.registered.script q n hq
      exact absurd (lt_of_script? ht) (Nat.not_lt.mpr hn)
  · have hn : w'.scripts.length ≤ n := hn
    have hlength := hg.length
    have hle : w.scripts.length ≤ n := by omega
    exact (Journal.life_of_lives n hg.lives).trans (h.unborn n hle)
  · rw [hg.isClosed, ho] at hc
    cases hc

/-- What two things are to terminate is to be terminated twice. -/
theorem endings_of_two {m : Moment} {d d' : Duty} (hd : d ∈ m.pending) (hd' : d' ∈ m.pending)
    (hne : d' ≠ d) (hn : n ∈ d.ends) (hn' : n ∈ d'.ends) : 2 ≤ m.endings n := by
  have hperm := (List.perm_cons_erase hd).flatMap_right Duty.ends
  have hcount := hperm.count_eq n
  have hrest : n ∈ (m.pending.erase d).flatMap Duty.ends :=
    List.mem_flatMap.mpr ⟨d', (List.mem_erase_of_ne hne).mpr hd', hn'⟩
  have hfirst := List.count_pos_iff.mpr hn
  have hsecond := List.count_pos_iff.mpr hrest
  rw [List.flatMap_cons, List.count_append] at hcount
  rw [endings]
  omega

/-- What a commit is still to terminate is not over. -/
theorem IsOrderly.not_over_of_commit {m : Moment} {c : Commit} (h : IsOrderly R m)
    (hc : .commit c ∈ m.pending) (hn : n ∈ c.toTerminate) (hs : m.world.script? n = some s) :
    s.isOver = false := by
  have ha := h.accounted n s hs
  have hone : 0 < m.endings n := List.count_pos_iff.mpr (List.mem_flatMap.mpr ⟨_, hc, hn⟩)
  have hnot : ¬m.IsAbandoned n s := fun habandoned => by
    have hzero := (ha.abandoned habandoned).1
    rw [holders] at hzero
    omega
  have hheld := ha.held hnot
  rw [holders] at hheld
  rw [Script.isOver, Bool.or_eq_false_iff, decide_eq_false_iff_not, decide_eq_false_iff_not]
  refine ⟨fun ht => ?_, fun ht => ?_⟩
  · obtain ⟨r, hr⟩ := (isAbandoned_or ht).resolve_left hnot
    have htwo :=
      endings_of_two hc (List.mem_append_left _ hr) Duty.noConfusion hn (List.mem_singleton.mpr rfl)
    omega
  · rw [if_pos ht] at hheld
    omega

end Moment

/-- Every step keeps every instance accounted for. -/
theorem Step.isOrderly {R : Regime} {m m' : Moment} (h : Step R m m') (hs : m.IsSane)
    (ho : m.IsOrderly R) :
    m'.IsOrderly R := by
  cases h with
  | calm h ht => exact ho.of_still h.still
  | amend f h =>
    refine ho.of_still (still_modify f (fun s => ?_) _)
    rw [h s]
    exact ⟨rfl, rfl, rfl⟩
  | allocate resources h =>
    exact ho.of_still (still_modify ({ · with resources }) (fun _ => ⟨rfl, rfl, rfl⟩) _)
  | scriptWatch paths h => exact ho.of_still (ends_scriptWatch ..).1.still
  | scriptUnwatch paths h => exact ho.of_still (ends_scriptUnwatch ..).1.still
  | watchPaths paths h => exact ho.of_still (still_watchPaths paths)
  | unwatchPaths paths h => exact ho.of_still (still_unwatchPaths paths)
  | plan hc ht hf hm => exact ho.plan hs hc hf (hm.grown ht)
  | @enqueue w c K =>
    refine ho.of_duties (w.tasks ++ [c]) (fun n => ?_) fun n r => by simp
    rw [endings_commit, endings_eq, endings_eq, List.flatMap_append, List.count_append,
      List.flatMap_singleton]
    omega
  | @dequeue w c K i h =>
    refine ho.of_duties (w.tasks.eraseIdx i) (fun n => ?_) fun n r => by simp
    obtain ⟨hi, hc⟩ := List.getElem?_eq_some_iff.mp h
    have hp := ((List.getElem_cons_eraseIdx_perm hi).flatMap_right (·.toTerminate)).count_eq n
    rw [hc, List.flatMap_cons, List.count_append] at hp
    rw [endings_commit, endings_eq, endings_eq]
    dsimp only
    omega
  | @refuse w c K =>
    refine ho.of_duties w.tasks (fun n => ?_) fun n r => by simp
    rw [endings_commit, endings_commit]
  | start hn hc => exact ho.start hn hc
  | @skip w n s toRun toTerminate K hn hc =>
    refine ho.of_duties w.tasks (fun n => ?_) fun n r => by simp
    rw [endings_commit, endings_commit]
  | @complete w n s K ns hn =>
    have hd : IsOrderly R ⟨w, K⟩ :=
      ho.of_duties w.tasks (fun n => (endings_body ..).symm) fun n r => by simp
    exact hd.of_still ⟨rfl, rfl, rfl, rfl, rfl, rfl, fun n s hs => ⟨s, hs, rfl, rfl, rfl⟩⟩
  | @fail w n K => exact ho.of_duties w.tasks (fun n => (endings_body ..).symm) fun n r => by simp
  | begin hn hc => exact ho.begin hn hc
  | pass hn hc =>
    rw [ho.not_over_of_commit (List.mem_cons_self ..) (List.mem_cons_self ..) hn] at hc
    cases hc
  | release hn hc => exact ho.release hn hc
  | finish hn hc => exact ho.finish hn hc
  | @abandon w n K hR =>
    obtain ⟨s, hn⟩ : ∃ s, w.script? n = some s :=
      ⟨_, List.getElem?_eq_getElem
        (hs.known n (Moment.mem_numbers_cons.mpr (Or.inl (List.mem_singleton.mpr rfl))))⟩
    exact ho.abandon hn hR
  | @done w K => exact ho.of_duties w.tasks (fun n => by simp [endings_commit]) fun n r => by simp
  | close hc ho' => exact ho.close hs.registered
  | clear hc ho' =>
    exact ho.of_still ⟨rfl, rfl, rfl, rfl, rfl, rfl, fun n s hs => ⟨s, hs, rfl, rfl, rfl⟩⟩

theorem Walk.isOrderly {R : Regime} {m m' : Moment} (h : Walk R m m') (hs : m.IsSane)
    (ho : m.IsOrderly R) :
    m'.IsOrderly R := by
  induction h with
  | refl => exact ho
  | tail hw h ih => exact h.isOrderly (Walk.isSane hw hs) ih

/-- A termination that goes on went on before, unless its instance was not over. -/
theorem Step.ending_mem {R : Regime} {m m' : Moment} (h : Step R m m') {n : Nat} {released : Bool}
    (hm : .ending n released ∈ m'.duties) :
    (∃ released, .ending n released ∈ m.duties) ∨ ∃ s, m.world.script? n = some s ∧
      s.isOver = false := by
  cases h with
  | @begin w k s toTerminate K hs ho =>
    rcases List.mem_cons.mp hm with hm | hm
    · cases hm
      exact Or.inr ⟨s, hs, ho⟩
    · rcases List.mem_cons.mp hm with hm | hm
      · cases hm
      · exact Or.inl ⟨released, List.mem_cons_of_mem _ hm⟩
  | @release w k s K hs hc =>
    rcases List.mem_cons.mp hm with hm | hm
    · cases hm
      exact Or.inl ⟨false, List.mem_cons_self ..⟩
    · exact Or.inl ⟨released, List.mem_cons_of_mem _ hm⟩
  | _ =>
    refine Or.inl ⟨released, ?_⟩
    simp_all

/-- A termination that was given up is not taken up again. -/
theorem Step.isAbandoned {R : Regime} {m m' : Moment} (h : Step R m m') {n : Nat} {s : Script}
    (hs : m.world.script? n = some s) (ha : m.IsAbandoned n s) :
    ∃ s', m'.world.script? n = some s' ∧ m'.IsAbandoned n s' := by
  have hending (released : Bool) : .ending n released ∉ m'.duties := fun hm => by
    rcases h.ending_mem hm with ⟨r, hr⟩ | ⟨t, ht, ho⟩
    · exact ha.2 r hr
    · obtain rfl : t = s := Option.some.inj (ht.symm.trans hs)
      exact (not_over ho).1 ha.1
  have hstill {w w' : World} (hw : Still w w') (hs : w.script? n = some s) :
      ∃ s', w'.script? n = some s' ∧ s'.state = .terminating := by
    obtain ⟨s', hs', -, hstate, -⟩ := hw.script n s hs
    exact ⟨s', hs', hstate.trans ha.1⟩
  have hother {w : World} {k : Nat} {t : Script} (f : Script → Script) (hk : w.script? k = some t)
      (hs : w.script? n = some s) (ht : t.state ≠ .terminating) :
      ∃ s', ({ w with scripts := w.scripts.modify k f } : World).script? n = some s' ∧
        s'.state = .terminating := by
    have hne : k ≠ n := by
      rintro rfl
      obtain rfl : t = s := Option.some.inj (hk.symm.trans hs)
      exact ht ha.1
    exact ⟨s, (script?_other f hne).trans hs, ha.1⟩
  suffices hstate : ∃ s', m'.world.script? n = some s' ∧ s'.state = .terminating by
    obtain ⟨s', hs', ht⟩ := hstate
    exact ⟨s', hs', ht, hending⟩
  cases h with
  | calm h ht => exact hstill h.still hs
  | amend f h =>
    refine hstill (still_modify f (fun s => ?_) _) hs
    rw [h s]
    exact ⟨rfl, rfl, rfl⟩
  | allocate resources h =>
    exact hstill (still_modify ({ · with resources }) (fun _ => ⟨rfl, rfl, rfl⟩) _) hs
  | scriptWatch paths h => exact hstill (ends_scriptWatch ..).1.still hs
  | scriptUnwatch paths h => exact hstill (ends_scriptUnwatch ..).1.still hs
  | watchPaths paths h => exact hstill (still_watchPaths paths) hs
  | unwatchPaths paths h => exact hstill (still_unwatchPaths paths) hs
  | plan hc ht hf hm => exact ⟨s, (hm.grown ht).script? hs, ha.1⟩
  | start hk hc => exact hother _ hk hs (by rw [hc]; decide)
  | begin hk ho => exact hother _ hk hs (not_over ho).1
  | @finish w k t released K hk hc =>
    have hne : k ≠ n := by
      rintro rfl
      exact ha.2 released (List.mem_cons_self ..)
    exact ⟨s, (script?_other _ hne).trans hs, ha.1⟩
  | _ => exact ⟨s, hs, ha.1⟩

theorem Walk.isAbandoned {R : Regime} {m m' : Moment} (h : Walk R m m') {n : Nat} {s : Script}
    (hs : m.world.script? n = some s) (ha : m.IsAbandoned n s) :
    ∃ s', m'.world.script? n = some s' ∧ m'.IsAbandoned n s' := by
  induction h with
  | refl => exact ⟨s, hs, ha⟩
  | tail _ h ih =>
    obtain ⟨s₁, hs₁, ha₁⟩ := ih
    exact h.isAbandoned hs₁ ha₁

theorem Script.turns_of_eq {s s' : Script} (hp : s'.path = s.path) (hs : s'.state = s.state)
    (hc : s'.hasContext = s.hasContext) : s.Turns s' :=
  ⟨hp, Or.inl hs, fun _ => hc⟩

theorem World.turns_modify {w : World} {n : Nat} {s : Script} (f : Script → Script) (k : Nat)
    (hs : w.script? n = some s) (hf : n = k → s.Turns (f s)) :
    ∃ s', ({ w with scripts := w.scripts.modify k f } : World).script? n = some s' ∧
      s.Turns s' := by
  rw [script?_modify, hs]
  split
  · exact ⟨f s, rfl, hf (Eq.symm ‹_›)⟩
  · exact ⟨s, rfl, Script.turns_of_eq rfl rfl rfl⟩

theorem World.Still.turns {w w' : World} (h : Still w w') {n : Nat} {s : Script}
    (hs : w.script? n = some s) :
    ∃ s', w'.script? n = some s' ∧ s.Turns s' := by
  obtain ⟨s', hs', hp, hstate, hc⟩ := h.script n s hs
  exact ⟨s', hs', Script.turns_of_eq hp hstate hc⟩

/-- With every step, each instance goes at most one state forward. -/
theorem Step.turns {R : Regime} {m m' : Moment} (h : Step R m m') (ho : m.IsOrderly R) {n : Nat}
    {s : Script} (hs : m.world.script? n = some s) :
    ∃ s', m'.world.script? n = some s' ∧ s.Turns s' := by
  cases h with
  | calm h ht => exact h.still.turns hs
  | amend f h =>
    refine turns_modify f _ hs fun _ => ?_
    rw [h s]
    exact Script.turns_of_eq rfl rfl rfl
  | allocate resources h =>
    exact turns_modify ({ · with resources }) _ hs fun _ => Script.turns_of_eq rfl rfl rfl
  | scriptWatch paths h => exact (ends_scriptWatch ..).1.still.turns hs
  | scriptUnwatch paths h => exact (ends_scriptUnwatch ..).1.still.turns hs
  | watchPaths paths h => exact (still_watchPaths paths).turns hs
  | unwatchPaths paths h => exact (still_unwatchPaths paths).turns hs
  | plan hc ht hf hm => exact ⟨s, (hm.grown ht).script? hs, Script.turns_of_eq rfl rfl rfl⟩
  | @start w k t toRun toTerminate K hk hc =>
    refine turns_modify ({ · with state := .running, hasContext := true }) k hs ?_
    rintro rfl
    obtain rfl : s = t := Option.some.inj (hs.symm.trans hk)
    exact ⟨rfl, Or.inr (hc ▸ .start), fun hne => absurd hc hne⟩
  | @begin w k t toTerminate K hk hc =>
    refine turns_modify ({ · with state := .terminating }) k hs ?_
    rintro rfl
    obtain rfl : s = t := Option.some.inj (hs.symm.trans hk)
    refine ⟨rfl, Or.inr ?_, fun _ => rfl⟩
    obtain ⟨hnot, hnot'⟩ := not_over hc
    rcases hstate : s.state with _ | _ | _ | _
    · exact .abandon
    · exact .stop
    · exact absurd hstate hnot
    · exact absurd hstate hnot'
  | @finish w k t released K hk hc =>
    refine turns_modify ({ · with state := .terminated }) k hs ?_
    rintro rfl
    obtain rfl : s = t := Option.some.inj (hs.symm.trans hk)
    have hstate : s.state = .terminating :=
      (ho.accounted n s hs).ending released (List.mem_cons_self ..)
    exact ⟨rfl, Or.inr (hstate ▸ .finish), fun _ => rfl⟩
  | _ => exact ⟨s, hs, Script.turns_of_eq rfl rfl rfl⟩

/-- What has become of an instance after any number of steps. -/
theorem Walk.turns {R : Regime} {m m' : Moment} (h : Walk R m m') (hs : m.IsSane)
    (ho : m.IsOrderly R) {n : Nat} {s : Script} (hn : m.world.script? n = some s) :
    ∃ s', m'.world.script? n = some s' ∧ Relation.ReflTransGen Script.Turns s s' := by
  induction h with
  | refl => exact ⟨s, hn, .refl⟩
  | tail hw h ih =>
    obtain ⟨s₁, hs₁, h₁⟩ := ih
    obtain ⟨s₂, hs₂, h₂⟩ := h.turns (Walk.isOrderly hw hs ho) hs₁
    exact ⟨s₂, hs₂, h₁.tail h₂⟩

end HotReload
