import Mathlib.Data.List.Perm.Basic
import HotReload.Proofs.Resource.Ledger

/-!
# Every registration is closed once

Nothing is closed before the registry closes. Then each registration that is still held
is closed, the last first, whichever of them fail, and each that is made from then on is
closed on the spot, those that are made by the closing of another among them. None is
closed twice, and none that was dropped is closed at all.
-/
namespace HotReload.Ledger

open ResourceRegistry (Request)

/-- The registrations whose closing a log reports, in that order. -/
def closedNumbers (log : List Entry) : List Nat :=
  log.filterMap fun | .closed n _ => some n | _ => none

def droppedNumbers (log : List Entry) : List Nat :=
  log.filterMap fun | .dropped n => some n | _ => none

section Late

/-- A stretch of a log, from its `k`-th entry, that reports nothing but registrations which are
closed on the spot. What the closing of one registers stands before the next. -/
inductive Late : Nat → List Entry → Prop
  | nil (k : Nat) : Late k []
  | cons {k : Nat} (g : Registration) {inner rest : List Entry} : Late (k + 2) inner →
      Late (k + 2 + inner.length) rest → Late k (.made g :: .closed k g.resource :: (inner ++ rest))

/-- The stretch of a log in which registrations are closed one after the other. -/
inductive Releases : Nat → List (Nat × Registration) → List Entry → Prop
  | nil (k : Nat) : Releases k [] []
  | cons {k : Nat} (h : Nat × Registration) {hs : List (Nat × Registration)}
    {inner rest : List Entry} :
      Late (k + 1) inner → Releases (k + 1 + inner.length) hs rest →
      Releases k (h :: hs) (.closed h.1 h.2.resource :: (inner ++ rest))

theorem Late.single {k : Nat} (g : Registration) {inner : List Entry} (h : Late (k + 2) inner) :
    Late k (.made g :: .closed k g.resource :: inner) := by
  have hcons := Late.cons g h (.nil _)
  rwa [List.append_nil] at hcons

theorem addWith_late {a : Resource}
    (h : ∀ n (l : Ledger), l.isClosed = true → ∃ new, (closeOne a n l).2 =
      { l with log := l.log ++ .closed n a :: new } ∧ Late (l.log.length + 1) new)
    {g : Registration} (hg : g.resource = a) {l : Ledger} (hl : l.isClosed = true) :
    ∃ new, (addWith (closeOne a) g l).2 =
      { l with log := l.log ++ .made g :: .closed l.log.length a :: new } ∧
      Late (l.log.length + 2) new := by
  subst hg
  obtain ⟨new, he, hnew⟩ := h l.log.length (l.enter (.made g)) hl
  refine ⟨new, ?_, by simpa [enter] using hnew⟩
  have hs : (addWith (closeOne g.resource) g l).2 =
    (closeOne g.resource l.log.length (l.enter (.made g))).2 := by
    rw [addWith, if_pos hl]
    rcases closeOne g.resource l.log.length (l.enter (.made g)) with ⟨_ | e, l'⟩ <;> rfl
  rw [hs, he]
  simp [enter]

mutual

/-- Closing one resource late reports that and then what it registers. -/
theorem closeOne_late : ∀ (a : Resource) (n : Nat) (l : Ledger), l.isClosed = true →
    ∃ new, (closeOne a n l).2 = { l with log := l.log ++ .closed n a :: new } ∧
      Late (l.log.length + 1) new
  | .mk name f adds, n, l, hl => by
    obtain ⟨new, he, hnew⟩ := addEach_late adds (l.enter (.closed n (.mk name f adds))) hl
    refine ⟨new, ?_, by simpa [enter] using hnew⟩
    have hs : (closeOne (.mk name f adds) n l).2 =
      (addEach adds (l.enter (.closed n (.mk name f adds)))).2 := by
      rw [closeOne]
      rcases addEach adds (l.enter (.closed n (.mk name f adds))) with ⟨_ | e, l'⟩ <;> rfl
    rw [hs, he]
    simp [enter]

theorem addEach_late : ∀ (as : List Resource) (l : Ledger), l.isClosed = true →
    ∃ new, (addEach as l).2 = { l with log := l.log ++ new } ∧ Late l.log.length new
  | [], l, _ => ⟨[], by simp [addEach], .nil _⟩
  | a :: rest, l, hl => by
    obtain ⟨inner, hi, hinner⟩ :=
      addWith_late (closeOne_late a) (rfl : ({ resource := a } : Registration).resource = a) hl
    rw [addEach]
    rcases hx : addWith (closeOne a) { resource := a } l with ⟨_ | e, l'⟩ <;> rw [hx] at hi
    · obtain rfl : l' = _ := hi
      obtain ⟨new, he, hnew⟩ := addEach_late rest
        { l with log := l.log ++ .made { resource := a } :: .closed l.log.length a :: inner } hl
      refine ⟨.made { resource := a } :: .closed l.log.length a :: (inner ++ new), ?_,
        .cons { resource := a } hinner ?_⟩
      · simp [he]
      · simpa [Nat.add_comm, Nat.add_left_comm, Nat.add_assoc] using hnew
    · obtain rfl : l' = _ := hi
      exact ⟨_, rfl, .single { resource := a } hinner⟩

end

/-- Every failure being handled, closing goes through all that it is to close. -/
theorem closeEach_releases (hs : List (Nat × Registration)) (errors : List Failure) (l : Ledger)
    (hh : ∀ h ∈ hs, h.2.resource.IsHandled) (hl : l.isClosed = true) :
    ∃ new, (closeEach hs errors l).2 = { l with log := l.log ++ new } ∧
      Releases l.log.length hs new := by
  induction hs generalizing errors l with
  | nil => exact ⟨[], by simp [closeEach], .nil _⟩
  | cons h rest ih =>
    obtain ⟨hfirst, hrest⟩ := List.forall_mem_cons.mp hh
    obtain ⟨inner, hi, hinner⟩ := closeOne_late h.2.resource h.1 l hl
    have ho : ∀ e, (closeOne h.2.resource h.1 l).1 = some e → e.isOrdinary = true := by
      intro e he
      have hr := closeOne_registry h.2.resource h.1 l
      rw [ResourceRegistry.closeOne_late _ l.registry hfirst hl] at hr
      exact Resource.ordinary_raises hfirst ((congrArg Prod.fst hr).symm.trans he)
    have hgoes : ∃ errors',
      (closeEach (h :: rest) errors l).2 =
        (closeEach rest errors' (closeOne h.2.resource h.1 l).2).2 := by
      rw [closeEach]
      rcases hx : closeOne h.2.resource h.1 l with ⟨_ | e, l'⟩
      · exact ⟨errors, rfl⟩
      · exact ⟨errors ++ [e], by simp [ho e (by rw [hx])]⟩
    obtain ⟨errors', hgoes⟩ := hgoes
    obtain ⟨new, he, hnew⟩ := ih errors'
      { l with log := l.log ++ .closed h.1 h.2.resource :: inner } hrest hl
    refine ⟨.closed h.1 h.2.resource :: (inner ++ new), ?_, .cons h hinner ?_⟩
    · rw [hgoes, hi, he]
      simp
    · simpa [Nat.add_comm, Nat.add_left_comm, Nat.add_assoc] using hnew

theorem Late.le_closed {k : Nat} {new : List Entry} (h : Late k new) :
    ∀ n ∈ closedNumbers new, k ≤ n := by
  induction h with
  | nil => simp [closedNumbers]
  | cons g _ _ ihi ihr =>
    intro n hn
    simp only [closedNumbers, List.filterMap_cons, List.filterMap_append, List.mem_cons,
      List.mem_append] at hn
    rcases hn with rfl | hn | hn
    · exact Nat.le_refl _
    · have := ihi n hn
      omega
    · have := ihr n hn
      omega

/-- Of the registrations made before, a release closes those it is to close, in that order. -/
theorem Releases.closedNumbers_filter {k m : Nat} {hs : List (Nat × Registration)}
    {new : List Entry} (h : Releases k hs new) (hk : m ≤ k) (hm : ∀ h ∈ hs, h.1 < m) :
    (closedNumbers new).filter (· < m) = hs.map (·.1) := by
  induction h with
  | nil => rfl
  | @cons k h hs inner rest hinner _ ih =>
    obtain ⟨hfirst, hrest⟩ := List.forall_mem_cons.mp hm
    have hnone : (closedNumbers inner).filter (· < m) = [] := by
      refine List.filter_eq_nil_iff.mpr fun n hn => ?_
      have := hinner.le_closed n hn
      simp only [decide_eq_true_eq]
      omega
    have hi := ih (by omega) hrest
    simp only [closedNumbers] at hnone hi ⊢
    simp [hfirst, hnone, hi]

end Late

section Leaves

/-- What a log leaves to be closed: what was made is left, or was closed or
dropped, in one way and once. -/
structure Leaves (log : List Entry) (owed : List (Nat × Registration)) : Prop where
  made : ∀ h ∈ owed, log[h.1]? = some (.made h.2)
  closed : ∀ n a, .closed n a ∈ log → ∃ g, log[n]? = some (.made g) ∧ g.resource = a
  dropped : ∀ n, .dropped n ∈ log → ∃ g, log[n]? = some (.made g)
  once : ∀ n g, log[n]? = some (.made g) →
    (closedNumbers log).count n + (droppedNumbers log).count n + (owed.map (·.1)).count n = 1

variable {log new : List Entry} {owed rest : List (Nat × Registration)} {h : Nat × Registration}

theorem mem_closedNumbers {n : Nat} : n ∈ closedNumbers log ↔ ∃ a, .closed n a ∈ log := by
  rw [closedNumbers, List.mem_filterMap]
  constructor
  · rintro ⟨entry, he, hn⟩
    cases entry <;> cases hn
    exact ⟨_, he⟩
  · rintro ⟨a, ha⟩
    exact ⟨_, ha, rfl⟩

theorem mem_droppedNumbers {n : Nat} : n ∈ droppedNumbers log ↔ .dropped n ∈ log := by
  rw [droppedNumbers, List.mem_filterMap]
  constructor
  · rintro ⟨entry, he, hn⟩
    cases entry <;> cases hn
    exact he
  · intro ha
    exact ⟨_, ha, rfl⟩

theorem closedNumbers_append (log new : List Entry) :
    closedNumbers (log ++ new) = closedNumbers log ++ closedNumbers new := List.filterMap_append

theorem droppedNumbers_append (log new : List Entry) :
    droppedNumbers (log ++ new) = droppedNumbers log ++ droppedNumbers new := List.filterMap_append

theorem getElem?_entered {entry e : Entry} {n : Nat} :
    (log ++ [entry])[n]? = some e ↔ log[n]? = some e ∨ n = log.length ∧ entry = e := by
  rcases Nat.lt_trichotomy n log.length with hn | rfl | hn
  · rw [List.getElem?_append_left hn]
    exact ⟨Or.inl, fun h => h.resolve_right fun h => absurd h.1 (Nat.ne_of_lt hn)⟩
  · simp
  · rw [List.getElem?_eq_none (by simpa using Nat.succ_le_of_lt hn),
      List.getElem?_eq_none (Nat.le_of_lt hn)]
    simp [Nat.ne_of_gt hn]

theorem getElem?_of_append {n : Nat} {e : Entry} (h : log[n]? = some e) (new : List Entry) :
    (log ++ new)[n]? = some e := by
  rw [List.getElem?_append_left (List.getElem?_eq_some_iff.mp h).1]
  exact h

theorem leaves_empty : Leaves [] [] := ⟨by simp, by simp, by simp, by simp⟩

namespace Leaves

theorem perm {owed' : List (Nat × Registration)} (hl : Leaves log owed) (hp : owed.Perm owed') :
    Leaves log owed' where
  made g hg := hl.made g (hp.mem_iff.mpr hg)
  closed := hl.closed
  dropped := hl.dropped
  once n g hn := by
    rw [← (hp.map _).count_eq]
    exact hl.once n g hn

/-- An entry that nothing has reported yet is not spoken of either. -/
theorem fresh (hl : Leaves log owed) :
    (closedNumbers log).count log.length + (droppedNumbers log).count log.length +
      (owed.map (·.1)).count log.length = 0 := by
  have hnone : ∀ g, log[log.length]? ≠ some (.made g) := by simp
  have hc : log.length ∉ closedNumbers log := by
    intro hm
    obtain ⟨a, ha⟩ := mem_closedNumbers.mp hm
    obtain ⟨g, hg, -⟩ := hl.closed _ a ha
    exact hnone g hg
  have hd : log.length ∉ droppedNumbers log := by
    intro hm
    obtain ⟨g, hg⟩ := hl.dropped _ (mem_droppedNumbers.mp hm)
    exact hnone g hg
  have ho : log.length ∉ owed.map (·.1) := by
    intro hm
    obtain ⟨h, hh, he⟩ := List.mem_map.mp hm
    exact hnone h.2 (he ▸ hl.made h hh)
  rw [List.count_eq_zero.mpr hc, List.count_eq_zero.mpr hd, List.count_eq_zero.mpr ho]

theorem enterMade (hl : Leaves log owed) (g : Registration) :
    Leaves (log ++ [.made g]) (owed ++ [(log.length, g)]) where
  made h hh := by
    rcases List.mem_append.mp hh with hh | hh
    · exact getElem?_of_append (hl.made h hh) _
    · obtain rfl := List.mem_singleton.mp hh
      simp
  closed n a ha := by
    obtain ⟨g', hg, he⟩ := hl.closed n a (by simpa using ha)
    exact ⟨g', getElem?_of_append hg _, he⟩
  dropped n hn := by
    obtain ⟨g', hg⟩ := hl.dropped n (by simpa using hn)
    exact ⟨g', getElem?_of_append hg _⟩
  once n g' hn := by
    have hfresh := hl.fresh
    rw [closedNumbers_append, droppedNumbers_append, List.map_append, List.count_append,
      List.count_append, List.count_append]
    rcases getElem?_entered.mp hn with hold | ⟨rfl, -⟩
    · have hlt := (List.getElem?_eq_some_iff.mp hold).1
      have honce := hl.once n g' hold
      have hne : ¬ log.length = n := by omega
      simpa [closedNumbers, droppedNumbers, List.count_cons, hne] using honce
    · simp only [closedNumbers, droppedNumbers] at hfresh ⊢
      simp only [List.filterMap_cons, List.filterMap_nil, List.count_nil, List.map_cons,
        List.map_nil, List.count_singleton, beq_self_eq_true, if_true]
      omega

/-- Reporting that something left was closed, or dropped, takes it off. -/
theorem enterEnd {entry : Entry} (hl : Leaves log (h :: owed))
    (he : entry = .closed h.1 h.2.resource ∨ entry = .dropped h.1) :
    Leaves (log ++ [entry]) owed where
  made g hg := getElem?_of_append (hl.made g (List.mem_cons_of_mem _ hg)) _
  closed n a ha := by
    rcases List.mem_append.mp ha with ha | ha
    · obtain ⟨g, hg, he⟩ := hl.closed n a ha
      exact ⟨g, getElem?_of_append hg _, he⟩
    · rcases he with rfl | rfl
      · obtain ⟨rfl, rfl⟩ : n = h.1 ∧ a = h.2.resource := by simpa using ha
        exact ⟨h.2, getElem?_of_append (hl.made h (by simp)) _, rfl⟩
      · simp at ha
  dropped n hn := by
    rcases List.mem_append.mp hn with hn | hn
    · obtain ⟨g', hg⟩ := hl.dropped n hn
      exact ⟨g', getElem?_of_append hg _⟩
    · rcases he with rfl | rfl
      · simp at hn
      · obtain rfl : n = h.1 := by simpa using hn
        exact ⟨h.2, getElem?_of_append (hl.made h (by simp)) _⟩
  once n g hn := by
    rcases getElem?_entered.mp hn with hold | ⟨-, hg⟩
    · have honce := hl.once n g hold
      rw [closedNumbers_append, droppedNumbers_append, List.count_append, List.count_append]
      simp only [List.map_cons, List.count_cons] at honce
      rcases he with rfl | rfl <;>
        simp only [closedNumbers, droppedNumbers, List.filterMap_cons, List.filterMap_nil,
          List.count_cons, List.count_nil] at honce ⊢ <;>
        omega
    · rcases he with rfl | rfl <;> cases hg

theorem enterShut (hl : Leaves log owed) : Leaves (log ++ [.shut]) owed where
  made g hg := getElem?_of_append (hl.made g hg) _
  closed n a ha := by
    obtain ⟨g, hg, he⟩ := hl.closed n a (by simpa using ha)
    exact ⟨g, getElem?_of_append hg _, he⟩
  dropped n hn := by
    obtain ⟨g', hg⟩ := hl.dropped n (by simpa using hn)
    exact ⟨g', getElem?_of_append hg _⟩
  once n g hn := by
    rcases getElem?_entered.mp hn with hold | ⟨-, he⟩
    · rw [closedNumbers_append, droppedNumbers_append]
      simpa [closedNumbers, droppedNumbers] using hl.once n g hold
    · cases he

theorem drops {gone : List (Nat × Registration)} (hl : Leaves log (gone ++ owed)) :
    Leaves (log ++ gone.map fun h => .dropped h.1) owed := by
  induction gone generalizing log with
  | nil => simpa using hl
  | cons h gone ih =>
    have hrest := ih (hl.enterEnd (Or.inr rfl))
    simpa using hrest

/-- What is closed on the spot is made and closed. -/
theorem late {k : Nat} (hl : Leaves log owed) (hk : k = log.length) (hn : Late k new) :
    Leaves (log ++ new) owed := by
  induction hn generalizing log with
  | nil => simpa using hl
  | @cons k g inner rest _ _ ihi ihr =>
    have hmade := (hl.enterMade g).perm List.perm_append_comm
    have hclosed := hmade.enterEnd (Or.inl rfl)
    have hinner := ihi hclosed (by simp [hk])
    have hrest := ihr hinner (by simp only [hk, List.length_append, List.length_singleton])
    simpa [hk] using hrest

/-- A release closes what is left. -/
theorem releases {k : Nat} (hl : Leaves log owed) (hk : k = log.length) (hn : Releases k owed new) :
    Leaves (log ++ new) [] := by
  induction hn generalizing log with
  | nil => simpa using hl
  | @cons k h hs inner rest hinner _ ih =>
    have hi := (hl.enterEnd (Or.inl rfl)).late (by simp [hk]) hinner
    have hrest := ih hi (by simp only [hk, List.length_append, List.length_singleton])
    simpa using hrest

end Leaves

end Leaves

section Timely

/-- When a log has things closed: nothing before the registry closes, and at once what
is made from then on. -/
structure Timely (log : List Entry) : Prop where
  after : ∀ i n a, log[i]? = some (.closed n a) → .shut ∈ log.take i
  spot : ∀ n g, log[n]? = some (.made g) → .shut ∈ log.take n →
    log[n + 1]? = some (.closed n g.resource)

variable {log new : List Entry}

namespace Timely

theorem enter (ht : Timely log) (entry : Entry) (hc : ∀ n a, entry = .closed n a → .shut ∈ log)
    (hm : ∀ g, entry = .made g → .shut ∉ log) : Timely (log ++ [entry]) where
  after i n a hi := by
    rcases getElem?_entered.mp hi with hold | ⟨rfl, he⟩
    · rw [List.take_append_of_le_length (Nat.le_of_lt (List.getElem?_eq_some_iff.mp hold).1)]
      exact ht.after i n a hold
    · rw [List.take_left' rfl]
      exact hc n a he
  spot n g hn hs := by
    rcases getElem?_entered.mp hn with hold | ⟨rfl, he⟩
    · rw [List.take_append_of_le_length (Nat.le_of_lt (List.getElem?_eq_some_iff.mp hold).1)] at hs
      exact getElem?_of_append (ht.spot n g hold hs) _
    · rw [List.take_left' rfl] at hs
      exact absurd hs (hm g he)

theorem drops (ht : Timely log) (gone : List (Nat × Registration)) :
    Timely (log ++ gone.map fun h => .dropped h.1) := by
  induction gone generalizing log with
  | nil => simpa using ht
  | cons h gone ih =>
    have hrest := ih (ht.enter (.dropped h.1) (fun _ _ he => by cases he) fun _ he => by cases he)
    simpa using hrest

theorem enterLate (ht : Timely log) (hs : .shut ∈ log) (g : Registration) :
    Timely (log ++ [.made g, .closed log.length g.resource]) where
  after i n a hi := by
    rcases Nat.lt_or_ge i log.length with hlt | hge
    · rw [List.getElem?_append_left hlt] at hi
      rw [List.take_append_of_le_length (Nat.le_of_lt hlt)]
      exact ht.after i n a hi
    · rw [List.take_append]
      exact List.mem_append_left _ (by rwa [List.take_of_length_le hge])
  spot n g' hn hsn := by
    rcases Nat.lt_or_ge n log.length with hlt | hge
    · rw [List.getElem?_append_left hlt] at hn
      rw [List.take_append_of_le_length (Nat.le_of_lt hlt)] at hsn
      exact getElem?_of_append (ht.spot n g' hn hsn) _
    · obtain ⟨i, rfl⟩ := Nat.exists_eq_add_of_le hge
      rw [List.getElem?_append_right hge, Nat.add_sub_cancel_left] at hn
      rcases i with _ | _ | i
      · obtain rfl : g = g' := by simpa using hn
        simp
      · simp at hn
      · simp at hn

theorem late {k : Nat} (ht : Timely log) (hs : .shut ∈ log) (hk : k = log.length)
    (hn : Late k new) :
    Timely (log ++ new) := by
  induction hn generalizing log with
  | nil => simpa using ht
  | @cons k g inner rest _ _ ihi ihr =>
    have hspot := ht.enterLate hs g
    have hinner := ihi hspot (List.mem_append_left _ hs) (by simp [hk])
    have hrest := ihr hinner (List.mem_append_left _ (List.mem_append_left _ hs))
      (by simp only [hk, List.length_append, List.length_cons, List.length_nil])
    simpa [hk] using hrest

theorem releases {k : Nat} {hs : List (Nat × Registration)} (ht : Timely log) (hs' : .shut ∈ log)
    (hk : k = log.length) (hn : Releases k hs new) : Timely (log ++ new) := by
  induction hn generalizing log with
  | nil => simpa using ht
  | @cons k h hs inner rest hinner _ ih =>
    have hc := ht.enter (.closed h.1 h.2.resource) (fun _ _ _ => hs') (fun g hg => by cases hg)
    have hi := hc.late (List.mem_append_left _ hs') (by simp [hk]) hinner
    have hrest := ih hi (List.mem_append_left _ (List.mem_append_left _ hs'))
      (by simp only [hk, List.length_append, List.length_singleton])
    simpa using hrest

end Timely

end Timely

end HotReload.Ledger
