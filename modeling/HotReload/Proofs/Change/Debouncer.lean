import Mathlib.Data.List.Nodup
import HotReload.Change.Debouncer

/-!
# What waits in a debouncer

Each path waits at most once, and its waiting change is a deletion exactly when the last
change of the path was one.
-/
namespace HotReload.Debouncer

variable {now : Float} {change : Change} {pending : List PendingChange} {d : Debouncer}

theorem mem_paths_insert {p : Path} :
    p ∈ (insert now change pending).map (·.path) ↔ p ∈ pending.map (·.path) ∨ p = change.path := by
  rw [map_path_insert]
  split
  · constructor
    · exact Or.inl
    · rintro (hp | rfl)
      · exact hp
      · assumption
  · rw [List.mem_append, List.mem_singleton]

theorem nodup_insert (h : (pending.map (·.path)).Nodup) :
    ((insert now change pending).map (·.path)).Nodup := by
  rw [map_path_insert]
  split
  · exact h
  · exact h.append (List.nodup_singleton _) (List.disjoint_singleton.mpr ‹_›)

/-- Folding a change in leaves the changes of other paths, and the kind that waits for its own
path is a deletion exactly when it is one itself. -/
theorem mem_insert (h : (pending.map (·.path)).Nodup) {c : PendingChange}
    (hc : c ∈ insert now change pending) :
    c ∈ pending ∧ c.path ≠ change.path ∨
      c.path = change.path ∧ (c.kind = .deleted ↔ change.kind = .deleted) := by
  induction pending with
  | nil =>
    rw [insert, List.mem_singleton] at hc
    subst hc
    exact Or.inr ⟨rfl, Iff.rfl⟩
  | cons p rest ih =>
    rw [List.map_cons, List.nodup_cons] at h
    by_cases hp : p.path = change.path
    · rw [insert, if_pos hp, List.mem_cons] at hc
      rcases hc with rfl | hc
      · exact Or.inr ⟨hp, ChangeKind.coalesce_eq_deleted_iff _ _⟩
      · refine Or.inl ⟨List.mem_cons_of_mem _ hc, fun he => h.1 ?_⟩
        rw [hp, ← he]
        exact List.mem_map_of_mem hc
    · rw [insert, if_neg hp, List.mem_cons] at hc
      rcases hc with rfl | hc
      · exact Or.inl ⟨by simp, hp⟩
      · rcases ih h.2 hc with ⟨hm, hne⟩ | hs
        · exact Or.inl ⟨List.mem_cons_of_mem _ hm, hne⟩
        · exact Or.inr hs

theorem foldl_add (now : Float) (changes : List Change) (d : Debouncer) :
    changes.foldl (·.add now ·) d =
      { d with pending := changes.foldl (fun pending c => insert now c pending) d.pending } := by
  induction changes generalizing d with
  | nil => rfl
  | cons c rest ih => exact ih _

theorem mem_paths_foldl_insert {changes : List Change} {p : Path} :
    p ∈ (changes.foldl (fun pending c => insert now c pending) pending).map (·.path) ↔
      p ∈ pending.map (·.path) ∨ p ∈ changes.map (·.path) := by
  induction changes generalizing pending with
  | nil => simp
  | cons c rest ih =>
    rw [List.foldl_cons, ih, mem_paths_insert, List.map_cons, List.mem_cons, or_assoc]

theorem mem_settled {c : Change} :
    c ∈ (d.drain now).1 ↔ ∃ p ∈ d.pending, d.isSettled now p = true ∧ p.toChange = c := by
  simp only [drain, List.partition_eq_filter_filter, List.mem_map, List.mem_filter]
  constructor
  · rintro ⟨p, ⟨hp, hs⟩, rfl⟩
    exact ⟨p, hp, hs, rfl⟩
  · rintro ⟨p, hp, hs, rfl⟩
    exact ⟨p, ⟨hp, hs⟩, rfl⟩

theorem mem_waiting {p : PendingChange} :
    p ∈ (d.drain now).2.pending ↔ p ∈ d.pending ∧ d.isSettled now p = false := by
  simp [drain, List.partition_eq_filter_filter, List.mem_filter]

theorem nodup_waiting (h : (d.pending.map (·.path)).Nodup) :
    ((d.drain now).2.pending.map (·.path)).Nodup := by
  simp only [drain, List.partition_eq_filter_filter]
  exact (List.filter_sublist.map _).nodup h

/-- What was taken out is not handed out again at once. -/
theorem drain_drain (d : Debouncer) (now : Float) : ((d.drain now).2.drain now).1 = [] := by
  refine List.eq_nil_iff_forall_not_mem.mpr fun c hc => ?_
  obtain ⟨p, hp, hs, -⟩ := mem_settled.mp hc
  have hwaits : d.isSettled now p = false := (mem_waiting.mp hp).2
  have hdelay : (d.drain now).2.isSettled now p = d.isSettled now p := rfl
  rw [hdelay, hwaits] at hs
  cases hs

theorem drain_of_none (h : (d.drain now).1 = []) : (d.drain now).2 = d := by
  simp only [drain, List.partition_eq_filter_filter, List.map_eq_nil_iff,
    List.filter_eq_nil_iff] at h ⊢
  have hwaits : d.pending.filter (not ∘ d.isSettled now) = d.pending :=
    List.filter_eq_self.mpr fun p hp => by simpa using h p hp
  rw [hwaits]

end HotReload.Debouncer
