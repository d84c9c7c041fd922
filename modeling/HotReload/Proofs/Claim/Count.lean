import HotReload.Claim.Count
import HotReload.Claim.Scoped
import Mathlib.Data.List.Nodup

/-!
# Counts and lists of claims

What claiming and releasing do to the count of every path, and to the list of an owner.
-/
namespace HotReload

namespace ClaimCounts

variable {counts : ClaimCounts} {paths : List Path} {path p : Path}

/-- Whether each path stands once and none without a claim. -/
structure IsKept (counts : ClaimCounts) : Prop where
  nodup : (counts.map (·.1)).Nodup
  positive : ∀ entry ∈ counts, 0 < entry.2

theorem isKept_cons {entry : Path × Nat} :
    IsKept (entry :: counts) ↔ (entry.1 ∉ counts.map (·.1) ∧ 0 < entry.2) ∧ IsKept counts := by
  constructor
  · intro h
    obtain ⟨hn, hrest⟩ := List.nodup_cons.mp h.nodup
    obtain ⟨hp, hpos⟩ := List.forall_mem_cons.mp h.positive
    exact ⟨⟨hn, hp⟩, hrest, hpos⟩
  · rintro ⟨⟨hn, hp⟩, hrest, hpos⟩
    exact ⟨List.nodup_cons.mpr ⟨hn, hrest⟩, List.forall_mem_cons.mpr ⟨hp, hpos⟩⟩

theorem count_cons (entry : Path × Nat) (counts : ClaimCounts) (p : Path) :
    count (entry :: counts) p = if entry.1 = p then entry.2 else count counts p := by
  rw [count, List.find?_cons]
  by_cases h : entry.1 = p
  · simp [h]
  · simp [h, count]

theorem count_eq_zero (h : p ∉ counts.map (·.1)) : counts.count p = 0 := by
  induction counts with
  | nil => rfl
  | cons entry rest ih =>
    rw [List.map_cons, List.mem_cons, not_or] at h
    rw [count_cons, if_neg (Ne.symm h.1), ih h.2]

/-- A path is watched if a claim is held on it. -/
theorem IsKept.mem_watched (h : IsKept counts) : p ∈ counts.watched ↔ 0 < counts.count p := by
  induction counts with
  | nil => simp [watched, count]
  | cons entry rest ih =>
    obtain ⟨⟨hn, hp⟩, hrest⟩ := isKept_cons.mp h
    rw [count_cons]
    by_cases hq : entry.1 = p
    · rw [if_pos hq]
      exact iff_of_true (List.mem_cons.mpr (Or.inl hq.symm)) hp
    · rw [if_neg hq, ← ih hrest, watched, List.map_cons, List.mem_cons]
      exact or_iff_right (Ne.symm hq)

theorem keys_claim : p ∈ (claim path counts).map (·.1) ↔ p = path ∨ p ∈ counts.map (·.1) := by
  induction counts with
  | nil => simp [claim]
  | cons entry rest ih =>
    obtain ⟨q, n⟩ := entry
    unfold claim
    split
    · rename_i hq
      simp [hq]
    · rw [List.map_cons, List.mem_cons, ih, List.map_cons, List.mem_cons]
      exact or_left_comm

theorem IsKept.claim (h : IsKept counts) (path : Path) : IsKept (claim path counts) := by
  induction counts with
  | nil => exact ⟨List.nodup_singleton path, List.forall_mem_singleton.mpr Nat.one_pos⟩
  | cons entry rest ih =>
    obtain ⟨q, n⟩ := entry
    obtain ⟨⟨hn, hp⟩, hrest⟩ := isKept_cons.mp h
    unfold ClaimCounts.claim
    split
    · exact isKept_cons.mpr ⟨⟨hn, Nat.succ_pos n⟩, hrest⟩
    · refine isKept_cons.mpr ⟨⟨fun hm => ?_, hp⟩, ih hrest⟩
      exact (keys_claim.mp hm).elim ‹_› hn

theorem keys_release (h : p ∈ (release path counts).map (·.1)) : p ∈ counts.map (·.1) := by
  induction counts with
  | nil => exact h
  | cons entry rest ih =>
    obtain ⟨q, n⟩ := entry
    unfold release at h
    rw [List.map_cons, List.mem_cons]
    split at h
    · split at h
      · exact List.mem_cons.mp h
      · exact Or.inr h
    · exact (List.mem_cons.mp h).imp_right ih

theorem keys_releaseAll (h : p ∈ (releaseAll paths counts).map (·.1)) : p ∈ counts.map (·.1) := by
  induction paths generalizing counts with
  | nil => exact h
  | cons path rest ih => exact keys_release (ih h)

theorem IsKept.release (h : IsKept counts) (path : Path) : IsKept (release path counts) := by
  induction counts with
  | nil => exact h
  | cons entry rest ih =>
    obtain ⟨q, n⟩ := entry
    obtain ⟨⟨hn, hp⟩, hrest⟩ := isKept_cons.mp h
    unfold ClaimCounts.release
    split
    · split
      · exact isKept_cons.mpr ⟨⟨hn, Nat.sub_pos_of_lt ‹_›⟩, hrest⟩
      · exact hrest
    · exact isKept_cons.mpr ⟨⟨fun hm => hn (keys_release hm), hp⟩, ih hrest⟩

theorem IsKept.count_release_self (h : IsKept counts) (path : Path) :
    count (ClaimCounts.release path counts) path = count counts path - 1 := by
  induction counts with
  | nil => rfl
  | cons entry rest ih =>
    obtain ⟨q, n⟩ := entry
    obtain ⟨⟨hn, hp⟩, hrest⟩ := isKept_cons.mp h
    unfold ClaimCounts.release
    rw [count_cons]
    by_cases hq : q = path
    · subst hq
      rw [if_pos rfl, if_pos rfl]
      by_cases hone : 1 < n
      · rw [if_pos hone, count_cons, if_pos rfl]
      · rw [if_neg hone, count_eq_zero hn]
        dsimp only
        omega
    · rw [if_neg hq, if_neg hq, count_cons, if_neg hq, ih hrest]

theorem IsKept.count_release (h : IsKept counts) (path p : Path) :
    count (ClaimCounts.release path counts) p = count counts p - if p = path then 1 else 0 := by
  by_cases hp : p = path
  · rw [if_pos hp, hp, h.count_release_self]
  · rw [if_neg hp, count_release_of_ne hp, Nat.sub_zero]

theorem IsKept.claimAll (h : IsKept counts) (paths : List Path) :
    IsKept (claimAll paths counts) := by
  induction paths generalizing counts with
  | nil => exact h
  | cons path rest ih => exact ih (h.claim path)

theorem IsKept.releaseAll (h : IsKept counts) (paths : List Path) :
    IsKept (releaseAll paths counts) := by
  induction paths generalizing counts with
  | nil => exact h
  | cons path rest ih => exact ih (h.release path)

/-- Claiming paths adds to the count of each as often as it stands among them. -/
theorem count_claimAll_add (counts : ClaimCounts) (paths : List Path) (p : Path) :
    count (claimAll paths counts) p = count counts p + paths.count p := by
  induction paths generalizing counts with
  | nil => rfl
  | cons path rest ih =>
    have hc : count (claimAll (path :: rest) counts) p = _ := ih (claim path counts)
    simp only [hc, count_claim, List.count_cons, beq_iff_eq, eq_comm (a := path)]
    omega

theorem IsKept.count_releaseAll_sub (h : IsKept counts) (paths : List Path) (p : Path) :
    count (ClaimCounts.releaseAll paths counts) p = count counts p - paths.count p := by
  induction paths generalizing counts with
  | nil => rfl
  | cons path rest ih =>
    have hc : count (ClaimCounts.releaseAll (path :: rest) counts) p = _ := ih (h.release path)
    simp only [hc, h.count_release, List.count_cons, beq_iff_eq, eq_comm (a := path)]
    omega

/-- Claiming paths, each once, adds one to the count of each. -/
theorem count_claimAll (hn : paths.Nodup) :
    count (claimAll paths counts) p = count counts p + if p ∈ paths then 1 else 0 := by
  rw [count_claimAll_add, hn.count]

theorem IsKept.count_releaseAll (h : IsKept counts) (hn : paths.Nodup) :
    count (ClaimCounts.releaseAll paths counts) p = count counts p - if p ∈ paths then 1
      else 0 := by
  rw [h.count_releaseAll_sub, hn.count]

end ClaimCounts

namespace ScopedClaims

variable {s : ScopedClaims} {paths : List Path} {p : Path}

theorem foldl_distinct (seen : List Path) (hs : seen.Nodup) :
    (paths.foldl (fun seen p => if p ∈ seen then seen else seen ++ [p]) seen).Nodup ∧
      ∀ p, p ∈ paths.foldl (fun seen p => if p ∈ seen then seen else seen ++ [p]) seen ↔
        p ∈ seen ∨ p ∈ paths := by
  induction paths generalizing seen with
  | nil => simpa using hs
  | cons q rest ih =>
    rw [List.foldl_cons]
    by_cases hq : q ∈ seen
    · rw [if_pos hq]
      obtain ⟨hn, hm⟩ := ih seen hs
      refine ⟨hn, fun p => (hm p).trans ?_⟩
      rw [List.mem_cons]
      grind
    · rw [if_neg hq]
      have hnodup : (seen ++ [q]).Nodup :=
        List.nodup_append'.mpr ⟨hs, List.nodup_singleton q, by simpa using hq⟩
      obtain ⟨hn, hm⟩ := ih (seen ++ [q]) hnodup
      refine ⟨hn, fun p => (hm p).trans ?_⟩
      rw [List.mem_append, List.mem_singleton, List.mem_cons, or_assoc]

theorem foldl_distinct_of_nodup {seen : List Path} (h : (seen ++ paths).Nodup) :
    paths.foldl (fun seen p => if p ∈ seen then seen else seen ++ [p]) seen = seen ++ paths := by
  induction paths generalizing seen with
  | nil => exact (List.append_nil seen).symm
  | cons q rest ih =>
    have hq : q ∉ seen := fun hm => List.disjoint_of_nodup_append h hm List.mem_cons_self
    rw [List.foldl_cons, if_neg hq, ih (by simpa using h), List.append_assoc, List.singleton_append]

theorem distinct_of_nodup (h : paths.Nodup) : distinct paths = paths := foldl_distinct_of_nodup h

theorem nodup_distinct : (distinct paths).Nodup := (foldl_distinct [] List.nodup_nil).1

theorem mem_distinct : p ∈ distinct paths ↔ p ∈ paths := by
  rw [distinct, (foldl_distinct [] List.nodup_nil).2]
  exact or_iff_right List.not_mem_nil

theorem nodup_added : (s.watch paths).2.Nodup := nodup_distinct

theorem mem_added : p ∈ (s.watch paths).2 ↔ p ∈ paths ∧ p ∉ s.paths := by
  simp [watch, mem_distinct]

/-- Paths that are all new to an owner are passed on as they are. -/
theorem added_of_new (h : paths.Nodup) (hnew : ∀ q ∈ paths, q ∉ s.paths) :
    (s.watch paths).2 = paths := by
  have hall : paths.filter (· ∉ s.paths) = paths := by simpa using hnew
  rw [watch, hall, distinct_of_nodup h]

theorem watch_singleton (h : p ∉ s.paths) : s.watch [p] = (⟨s.paths ++ [p]⟩, [p]) := by
  simp [watch, distinct, h]

theorem mem_watch : p ∈ (s.watch paths).1.paths ↔ p ∈ s.paths ∨ p ∈ paths := by
  simp only [watch, List.mem_append, mem_distinct, List.mem_filter, decide_eq_true_eq]
  tauto

theorem nodup_watch (h : s.paths.Nodup) : (s.watch paths).1.paths.Nodup := by
  refine List.nodup_append'.mpr ⟨h, nodup_distinct, fun p hp hq => ?_⟩
  rw [mem_distinct, List.mem_filter, decide_eq_true_eq] at hq
  exact hq.2 hp

theorem nodup_removed : (s.unwatch paths).2.Nodup := nodup_distinct

theorem mem_removed : p ∈ (s.unwatch paths).2 ↔ p ∈ paths ∧ p ∈ s.paths := by
  simp [unwatch, mem_distinct]

theorem removed_of_listed (h : paths.Nodup) (hlisted : paths ⊆ s.paths) :
    (s.unwatch paths).2 = paths := by
  have hall : paths.filter (· ∈ s.paths) = paths := by simpa using fun q hq => hlisted hq
  rw [unwatch, hall, distinct_of_nodup h]

theorem nodup_unwatch (h : s.paths.Nodup) : (s.unwatch paths).1.paths.Nodup := by
  rw [unwatch, ← List.diff_eq_foldl]
  exact h.diff

theorem unwatch_subset (s : ScopedClaims) (paths : List Path) :
    (s.unwatch paths).1.paths ⊆ s.paths := by
  rw [unwatch, ← List.diff_eq_foldl]
  exact List.diff_subset ..

theorem mem_unwatch (h : s.paths.Nodup) :
    p ∈ (s.unwatch paths).1.paths ↔ p ∈ s.paths ∧ p ∉ paths := by
  rw [unwatch, ← List.diff_eq_foldl, h.mem_sdiff_iff, mem_distinct, List.mem_filter,
    decide_eq_true_eq]
  tauto

/-- Whoever releases all that it lists, in the forms it lists, lists nothing. -/
theorem unwatch_all {c : Path → Path} (h : s.paths.Nodup) (hc : ∀ p ∈ s.paths, c p = p) :
    (s.unwatch (s.paths.map c)).1.paths = [] := by
  refine List.eq_nil_iff_forall_not_mem.mpr fun p hp => ?_
  obtain ⟨hl, hnot⟩ := (mem_unwatch h).mp hp
  exact hnot (List.mem_map.mpr ⟨p, hl, hc p hl⟩)

end ScopedClaims

end HotReload
