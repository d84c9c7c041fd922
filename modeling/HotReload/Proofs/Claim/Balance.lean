import HotReload.Proofs.Claim.Count

/-!
# Balanced claims

The count of every path is the number of owners that list it. It stays so when an owner
claims or releases paths, if what the owner lists is counted as it is listed.
Where claims were released for owners that still list them, the counts fall behind by a
debt, which no owner makes larger.
-/
namespace HotReload

variable {F : Path → Prop} {owners : List ScopedClaims} {counts : ClaimCounts} {paths : List Path}

/-- How many owners list a path. -/
def listings (owners : List ScopedClaims) (p : Path) : Nat := owners.countP (p ∈ ·.paths)

/-- Whether the counts agree with the lists, whose paths are all of a kind. -/
structure Balanced (F : Path → Prop) (owners : List ScopedClaims) (counts : ClaimCounts) :
    Prop where
  kept : counts.IsKept
  counted : ∀ p, counts.count p = listings owners p
  once : ∀ o ∈ owners, o.paths.Nodup
  firm : ∀ o ∈ owners, ∀ p ∈ o.paths, F p

/-- Whether no path is counted more often than it is listed, and the paths of a kind are counted
as often as that but for a debt. -/
structure Covered (F : Path → Prop) (P : Path → Prop) (debt : Path → Nat)
    (owners : List ScopedClaims) (counts : ClaimCounts) : Prop where
  kept : counts.IsKept
  most : ∀ p, counts.count p ≤ listings owners p
  least : ∀ p, P p → listings owners p ≤ counts.count p + debt p
  once : ∀ o ∈ owners, o.paths.Nodup
  firm : ∀ o ∈ owners, ∀ p ∈ o.paths, F p

theorem Balanced.covered (h : Balanced F owners counts) :
    Covered F (fun _ => True) (fun _ => 0) owners counts where
  kept := h.kept
  most p := Nat.le_of_eq (h.counted p)
  least p _ := Nat.le_of_eq (h.counted p).symm
  once := h.once
  firm := h.firm

theorem listings_set {o : ScopedClaims} {i : Nat} (ho : owners[i]? = some o) (o' : ScopedClaims)
    (p : Path) :
    listings (owners.set i o') p + (if p ∈ o.paths then 1 else 0) =
      listings owners p + if p ∈ o'.paths then 1 else 0 := by
  obtain ⟨hi, rfl⟩ := List.getElem?_eq_some_iff.mp ho
  have hle := List.boole_getElem_le_countP (p := fun o : ScopedClaims => decide (p ∈ o.paths)) hi
  simp only [listings, List.countP_set hi, decide_eq_true_eq] at hle ⊢
  omega

namespace Covered

variable {P : Path → Prop} {debt : Path → Nat} {o : ScopedClaims} {i : Nat}

/-- Without a debt the counts are those of the lists. -/
theorem balanced (h : Covered F (fun _ => True) (fun _ => 0) owners counts) :
    Balanced F owners counts where
  kept := h.kept
  counted p := Nat.le_antisymm (h.most p) (h.least p trivial)
  once := h.once
  firm := h.firm

/-- One owner gets another list. -/
theorem set {o' : ScopedClaims} {counts' : ClaimCounts} (h : Covered F P debt owners counts)
    (hk : counts'.IsKept) (hm : ∀ p, counts'.count p ≤ listings (owners.set i o') p)
    (hl : ∀ p, P p → listings (owners.set i o') p ≤ counts'.count p + debt p)
    (hn : o'.paths.Nodup) (hf : ∀ p ∈ o'.paths, F p) :
    Covered F P debt (owners.set i o') counts' where
  kept := hk
  most := hm
  least := hl
  once q hq := (List.mem_or_eq_of_mem_set hq).elim (h.once q) (fun he => he ▸ hn)
  firm q hq := (List.mem_or_eq_of_mem_set hq).elim (h.firm q) (fun he => he ▸ hf)

/-- An owner claims paths. -/
theorem watch (h : Covered F P debt owners counts) (ho : owners[i]? = some o)
    (hp : ∀ p ∈ paths, F p) :
    Covered F P debt (owners.set i (o.watch paths).1) (counts.claimAll (o.watch paths).2) := by
  have hmem : o ∈ owners := List.mem_of_getElem? ho
  have hmoved : ∀ p, (counts.claimAll (o.watch paths).2).count p + listings owners p =
      counts.count p + listings (owners.set i (o.watch paths).1) p := by
    intro p
    have hset := listings_set ho (o.watch paths).1 p
    rw [ClaimCounts.count_claimAll ScopedClaims.nodup_added]
    simp only [ScopedClaims.mem_added, ScopedClaims.mem_watch] at hset ⊢
    by_cases hl : p ∈ o.paths
    · simp only [hl, true_or, not_true, and_false, if_true, if_false] at hset ⊢
      omega
    · simp only [hl, false_or, not_false_iff, and_true, if_false] at hset ⊢
      omega
  apply h.set (h.kept.claimAll _)
  · intro p
    have hm := h.most p
    have hq := hmoved p
    omega
  · intro p hP
    have hl := h.least p hP
    have hq := hmoved p
    omega
  · exact ScopedClaims.nodup_watch (h.once o hmem)
  · intro p hm
    exact (ScopedClaims.mem_watch.mp hm).elim (h.firm o hmem p) (hp p)

/-- An owner releases paths; only those that it lists are released. -/
theorem unwatch (h : Covered F P debt owners counts) (ho : owners[i]? = some o)
    (paths : List Path) :
    Covered F P debt (owners.set i (o.unwatch paths).1)
      (counts.releaseAll (o.unwatch paths).2) := by
  have hmem : o ∈ owners := List.mem_of_getElem? ho
  have hn := h.once o hmem
  have hmoved : ∀ p, ∃ k, (counts.releaseAll (o.unwatch paths).2).count p = counts.count p - k ∧
      listings (owners.set i (o.unwatch paths).1) p + k = listings owners p := by
    intro p
    have hset := listings_set ho (o.unwatch paths).1 p
    rw [h.kept.count_releaseAll ScopedClaims.nodup_removed]
    simp only [ScopedClaims.mem_removed, ScopedClaims.mem_unwatch hn] at hset ⊢
    by_cases hl : p ∈ o.paths
    · by_cases hq : p ∈ paths
      · refine ⟨1, by simp only [hl, hq, and_self, if_true], ?_⟩
        simp only [hl, hq, not_true, and_false, if_true, if_false] at hset
        omega
      · refine ⟨0, by simp only [hq, false_and, if_false, Nat.sub_zero], ?_⟩
        simp only [hl, hq, not_false_iff, and_self, if_true] at hset
        omega
    · refine ⟨0, by simp only [hl, and_false, if_false, Nat.sub_zero], ?_⟩
      simp only [hl, false_and, if_false] at hset
      omega
  apply h.set (h.kept.releaseAll _)
  · intro p
    obtain ⟨k, hcount, hlist⟩ := hmoved p
    have hm := h.most p
    omega
  · intro p hP
    obtain ⟨k, hcount, hlist⟩ := hmoved p
    have hl := h.least p hP
    omega
  · exact ScopedClaims.nodup_unwatch hn
  · intro p hm
    exact h.firm o hmem p ((ScopedClaims.mem_unwatch hn).mp hm).1

/-- Releasing a claim that no owner gives up leaves no path counted more often than before, and
the paths of the kind alone that nobody claims. -/
theorem release (h : Covered F P debt owners counts) (hn : paths.Nodup)
    (hz : ∀ p ∈ paths, P p → counts.count p = 0) :
    Covered F P debt owners (counts.releaseAll paths) where
  kept := h.kept.releaseAll paths
  most p := by
    have hm := h.most p
    rw [h.kept.count_releaseAll hn]
    omega
  least p hP := by
    have hl := h.least p hP
    rw [h.kept.count_releaseAll hn]
    split
    · have hzero := hz p ‹_› hP
      omega
    · omega
  once := h.once
  firm := h.firm

/-- Forgetting every claim leaves nothing counted. -/
theorem clear (h : Covered F P debt owners counts) (hP : ∀ p, ¬P p) :
    Covered F P debt owners [] where
  kept := ⟨List.nodup_nil, by simp⟩
  most _ := Nat.zero_le _
  least p hp := absurd hp (hP p)
  once := h.once
  firm := h.firm

/-- New owners list nothing. -/
theorem append (h : Covered F P debt owners counts) {fresh : List ScopedClaims}
    (hf : ∀ o ∈ fresh, o.paths = []) :
    Covered F P debt (owners ++ fresh) counts := by
  have hsame : ∀ p, listings (owners ++ fresh) p = listings owners p := by
    intro p
    have hz : listings fresh p = 0 := by
      refine List.countP_eq_zero.mpr fun o ho => ?_
      rw [hf o ho]
      simp
    have happend : listings (owners ++ fresh) p = listings owners p + listings fresh p :=
      List.countP_append ..
    rw [happend, hz]
    rfl
  refine { kept := h.kept, most := ?_, least := ?_, once := ?_, firm := ?_ }
  · intro p
    rw [hsame]
    exact h.most p
  · intro p hP
    rw [hsame]
    exact h.least p hP
  · intro o ho
    exact (List.mem_append.mp ho).elim (h.once o) fun hm => by simp [hf o hm]
  · intro o ho
    exact (List.mem_append.mp ho).elim (h.firm o) fun hm => by simp [hf o hm]

end Covered

end HotReload
