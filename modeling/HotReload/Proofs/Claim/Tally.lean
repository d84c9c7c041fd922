import HotReload.Proofs.Claim.Count
import Mathlib.Data.List.Perm.Subperm

/-!
# Tallies of claims

What an owner lists is counted in another form, which `c` brings it to. However that changes paths,
the count of each path is the number of places in the lists whose path is brought to it, as long as
owners release only what they list.
-/
namespace HotReload

variable {c : Path → Path} {owners : List ScopedClaims} {counts : ClaimCounts} {o : ScopedClaims}
  {i : Nat}
  {paths : List Path} {p : Path}

/-- How often a path is listed in the form that it is counted in. -/
def tally (c : Path → Path) (owners : List ScopedClaims) (p : Path) : Nat :=
  ((owners.flatMap (·.paths)).map c).count p

/-- An owner gets another list. -/
theorem tally_set (ho : owners[i]? = some o) (o' : ScopedClaims) (p : Path) :
    tally c (owners.set i o') p + (o.paths.map c).count p = tally c owners
      p + (o'.paths.map c).count p := by
  induction owners generalizing i with
  | nil => simp at ho
  | cons first rest ih =>
    cases i with
    | zero =>
      obtain rfl : first = o := by simpa using ho
      simp only [tally, List.set_cons_zero, List.flatMap_cons, List.map_append, List.count_append]
      omega
    | succ i =>
      have hrest := ih (i := i) (by simpa using ho)
      simp only [tally, List.set_cons_succ, List.flatMap_cons, List.map_append,
        List.count_append] at hrest ⊢
      omega

/-- What an owner gives up and what it keeps are what it listed. -/
theorem ScopedClaims.removed_append_perm (o : ScopedClaims) (paths : List Path) :
    ((o.unwatch paths).2 ++ (o.unwatch paths).1.paths).Perm o.paths := by
  have hsub : (o.unwatch paths).2.Subperm o.paths :=
    ScopedClaims.nodup_removed.subperm fun q hq => (ScopedClaims.mem_removed.mp hq).2
  have hdiff : (o.unwatch paths).1.paths = o.paths.diff (o.unwatch paths).2 :=
    List.diff_eq_foldl .. |>.symm
  rw [hdiff]
  exact List.subperm_append_diff_self_of_count_le fun q _ => hsub.count_le q

/-- Whether each path is counted as often as it is listed. -/
structure Tallied (c : Path → Path) (owners : List ScopedClaims) (counts : ClaimCounts) : Prop where
  kept : counts.IsKept
  counted : ∀ p, counts.count p = tally c owners p

namespace Tallied

theorem watch (h : Tallied c owners counts) (ho : owners[i]? = some o) (paths : List Path) :
    Tallied c (owners.set i (o.watch paths).1) (counts.claimAll ((o.watch paths).2.map c)) where
  kept := h.kept.claimAll _
  counted p := by
    have hset := tally_set (c := c) ho (o.watch paths).1 p
    have hlist : ((o.watch paths).1.paths.map c).count p =
        (o.paths.map c).count p + ((o.watch paths).2.map c).count p := by
      rw [ScopedClaims.watch, List.map_append, List.count_append]
    rw [ClaimCounts.count_claimAll_add, h.counted]
    omega

theorem unwatch (h : Tallied c owners counts) (ho : owners[i]? = some o) (paths : List Path) :
    Tallied c (owners.set i (o.unwatch paths).1)
      (counts.releaseAll ((o.unwatch paths).2.map c)) where
  kept := h.kept.releaseAll _
  counted p := by
    have hset := tally_set (c := c) ho (o.unwatch paths).1 p
    have hlist := ((o.removed_append_perm paths).map c).count_eq p
    rw [List.map_append, List.count_append] at hlist
    rw [h.kept.count_releaseAll_sub, h.counted]
    omega

end Tallied

end HotReload
