import HotReload.Path.Basic

/-!
# Claim counts

How many claims are held on each path, in the order in which the paths were first
claimed. A path is watched while at least one claim is held on it.
-/
namespace HotReload

abbrev ClaimCounts := List (Path × Nat)

namespace ClaimCounts

def count (counts : ClaimCounts) (path : Path) : Nat :=
  ((counts.find? (·.1 = path)).map (·.2)).getD 0

/-- Adds one claim. -/
def claim : Path → ClaimCounts → ClaimCounts
  | path, [] => [(path, 1)]
  | path, (p, n) :: rest => if p = path then (p, n + 1) :: rest else (p, n) :: claim path rest

/-- Releases one claim; the last one takes the path away. -/
def release : Path → ClaimCounts → ClaimCounts
  | _, [] => []
  | path, (p, n) :: rest =>
    if p = path then (if 1 < n then (p, n - 1) :: rest else rest) else (p, n) :: release path rest

def claimAll (paths : List Path) (counts : ClaimCounts) : ClaimCounts :=
  paths.foldl (fun counts path => claim path counts) counts

def releaseAll (paths : List Path) (counts : ClaimCounts) : ClaimCounts :=
  paths.foldl (fun counts path => release path counts) counts

/-- The watched paths. -/
def watched (counts : ClaimCounts) : List Path := counts.map (·.1)

theorem count_claim (path p : Path) (counts : ClaimCounts) :
    count (claim path counts) p = count counts p + if p = path then 1 else 0 := by
  induction counts with
  | nil => by_cases h : path = p <;> simp [claim, count, h, eq_comm]
  | cons entry rest ih =>
    obtain ⟨q, n⟩ := entry
    by_cases hq : q = path
    · by_cases hp : q = p <;> grind [claim, count]
    · by_cases hp : q = p <;> grind [claim, count]

theorem count_release_of_ne {path p : Path} (h : p ≠ path) (counts : ClaimCounts) :
    count (release path counts) p = count counts p := by
  induction counts with
  | nil => rfl
  | cons entry rest ih =>
    obtain ⟨q, n⟩ := entry
    by_cases hq : q = path <;> grind [release, count]

end ClaimCounts

end HotReload
