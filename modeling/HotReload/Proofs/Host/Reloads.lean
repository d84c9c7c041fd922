import Mathlib.Order.Bounds.Basic
import HotReload.Host.World
import HotReload.Proofs.Plan.Closure

/-!
# What a change reloads

A registered script that declared a dependency on a reloaded path is reloaded as well,
unless it is excluded. Over any registry, with cycles, scripts that depend on themselves
and dependencies on what is not registered, the walk ends, finds no path twice and none
that is not called for.
-/
namespace HotReload.World

/-- Whether the script registered at `q` declared a dependency on another path `p`. -/
def Requires (w : World) (q p : Path) : Prop :=
  q ≠ p ∧ ∃ n s, (q, n) ∈ w.registry ∧ w.script? n = some s ∧ p ∈ s.dependencies

/-- The sets of paths that leave nothing to be reloaded besides them. -/
structure IsReloadClosed (w : World) (changed exclude : List Path) (S : Set Path) : Prop where
  changed : ∀ p ∈ changed, p ∉ exclude → p ∈ S
  requires : ∀ p ∈ S, ∀ q, w.Requires q p → q ∉ exclude → q ∈ S

variable {w : World} {changed exclude : List Path}

theorem mem_dependents_iff {p q : Path} : q ∈ w.dependencyTable.dependents p ↔ w.Requires q p := by
  rw [DependencyTable.mem_dependents]
  refine and_congr_right fun _ => ⟨?_, ?_⟩
  · rintro ⟨ds, hm, hd⟩
    obtain ⟨⟨q', n⟩, hn, he⟩ := List.mem_map.mp hm
    obtain ⟨rfl, rfl⟩ := Prod.mk.inj he
    cases hs : w.script? n with
    | none => simp [hs] at hd
    | some s => exact ⟨n, s, hn, hs, by simpa [hs] using hd⟩
  · rintro ⟨n, s, hn, hs, hd⟩
    exact ⟨s.dependencies, List.mem_map.mpr ⟨(q, n), hn, by simp [hs]⟩, hd⟩

/-- What the walk reaches is the least of the closed sets. -/
theorem isLeast_closure (w : World) (changed exclude : List Path) :
    IsLeast {S | w.IsReloadClosed changed exclude S}
      {p | DependencyTable.Closure w.dependencyTable (· ∈ changed) (· ∈ exclude) p} := by
  refine ⟨⟨fun p hp he => .seed hp he, fun p hp q hq he =>
    .dependent hp (mem_dependents_iff.mpr hq) he⟩, ?_⟩
  intro S hS p hp
  induction hp with
  | seed hp he => exact hS.changed _ hp he
  | dependent _ hq he ih => exact hS.requires _ ih _ (mem_dependents_iff.mp hq) he

/-- The loop ends after as many turns as it returns paths. They are without repetition the
least set that a reload of the changed paths leaves closed; the changed ones come first, as
they first occur, and each of the others comes after one that it requires. -/
theorem reloads_least (w : World) (changed exclude : List Path) :
    (∀ n, (DependencyTable.turn w.dependencyTable exclude)^[n]
      (DependencyTable.enqueue exclude changed []) =
        (w.dependencyTable.expand changed exclude, []) ↔
          (w.dependencyTable.expand changed exclude).length ≤ n) ∧
    (w.dependencyTable.expand changed exclude).Nodup ∧
    IsLeast {S | w.IsReloadClosed changed exclude S}
      {p | p ∈ w.dependencyTable.expand changed exclude} ∧
    ∃ firsts rest, firsts = (changed.filter (· ∉ exclude)).eraseDups ∧
      w.dependencyTable.expand changed exclude = firsts ++ rest ∧
      ∀ l q r, rest = l ++ q :: r → ∃ p ∈ firsts ++ l, w.Requires q p := by
  refine ⟨DependencyTable.turns_eq_expand_iff _ _ _, DependencyTable.nodup_expand _ _ _, ?_, ?_⟩
  · simp only [DependencyTable.mem_expand]
    exact w.isLeast_closure changed exclude
  · obtain ⟨rest, he, hled⟩ := DependencyTable.isLed_expand w.dependencyTable changed exclude
    refine ⟨_, rest, rfl, he, fun l q r hr => ?_⟩
    obtain ⟨p, hp, hq⟩ := hled l q r hr
    exact ⟨p, hp, mem_dependents_iff.mp hq⟩

end HotReload.World
