import HotReload.Proofs.Host.Listing

/-!
# Claims that were released for others

The operator may unwatch a path that only instances list. The host then counts one claim less
than there are, and whichever owner gives the path up first releases what another one still
lists. How far the counts are behind is a debt: it is made by unwatching alone, no owner makes
it larger, and a path is watched as long as more owners list it than are owed.
-/
namespace HotReload

namespace World

open Moment Operation

variable {R R' : Regime} {root : Path} {c : Path → Option Path} {P P'' : Path → Prop}
  {debt : Path → Nat}
  {w₀ w₁ w w' : World}

/-- How many claims on a path are listed and not counted. -/
def owed (w : World) (p : Path) : Nat := listings w.owners p - w.claims.count p

/-- What is owed at some time is a debt for what comes after. -/
theorem IsCovered.track (h : IsCovered R root c P debt w) (ht : R'.tree w.files) :
    IsCovered R' root c P' w.owed w := by
  refine ⟨h.root, ht, h.target,
    ⟨h.covered.kept, h.covered.most, ?_, h.covered.once, h.covered.firm⟩⟩
  intro p _
  rw [owed]
  omega

theorem IsCovered.mem_watched (h : IsCovered R root c P debt w) {p : Path} :
    p ∈ w.watched ↔ 0 < w.claims.count p :=
  h.covered.kept.mem_watched

/-- A path is watched if more owners list it than are owed. -/
theorem IsCovered.watched_of_debt (h : IsCovered R root c P debt w) {p : Path} (hp : P p)
    (hd : debt p < listings w.owners p) : p ∈ w.watched := by
  have hl := h.covered.least p hp
  rw [h.mem_watched]
  omega

/-- The counts after an instance has released what it lists. -/
theorem IsCovered.count_closings (h : IsCovered R root c P debt w) (hR : R.IsStable root c)
    {n : Nat} {s : Script} (hs : w.script? n = some s) (p : Path) :
    (closings s w).count p = w.claims.count p - if p ∈ s.claims.paths then 1 else 0 := by
  obtain ⟨hn, hfirm⟩ := h.listed hs
  have hsettled : ∀ q ∈ s.claims.paths, w.form? q = some q := by rwa [h.form? hR.isFirm]
  rw [closings, disclaimed_of_none (circleAmong?_of_settled hsettled),
    map_canonical_of_settled hsettled,
    h.counts_settled hR.isFirm fun q hq => hfirm q (ScopedClaims.mem_removed.mp hq).2,
    h.covered.kept.count_releaseAll ScopedClaims.nodup_removed]
  simp only [ScopedClaims.mem_removed, and_self]

/-- An instance that is terminated takes what it lists out of the watched paths, unless one more
claim is counted; the lists of the others stay. -/
theorem IsCovered.terminate (h : IsCovered R root c P debt w) (hR : R.IsStable root c)
    (ht : IsTame R w) {n : Nat} {s : Script} (hs : w.script? n = some s) (ho : s.isOver = false)
    {p : Path} (hp : p ∈ s.claims.paths) :
    (p ∈ (terminate n w).2.watched ↔ 1 < w.claims.count p) ∧
      ∀ k, k ≠ n → (terminate n w).2.script? k = w.script? k := by
  have hend := (h.ends_terminate hR.isFirm ht hs ho).1
  refine ⟨?_, hend.others⟩
  have hkept : (closings s w).IsKept := h.covered.kept.releaseAll _
  rw [watched, hend.counts, hkept.mem_watched, h.count_closings hR hs, if_pos hp]
  omega

/-- An unwatched path that the operator does not list is one claim shorter, and listed as before. -/
theorem IsCovered.unwatch_foreign (h : IsCovered R root c P debt w) (hR : R.IsStable root c)
    {q form : Path} (hq : R.unwatches w [q]) (hform : c q = some form)
    (hc : form ∉ w.operator.paths) :
    (World.unwatchPaths [q] w).2.owners = w.owners ∧
      (World.unwatchPaths [q] w).2.claims.count form = w.claims.count form - 1 := by
  have hfirm : c form = some form :=
    (hR.unwatches w [q] hq q (List.mem_singleton.mpr rfl) form hform).resolve_left hc
  rw [← h.form? hR.isFirm] at hform
  obtain ⟨hnone, rfl⟩ := form?_eq_some.mp hform
  have hdistinct : ScopedClaims.distinct [w.canonical q] = [w.canonical q] := rfl
  have howned : w.owned [q] = [] := by
    simp [owned, hdistinct, hc]
  have hforeign : w.foreign [q] = [w.canonical q] := by
    simp [foreign, hdistinct, hc]
  have hcounts := h.counts_settled hR.isFirm (List.forall_mem_singleton.mpr hfirm)
  have hstate : (World.unwatchPaths [q] w).2 =
    { w with claims := w.claims.releaseAll [w.canonical q] } := by
    rw [unwatchPaths_of_none (circleAmong?_eq_none.mpr (List.forall_mem_singleton.mpr hnone)),
      howned, hforeign, bind_of_ok (operatorUnwatch_of_settled (List.forall_mem_nil _)),
      releaseAll_state]
    exact congrArg (fun paths => { w with claims := w.claims.releaseAll paths }) hcounts
  rw [hstate]
  refine ⟨rfl, ?_⟩
  show (w.claims.releaseAll [w.canonical q]).count (w.canonical q) = _
  rw [h.covered.kept.count_releaseAll (List.nodup_singleton _), if_pos (List.mem_singleton.mpr rfl)]

/-- What holds of the claims of a host in which paths were unwatched for instances up to a world,
and the paths of a kind no more from then on. -/
structure Indebted (P : Path → Prop) (w₁ w : World) : Prop where
  /-- What is owed does not grow. -/
  owed : ∀ p, P p → w.owed p ≤ w₁.owed p
  watched : ∀ p, P p → w₁.owed p < listings w.owners p → p ∈ w.watched

/-- Claims that are released for others are owed, and nothing more is. Whoever lists a
path that is counted once takes it from all the others, and a debt is made by unwatching
what only others list. -/
theorem owes_released (hnew : w₀.IsNew) (htarget : w₀.claimTarget = .counted)
    (hR : R.IsStable w₀.root c) (htame : IsTame R w₀) (h : History R w₀ w₁)
    (hR' : R'.IsStable w₀.root c) (hP : R'.Spares c P) (htame' : IsTame R' w₁)
    (h' : History R' w₁ w) :
    Indebted P w₁ w ∧
      (∀ n s p, w.script? n = some s → s.isOver = false → p ∈ s.claims.paths →
        (p ∈ (terminate n w).2.watched ↔ 1 < w.claims.count p) ∧
          ∀ k, k ≠ n → (terminate n w).2.script? k = w.script? k) ∧
      ∀ q form, R'.unwatches w [q] → c q = some form → form ∉ w.operator.paths →
        (unwatchPaths [q] w).2.owners = w.owners ∧
          (unwatchPaths [q] w).2.claims.count form = w.claims.count form - 1 := by
  obtain ⟨-, hsane, -⟩ := h.linked hnew.isSane htame
  have hstart : IsCovered R w₀.root c (fun _ => False) w₀.owed w₀ :=
    (hnew.isBalanced (c := c) htarget htame.tree).isCovered.track htame.tree
  have hbetween : IsCovered R' w₀.root c P w₁.owed w₁ :=
    (h.isCovered hR (fun _ _ _ _ _ _ _ hf => hf.elim) hnew.isSane htame hstart).track htame'.tree
  have hend : IsCovered R' w₀.root c P w₁.owed w := h'.isCovered hR' hP hsane htame' hbetween
  obtain ⟨-, -, htame_end⟩ := h'.linked hsane htame'
  refine ⟨{ owed := fun p hp => ?_, watched := fun p hp hd => hend.watched_of_debt hp hd },
    fun n s p hs ho hp => hend.terminate hR' htame_end hs ho hp,
    fun q form hq hform hc => hend.unwatch_foreign hR' hq hform hc⟩
  have hl := hend.covered.least p hp
  rw [World.owed]
  omega

end World

namespace Regime

/-- Runs without links and null characters, before the host is shut down, in which the operator
unwatches whatever it likes. -/
def loose (root here : Path) : Regime where
  asks
    | .shutdown => False
    | .unwatch claimed => ∀ p ∈ claimed, (Path.parse p).hasNull = false
    | request => (plain root here).asks request
  spells := (plain root here).spells
  unwatches _ paths := ∀ p ∈ paths, p.hasNull = false
  closes := False
  direct := True
  edits := True
  abandons := True
  tree := (plain root here).tree
  spells_of_asks _ h := h
  unwatches_of_asks _ _ h := List.forall_mem_map.mpr h
  closes_of_asks h := h
  tree_of_edits := (plain root here).tree_of_edits

theorem isStable_loose (root here : Path) :
    (loose root here).IsStable root fun p => some (Path.canonical (Path.locate? here) root p) where
  closes := id
  forms := (isSteady_plain root here).forms
  spells := (isSteady_plain root here).spells
  unwatches _ _ h p hp := by
    rintro q ⟨rfl⟩
    exact Or.inr (congrArg some (Path.canonical_canonical (h p hp)))

end Regime

namespace World

/-- A host with two scripts that claim one path. -/
def competing : World where
  root := ⟨.root, ["s"]⟩
  base := ⟨.root, ["s"]⟩
  files :=
    { here := ⟨.root, []⟩
      nodes :=
        [(["s"], .directory), (["s", "a"], .file (.script [.watch ["x"]]) 0.0),
          (["s", "b"], .file (.script [.watch ["x"]]) 0.0)] }

theorem isTame_competing (R : Regime) (hs : R.spells ⟨.relative, ["x"]⟩)
    (ht : R.tree competing.files) :
    competing.IsTame R where
  root := by simp [competing, Path.hasNull]
  here := by simp [competing, Path.hasNull]
  nodes := by
    refine List.forall_mem_cons.mpr ⟨trivial, List.forall_mem_cons.mpr ⟨⟨?_, trivial⟩,
      List.forall_mem_singleton.mpr ⟨?_, trivial⟩⟩⟩
    all_goals exact List.forall_mem_singleton.mpr hs
  tree := ht
  raises x hx := by cases hx
  named x hx := by cases hx
  refusal e he := by cases he
  resources s hs := by cases hs

/-- The competing host after the operator unwatched what its first script claims. -/
def deprived : World :=
  (unwatchPaths [⟨.relative, ["x"]⟩] (host .reconcile (host (.watch ["a"]) competing).2).2).2

/-- The second script claims the path that was unwatched for the first one. -/
theorem owes_released_competing :
    competing.IsNew ∧ IsTame (.plain competing.root competing.files.here) deprived ∧
      Indebted (fun _ => True) deprived (host .reconcile (host (.watch ["b"]) deprived).2).2 := by
  have hx : Path.hasNull ⟨.relative, ["x"]⟩ = false := by
    rw [Path.hasNull_eq_false_iff]
    decide
  have hnamed : ∀ name ∈ ["a", "b"], ∀ p ∈ [name], (Path.parse p).hasNull = false := by
    simp only [Path.hasNull_eq_false_iff]
    decide
  have hlinks : competing.files.Holds FileTree.IsNoLink ∧
    competing.files.here = competing.files.here :=
    ⟨by simp [competing, FileTree.Holds, FileTree.IsNoLink], rfl⟩
  have hnew : competing.IsNew := ⟨rfl, rfl, rfl, rfl, rfl, rfl⟩
  have hloose : competing.IsTame (.loose competing.root competing.files.here) :=
    isTame_competing _ hx hlinks
  have hplain : competing.IsTame (.plain competing.root competing.files.here) :=
    isTame_competing _ hx hlinks
  have hbefore {R : Regime} (ha : R.asks (.watch ["a"])) (hr : R.asks .reconcile) :
      History R competing (host .reconcile (host (.watch ["a"]) competing).2).2 :=
    .request depthLimit .reconcile (.request depthLimit (.watch ["a"]) .refl ha trivial) hr trivial
  have htame : deprived.IsTame (.plain competing.root competing.files.here) := by
    obtain ⟨-, -, ht⟩ := (hbefore (hnamed "a" (by decide)) trivial).linked hnew.isSane hplain
    exact ht.operated (operated_unwatchPaths ..)
  have hunwatched : History (.loose competing.root competing.files.here) competing deprived :=
    .unwatch _ (hbefore (hnamed "a" (by decide)) trivial) (List.forall_mem_singleton.mpr hx)
  have hrun : History (.plain competing.root competing.files.here) deprived
      (host .reconcile (host (.watch ["b"]) deprived).2).2 :=
    .request depthLimit .reconcile
      (.request depthLimit (.watch ["b"]) .refl (hnamed "b" (by decide)) trivial)
      trivial trivial
  exact ⟨hnew, htame, (owes_released hnew rfl (Regime.isStable_loose _ _) hloose hunwatched
    (Regime.isSteady_plain _ _).isStable ((Regime.isSteady_plain _ _).spares _) htame hrun).1⟩

end World

end HotReload
