import HotReload.Proofs.Claim.Balance
import HotReload.Proofs.Host.History

/-!
# Accounting for claims

Whatever operator and scripts claim and release, the host counts for each path the owners
that list it. Owner and host each bring a path to its canonical form, so that this holds
exactly if canonical forms are stable; without links they are. Where links lead round in a circle
there is no such form, and nothing is claimed.
-/
namespace HotReload

open World Moment Operation

namespace World

/-- The owners of claims: the operator and every instance ever made. -/
def owners (w : World) : List ScopedClaims := w.operator :: w.scripts.map (·.claims)

/-- Whether the host counts what the owners list. -/
structure Accounts (w : World) : Prop where
  counted : ∀ p, w.claims.count p = listings w.owners p
  once : ∀ o ∈ w.owners, o.paths.Nodup
  watched : ∀ p, p ∈ w.watched ↔ 0 < listings w.owners p
  positive : ∀ entry ∈ w.claims, 0 < entry.2

/-- Whether each path is counted as often as it is listed, and is its own canonical form. -/
abbrev IsEven (w : World) (owners : List ScopedClaims) (counts : ClaimCounts) : Prop :=
  Balanced (fun p => w.form? p = some p) owners counts

end World

/-- Whether the canonical forms under a root stay what they are, and those of claimed paths are
stable; the operator unwatches what it claims or nobody claims. -/
structure Regime.IsSteady (R : Regime) (root : Path) (c : Path → Option Path) : Prop where
  closes : ¬R.closes
  forms : ∀ t, R.tree t → ∀ p, t.form? root p = c p
  spells : ∀ p, R.spells p → ∀ q, c p = some q → c q = some q
  unwatches : ∀ w paths, R.unwatches w paths → ∀ p ∈ paths, ∀ q, c p = some q →
    q ∈ w.operator.paths ∨ c q = some q ∧ w.claims.count q = 0

/-- Whether the canonical forms under a root stay what they are, and those of claimed paths and of
those that the operator unwatches for others are stable. -/
structure Regime.IsStable (R : Regime) (root : Path) (c : Path → Option Path) : Prop where
  closes : ¬R.closes
  forms : ∀ t, R.tree t → ∀ p, t.form? root p = c p
  spells : ∀ p, R.spells p → ∀ q, c p = some q → c q = some q
  unwatches : ∀ w paths, R.unwatches w paths → ∀ p ∈ paths, ∀ q, c p = some q →
    q ∈ w.operator.paths ∨ c q = some q

/-- Whether that is so, be the host shut down or not. -/
structure Regime.IsFirm (R : Regime) (root : Path) (c : Path → Option Path) : Prop where
  forms : ∀ t, R.tree t → ∀ p, t.form? root p = c p
  spells : ∀ p, R.spells p → ∀ q, c p = some q → c q = some q
  unwatches : ∀ w paths, R.unwatches w paths → ∀ p ∈ paths, ∀ q, c p = some q →
    q ∈ w.operator.paths ∨ c q = some q

/-- Whether the operator unwatches a path of a kind only where it claims it or nobody does. -/
def Regime.Spares (R : Regime) (c : Path → Option Path) (P : Path → Prop) : Prop :=
  ∀ w paths, R.unwatches w paths → ∀ p ∈ paths, ∀ q, c p = some q → P q →
    q ∈ w.operator.paths ∨ w.claims.count q = 0

variable {R : Regime} {root : Path} {c : Path → Option Path}

theorem Regime.IsSteady.isStable (h : R.IsSteady root c) : R.IsStable root c where
  closes := h.closes
  forms := h.forms
  spells := h.spells
  unwatches w paths hp p hm q hq := (h.unwatches w paths hp p hm q hq).imp_right And.left

theorem Regime.IsStable.isFirm (h : R.IsStable root c) : R.IsFirm root c :=
  ⟨h.forms, h.spells, h.unwatches⟩

theorem Regime.IsSteady.spares (h : R.IsSteady root c) (P : Path → Prop) : R.Spares c P :=
  fun w paths hp p hm q hq _ => (h.unwatches w paths hp p hm q hq).imp_right And.right

/-- Whether the claims of a world are balanced, and what canonical forms are there. -/
structure World.IsBalanced (R : Regime) (root : Path) (c : Path → Option Path) (w : World) :
    Prop where
  root : w.root = root
  tree : R.tree w.files
  target : w.claimTarget = .counted
  balanced : Balanced (fun p => c p = some p) w.owners w.claims

/-- Whether the claims of a world are covered by its counts but for a debt. -/
structure World.IsCovered (R : Regime) (root : Path) (c : Path → Option Path) (P : Path → Prop)
    (debt : Path → Nat) (w : World) : Prop where
  root : w.root = root
  tree : R.tree w.files
  target : w.claimTarget = .counted
  covered : Covered (fun p => c p = some p) P debt w.owners w.claims

namespace World

variable {w w' : World} {n : Nat} {paths : List Path} {P : Path → Prop} {debt : Path → Nat}

theorem IsBalanced.isCovered (h : IsBalanced R root c w) :
    IsCovered R root c (fun _ => True) (fun _ => 0) w :=
  ⟨h.root, h.tree, h.target, h.balanced.covered⟩

theorem IsCovered.isBalanced (h : IsCovered R root c (fun _ => True) (fun _ => 0) w) :
    IsBalanced R root c w :=
  ⟨h.root, h.tree, h.target, h.covered.balanced⟩

theorem IsCovered.form? (h : IsCovered R root c P debt w) (hR : R.IsFirm root c) : w.form? = c := by
  funext p
  rw [World.form?, h.root]
  exact hR.forms _ h.tree p

theorem IsBalanced.accounts (h : IsBalanced R root c w) : w.Accounts where
  counted := h.balanced.counted
  once := h.balanced.once
  watched p := by
    rw [← h.balanced.counted]
    exact h.balanced.kept.mem_watched
  positive := h.balanced.kept.positive

/-- Nothing else in a world matters to its balance. -/
theorem IsCovered.transfer (h : IsCovered R root c P debt w) (hr : w'.root = w.root)
    (hf : R.tree w'.files) (ht : w'.claimTarget = w.claimTarget) (ho : w'.owners = w.owners)
    (hc : w'.claims = w.claims) :
    IsCovered R root c P debt w' := by
  refine ⟨hr.trans h.root, hf, ht.trans h.target, ?_⟩
  rw [ho, hc]
  exact h.covered

theorem owners_modify (f : Script → Script) (hf : ∀ s, (f s).claims = s.claims) (n : Nat) :
    ({ w with scripts := w.scripts.modify n f } : World).owners = w.owners := by
  refine congrArg (w.operator :: ·) (List.ext_getElem? fun k => ?_)
  rw [List.getElem?_map, List.getElem?_map, List.getElem?_modify]
  cases w.scripts[k]? with
  | none => rfl
  | some s =>
    simp only [Option.map_eq_map, Option.map_some]
    split
    · rw [hf]
    · rfl

theorem owners_reclaimed (claims : ScopedClaims) (n : Nat) :
    ({ w with scripts := w.scripts.modify n ({ · with claims }) } : World).owners =
      w.owners.set (n + 1) claims := by
  rw [owners, owners, List.set_cons_succ]
  refine congrArg (w.operator :: ·) (List.ext_getElem? fun k => ?_)
  rw [List.getElem?_map, List.getElem?_set, List.getElem?_modify, List.length_map,
    List.getElem?_map]
  by_cases hk : n = k
  · subst hk
    by_cases hn : n < w.scripts.length
    · simp [hn]
    · simp [hn]
  · simp [hk]

theorem owner_script {s : Script} (hs : w.script? n = some s) :
    w.owners[n + 1]? = some s.claims := by
  rw [owners, List.getElem?_cons_succ, List.getElem?_map]
  exact congrArg (Option.map (·.claims)) hs

/-! What claiming does to the balance. -/

/-- What claimed paths are listed as is settled, where it can be found. -/
theorem IsCovered.settled_forms (h : IsCovered R root c P debt w) (hR : R.IsFirm root c)
    (hp : ∀ p ∈ paths, R.spells p) (hc : w.circleAmong? paths = none) :
    ∀ q ∈ paths.map w.canonical, c q = some q := by
  refine List.forall_mem_map.mpr fun p hm => hR.spells p (hp p hm) _ ?_
  rw [← h.form? hR]
  exact form?_of_none (circleAmong?_eq_none.mp hc p hm)

/-- Settled paths are counted as they are listed. -/
theorem IsCovered.counts_settled (h : IsCovered R root c P debt w) (hR : R.IsFirm root c)
    (hp : ∀ p ∈ paths, c p = some p) : (w.reachable paths).map w.canonical = paths := by
  have hsettled : ∀ p ∈ paths, w.form? p = some p := by rwa [h.form? hR]
  rw [reachable_eq (circleAmong?_of_settled hsettled), map_canonical_of_settled hsettled]

theorem IsCovered.scriptWatch (h : IsCovered R root c P debt w) (hR : R.IsFirm root c)
    (hp : ∀ p ∈ paths, R.spells p) (n : Nat) :
    IsCovered R root c P debt (scriptWatch n paths w).2 := by
  cases hs : w.script? n with
  | none =>
    rw [World.scriptWatch, bind_of_error (script_of_none hs)]
    exact h
  | some s =>
    cases hc : w.circleAmong? paths with
    | some e =>
      rw [scriptWatch_of_some hs hc]
      exact h
    | none =>
      have hfirm := h.settled_forms hR hp hc
      rw [scriptWatch_eq hs h.target hc,
        h.counts_settled hR fun q hq => hfirm q (ScopedClaims.mem_added.mp hq).1]
      refine ⟨h.root, h.tree, h.target, ?_⟩
      have hb := h.covered.watch (owner_script hs) hfirm
      rwa [← owners_reclaimed] at hb

theorem IsCovered.scriptUnwatch (h : IsCovered R root c P debt w) (hR : R.IsFirm root c) (n : Nat)
    (paths : List Path) : IsCovered R root c P debt (scriptUnwatch n paths w).2 := by
  cases hs : w.script? n with
  | none =>
    rw [World.scriptUnwatch, bind_of_error (script_of_none hs)]
    exact h
  | some s =>
    cases hc : w.circleAmong? paths with
    | some e =>
      rw [scriptUnwatch_of_some hs hc]
      exact h
    | none =>
      have howner := owner_script hs
      rw [scriptUnwatch_eq hs h.target hc, h.counts_settled hR fun q hq =>
        h.covered.firm _ (List.mem_of_getElem? howner) q (ScopedClaims.mem_removed.mp hq).2]
      refine ⟨h.root, h.tree, h.target, ?_⟩
      have hb := h.covered.unwatch howner (paths.map w.canonical)
      rwa [← owners_reclaimed] at hb

theorem IsCovered.watchPaths (h : IsCovered R root c P debt w) (hR : R.IsFirm root c)
    (hp : ∀ p ∈ paths, R.spells p) : IsCovered R root c P debt (watchPaths paths w).2 := by
  cases hc : w.circleAmong? paths with
  | some e =>
    rw [watchPaths_of_some hc]
    exact h
  | none =>
    have hfirm := h.settled_forms hR hp hc
    have howner : w.owners[0]? = some w.operator := rfl
    rw [watchPaths_state hc, h.counts_settled hR fun q hq =>
      hfirm q (ScopedClaims.mem_added.mp hq).1]
    exact ⟨h.root, h.tree, h.target, h.covered.watch howner hfirm⟩

/-- The operator releases what it lists, and one claim of whoever else claims the others. -/
theorem IsCovered.unwatchPaths (h : IsCovered R root c P debt w) (hR : R.IsFirm root c)
    (hP : R.Spares c P) (hp : R.unwatches w paths) :
    IsCovered R root c P debt (unwatchPaths paths w).2 := by
  cases hc : w.circleAmong? paths with
  | some e =>
    rw [unwatchPaths_of_some hc]
    exact h
  | none =>
    have hforeign : ∀ q ∈ w.foreign paths, c q = some q ∧ (P q → w.claims.count q = 0) := by
      intro q hq
      rw [foreign, List.mem_filter, decide_eq_true_eq, ScopedClaims.mem_distinct] at hq
      obtain ⟨hm, hnot⟩ := hq
      obtain ⟨p, hpm, rfl⟩ := List.mem_map.mp hm
      have hform : c p = some (w.canonical p) := by
        rw [← h.form? hR]
        exact form?_of_none (circleAmong?_eq_none.mp hc p hpm)
      refine ⟨(hR.unwatches w paths hp p hpm _ hform).resolve_left hnot, fun hk => ?_⟩
      exact (hP w paths hp p hpm _ hform hk).resolve_left hnot
    have howned : ∀ q ∈ w.owned paths, w.form? q = some q := by
      rw [h.form? hR]
      exact fun q hq =>
        h.covered.firm w.operator (List.mem_cons_self ..) q
          (of_decide_eq_true (List.mem_filter.mp hq).2)
    have howner : w.owners[0]? = some w.operator := rfl
    have hb := h.covered.unwatch howner (w.owned paths)
    rw [unwatchPaths_of_none hc, bind_of_ok (operatorUnwatch_of_settled howned), releaseAll_state]
    refine ⟨h.root, h.tree, h.target, ?_⟩
    show Covered _ P debt (w.owners.set 0 _)
      (ClaimCounts.releaseAll ((w.reachable (w.foreign paths)).map w.canonical) _)
    rw [h.counts_settled hR fun q hq => (hforeign q hq).1]
    refine hb.release (ScopedClaims.nodup_distinct.filter _) fun q hq hk => ?_
    rw [h.covered.kept.count_releaseAll ScopedClaims.nodup_removed, (hforeign q hq).2 hk,
      Nat.zero_sub]

/-- New instances claim nothing. -/
theorem IsCovered.remade (h : IsCovered R root c P debt w) {fresh gone : List Path}
    (hm : Remade w fresh gone w') :
    IsCovered R root c P debt w' := by
  have howners : w'.owners = w.owners ++ (fresh.map w.made).map (·.claims) := by
    rw [owners, hm.scripts, List.map_append, ← List.cons_append, hm.frame]
    rfl
  have hfresh : ∀ o ∈ (fresh.map w.made).map (·.claims), o.paths = [] := by
    intro o ho
    obtain ⟨s, hs, rfl⟩ := List.mem_map.mp ho
    obtain ⟨p, -, rfl⟩ := List.mem_map.mp hs
    rfl
  have hb := h.covered.append hfresh
  rw [← howners] at hb
  rw [hm.frame] at hb ⊢
  exact ⟨h.root, h.tree, h.target, hb⟩

theorem IsCovered.modify (h : IsCovered R root c P debt w) (f : Script → Script)
    (hf : ∀ s, (f s).claims = s.claims) (n : Nat) :
    IsCovered R root c P debt { w with scripts := w.scripts.modify n f } :=
  h.transfer rfl h.tree rfl (owners_modify f hf n) rfl

end World

/-- Every step keeps the claims covered. -/
theorem Step.isCovered {P : Path → Prop} {debt : Path → Nat} {m m' : Moment} (h : Step R m m')
    (hR : R.IsFirm root c) (hP : R.Spares c P) (hc : R.closes → ∀ p, ¬P p)
    (hb : m.world.IsCovered R root c P debt) : m'.world.IsCovered R root c P debt := by
  cases h with
  | calm h ht =>
    have hframe := h.frame
    refine hb.transfer ?_ ht ?_ ?_ ?_ <;> rw [hframe]
    rfl
  | amend f h => exact hb.modify f (fun s => by rw [h s]) _
  | allocate resources h => exact hb.modify ({ · with resources }) (fun _ => rfl) _
  | scriptWatch paths h => exact hb.scriptWatch hR h _
  | scriptUnwatch paths h => exact hb.scriptUnwatch hR _ paths
  | watchPaths paths h => exact hb.watchPaths hR h
  | unwatchPaths paths h => exact hb.unwatchPaths hR hP h
  | @plan w w₁ w' K ho ht hf hm =>
    have hframe := ht.frame
    refine IsCovered.remade (w := w₁) (hb.transfer ?_ ?_ ?_ ?_ ?_) hm <;> rw [hframe]
    · rfl
    · exact hb.tree
    · rfl
    · rfl
    · rfl
  | start hn hc =>
    have hb' := hb.modify ({ · with state := .running, hasContext := true }) (fun _ => rfl)
    exact (hb' _).transfer rfl hb.tree rfl rfl rfl
  | begin hn ho => exact hb.modify ({ · with state := .terminating }) (fun _ => rfl) _
  | finish hn hc => exact hb.modify ({ · with state := .terminated }) (fun _ => rfl) _
  | complete ns hn => exact hb.transfer rfl hb.tree rfl rfl rfl
  | release hn hc => exact hb.transfer rfl hb.tree rfl rfl rfl
  | enqueue => exact hb.transfer rfl hb.tree rfl rfl rfl
  | dequeue i h => exact hb.transfer rfl hb.tree rfl rfl rfl
  | close hcloses ho => exact hb.transfer rfl hb.tree rfl rfl rfl
  | clear hcloses ho =>
    exact ⟨hb.root, hb.tree, hb.target, hb.covered.clear fun p hp => hc hcloses p hp⟩
  | _ => exact hb

theorem Walk.isCovered {P : Path → Prop} {debt : Path → Nat} {m m' : Moment} (h : Walk R m m')
    (hR : R.IsFirm root c) (hP : R.Spares c P) (hc : R.closes → ∀ p, ¬P p)
    (hb : m.world.IsCovered R root c P debt) : m'.world.IsCovered R root c P debt := by
  induction h with
  | refl => exact hb
  | tail _ h ih => exact h.isCovered hR hP hc ih

theorem Walk.isBalanced {m m' : Moment} (h : Walk R m m')
    (hR : R.IsSteady root c) (hb : m.world.IsBalanced R root c) : m'.world.IsBalanced R root c :=
  (Walk.isCovered h hR.isStable.isFirm (hR.spares _) (fun hc => absurd hc hR.closes)
    hb.isCovered).isBalanced

theorem History.isCovered {P : Path → Prop} {debt : Path → Nat} {w₀ w : World}
    (h : History R w₀ w) (hR : R.IsStable root c) (hP : R.Spares c P) (hs : IsSane ⟨w₀, []⟩)
    (ht : IsTame R w₀) (hb : w₀.IsCovered R root c P debt) : w.IsCovered R root c P debt := by
  have hlinks := (h.linked hs ht).1
  clear h
  induction hlinks with
  | refl => exact hb
  | tail _ hlink ih =>
    obtain ⟨K, -, hwalk⟩ := hlink
    exact Walk.isCovered hwalk hR.isFirm hP (fun hc => absurd hc hR.closes) ih

/-! Without links. -/

namespace FileTree

/-- Whether a node is no link. -/
def IsNoLink : FileNode FileContent → Prop
  | .link _ => False
  | _ => True

theorem isPlain_of_holds {t : FileTree FileContent} (h : t.Holds IsNoLink) : t.IsPlain := by
  intro loc target hn
  have hl : loc ≠ [] := by
    rintro rfl
    cases hn
  exact h.node? hl hn

theorem Holds.edited {P : FileNode FileContent → Prop} {t t' : FileTree FileContent} (h : t.Holds P)
    (hd : P .directory) (hf : ∀ content time, P (.file content time)) (he : t.Edited t') :
    t'.Holds P ∧ t'.here = t.here := by
  rcases he with ⟨path, content, time, hw⟩ | ⟨path, hr⟩
  · have hedits := edits_write h hd (hf content time) path
    rwa [hw] at hedits
  · have hedits := edits_remove h path
    rwa [hr] at hedits

end FileTree

namespace Regime

/-- Runs without links and null characters, before the host is shut down. -/
def plain (root here : Path) : Regime where
  asks
    | .shutdown | .unwatch _ => False
    | .watch claimed => ∀ p ∈ claimed, (Path.parse p).hasNull = false
    | _ => True
  spells p := p.hasNull = false
  unwatches w paths := ∀ p ∈ paths, Path.canonical (Path.locate? here) root p ∈ w.operator.paths ∨
    p.hasNull = false ∧ w.claims.count (Path.canonical (Path.locate? here) root p) = 0
  closes := False
  direct := True
  edits := True
  abandons := True
  tree t := t.Holds FileTree.IsNoLink ∧ t.here = here
  spells_of_asks _ h := h
  unwatches_of_asks _ _ h := h.elim
  closes_of_asks h := h
  tree_of_edits _ _ _ h he :=
    have hedited := h.1.edited trivial (fun _ _ => trivial) he
    ⟨hedited.1, hedited.2.trans h.2⟩

theorem resolve?_of_plain {t : FileTree FileContent} (h : t.Holds FileTree.IsNoLink) :
    t.resolve? = Path.locate? t.here := by
  funext p
  exact FileTree.resolve?_eq (FileTree.isPlain_of_holds h) p

/-- Without links every path has a canonical form. -/
theorem form?_of_plain {t : FileTree FileContent} (h : t.Holds FileTree.IsNoLink) (root p : Path) :
    t.form? root p = some (Path.canonical (Path.locate? t.here) root p) := by
  have hplain := FileTree.isPlain_of_holds h
  have hnone : t.circleUnder? root p = none := by
    rw [FileTree.circleUnder?, FileTree.circle?_eq_none hplain, FileTree.circle?_eq_none hplain]
    exact ite_self _
  rw [FileTree.form?, hnone, resolve?_of_plain h]

theorem isSteady_plain (root here : Path) :
    (plain root here).IsSteady root fun p => some (Path.canonical (Path.locate? here) root p) where
  closes := id
  forms t ht p := by rw [form?_of_plain ht.1, ht.2]
  spells _ h := by
    rintro q ⟨rfl⟩
    rw [Path.canonical_canonical h]
  unwatches _ _ h p hp := by
    rintro q ⟨rfl⟩
    exact (h p hp).imp_right fun ⟨hn, hz⟩ => ⟨congrArg some (Path.canonical_canonical hn), hz⟩

end Regime

namespace World

variable {w₀ w : World}

theorem IsNew.isBalanced (h : w₀.IsNew) (ht : w₀.claimTarget = .counted) (hf : R.tree w₀.files) :
    w₀.IsBalanced R w₀.root c := by
  have howners : w₀.owners = [w₀.operator] := by rw [owners, h.scripts, List.map_nil]
  have hnone (p : Path) : p ∉ w₀.operator.paths := by simp [h.operator]
  refine ⟨rfl, hf, ht, ?_⟩
  rw [howners, h.claims]
  refine ⟨⟨List.nodup_nil, by simp⟩, fun p => ?_, ?_, ?_⟩
  · simp [ClaimCounts.count, listings, hnone]
  · simp [h.operator]
  · simp [h.operator]

theorem accounts_of_run (hnew : w₀.IsNew) (htarget : w₀.claimTarget = .counted)
    (hR : R.IsSteady w₀.root c) (htame : IsTame R w₀) (h : History R w₀ w) : w.Accounts :=
  (h.isCovered hR.isStable (hR.spares _) hnew.isSane htame
    (hnew.isBalanced htarget htame.tree).isCovered).isBalanced.accounts

/-- Without links and null characters the host accounts for every spelling. -/
theorem accounts_of_plain (hnew : w₀.IsNew) (htarget : w₀.claimTarget = .counted)
    (htame : IsTame (.plain w₀.root w₀.files.here) w₀)
    (h : History (.plain w₀.root w₀.files.here) w₀ w) :
    w.Accounts :=
  accounts_of_run hnew htarget (Regime.isSteady_plain _ _) htame h

section FirstClaim

variable (hnew : w₀.IsNew) {p q form : Path} (hp : w₀.form? p = some q)
include hnew hp

theorem watchPaths_first : (watchPaths [p] w₀).2 =
    { w₀ with operator := ⟨[q]⟩,
              claims := ClaimCounts.claimAll ((w₀.reachable [q]).map w₀.canonical) [] } := by
  obtain ⟨hcircle, hform⟩ := form?_eq_some.mp hp
  have hwatch : w₀.operator.watch [q] = (⟨[q]⟩, [q]) := by
    simp [ScopedClaims.watch, ScopedClaims.distinct, hnew.operator]
  rw [watchPaths_state (circleAmong?_eq_none.mpr (List.forall_mem_singleton.mpr hcircle)),
    List.map_singleton, hform, hwatch, hnew.claims]

theorem owners_watchPaths : (watchPaths [p] w₀).2.owners = [⟨[q]⟩] := by
  rw [watchPaths_first hnew hp, owners, hnew.scripts, List.map_nil]

theorem claims_watchPaths (hq : w₀.form? q = some form) :
    (watchPaths [p] w₀).2.claims = [(form, 1)] := by
  obtain ⟨hcircle, hform⟩ := form?_eq_some.mp hq
  rw [watchPaths_first hnew hp,
    reachable_eq (circleAmong?_eq_none.mpr (List.forall_mem_singleton.mpr hcircle)),
    List.map_singleton, hform]
  rfl

/-- A path whose canonical form leads into a circle is listed and not counted. -/
theorem claims_watchPaths_of_circle (hq : w₀.form? q = none) :
    (watchPaths [p] w₀).2.claims = [] := by
  have hcircle : (w₀.circle? q).isNone = false := by
    cases h : w₀.circle? q with
    | none => rw [form?_of_none h] at hq; cases hq
    | some e => rfl
  have hreachable : w₀.reachable [q] = [] := List.takeWhile_cons_of_neg (by simp [hcircle])
  rw [watchPaths_first hnew hp, hreachable]
  rfl

/-- A host accounts for a first claim whose canonical form is found if the form is stable. -/
theorem accounts_watchPaths : (watchPaths [p] w₀).2.Accounts ↔ w₀.form? q = some q := by
  constructor
  · intro h
    have hcounted := h.counted q
    rw [owners_watchPaths hnew hp] at hcounted
    cases hq : w₀.form? q with
    | none =>
      rw [claims_watchPaths_of_circle hnew hp hq] at hcounted
      simp [listings, ClaimCounts.count] at hcounted
    | some form =>
      rw [claims_watchPaths hnew hp hq, ClaimCounts.count_cons] at hcounted
      by_contra hne
      rw [if_neg fun he : form = q => hne (congrArg some he)] at hcounted
      simp [listings, ClaimCounts.count] at hcounted
  · intro hs
    have hclaims := claims_watchPaths hnew hp hs
    refine ⟨fun r => ?_, ?_, fun r => ?_, ?_⟩
    · rw [owners_watchPaths hnew hp, hclaims, ClaimCounts.count_cons]
      by_cases hr : q = r
      · simp [listings, hr]
      · simp [listings, ClaimCounts.count, hr, Ne.symm hr]
    · simp [owners_watchPaths hnew hp]
    · rw [watched, hclaims, owners_watchPaths hnew hp]
      by_cases hr : r = q <;> simp [listings, ClaimCounts.watched, hr]
    · simp [hclaims]

/-- A path whose canonical form is not stable is not unwatched by the spelling it was watched by. -/
theorem unwatchPaths_watchPaths (hq : w₀.form? q = some form) (hne : form ≠ q) :
    (unwatchPaths [p] (watchPaths [p] w₀).2).2.claims = [(form, 1)] := by
  obtain ⟨w₁, hw₁⟩ : ∃ w₁, w₁ = (watchPaths [p] w₀).2 := ⟨_, rfl⟩
  have hfirst := hw₁.trans (watchPaths_first hnew hp)
  have hlist : w₁.operator = ⟨[q]⟩ := by rw [hfirst]
  have hforms (r : Path) : w₁.form? r = w₀.form? r := by
    rw [hfirst]
    rfl
  have hclaims : w₁.claims = [(form, 1)] := hw₁ ▸ claims_watchPaths hnew hp hq
  obtain ⟨hpc, hpf⟩ := form?_eq_some.mp ((hforms p).trans hp)
  obtain ⟨hqc, hqf⟩ := form?_eq_some.mp ((hforms q).trans hq)
  have hdistinct : ScopedClaims.distinct [q] = [q] := rfl
  have howned : w₁.owned [p] = [q] := by simp [owned, hlist, hpf, hdistinct]
  have hforeign : w₁.foreign [p] = [] := by simp [foreign, hlist, hpf, hdistinct]
  have hremoved : (ScopedClaims.unwatch [form] ⟨[q]⟩).2 = [] := by
    simp [ScopedClaims.unwatch, ScopedClaims.distinct, hne]
  have hcircle (r : Path) (hr : w₁.circle? r = none) : w₁.circleAmong? [r] = none :=
    circleAmong?_eq_none.mpr (List.forall_mem_singleton.mpr hr)
  have hreleased : (operatorUnwatch [q] w₁).2.claims = [(form, 1)] := by
    rw [operatorUnwatch_state (hcircle q hqc), List.map_singleton, hqf, hlist, hremoved, hclaims]
    rfl
  rw [← hw₁, unwatchPaths_of_none (hcircle p hpc), howned, hforeign]
  rcases hunwatch : operatorUnwatch [q] w₁ with ⟨e | _, w₂⟩ <;> rw [hunwatch] at hreleased
  · rw [bind_of_error hunwatch]
    exact hreleased
  · rw [bind_of_ok hunwatch, releaseAll_state]
    exact hreleased

end FirstClaim

/-- A path without a canonical form is not claimed. -/
theorem watchPaths_of_circle {p : Path} (hp : w₀.form? p = none) : (watchPaths [p] w₀).2 = w₀ := by
  cases h : w₀.circle? p with
  | none => rw [form?_of_none h] at hp; cases hp
  | some e =>
    have hamong : w₀.circleAmong? [p] = some e := by simp [circleAmong?, h]
    rw [watchPaths_of_some hamong]

/-- A host accounts for claims as long as the canonical forms of claimed paths are stable, and
for no first claim otherwise, which then is not released either. -/
theorem accounts_iff_stable (hnew : w₀.IsNew) (htarget : w₀.claimTarget = .counted) :
    (∀ R, R.IsSteady w₀.root w₀.form? → IsTame R w₀ → ∀ w, History R w₀ w → w.Accounts) ∧
      (∀ p, (watchPaths [p] w₀).2.Accounts ↔ ∀ q, w₀.form? p = some q → w₀.form? q = some q) ∧
      ∀ p q form, w₀.form? p = some q → w₀.form? q = some form → form ≠ q →
        (unwatchPaths [p] (watchPaths [p] w₀).2).2.watched = [form] := by
  refine ⟨fun R hR htame w h => accounts_of_run hnew htarget hR htame h, fun p => ?_,
    fun p q form hp hq hne => ?_⟩
  · cases hp : w₀.form? p with
    | none =>
      rw [watchPaths_of_circle hp]
      exact ⟨fun _ => nofun, fun _ =>
        (hnew.isBalanced (R := .all) (c := w₀.form?) htarget trivial).accounts⟩
    | some q =>
      rw [accounts_watchPaths hnew hp]
      exact ⟨fun h r hr => Option.some.inj hr ▸ h, fun h => h q rfl⟩
  · rw [watched, unwatchPaths_watchPaths hnew hp hq hne]
    rfl

/-- A host with a link beside its root. -/
def detoured : World where
  root := ⟨.root, ["s"]⟩
  base := ⟨.root, ["s"]⟩
  files :=
    { here := ⟨.root, []⟩, nodes := [(["s"], .directory), (["l"], .link ⟨.root, ["d", "e"]⟩)] }

/-- A path that by its names leads below the root, and along the link elsewhere. -/
def detour : Path := ⟨.root, ["l", "..", "s", "x"]⟩

theorem named_detour : detour.hasNull = false := by
  rw [Path.hasNull_eq_false_iff]
  decide

theorem circle?_detour : detoured.files.circle? detour = none := by
  have hfind : detoured.files.find (detoured.files.followed detour) = .error .notFound := by
    refine (if_neg ?_).trans rfl
    rw [show (detoured.files.followed detour).hasNull = false from Path.hasNull_eq_false_iff.mpr
      (by decide)]
    decide
  exact FileTree.circle?_of_find hfind nofun

theorem circle?_root : detoured.files.circle? detoured.root = none := by
  have hfind : detoured.files.find (detoured.files.followed detoured.root) = .ok ["s"] := by
    refine (if_neg ?_).trans rfl
    rw [show (detoured.files.followed detoured.root).hasNull =
      false from Path.hasNull_eq_false_iff.mpr (by decide)]
    decide
  exact FileTree.circle?_of_found hfind

/-- Its canonical form lies below the root. -/
theorem form?_detour : detoured.form? detour = some ⟨.root, ["s", "x"]⟩ := by
  have hroot : detoured.root.hasNull = false := by
    rw [Path.hasNull_eq_false_iff]
    decide
  refine form?_eq_some.mpr ⟨?_, ?_⟩
  · rw [World.circle?, FileTree.circleUnder?, circle?_detour, circle?_root]
    exact ite_self _
  · rw [World.canonical, Path.canonical, FileTree.resolve?_of_none named_detour circle?_detour,
      FileTree.resolve?_of_none hroot circle?_root]
    rfl

/-- What lies below the root by its names has another form. -/
theorem form?_below : detoured.form? ⟨.root, ["s", "x"]⟩ = some ⟨.relative, ["x"]⟩ :=
  form?_eq_some.mpr ⟨by rfl, by rfl⟩

/-- A host with a script that claims one path twice and releases another. -/
def sharing : World where
  root := ⟨.root, ["s"]⟩
  base := ⟨.root, ["s"]⟩
  files :=
    { here := ⟨.root, []⟩
      nodes :=
        [(["s"], .directory),
          (["s", "a"], .file (.script [.watch ["b", "/s/t/../b"], .unwatch ["a"]]) 0.0)] }

theorem isTame_sharing : sharing.IsTame (.plain sharing.root sharing.files.here) where
  root := by simp [sharing, Path.hasNull]
  here := by simp [sharing, Path.hasNull]
  nodes := by
    refine List.forall_mem_cons.mpr ⟨trivial, List.forall_mem_singleton.mpr ⟨?_, trivial, trivial⟩⟩
    simp only [Action.IsTame, Regime.plain, Path.hasNull_eq_false_iff]
    decide
  tree := ⟨by simp [sharing, FileTree.Holds, FileTree.IsNoLink], rfl⟩
  raises x hx := by cases hx
  named x hx := by cases hx
  refusal e he := by cases he
  resources s hs := by cases hs

theorem accounts_iff_stable_sharing :
    (host .reconcile (host (.watch ["a", "/s/t/../b"]) sharing).2).2.Accounts ∧
      ¬(watchPaths [detour] detoured).2.Accounts ∧
      (unwatchPaths [detour] (watchPaths [detour] detoured).2).2.watched =
        [⟨.relative, ["x"]⟩] := by
  have hsharing := @accounts_iff_stable sharing ⟨rfl, rfl, rfl, rfl, rfl, rfl⟩ rfl
  have hdetoured := @accounts_iff_stable detoured ⟨rfl, rfl, rfl, rfl, rfl, rfl⟩ rfl
  refine ⟨?_, fun h => ?_, hdetoured.2.2 detour _ _ form?_detour form?_below (by decide)⟩
  · have hforms : sharing.form? = fun p =>
      some (Path.canonical (Path.locate? sharing.files.here) sharing.root p) := by
      funext p
      exact Regime.form?_of_plain isTame_sharing.tree.1 ..
    have hwatch : History (.plain sharing.root sharing.files.here) sharing
        (host (.watch ["a", "/s/t/../b"]) sharing).2 := by
      refine .request depthLimit _ .refl ?_ trivial
      simp only [Regime.plain, Path.hasNull_eq_false_iff]
      decide
    exact hsharing.1 (.plain sharing.root sharing.files.here) (hforms ▸ Regime.isSteady_plain _ _)
      isTame_sharing _ (.request depthLimit .reconcile hwatch trivial trivial)
  · have hstable := (hdetoured.2.1 detour).mp h _ form?_detour
    rw [form?_below] at hstable
    exact absurd hstable (by decide)

end World

end HotReload
