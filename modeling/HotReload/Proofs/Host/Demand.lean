import HotReload.Proofs.Host.Declaring
import HotReload.Proofs.Host.Idle
import Mathlib.Data.Set.Finite.Basic

/-!
# Cycles over scripts that only declare

What is demanded is what the operator claims and what the scripts of demanded paths claim. Through a
cycle and each instance of its commit, every instance is of a demanded path and lists only what the
script there claims; once it was run and as long as it is registered it lists all of that.
-/
namespace HotReload.World

open Operation Moment

/-- What is demanded: what the operator claims, and what the script in the file of a
demanded path claims. -/
inductive Demanded (w : World) : Path → Prop
  | operator {p : Path} : p ∈ w.operator.paths → Demanded w p
  | script {p q : Path} : Demanded w p → w.hasFile p = true → q ∈ w.demands p → Demanded w q

/-- Whether an instance has carried out what the script at its path declares. -/
structure HasDeclared (w : World) (s : Script) : Prop where
  running : s.state = .running
  lists : ∀ q ∈ w.demands s.path, q ∈ s.claims.paths
  dependencies : w.needs s.path = [] → s.dependencies = [s.path]

/-- What cycles may make of a world, whatever is still to be run. -/
structure Unfolds (w v : World) : Prop where
  frame : v = { w with
    scripts := v.scripts, registry := v.registry, claims := v.claims, engine := v.engine,
      watch := v.watch
    watchStarted := v.watchStarted, journal := v.journal }
  sound : IsSound v
  quiet : v.reported = []
  registered : IsRegistered v
  demanded : ∀ p n, v.registry.get? p = some n → w.Demanded p ∧ w.hasFile p = true
  even : w.IsEven v.owners v.claims
  tame : ∀ n s, v.script? n = some s → s.resources.IsTame .thorough
  listed : ∀ n s, v.script? n = some s → (∃ m, v.registry.get? s.path = some m) ∧
    ∀ q ∈ s.claims.paths, q ∈ w.demands s.path
  executed : ∀ p ∈ v.journal.executed, ∃ n s, v.script? n = some s ∧ s.path = p

/-- What cycles have made of a world while some instances are still to be run. -/
structure IsStaged (w : World) (todo : List Nat) (v : World) : Prop extends Unfolds w v where
  nodup : todo.Nodup
  waiting : ∀ n ∈ todo, ∃ s, v.script? n = some s ∧ s.state = .created ∧ s.dependencies = [s.path]
  declared : ∀ p n s, v.registry.get? p = some n → v.script? n = some s → n ∉ todo → w.HasDeclared s
  /-- What depends on nothing else is made once and run once. -/
  once : ∀ n s, v.script? n = some s → w.needs s.path = [] →
    (∀ k t, v.script? k = some t → t.path = s.path → k = n) ∧
      v.journal.executed.count s.path = if n ∈ todo then 0 else 1

variable {w v v' : World} {todo : List Nat} {n : Nat} {s s' : Script} {p q : Path}
  {E : Failure → Prop}
  {host : HostRequest → Act HostAnswer}

/-! What is demanded is finite. -/

/-- The texts of the paths that scripts claim. -/
def claimedTexts (w : World) : List String :=
  w.files.nodes.flatMap fun
    | (_, .file (.script body) _) => body.flatMap fun
      | .watch paths => paths
      | _ => []
    | _ => []

/-- A body that is not empty stands in a file. -/
theorem mem_nodes_of_mem_bodyOf {action : Action} (h : action ∈ w.bodyOf p) :
    ∃ loc body time, (loc, .file (.script body) time) ∈ w.files.nodes ∧ action ∈ body :=
  bodyOf_holds (P := fun found => action ∈ found →
    ∃ loc body time, (loc, .file (.script body) time) ∈ w.files.nodes ∧ action ∈ body)
    (fun hm => absurd hm List.not_mem_nil)
    (fun loc body time he hm => ⟨loc, body, time, he, hm⟩) p h

theorem mem_demands (h : q ∈ w.demands p) :
    ∃ text ∈ w.claimedTexts, w.canonical (Path.parse text) = q := by
  obtain ⟨action, ha, hlist⟩ := List.mem_flatMap.mp h
  obtain ⟨loc, body, time, hnode, hm⟩ := mem_nodes_of_mem_bodyOf ((List.takeWhile_subset _) ha)
  cases action with
  | watch paths =>
    obtain ⟨text, ht, rfl⟩ := List.mem_map.mp hlist
    exact ⟨text, List.mem_flatMap.mpr ⟨_, hnode, List.mem_flatMap.mpr ⟨_, hm, ht⟩⟩, rfl⟩
  | _ => cases hlist

theorem finite_demanded (w : World) : {p | w.Demanded p}.Finite := by
  refine (List.finite_toSet (w.operator.paths ++
    w.claimedTexts.map fun text => w.canonical (Path.parse text))).subset fun p hp => ?_
  refine List.mem_append.mpr ?_
  cases hp with
  | operator h => exact Or.inl h
  | script _ _ h => exact Or.inr (List.mem_map.mpr (mem_demands h))

/-- Where one instance changes and keeps its path, every instance has the path that it had. -/
theorem path_of_change (hs : v.script? n = some s) (hs' : v'.script? n = some s')
    (hpath : s'.path = s.path) (hothers : ∀ k, n ≠ k → v'.script? k = v.script? k) {k : Nat}
    {t' : Script} (ht' : v'.script? k = some t') :
    ∃ t, v.script? k = some t ∧ t.path = t'.path := by
  by_cases hkn : n = k
  · subst hkn
    obtain rfl : s' = t' := Option.some.inj (hs'.symm.trans ht')
    exact ⟨s, hs, hpath.symm⟩
  · exact ⟨t', (hothers k hkn).symm.trans ht', rfl⟩

namespace Unfolds

theorem form? (h : Unfolds w v) : v.form? = w.form? := by
  rw [h.frame]
  rfl

theorem hasFile (h : Unfolds w v) : v.hasFile = w.hasFile := by
  rw [h.frame]
  rfl

theorem bodyOf (h : Unfolds w v) : v.bodyOf = w.bodyOf := by
  rw [h.frame]
  rfl

theorem performed (h : Unfolds w v) : v.performed = w.performed := by
  rw [h.frame]
  rfl

theorem claimTarget (h : Unfolds w v) : v.claimTarget = w.claimTarget := by rw [h.frame]

theorem demands (h : Unfolds w v) : v.demands = w.demands := by
  rw [h.frame]
  rfl

theorem dependedBy (h : Unfolds w v) : v.dependedBy = w.dependedBy := by
  rw [h.frame]
  rfl

/-- Every instance is of a path that is demanded and has a file. -/
theorem demanded_path (h : Unfolds w v) (hs : v.script? n = some s) :
    w.Demanded s.path ∧ w.hasFile s.path = true := by
  obtain ⟨m, hm⟩ := (h.listed n s hs).1
  exact h.demanded s.path m hm

/-- One instance changes, with the counts and what was kept and recorded. -/
theorem change (h : Unfolds w v) (hs : v.script? n = some s) (hs' : v'.script? n = some s')
    (hframe : v' = { v with scripts := v'.scripts, claims := v'.claims, engine := v'.engine,
                            journal := v'.journal })
    (hothers : ∀ k, n ≠ k → v'.script? k = v.script? k) (hpath : s'.path = s.path)
    (hresources : s'.resources.IsTame .thorough)
    (hlists : ∀ q ∈ s'.claims.paths, q ∈ w.demands s.path)
    (heven : w.IsEven v'.owners v'.claims)
    (hexecuted : ∀ p ∈ v'.journal.executed, p ∈ v.journal.executed ∨ p = s.path) :
      Unfolds w v' := by
  have hregistry : v'.registry = v.registry := by rw [hframe]
  have hold (k : Nat) (t : Script) (hk : v'.script? k = some t) :
      (k = n ∧ t = s') ∨ v.script? k = some t := by
    by_cases hkn : n = k
    · subst hkn
      exact Or.inl ⟨rfl, Option.some.inj (hk.symm.trans hs')⟩
    · exact Or.inr ((hothers k hkn).symm.trans hk)
  have hnew (k : Nat) (t : Script) (hk : v.script? k = some t) : ∃ t',
    v'.script? k = some t' ∧ t'.path = t.path :=
    path_of_change hs' hs hpath.symm (fun k hk => (hothers k hk).symm) hk
  constructor
  case frame => rw [hframe, h.frame]
  case sound =>
    rw [hframe]
    exact ⟨h.sound.watch, h.sound.paths⟩
  case quiet =>
    rw [hframe]
    exact h.quiet
  case registered => exact h.registered.of_scripts hregistry hnew
  case demanded =>
    rw [hregistry]
    exact h.demanded
  case even => exact heven
  case tame =>
    intro k t hk
    rcases hold k t hk with ⟨rfl, rfl⟩ | hk
    · exact hresources
    · exact h.tame k t hk
  case listed =>
    intro k t hk
    rw [hregistry]
    rcases hold k t hk with ⟨rfl, rfl⟩ | hk
    · rw [hpath]
      exact ⟨(h.listed k s hs).1, hlists⟩
    · exact h.listed k t hk
  case executed =>
    intro p hp
    rcases hexecuted p hp with hp | rfl
    · obtain ⟨k, t, hk, rfl⟩ := h.executed p hp
      exact ⟨k, hnew k t hk⟩
    · exact ⟨n, s', hs', hpath⟩

end Unfolds

/-- Whether nothing was loaded yet, and what is demanded is its own canonical form, can be asked
for and only declares. -/
structure IsReady (w : World) : Prop where
  opened : w.isClosed = false
  target : w.claimTarget = .counted
  empty : w.scripts = []
  even : w.IsEven w.owners w.claims
  settled : ∀ p, w.Demanded p → w.form? p = some p
  readable : ∀ p, w.Demanded p → ∃ b, w.files.isFile (w.fileOf p) = .ok b
  declares : ∀ p, w.Demanded p → w.hasFile p = true → ∀ action ∈ w.bodyOf p, action.IsDeclaring

/-- What the owners list once an instance was terminated. -/
theorem Ended.owners (h : Ended n s v v') : v'.owners = v.owners.set (n + 1) (leftover s v) := by
  obtain ⟨resources, -, ha⟩ := h
  have hsplit :
    v.scripts.modify n ({ · with state := .terminated, claims := leftover s v, resources }) =
      (v.scripts.modify n ({ · with claims := leftover s v })).modify n
        ({ · with state := .terminated, resources }) := by
    rw [List.modify_modify_eq]
    rfl
  rw [← owners_reclaimed, ha.frame, hsplit]
  exact owners_modify
    (w := { v with scripts := v.scripts.modify n ({ · with claims := leftover s v }) })
    ({ · with state := .terminated, resources }) (fun _ => rfl) n

/-- What is made of a world by running an instance that only declares. -/
structure Ran (w : World) (n : Nat) (s s' : Script) (v v' : World) : Prop where
  frame : v' = { v with
    scripts := v'.scripts, claims := v'.claims, engine := v'.engine, journal := v'.journal }
  script : v'.script? n = some s'
  others : ∀ k, n ≠ k → v'.script? k = v.script? k
  length : v'.scripts.length = v.scripts.length
  path : s'.path = s.path
  running : s'.state = .running
  resources : s'.resources = s.resources
  lists : ∀ q, q ∈ s'.claims.paths ↔ q ∈ s.claims.paths ∨ q ∈ w.demands s.path
  dependencies : w.needs s.path = [] → s'.dependencies = s.dependencies
  even : w.IsEven v'.owners v'.claims
  executed : v'.journal.executed = v.journal.executed ++ [s.path]

namespace Ran

theorem unfolds (hv : Ran w n s s' v v') (h : Unfolds w v) (hs : v.script? n = some s) :
    Unfolds w v' := by
  refine h.change hs hv.script hv.frame hv.others hv.path (hv.resources ▸ h.tame n s hs)
    (fun q hq => ?_) hv.even fun p hp => ?_
  · exact ((hv.lists q).mp hq).elim ((h.listed n s hs).2 q) id
  · rw [hv.executed, List.mem_append, List.mem_singleton] at hp
    exact hp

theorem hasDeclared (hv : Ran w n s s' v v') (hd : s.dependencies = [s.path]) :
    w.HasDeclared s' where
  running := hv.running
  lists q hq := (hv.lists q).mpr (Or.inr (hv.path ▸ hq))
  dependencies hneeds := by
    rw [hv.path] at hneeds ⊢
    exact (hv.dependencies hneeds).trans hd

end Ran

namespace IsStaged

/-- Where one instance changes and keeps its path, an instance that was the only one
of its path stays so. -/
theorem only_of_change (h : IsStaged w todo v) (hs : v.script? n = some s)
    (hs' : v'.script? n = some s') (hpath : s'.path = s.path)
    (hothers : ∀ k, n ≠ k → v'.script? k = v.script? k) {k : Nat} {t : Script}
    (ht : v'.script? k = some t) (hneeds : w.needs t.path = []) :
    (∀ m u, v'.script? m = some u → u.path = t.path → m = k) ∧
      v.journal.executed.count t.path = if k ∈ todo then 0 else 1 := by
  obtain ⟨t₀, ht₀, hpath₀⟩ := path_of_change hs hs' hpath hothers ht
  rw [← hpath₀] at hneeds ⊢
  obtain ⟨honly, hcount⟩ := h.once k t₀ ht₀ hneeds
  refine ⟨fun m u hu hp => ?_, hcount⟩
  obtain ⟨u₀, hu₀, hpath₁⟩ := path_of_change hs hs' hpath hothers hu
  exact honly m u₀ hu₀ (hpath₁.trans hp)

/-- An instance that waits is run and carries out its declarations. -/
theorem ends_run (h : IsStaged w (n :: todo) v) (hw : w.IsReady) :
    ∃ s, v.script? n = some s ∧ s.dependencies = [s.path] ∧
      Ends (fun v' => ∃ s', Ran w n s s' v v') E (World.run host n v) := by
  obtain ⟨s, hs, hcreated, hdependencies⟩ := h.waiting n (List.mem_cons_self ..)
  have hpath := h.demanded_path hs
  have hbody : ∀ action ∈ v.bodyOf s.path, action.IsDeclaring := by
    rw [h.bodyOf]
    exact hw.declares s.path hpath.1 hpath.2
  have hsettled (q : Path) (hq : q ∈ w.demands s.path) : w.form? q = some q :=
    hw.settled q (.script hpath.1 hpath.2 hq)
  have hfirm : ∀ q ∈ v.demands s.path, v.form? q = some q := by
    rw [h.demands, h.form?]
    exact hsettled
  refine ⟨s, hs, hdependencies, (ends_run_declaring hbody hs hcreated
    (h.claimTarget.trans hw.target) hfirm).imp fun v' hv => ?_⟩
  have hstarted := altered_modify ({ · with state := .running, hasContext := true }) n v
  obtain ⟨s', hs', hpath', hstate', hresources', hclaims', hdependencies'⟩ :=
    hv.script _ (hstarted.script? hs)
  have hlisted : (v.started n s).listedBy (v.performed s.path) = w.demands s.path := by
    rw [← h.demands]
    rfl
  refine ⟨s', ?_⟩
  constructor
  case frame =>
    rw [hv.frame]
    rfl
  case script => exact hs'
  case others => exact fun k hk => (hv.others k hk).trans (hstarted.others hk)
  case length => exact hv.length.trans hstarted.length
  case path => exact hpath'
  case running => exact hstate'
  case resources => exact hresources'
  case lists =>
    rw [← hlisted]
    exact hclaims'
  case dependencies =>
    rw [World.needs, ← h.performed, ← h.dependedBy]
    exact hdependencies'
  case even =>
    have howners : (v.started n s).owners = v.owners :=
      owners_modify (w := v) ({ · with state := .running, hasContext := true }) (fun _ => rfl) n
    have heven := hv.even
    rw [howners, hlisted, IsEven, IsEven,
      show (v.started n s).form? = w.form? from h.form?] at heven
    exact heven hsettled h.even
  case executed =>
    exact (Journal.executed_of_lives hv.lives).trans (Journal.executed_record ..)

/-- An instance that is run carries out its declarations, and the others wait as they did. -/
theorem run (h : IsStaged w (n :: todo) v) (hw : w.IsReady) :
    Ends
      (fun v' => IsStaged w todo v' ∧ v'.registry = v.registry ∧
        v'.scripts.length = v.scripts.length) E
      (World.run host n v) := by
  obtain ⟨hn, hnodup⟩ := List.nodup_cons.mp h.nodup
  obtain ⟨s, hs, hdependencies, hrun⟩ := h.ends_run hw
  refine hrun.imp fun v' hran => ?_
  obtain ⟨s', hv⟩ := hran
  have hregistry : v'.registry = v.registry := by rw [hv.frame]
  refine ⟨{ hv.unfolds h.toUnfolds hs with
    nodup := hnodup, waiting := fun k hk => ?_, declared := ?_, once := ?_ }, hregistry, hv.length⟩
  · have hkn : n ≠ k := fun he => hn (he ▸ hk)
    rw [hv.others k hkn]
    exact h.waiting k (List.mem_cons_of_mem _ hk)
  · intro p k t hp ht hk
    rw [hregistry] at hp
    by_cases hkn : n = k
    · subst hkn
      obtain rfl : s' = t := Option.some.inj (hv.script.symm.trans ht)
      exact hv.hasDeclared hdependencies
    · exact h.declared p k t hp ((hv.others k hkn).symm.trans ht) fun hm =>
        (List.mem_cons.mp hm).elim (fun he => hkn he.symm) hk
  · intro k t ht hneeds
    obtain ⟨honly, hcount⟩ := h.only_of_change hs hv.script hv.path hv.others ht hneeds
    refine ⟨honly, ?_⟩
    rw [hv.executed, List.count_append, hcount]
    by_cases hkn : n = k
    · subst hkn
      obtain rfl : s' = t := Option.some.inj (hv.script.symm.trans ht)
      simp [hn, hv.path]
    · have hne : s.path ≠ t.path := fun hp => hkn (honly n s' hv.script (hv.path.trans hp))
      simp [List.mem_cons, Ne.symm hkn, hne]

/-- An instance that is not registered is terminated. -/
theorem terminate (h : IsStaged w [] v) (hw : w.IsReady) (hs : v.script? n = some s)
    (hn : ∀ p, v.registry.get? p ≠ some n) :
    Ends (fun v' => IsStaged w [] v' ∧ v'.registry = v.registry ∧
        v'.scripts.length = v.scripts.length) E (World.terminate n v) := by
  by_cases ho : s.isOver = true
  · rw [World.terminate, bind_of_ok (script_of_some hs), if_pos ho]
    exact ends_ok ⟨h, rfl, rfl⟩
  have hfirm : ∀ q ∈ s.claims.paths, v.form? q = some q := by
    rw [h.form?]
    exact h.even.firm s.claims (List.mem_of_getElem? (owner_script hs))
  refine (ends_thorough id (h.tame n s hs) hs (Bool.eq_false_iff.mpr ho)).imp fun v' hv => ?_
  have howners := hv.owners
  obtain ⟨resources, hsealed, ha⟩ := hv
  have hs' := ha.script? hs
  have hothers (k : Nat) (hk : n ≠ k) : v'.script? k = v.script? k := ha.others hk
  have hframe : v' = { v with
      scripts := v'.scripts, claims := v'.claims, engine := v'.engine, journal := v'.journal } := by
    rw [ha.frame]
  have hregistry : v'.registry = v.registry := by rw [ha.frame]
  have hunfolds : Unfolds w v' := by
    refine h.toUnfolds.change hs hs' hframe hothers rfl hsealed.isTame (fun q hq => ?_)
      ?_ fun p hp => ?_
    · exact (h.listed n s hs).2 q (leftover_subset s v hq)
    · rw [howners, ha.counts (h.claimTarget.trans hw.target)]
      have hremoved : ∀ q ∈ (s.claims.unwatch s.claims.paths).2, v.form? q = some q :=
        fun q hq => hfirm q (ScopedClaims.mem_removed.mp hq).2
      rw [leftover, closings, disclaimed_of_none (circleAmong?_of_settled hfirm),
        map_canonical_of_settled hfirm, reachable_eq (circleAmong?_of_settled hremoved),
        map_canonical_of_settled hremoved]
      exact (h.even.covered.unwatch (owner_script hs) s.claims.paths).balanced
    · rw [ha.executed] at hp
      exact Or.inl hp
  refine ⟨{ hunfolds with nodup := List.nodup_nil, waiting := ?_, declared := ?_, once := ?_ },
    hregistry, ha.length⟩
  · exact fun k hk => absurd hk List.not_mem_nil
  · intro p k t hp hk hm
    rw [hregistry] at hp
    have hkn : n ≠ k := fun he => hn p (he ▸ hp)
    exact h.declared p k t hp ((hothers k hkn).symm.trans hk) hm
  · intro k t hk hneeds
    rw [ha.executed]
    exact h.only_of_change hs hs' rfl hothers hk hneeds

/-- A script that depends on nothing else is not reloaded. -/
theorem not_closure (h : IsStaged w [] v) (hp : v.registry.get? p = some n)
    (hneeds : w.needs p = []) :
    ¬v.Closure p := by
  intro hc
  cases hc with
  | seed hseed _ =>
    rcases hseed with hl | hi
    · rw [hl.1] at hp
      cases hp
    · exact (not_reported h.quiet p).1 hi.1
  | @dependent q _ _ hdepends _ =>
    obtain ⟨hne, dependencies, hmem, hq⟩ := DependencyTable.mem_dependents.mp hdepends
    obtain ⟨⟨r, k⟩, he, hentry⟩ := List.mem_map.mp hmem
    obtain ⟨rfl, rfl⟩ := Prod.mk.inj hentry
    obtain ⟨s, hs, rfl⟩ := h.registered.script r k (Registry.get?_of_mem h.registered.nodup he)
    have hdeclared :=
      h.declared _ k s (Registry.get?_of_mem h.registered.nodup he) hs List.not_mem_nil
    rw [hs, Option.elim_some, hdeclared.dependencies hneeds, List.mem_singleton] at hq
    exact hne hq.symm

/-- Where everything has been run, what is watched is what the operator and the
registered scripts claim. -/
theorem mem_watched (h : IsStaged w [] v) :
    q ∈ v.watched ↔ q ∈ w.operator.paths ∨ ∃ p n, v.registry.get? p = some n ∧ q ∈ w.demands p := by
  have hoperator : v.operator = w.operator := by rw [h.frame]
  have hclaims : q ∈ v.watched ↔ ∃ o ∈ v.owners, q ∈ o.paths := by
    have hcounts : q ∈ v.watched ↔ 0 < v.claims.count q := h.even.kept.mem_watched
    rw [hcounts, h.even.counted, listings, List.countP_pos_iff]
    simp only [decide_eq_true_eq]
  rw [hclaims]
  constructor
  · rintro ⟨o, ho, hq⟩
    rcases List.mem_cons.mp ho with rfl | ho
    · exact Or.inl (hoperator ▸ hq)
    · obtain ⟨s, hs, rfl⟩ := List.mem_map.mp ho
      obtain ⟨n, hn⟩ := List.mem_iff_getElem?.mp hs
      obtain ⟨⟨m, hm⟩, hlist⟩ := h.listed n s hn
      exact Or.inr ⟨s.path, m, hm, hlist q hq⟩
  · rintro (hq | ⟨p, n, hp, hq⟩)
    · exact ⟨v.operator, List.mem_cons_self .., hoperator ▸ hq⟩
    · obtain ⟨s, hs, rfl⟩ := h.registered.script p n hp
      have hlist := (h.declared _ n s hp hs List.not_mem_nil).lists q hq
      exact ⟨s.claims, List.mem_cons_of_mem _ (List.mem_map_of_mem (List.mem_of_getElem? hs)),
        hlist⟩

/-- Then only what is demanded is watched. -/
theorem demanded_of_watched (h : IsStaged w [] v) (hq : q ∈ v.watched) : w.Demanded q := by
  rcases h.mem_watched.mp hq with hq | ⟨p, n, hp, hq⟩
  · exact .operator hq
  · obtain ⟨hdemanded, hfile⟩ := h.demanded p n hp
    exact .script hdemanded hfile hq

theorem isReadable (h : IsStaged w [] v) (hw : w.IsReady) : IsReadable v := by
  intro p hp
  obtain ⟨b, hb⟩ := hw.readable p (h.demanded_of_watched hp)
  refine ⟨b, ?_⟩
  rw [h.frame]
  exact hb

theorem isNullFree (h : IsStaged w [] v) : IsNullFree v := by
  rintro p (⟨n, hn⟩ | hu)
  · apply named_of_hasFile
    rw [h.hasFile]
    exact (h.demanded p n hn).2
  · exact absurd hu (not_reported h.quiet p).1

section Cycle

/-! A cycle that was planned in `v` and carried out from `v₁` to `v'`. -/

variable {v₁ : World} (h : IsStaged w [] v) (ht : Tended v.polled v₁)
  (hm : Remade v₁ (v.reloads v.plan ++ v.plan.toLoad) (v.plan.toUnload.map (·.1)) v')
include h ht hm

theorem isSettled_cycle : IsSettled v' := by
  refine (outcome_of_remade h.registered ht hm).isSettled_iff.mpr
    ⟨fun p _ _ hu => ?_, fun p _ _ hd => ?_⟩
  · exact absurd hu (not_reported h.quiet p).1
  · exact absurd hd (not_reported h.quiet p).2

omit h in
theorem watched_cycle : v'.watched = v.watched := by
  rw [watched, watched, hm.frame, ht.frame]
  rfl

/-- An instance was there before, or is new, and registered at a path that is remade. -/
theorem script_cycle (hs : v'.script? n = some s) : v.script? n = some s ∨
    v.scripts.length ≤ n ∧ v'.registry.get? s.path = some n ∧
      s.path ∈ v.reloads v.plan ++ v.plan.toLoad ∧
      ∃ w₁ : World, s = w₁.made s.path :=
  (hm.grown ht).script?_cases (fits_plan h.registered h.isNullFree).nodup hs

/-- What a cycle leaves to a commit: new instances are to be run, and others are
no longer registered. -/
theorem unregistered_cycle (hn : n ∈ (v.commitOf v.plan).toTerminate) :
    (∃ s, v'.script? n = some s) ∧ ∀ p, v'.registry.get? p ≠ some n := by
  have hg := hm.grown ht
  have hfits := fits_plan h.registered h.isNullFree
  rw [toTerminate_commitOf hfits] at hn
  obtain ⟨p, hmem, hp⟩ := List.mem_filterMap.mp hn
  obtain ⟨s, hs, hpath⟩ := h.registered.script p n hp
  refine ⟨⟨s, hg.script? hs⟩, fun q hq => ?_⟩
  obtain ⟨t, ht', hpath'⟩ := (hm.isRegistered (isRegistered_tended h.registered ht)).script q n hq
  obtain rfl : s = t := Option.some.inj ((hg.script? hs).symm.trans ht')
  obtain rfl : p = q := hpath.symm.trans hpath'
  have hlt := lt_of_script? hs
  rw [hg.registry] at hq
  split at hq
  · have := Option.some.inj hq
    omega
  · rename_i hfresh
    rcases List.mem_append.mp hmem with hqueued | hgone
    · exact hfresh (List.mem_append_left _ (mem_reloads.mpr ⟨hqueued, n, hp⟩))
    · rw [if_pos hgone] at hq
      cases hq

theorem unfolds_cycle (hheld : ∀ p n, v.registry.get? p = some n → p ∈ v.watched) :
    Unfolds w v' := by
  have hg := hm.grown ht
  have hout := outcome_of_remade h.registered ht hm
  have hsettled := h.isSettled_cycle ht hm
  have hfile : v'.hasFile = w.hasFile := by
    rw [hout.frame, ← h.hasFile]
    rfl
  have hclaims : v'.claims = v.claims := by rw [hout.frame]
  have howners : v'.owners = v.owners ++ ((v.reloads v.plan ++ v.plan.toLoad).map v₁.made).map
    (·.claims) := by
    rw [owners, hm.scripts, List.map_append, ← List.cons_append, hm.frame, ht.frame]
    rfl
  constructor
  case frame => rw [hout.frame, h.frame]
  case sound => exact isSound_cycle ht hm h.sound
  case quiet => exact reported_cycle ht hm
  case registered => exact hout.registered
  case demanded =>
    intro p n hp
    have hp := (hsettled p).mp ⟨n, hp⟩
    rw [watched_cycle ht hm, hfile] at hp
    exact ⟨h.demanded_of_watched hp.1, hp.2⟩
  case even =>
    rw [howners, hclaims]
    refine (h.even.covered.append fun o ho => ?_).balanced
    obtain ⟨s, hs, rfl⟩ := List.mem_map.mp ho
    obtain ⟨p, -, rfl⟩ := List.mem_map.mp hs
    rfl
  case tame =>
    intro n s hs
    rcases h.script_cycle ht hm hs with hold | ⟨-, -, -, w₁, hmade⟩
    · exact h.tame n s hold
    · rw [hmade]
      exact fun held hh => absurd hh List.not_mem_nil
  case listed =>
    intro n s hs
    rcases h.script_cycle ht hm hs with hold | ⟨-, hr, -, w₁, hmade⟩
    · obtain ⟨⟨m, hr⟩, hlist⟩ := h.listed n s hold
      have hkept : s.path ∈ v'.watched ∧ v'.hasFile s.path = true := by
        rw [watched_cycle ht hm, hfile]
        exact ⟨hheld s.path m hr, (h.demanded s.path m hr).2⟩
      exact ⟨(hsettled s.path).mpr hkept, hlist⟩
    · rw [hmade]
      exact ⟨⟨n, hr⟩, fun q hq => absurd hq List.not_mem_nil⟩
  case executed =>
    intro p hp
    rw [Journal.executed_of_lives hg.lives] at hp
    obtain ⟨n, s, hs, hpath⟩ := h.executed p hp
    exact ⟨n, s, hg.script? hs, hpath⟩

omit h in
/-- Exactly the new instances are to be run. -/
theorem mem_toRun_cycle :
    n ∈ (v.commitOf v.plan).toRun ↔ v.scripts.length ≤ n ∧ n < v'.scripts.length := by
  rw [commitOf, List.mem_range'_1, (hm.grown ht).length]

/-- A path of which there is an instance, and whose script depends on nothing
else, gets no new one. -/
theorem not_remade_cycle (hs : v.script? n = some s) (hneeds : w.needs s.path = []) :
    s.path ∉ v.reloads v.plan ++ v.plan.toLoad := by
  intro hp
  obtain ⟨⟨m, hr⟩, -⟩ := h.listed n s hs
  rw [mem_remade_cycle h.registered ht hm, isFresh_cycle_of_some h.registered ht hm hr] at hp
  exact h.not_closure hr hneeds hp

theorem waiting_cycle (hn : n ∈ (v.commitOf v.plan).toRun) :
    ∃ s, v'.script? n = some s ∧ s.state = .created ∧ s.dependencies = [s.path] := by
  obtain ⟨hle, hlt⟩ := (mem_toRun_cycle ht hm).mp hn
  have hs : v'.script? n = some v'.scripts[n] := List.getElem?_eq_getElem hlt
  rcases h.script_cycle ht hm hs with hold | ⟨-, -, -, w₁, hmade⟩
  · exact absurd (lt_of_script? hold) (Nat.not_lt.mpr hle)
  · refine ⟨v'.scripts[n], hs, ?_⟩
    rw [hmade]
    exact ⟨rfl, rfl⟩

/-- What stays registered has declared all that it declares. -/
theorem declared_cycle (hp : v'.registry.get? p = some n) (hs : v'.script? n = some s)
    (hn : n ∉ (v.commitOf v.plan).toRun) : w.HasDeclared s := by
  rcases h.script_cycle ht hm hs with hold | ⟨hle, -⟩
  · refine h.declared p n s ?_ hold List.not_mem_nil
    have hlt := lt_of_script? hold
    rw [(hm.grown ht).registry] at hp
    split at hp
    · have := Option.some.inj hp
      omega
    · split at hp
      · cases hp
      · exact hp
  · exact absurd ((mem_toRun_cycle ht hm).mpr ⟨hle, lt_of_script? hs⟩) hn

/-- A path whose script depends on nothing else gets a new instance only if it had none. -/
theorem once_cycle (hs : v'.script? n = some s) (hneeds : w.needs s.path = []) :
    (∀ k t, v'.script? k = some t → t.path = s.path → k = n) ∧
      v'.journal.executed.count s.path = if n ∈ (v.commitOf v.plan).toRun then 0 else 1 := by
  have hexecuted : v'.journal.executed = v.journal.executed :=
    Journal.executed_of_lives (hm.grown ht).lives
  rcases h.script_cycle ht hm hs with hold | ⟨hle, hr, hmem, -⟩
  · obtain ⟨honly, hcount⟩ := h.once n s hold hneeds
    refine ⟨fun k t hk hpath => ?_, ?_⟩
    · rcases h.script_cycle ht hm hk with hk | ⟨-, -, hmem, -⟩
      · exact honly k t hk hpath
      · rw [hpath] at hmem
        exact absurd hmem (h.not_remade_cycle ht hm hold hneeds)
    · have hn : n ∉ (v.commitOf v.plan).toRun := fun hn =>
        absurd (lt_of_script? hold) (Nat.not_lt.mpr ((mem_toRun_cycle ht hm).mp hn).1)
      rw [hexecuted, hcount, if_neg hn, if_neg List.not_mem_nil]
  · have hnone {k : Nat} {t : Script} (hk : v.script? k = some t) (hpath : t.path = s.path) :
      False :=
      h.not_remade_cycle ht hm hk (hpath ▸ hneeds) (hpath ▸ hmem)
    refine ⟨fun k t hk hpath => ?_, ?_⟩
    · rcases h.script_cycle ht hm hk with hk | ⟨-, hr', -⟩
      · exact (hnone hk hpath).elim
      · rw [hpath, hr] at hr'
        exact (Option.some.inj hr').symm
    · rw [hexecuted, if_pos ((mem_toRun_cycle ht hm).mpr ⟨hle, lt_of_script? hs⟩),
        List.count_eq_zero]
      intro hp
      obtain ⟨k, t, hk, hpath⟩ := h.executed s.path hp
      exact hnone hk hpath

theorem isStaged_cycle (hheld : ∀ p n, v.registry.get? p = some n → p ∈ v.watched) :
    IsStaged w (v.commitOf v.plan).toRun v' :=
  { h.unfolds_cycle ht hm hheld with
    nodup := List.nodup_range'
    waiting := fun _ => h.waiting_cycle ht hm
    declared := fun _ _ _ => h.declared_cycle ht hm
    once := fun _ _ => h.once_cycle ht hm }

end Cycle

theorem journal {j : Journal} (h : IsStaged w todo v) (hj : j.lives = v.journal.lives) :
    IsStaged w todo { v with journal := j } := by
  have hexecuted : j.executed = v.journal.executed := Journal.executed_of_lives hj
  refine { h with frame := ?_, sound := ?_, registered := ?_, executed := ?_, once := ?_ }
  · rw [h.frame]
  · exact ⟨h.sound.watch, h.sound.paths⟩
  · exact ⟨h.registered.nodup, h.registered.script⟩
  · exact hexecuted ▸ h.executed
  · exact hexecuted ▸ h.once

/-- A commit runs what is still to be run, and terminates what is no longer registered. -/
theorem commit {c : Commit} (host : HostRequest → Act HostAnswer) (h : IsStaged w c.toRun v)
    (hw : w.IsReady)
    (hgone : ∀ n ∈ c.toTerminate, (∃ s, v.script? n = some s) ∧ ∀ p, v.registry.get? p ≠ some n) :
    ∃ v', World.commit host c v = (.ok (), v') ∧ IsStaged w [] v' ∧ v'.registry = v.registry := by
  let J (left : Commit) (u : World) : Prop := IsStaged w left.toRun u ∧
    left.toTerminate ⊆ c.toTerminate ∧
    u.registry = v.registry ∧ u.scripts.length = v.scripts.length
  have hknown {left : Commit} {u : World} {n : Nat} (h : J left u) (hn : n ∈ left.toTerminate) :
      ∃ s, u.script? n = some s := by
    obtain ⟨-, hsub, -, hlength⟩ := h
    obtain ⟨⟨s, hs⟩, -⟩ := hgone n (hsub hn)
    have hlt : n < u.scripts.length := hlength ▸ lt_of_script? hs
    exact ⟨_, List.getElem?_eq_getElem hlt⟩
  have hstages : Ends (J ⟨[], []⟩) (fun _ => False) (World.commit host c v) := by
    refine ends_commit_stages (J := J) (fun left u j h hj => ⟨h.1.journal hj, h.2⟩)
      (fun left u n h hn => ?_)
      (fun n toRun toTerminate u ⟨h, hsub, hregistry, hlength⟩ => ?_) (fun n toTerminate u h => ?_)
      ⟨h, List.Subset.refl _, rfl, rfl⟩
    · rcases hn with hn | hn
      · obtain ⟨s, hs, -⟩ := h.1.waiting n hn
        exact ⟨s, hs⟩
      · exact hknown h hn
    · exact (h.run hw).imp fun u' ⟨h', hr, hl⟩ => ⟨h', hsub, hr.trans hregistry, hl.trans hlength⟩
    · obtain ⟨s, hs⟩ := hknown h (List.mem_cons_self ..)
      obtain ⟨h, hsub, hregistry, hlength⟩ := h
      obtain ⟨hn, hsub⟩ := List.cons_subset.mp hsub
      have hunregistered : ∀ p, u.registry.get? p ≠ some n := hregistry ▸ (hgone n hn).2
      exact (h.terminate hw hs hunregistered).imp fun u' ⟨h', hr, hl⟩ =>
        ⟨h', hsub, hr.trans hregistry, hl.trans hlength⟩
  obtain ⟨_, v', hc, h', -, hregistry, -⟩ := hstages.succeeds
  exact ⟨v', hc, h', hregistry⟩

end IsStaged

end HotReload.World
