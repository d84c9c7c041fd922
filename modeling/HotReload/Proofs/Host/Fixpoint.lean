import HotReload.Proofs.Host.Demand
import HotReload.Proofs.Host.Preload
import Mathlib.Data.Set.Card

/-!
# Preloading comes to a fixpoint

Cycles with their commits only add to what is watched: a script that is reloaded claims again what
its old instance releases. Preloading therefore stops with the least set that has what the operator
claims and, for each of its paths with a file, what the script there claims, if these are their own
canonical forms.
-/
namespace HotReload.World

open Operation

variable {w v : World} {n : Nat} {p q : Path} {host : HostRequest → Act HostAnswer}

/-- What cycles with their commits have made of a world. -/
structure Rests (w v : World) : Prop extends IsStaged w [] v where
  held : ∀ p n, v.registry.get? p = some n → p ∈ v.watched

namespace Rests

/-- One more cycle registers the watched paths with a file, and its commit
adds to what is watched. -/
theorem round (h : Rests w v) (hw : w.IsReady) (host : HostRequest → Act HostAnswer) :
    ∃ done v₁ v', cycle v = (.ok done, v₁) ∧ World.commit host done.commit v₁ = (.ok (), v') ∧
      Rests w v' ∧
      v.watched ⊆ v'.watched ∧ ∀ p, (∃ n, v'.registry.get? p = some n) ↔ p ∈ v.watched ∧
        w.hasFile p = true := by
  obtain ⟨u, v₁, ht, hcycle, hm⟩ := cycle_eq h.registered h.sound (h.isReadable hw) h.isNullFree
  have hdone :
    (Applied.extend { plan := v.plan } (v.reloads v.plan) v.plan.toLoad (v.plan.toUnload.map (·.1))
      (v.commitOf v.plan)).commit = v.commitOf v.plan := by
    simp only [Applied.extend, List.nil_append]
  have hstaged := h.isStaged_cycle ht hm h.held
  obtain ⟨v', hcommit, hrest, hregistry⟩ := IsStaged.commit host hstaged hw
    fun n hn => h.unregistered_cycle ht hm hn
  have hkeys (p : Path) : (∃ n, v'.registry.get? p = some n) ↔ p ∈ v.watched ∧
    w.hasFile p = true := by
    rw [hregistry, h.isSettled_cycle ht hm p, IsStaged.watched_cycle ht hm, hstaged.hasFile]
  have hsub : v.watched ⊆ v'.watched := by
    intro q hq
    rcases h.mem_watched.mp hq with hq | ⟨p, n, hp, hq⟩
    · exact hrest.mem_watched.mpr (Or.inl hq)
    · obtain ⟨m, hm⟩ := (hkeys p).mpr ⟨h.held p n hp, (h.demanded p n hp).2⟩
      exact hrest.mem_watched.mpr (Or.inr ⟨p, m, hm, hq⟩)
  refine ⟨_, v₁, v', hcycle, by
    rw [hdone]; exact hcommit, { hrest with held := fun p n hp => ?_ }, hsub, hkeys⟩
  exact hsub ((hkeys p).mp ⟨n, hp⟩).1

theorem journal {j : Journal} (h : Rests w v) (hj : j.lives = v.journal.lives) :
    Rests w { v with journal := j } :=
  { h.toIsStaged.journal hj with held := h.held }

/-- Each path is watched once, and it is demanded. -/
theorem length_watched_le (h : Rests w v) : v.watched.length ≤ {p | w.Demanded p}.ncard := by
  have hnodup : v.watched.Nodup := h.even.kept.nodup
  rw [← List.toFinset_card_of_nodup hnodup, ← Set.ncard_coe_finset]
  refine Set.ncard_le_ncard (fun p hp => ?_) (finite_demanded w)
  exact h.demanded_of_watched (List.mem_toFinset.mp hp)

/-- Whether the registered paths are the watched ones with a file. -/
theorem isSettled_iff (h : Rests w v) :
    IsSettled v ↔ ∀ p, (∃ n, v.registry.get? p = some n) ↔ p ∈ v.watched ∧ w.hasFile p = true := by
  rw [IsSettled, h.hasFile]

/-- Every cycle but the last one adds a demanded path to the watched ones. -/
theorem preloadCycles (h : Rests w v) (hw : w.IsReady) (host : HostRequest → Act HostAnswer)
    {left : Nat} (cycles : Nat) (hleft : {p | w.Demanded p}.ncard + 1 ≤ v.watched.length + left) :
    ∃ n v', World.preloadCycles host left cycles v = (.ok (n, true), v') ∧
      n + v.watched.length ≤ cycles + {p | w.Demanded p}.ncard + 1 ∧ Rests w v' ∧ IsSettled v' := by
  have hle := h.length_watched_le
  induction left generalizing v cycles with
  | zero => omega
  | succ left ih =>
    obtain ⟨done, v₁, v', hcycle, hcommit, h', hsub, hkeys⟩ := h.round hw host
    have hopen : v.isClosed = false := by
      rw [h.frame]
      exact hw.opened
    rw [World.preloadCycles, get_bind, if_neg (by rw [hopen]; decide), get_bind, bind_of_ok hcycle,
      bind_of_ok hcommit, get_bind]
    have hnodup : v.watched.Nodup := h.even.kept.nodup
    have hsubperm := hnodup.subperm hsub
    by_cases hl : v'.watched.length = v.watched.length
    · rw [if_pos hl]
      refine ⟨cycles + 1, v', rfl, by omega, h', h'.isSettled_iff.mpr fun p => ?_⟩
      rw [hkeys, (hsubperm.perm_of_length_le hl.le).mem_iff]
    · rw [if_neg hl]
      have hlt : v.watched.length < v'.watched.length :=
        lt_of_le_of_ne hsubperm.length_le (Ne.symm hl)
      obtain ⟨n, v'', hcycles, hn, h'', hsettled⟩ :=
        ih h' (cycles + 1) (by omega) h'.length_watched_le
      exact ⟨n, v'', hcycles, by omega, h'', hsettled⟩

/-- Once nothing is to be loaded any more, all that is demanded is watched. -/
theorem mem_watched_iff (h : Rests w v) (hs : IsSettled v) : q ∈ v.watched ↔ w.Demanded q := by
  refine ⟨h.demanded_of_watched, fun hq => ?_⟩
  induction hq with
  | operator hq => exact h.mem_watched.mpr (Or.inl hq)
  | script hp hfile hq ih =>
    obtain ⟨n, hn⟩ := (h.isSettled_iff.mp hs _).mpr ⟨ih, hfile⟩
    exact h.mem_watched.mpr (Or.inr ⟨_, n, hn, hq⟩)

/-- Before anything is loaded, what is watched is what the operator claims. -/
theorem mem_operator (h : Rests w w) (hw : w.IsReady) : q ∈ w.watched ↔ q ∈ w.operator.paths := by
  rw [h.mem_watched, or_iff_left]
  rintro ⟨p, n, hp, -⟩
  obtain ⟨s, hs, -⟩ := h.registered.script p n hp
  rw [script?, hw.empty] at hs
  cases hs

end Rests

/-- What preloading comes to that began in `w` and answered `n`. -/
structure IsPreloaded (w : World) (n : Nat) (w' : World) : Prop where
  cycles : n ≤ ({p | w.Demanded p} \ {p | p ∈ w.operator.paths}).ncard + 1
  watched : ∀ p, p ∈ w'.watched ↔ w.Demanded p
  registered : ∀ p, (∃ k, w'.registry.get? p = some k) ↔ w.Demanded p ∧ w.hasFile p = true
  running : ∀ p k, w'.registry.get? p = some k → ∃ s, w'.script? k = some s ∧ s.path = p ∧
    s.state = .running
  /-- A script that depends on nothing else was run once. -/
  once : ∀ p, w.Demanded p → w.hasFile p = true → w.needs p = [] → w'.journal.executed.count p = 1
  idle : IsIdle w'

/-- Preloading a host that is ready. -/
theorem Rests.preload (h : Rests w w) (hw : w.IsReady)
    (hmax : (({p | w.Demanded p} \ {p | p ∈ w.operator.paths}).ncard : Int) + 1 ≤
      w.preloadMaxCycles) :
    ∃ n w', World.preload host w = (.ok n, w') ∧ IsPreloaded w n w' := by
  have hwatched : {p | p ∈ w.operator.paths}.ncard = w.watched.length := by
    have hnodup : w.watched.Nodup := h.even.kept.nodup
    rw [← List.toFinset_card_of_nodup hnodup, ← Set.ncard_coe_finset]
    exact congrArg Set.ncard
      (Set.ext fun p => ((h.mem_operator hw).symm.trans List.mem_toFinset.symm))
  have hnew : ({p | w.Demanded p} \ {p | p ∈ w.operator.paths}).ncard =
      {p | w.Demanded p}.ncard - {p | p ∈ w.operator.paths}.ncard :=
    Set.ncard_sdiff (fun p hp => Demanded.operator hp) (List.finite_toSet _)
  have hle := h.length_watched_le
  obtain ⟨n, v, hcycles, hn, hrests, hsettled⟩ := h.preloadCycles hw host 0
    (show {p | w.Demanded p}.ncard + 1 ≤ w.watched.length + w.preloadMaxCycles.toNat by omega)
  obtain ⟨j, hp, hj⟩ : ∃ j, World.preload host w = (.ok n, { v with journal := j }) ∧
    j.lives = v.journal.lives := by
    rw [World.preload, get_bind, bind_of_ok hcycles]
    exact ⟨_, rfl, rfl⟩
  have hlogged := hrests.journal hj
  have hmem (p : Path) : p ∈ v.watched ↔ w.Demanded p := hrests.mem_watched_iff hsettled
  have hopen : v.isClosed = false := by
    rw [hrests.frame]
    exact hw.opened
  refine ⟨n, _, hp, ?_, hmem, fun p => ?_, fun p k hk => ?_, fun p hd hf hneeds => ?_, ?_⟩
  · omega
  · rw [← hmem]
    exact hrests.isSettled_iff.mp hsettled p
  · obtain ⟨s, hs, hpath⟩ := hrests.registered.script p k hk
    exact ⟨s, hs, hpath, (hrests.declared p k s hk hs List.not_mem_nil).running⟩
  · obtain ⟨k, hk⟩ := (hrests.isSettled_iff.mp hsettled p).mpr ⟨(hmem p).mpr hd, hf⟩
    obtain ⟨s, hs, rfl⟩ := hrests.registered.script p k hk
    exact (hlogged.once k s hs hneeds).2
  · exact isIdle_of_isSettled hlogged.registered hopen hlogged.sound (hlogged.isReadable hw)
      hlogged.quiet hsettled

/-! A host whose operator has watched some paths. -/

/-- The host after its operator has watched paths, call by call. -/
def watchedBy (calls : List (List String)) (w : World) : World :=
  calls.foldl (fun w paths => (World.host (.watch paths) w).2) w

/-- A call of the operator either changes nothing, or claims the canonical forms. -/
theorem watch_cases (paths : List String) (w : World) : (World.host (.watch paths) w).2 = w ∨
    w.circleAmong? (paths.map Path.parse) = none ∧ (World.host (.watch paths) w).2 =
      { w with
        operator := (w.operator.watch ((paths.map Path.parse).map w.canonical)).1
        claims := w.claims.claimAll
          ((w.reachable (w.operator.watch ((paths.map Path.parse).map w.canonical)).2).map
            w.canonical) } := by
  have hcall : (World.host (.watch paths) w).2 = (watchPaths (paths.map Path.parse) w).2 :=
    snd_bind_pure (watchPaths (paths.map Path.parse)) (fun _ => HostAnswer.done) w
  rw [hcall]
  cases hc : w.circleAmong? (paths.map Path.parse) with
  | none => exact Or.inr ⟨rfl, watchPaths_state hc⟩
  | some e => exact Or.inl (by rw [watchPaths_of_some hc])

theorem watchedBy_frame (calls : List (List String)) (w : World) :
    Operated w (w.watchedBy calls) := by
  induction calls generalizing w with
  | nil => rfl
  | cons paths rest ih =>
    refine Operated.trans ?_ (ih (World.host (.watch paths) w).2)
    rcases watch_cases paths w with h | ⟨-, h⟩ <;> rw [h] <;> rfl

/-- The operator keeps what it claims. -/
theorem mem_watchedBy (calls : List (List String)) (h : p ∈ w.operator.paths) :
    p ∈ (w.watchedBy calls).operator.paths := by
  induction calls generalizing w with
  | nil => exact h
  | cons paths rest ih =>
    refine ih (w := (World.host (.watch paths) w).2) ?_
    rcases watch_cases paths w with hw | ⟨-, hw⟩ <;> rw [hw]
    · exact h
    · exact ScopedClaims.mem_watch.mpr (Or.inl h)

/-- What the operator claims is counted, if it is its own canonical form. -/
theorem isEven_watchedBy (calls : List (List String))
    (hfirm : ∀ p ∈ (w.watchedBy calls).operator.paths, w.form? p = some p)
    (h : w.IsEven w.owners w.claims) :
    w.IsEven (w.watchedBy calls).owners (w.watchedBy calls).claims := by
  induction calls generalizing w with
  | nil => exact h
  | cons paths rest ih =>
    have hnext := ih (w := (World.host (.watch paths) w).2)
    have hkept (p : Path) (hp : p ∈ (World.host (.watch paths) w).2.operator.paths) :
      w.form? p = some p :=
      hfirm p (mem_watchedBy rest hp)
    rcases watch_cases paths w with hw | ⟨-, hw⟩
    · rw [hw] at hnext
      rw [watchedBy, List.foldl_cons, hw] at hfirm ⊢
      exact hnext hfirm h
    · rw [hw] at hkept
      have howner : w.owners[0]? = some w.operator := rfl
      have hall (q : Path) (hq : q ∈ (paths.map Path.parse).map w.canonical) : w.form? q = some q :=
        hkept q (ScopedClaims.mem_watch.mpr (Or.inr hq))
      have hadded (q : Path)
        (hq : q ∈ (w.operator.watch ((paths.map Path.parse).map w.canonical)).2) :
          w.form? q = some q := hall q (ScopedClaims.mem_added.mp hq).1
      have heven := (h.covered.watch howner hall).balanced
      rw [reachable_eq (circleAmong?_of_settled hadded), map_canonical_of_settled hadded] at hw
      rw [hw] at hnext
      rw [watchedBy, List.foldl_cons, hw] at hfirm ⊢
      exact hnext hfirm heven

theorem IsReady.rests (hw : w.IsReady) (hregistry : w.registry = []) (hlives : w.journal.lives = [])
    (hsound : IsSound w) (hq : w.reported = []) : Rests w w := by
  have hunmade (n : Nat) (s : Script) (hs : w.script? n = some s) : False := by
    rw [script?, hw.empty] at hs
    cases hs
  have hvacant (p : Path) (n : Nat) (hp : w.registry.get? p = some n) : False := by
    rw [hregistry] at hp
    cases hp
  have hexecuted : w.journal.executed = [] := Journal.executed_of_lives (k := {}) hlives
  constructor
  case held => exact fun p n hp => (hvacant p n hp).elim
  constructor
  case nodup => exact List.nodup_nil
  case waiting => exact fun n hn => absurd hn List.not_mem_nil
  case declared => exact fun p n s hp => (hvacant p n hp).elim
  case once => exact fun n s hs => (hunmade n s hs).elim
  constructor
  case frame => rfl
  case sound => exact hsound
  case quiet => exact hq
  case registered => exact ⟨hregistry ▸ List.nodup_nil, fun p n hp => (hvacant p n hp).elim⟩
  case demanded => exact fun p n hp => (hvacant p n hp).elim
  case even => exact hw.even
  case tame => exact fun n s hs => (hunmade n s hs).elim
  case listed => exact fun n s hs => (hunmade n s hs).elim
  case executed =>
    rw [hexecuted]
    exact fun p hp => absurd hp List.not_mem_nil

/-- Preloading a new host whose operator has watched some paths comes to its end with the least set
that has these and what the scripts of its paths claim, if the limit is one more than the paths that
are added and each of these paths is its own canonical form. -/
theorem preload_demanded {w₀ : World} (hnew : w₀.IsNew) (htarget : w₀.claimTarget = .counted)
    (ho : w₀.isClosed = false) (hsound : IsSound w₀) (hq : w₀.reported = [])
    (calls : List (List String))
    (hsettled : ∀ p, (w₀.watchedBy calls).Demanded p → w₀.form? p = some p)
    (hreadable : ∀ p, (w₀.watchedBy calls).Demanded p → ∃ b, w₀.files.isFile (w₀.fileOf p) = .ok b)
    (hdeclares : ∀ p, (w₀.watchedBy calls).Demanded p → w₀.hasFile p = true →
      ∀ action ∈ w₀.bodyOf p, action.IsDeclaring)
    (hmax :
      (({p | (w₀.watchedBy calls).Demanded p} \
        {p | p ∈ (w₀.watchedBy calls).operator.paths}).ncard : Int) + 1 ≤ w₀.preloadMaxCycles) :
    ∃ n w', preload host (w₀.watchedBy calls) = (.ok n, w') ∧
      IsPreloaded (w₀.watchedBy calls) n w' := by
  have hframe := watchedBy_frame calls w₀
  have heven := isEven_watchedBy calls (fun p hp => hsettled p (.operator hp))
    (hnew.isBalanced (R := .all) htarget trivial).balanced
  generalize w₀.watchedBy calls = w at *
  have hready : w.IsReady := by
    refine ⟨?_, ?_, ?_, ?_, fun p hp => ?_, fun p hp => ?_, fun p hp hf => ?_⟩
    · rw [hframe]
      exact ho
    · rw [hframe]
      exact htarget
    · rw [hframe]
      exact hnew.scripts
    · rw [IsEven, show w.form? = w₀.form? by rw [hframe]; rfl]
      exact heven
    · rw [hframe]
      exact hsettled p hp
    · rw [hframe]
      exact hreadable p hp
    · rw [hframe] at hf ⊢
      exact hdeclares p hp hf
  refine (hready.rests ?_ ?_ ?_ ?_).preload hready ?_
  · rw [hframe]
    exact hnew.registry
  · rw [hframe]
    exact hnew.lives
  · rw [hframe]
    exact ⟨hsound.watch, hsound.paths⟩
  · rw [hframe]
    exact hq
  · rw [show w.preloadMaxCycles = w₀.preloadMaxCycles by rw [hframe]]
    exact hmax

/-- A host with two scripts that claim each other's paths, of which one depends on the other. -/
def entwined : World where
  root := ⟨.root, ["s"]⟩
  base := ⟨.root, ["s"]⟩
  files :=
    { here := ⟨.root, []⟩
      nodes := [(["s"], .directory), (["s", "a"], .file (.script [.watch ["b"]]) 0.0),
        (["s", "b"], .file (.script [.watch ["a"], .depend "a"]) 0.0)] }

theorem demanded_entwined (h : (entwined.watchedBy [["a"]]).Demanded p) :
    p = ⟨.relative, ["a"]⟩ ∨ p = ⟨.relative, ["b"]⟩ := by
  cases h with
  | operator h => exact Or.inl (List.mem_singleton.mp h)
  | script _ _ h =>
    obtain ⟨text, ht, rfl⟩ := mem_demands h
    have htext : text ∈ ["b", "a"] := ht
    rcases List.mem_cons.mp htext with rfl | htext
    · exact Or.inr rfl
    · obtain rfl := List.mem_singleton.mp htext
      exact Or.inl rfl

theorem isFile_entwined : entwined.files.isFile (entwined.fileOf ⟨.relative, ["a"]⟩) = .ok true ∧
    entwined.files.isFile (entwined.fileOf ⟨.relative, ["b"]⟩) = .ok true := by
  constructor <;>
  · exact FileTree.isFile_entry rfl (by decide) (by decide) rfl

/-- The limit is one more than the single path that is added. -/
theorem preload_demanded_entwined : entwined.IsNew ∧ entwined.reported = [] ∧
    ∃ n w', preload World.host (entwined.watchedBy [["a"]]) = (.ok n, w') ∧
      IsPreloaded (entwined.watchedBy [["a"]]) n w' := by
  have hnew : entwined.IsNew := ⟨rfl, rfl, rfl, rfl, rfl, rfl⟩
  refine ⟨hnew, rfl, preload_demanded hnew rfl rfl (isSound_of_none rfl) rfl [["a"]]
    (fun p hp => ?_)
    (fun p hp => ?_) (fun p _ _ action ha => ?_) ?_⟩
  · rcases demanded_entwined hp with rfl | rfl <;> rfl
  · rcases demanded_entwined hp with rfl | rfl
    · exact ⟨true, isFile_entwined.1⟩
    · exact ⟨true, isFile_entwined.2⟩
  · obtain ⟨loc, body, time, hnode, hm⟩ := mem_nodes_of_mem_bodyOf ha
    simp only [entwined, List.mem_cons, Prod.mk.injEq, reduceCtorEq, and_false, FileNode.file.injEq,
      FileContent.script.injEq, List.not_mem_nil, or_false, false_or] at hnode
    rcases hnode with ⟨-, rfl, -⟩ | ⟨-, rfl, -⟩
    · obtain rfl := List.mem_singleton.mp hm
      trivial
    · rcases List.mem_cons.mp hm with rfl | hm
      · trivial
      · obtain rfl := List.mem_singleton.mp hm
        trivial
  · have hadded : ({p | (entwined.watchedBy [["a"]]).Demanded p} \
        {p | p ∈ (entwined.watchedBy [["a"]]).operator.paths}).ncard ≤
          ({⟨.relative, ["b"]⟩} : Set Path).ncard := by
      refine Set.ncard_le_ncard (fun p hp => ?_) (Set.finite_singleton _)
      exact (demanded_entwined hp.1).resolve_left fun hw => hp.2 (hw ▸ List.mem_singleton.mpr rfl)
    rw [Set.ncard_singleton] at hadded
    have hlimit : entwined.preloadMaxCycles = 64 := rfl
    omega

end HotReload.World
