import HotReload.Proofs.Host.History

/-!
# Replacing instances

A new instance and the one that it replaces come into one commit. Of a commit whatever is left
to be run is run before anything is terminated, and nothing else terminates what is left to be
terminated: so the new instance starts before the old one is torn down, or never.
-/
namespace HotReload

open World Moment Operation

variable {R : Regime} {m m' : Moment} {n old new : Nat}

namespace Moment

variable {w : World} {K : List Duty}

theorem mem_pending {c : Commit} : .commit c ∈ pending ⟨w, K⟩ ↔ .commit c ∈ K ∨ c ∈ w.tasks := by
  simp [pending]

/-- Whether whatever runs one instance is to terminate the other one afterwards. -/
def Follows (new old : Nat) (m : Moment) : Prop :=
  ∀ c, .commit c ∈ m.pending → new ∈ c.toRun → old ∈ c.toTerminate

/-- Whether nothing of an instance was torn down. -/
structure Intact (m : Moment) (n : Nat) : Prop where
  notOver : ∃ s, m.world.script? n = some s ∧ s.isOver = false
  ending : ∀ released, .ending n released ∉ m.duties
  released : .released ∉ m.world.journal.life n

/-- What a commit is still to terminate was not torn down. -/
theorem IsOrderly.intact {c : Commit} (ho : m.IsOrderly R) (hs : m.IsSane)
    (hc : .commit c ∈ m.pending) (hn : n ∈ c.toTerminate) : m.Intact n := by
  have hl : n < m.world.scripts.length :=
    hs.known n (List.mem_flatMap.mpr ⟨_, hc, List.mem_append_right _ hn⟩)
  have hn' : m.world.script? n = some m.world.scripts[n] := List.getElem?_eq_getElem hl
  have ha := ho.accounted n _ hn'
  have hover := ho.not_over_of_commit hc hn hn'
  have hending : ∀ released, .ending n released ∉ m.duties := fun released hr =>
    (not_over hover).1 (ha.ending released hr)
  refine ⟨⟨_, hn', hover⟩, hending, fun hr => ?_⟩
  have hnot : ¬(m.world.scripts[n].state = .terminated ∨ .ending n true ∈ m.duties) := by
    rintro (ht | ht)
    · exact (not_over hover).2 ht
    · exact hending true ht
  rw [ha.life, Script.milestones] at hr
  split at hr
  · rw [if_neg (by simpa using hnot), List.mem_singleton] at hr
    cases hr
  · cases hr

/-- An instance that has left its first state and is not over was started. -/
theorem IsOrderly.started_of_past {s : Script} (ho : m.IsOrderly R)
    (hs : m.world.script? n = some s) (hp : s.state ≠ .created) (hover : s.isOver = false) :
    .started ∈ m.world.journal.life n := by
  have ha := ho.accounted n s hs
  obtain ⟨hnot, hnot'⟩ := not_over hover
  have hc : s.hasContext = true := by
    rcases hstate : s.state with _ | _ | _ | _
    · exact absurd hstate hp
    · exact ha.running hstate
    · exact absurd hstate hnot
    · exact absurd hstate hnot'
  rw [ha.life, Script.milestones, if_pos hc]
  split <;> simp

end Moment

/-- Whether a commit is what is left of another one: until everything is run,
nothing of it is terminated. -/
structure Commit.Remains (c c₀ : Commit) : Prop where
  toRun : c.toRun <:+ c₀.toRun
  toTerminate : c.toRun ≠ [] → c.toTerminate = c₀.toTerminate

theorem Commit.remains_refl (c : Commit) : c.Remains c := ⟨List.suffix_rfl, fun _ => rfl⟩

theorem Commit.remains_of_ran (c : Commit) {toTerminate : List Nat} :
    Commit.Remains ⟨[], toTerminate⟩ c :=
  ⟨List.nil_suffix, fun hne => absurd rfl hne⟩

theorem Commit.remains_cons (n : Nat) (toRun toTerminate : List Nat) :
    Commit.Remains ⟨toRun, toTerminate⟩ ⟨n :: toRun, toTerminate⟩ :=
  ⟨List.suffix_cons .., fun _ => rfl⟩

/-- Whether a commit runs new instances, each once, and terminates registered ones. -/
structure Commit.IsMadeIn (w : World) (c : Commit) : Prop where
  nodup : c.toRun.Nodup
  fresh : ∀ n ∈ c.toRun, w.scripts.length ≤ n
  registered : ∀ n ∈ c.toTerminate, n ∈ w.registry.map (·.2)

theorem World.isMadeIn_commitOf {w : World} (hf : Fits w w.plan) :
    (w.commitOf w.plan).IsMadeIn w where
  nodup := List.nodup_range'
  fresh n hn := (List.mem_range'_1.mp hn).1
  registered n hn := by
    rw [toTerminate_commitOf hf] at hn
    obtain ⟨p, -, hp⟩ := List.mem_filterMap.mp hn
    exact List.mem_map_of_mem (Registry.mem_of_get? hp)

/-- A commit that is to be done after a step is what is left of one that was to be done before it,
or the step has made it. -/
theorem Step.commits (h : Step R m m') {c : Commit} (hc : .commit c ∈ m'.pending) :
    (∃ c₀, .commit c₀ ∈ m.pending ∧ c.Remains c₀) ∨ c.IsMadeIn m.world := by
  have hkept (hc : .commit c ∈ m.pending) : ∃ c₀, .commit c₀ ∈ m.pending ∧ c.Remains c₀ :=
    ⟨c, hc, c.remains_refl⟩
  cases h with
  | calm h ht =>
    rw [mem_pending, h.still.tasks] at hc
    exact Or.inl (hkept (mem_pending.mpr hc))
  | scriptWatch paths h =>
    rw [mem_pending, (ends_scriptWatch ..).1.still.tasks] at hc
    exact Or.inl (hkept (mem_pending.mpr hc))
  | scriptUnwatch paths h =>
    rw [mem_pending, (ends_scriptUnwatch ..).1.still.tasks] at hc
    exact Or.inl (hkept (mem_pending.mpr hc))
  | watchPaths paths h =>
    rw [mem_pending, (still_watchPaths paths).tasks] at hc
    exact Or.inl (hkept (mem_pending.mpr hc))
  | unwatchPaths paths h =>
    rw [mem_pending, (still_unwatchPaths paths).tasks] at hc
    exact Or.inl (hkept (mem_pending.mpr hc))
  | plan ho ht hf hm =>
    rw [mem_pending, (hm.grown ht).tasks, List.mem_cons] at hc
    rcases hc with (hc | hc) | hc
    · cases hc
      exact Or.inr (isMadeIn_commitOf hf)
    · exact Or.inl (hkept (mem_pending.mpr (Or.inl hc)))
    · exact Or.inl (hkept (mem_pending.mpr (Or.inr hc)))
  | enqueue =>
    rw [mem_pending, List.mem_append, List.mem_singleton] at hc
    rcases hc with hc | hc | rfl
    · exact Or.inl (hkept (mem_pending.mpr (Or.inl (List.mem_cons_of_mem _ hc))))
    · exact Or.inl (hkept (mem_pending.mpr (Or.inr hc)))
    · exact Or.inl (hkept (mem_pending.mpr (Or.inl (List.mem_cons_self ..))))
  | dequeue i h =>
    rw [mem_pending, List.mem_cons] at hc
    rcases hc with (hc | hc) | hc
    · cases hc
      exact Or.inl (hkept (mem_pending.mpr (Or.inr (List.mem_of_getElem? h))))
    · exact Or.inl (hkept (mem_pending.mpr (Or.inl hc)))
    · exact Or.inl (hkept (mem_pending.mpr (Or.inr (List.eraseIdx_subset hc))))
  | refuse =>
    rcases List.mem_cons.mp hc with hc | hc
    · cases hc
      exact Or.inl ⟨_, List.mem_cons_self .., Commit.remains_of_ran _⟩
    · exact Or.inl (hkept (List.mem_cons_of_mem _ hc))
  | start hs hf =>
    rcases List.mem_cons.mp ((List.mem_cons.mp hc).resolve_left Duty.noConfusion) with hc | hc
    · cases hc
      exact Or.inl ⟨_, List.mem_cons_self .., Commit.remains_cons ..⟩
    · exact Or.inl (hkept (List.mem_cons_of_mem _ hc))
  | skip hs hf =>
    rcases List.mem_cons.mp hc with hc | hc
    · cases hc
      exact Or.inl ⟨_, List.mem_cons_self .., Commit.remains_cons ..⟩
    · exact Or.inl (hkept (List.mem_cons_of_mem _ hc))
  | begin hs ho =>
    rcases List.mem_cons.mp ((List.mem_cons.mp hc).resolve_left Duty.noConfusion) with hc | hc
    · cases hc
      exact Or.inl ⟨_, List.mem_cons_self .., Commit.remains_of_ran _⟩
    · exact Or.inl (hkept (List.mem_cons_of_mem _ hc))
  | pass hs ho =>
    rcases List.mem_cons.mp hc with hc | hc
    · cases hc
      exact Or.inl ⟨_, List.mem_cons_self .., Commit.remains_of_ran _⟩
    · exact Or.inl (hkept (List.mem_cons_of_mem _ hc))
  | complete ns hs => exact Or.inl (hkept (List.mem_cons_of_mem _ hc))
  | fail => exact Or.inl (hkept (List.mem_cons_of_mem _ hc))
  | release hs hf =>
    exact Or.inl
      (hkept (List.mem_cons_of_mem _ ((List.mem_cons.mp hc).resolve_left Duty.noConfusion)))
  | finish hs hf => exact Or.inl (hkept (List.mem_cons_of_mem _ hc))
  | abandon => exact Or.inl (hkept (List.mem_cons_of_mem _ hc))
  | done => exact Or.inl (hkept (List.mem_cons_of_mem _ hc))
  | close hr ho =>
    rcases List.mem_cons.mp hc with hc | hc
    · cases hc
      exact Or.inr ⟨List.nodup_nil, fun n hn => absurd hn List.not_mem_nil, fun n hn => hn⟩
    · exact Or.inl (hkept hc)
  | _ => exact Or.inl (hkept hc)

/-- Whether a commit runs each instance once, and terminates none of those. -/
structure Commit.IsParted (c : Commit) : Prop where
  nodup : c.toRun.Nodup
  disjoint : ∀ n ∈ c.toRun, n ∉ c.toTerminate

theorem Step.isParted (h : Step R m m') (hs : m.IsSane)
    (hp : ∀ c, .commit c ∈ m.pending → c.IsParted) (c : Commit) (hc : .commit c ∈ m'.pending) :
    c.IsParted := by
  rcases h.commits hc with ⟨c₀, hc₀, hremains⟩ | hmade
  · have hparted := hp c₀ hc₀
    refine ⟨hremains.toRun.sublist.nodup hparted.nodup, fun n hr => ?_⟩
    rw [hremains.toTerminate (List.ne_nil_of_mem hr)]
    exact hparted.disjoint n (hremains.toRun.subset hr)
  · refine ⟨hmade.nodup, fun n hr ht => ?_⟩
    obtain ⟨e, he, rfl⟩ := List.mem_map.mp (hmade.registered n ht)
    have hl := hs.registered.lt_length he
    have hge := hmade.fresh e.2 hr
    omega

theorem Walk.isParted (h : Walk R m m') (hs : m.IsSane)
    (hp : ∀ c, .commit c ∈ m.pending → c.IsParted) (c : Commit) (hc : .commit c ∈ m'.pending) :
    c.IsParted := by
  induction h generalizing c with
  | refl => exact hp c hc
  | tail hw h ih => exact h.isParted (Walk.isSane hw hs) ih c hc

theorem Step.follows (h : Step R m m') (hn : new < m.world.scripts.length)
    (hf : m.Follows new old) :
    m'.Follows new old := by
  intro c hc hr
  rcases h.commits hc with ⟨c₀, hc₀, hremains⟩ | hfresh
  · rw [hremains.toTerminate (List.ne_nil_of_mem hr)]
    exact hf c₀ hc₀ (hremains.toRun.subset hr)
  · have hl := hfresh.fresh new hr
    omega

theorem Walk.length_le (h : Walk R m m') : m.world.scripts.length ≤ m'.world.scripts.length := by
  by_contra hl
  have hs : m.world.script? m'.world.scripts.length =
    some m.world.scripts[m'.world.scripts.length] :=
    List.getElem?_eq_getElem (by omega)
  obtain ⟨s', hs', -⟩ := Walk.script? h hs
  have hlt := lt_of_script? hs'
  omega

/-- A replaced instance is terminated by nothing before the new one was run or is over. -/
theorem Walk.follows (h : Walk R m m') (hn : new < m.world.scripts.length)
    (hf : m.Follows new old) :
    m'.Follows new old := by
  induction h with
  | refl => exact hf
  | tail hw h ih =>
    have hl := Walk.length_le hw
    exact h.follows (by omega) ih

/-- Where one instance replaces another one, both come into one commit. -/
theorem Step.replaces (h : Step R m m') (hs : m.IsSane) {p : Path}
    (ho : m.world.registry.get? p = some old) (hn : m'.world.registry.get? p = some new)
    (hne : new ≠ old) : new < m'.world.scripts.length ∧ m'.Follows new old ∧
      ∃ c, m'.duties = .commit c :: m.duties ∧ new ∈ c.toRun ∧ old ∈ c.toTerminate := by
  rcases h.registry with hsame | ⟨-, hnone⟩ | ⟨w₁, ht, hf, hm, hd⟩
  · rw [hsame, ho] at hn
    exact absurd (Option.some.inj hn).symm hne
  · rw [hnone] at hn
    cases hn
  · have hg := hm.grown ht
    have hfresh : p ∈ m.world.reloads m.world.plan ++ m.world.plan.toLoad := by
      by_contra hnot
      rw [hg.registry, if_neg hnot] at hn
      split at hn
      · cases hn
      · rw [ho] at hn
        exact hne (Option.some.inj hn).symm
    have hqueue : p ∈ m.world.plan.reloadQueue := by
      rcases List.mem_append.mp hfresh with hp | hp
      · exact (mem_reloads.mp hp).1
      · rw [hf.load p hp] at ho
        cases ho
    rw [hg.registry, if_pos hfresh] at hn
    have hindex := List.idxOf_lt_length_of_mem hfresh
    have hlength := hg.length
    have hnew := Option.some.inj hn
    have hold : old ∈ (m.world.commitOf m.world.plan).toTerminate :=
      List.mem_append_left _ (List.mem_filterMap.mpr ⟨p, hqueue, ho⟩)
    refine ⟨by omega, fun c hc hr => ?_, _, hd, List.mem_range'_1.mpr ⟨by omega, by omega⟩, hold⟩
    have hpending : .commit c ∈ Duty.commit (m.world.commitOf m.world.plan) :: m.pending := by
      rw [pending, hd, hg.tasks] at hc
      exact hc
    rcases List.mem_cons.mp hpending with hc | hc
    · cases hc
      exact hold
    · have hk := hs.known new (List.mem_flatMap.mpr ⟨_, hc, List.mem_append_left _ hr⟩)
      omega

/-- A body is started by the commit that is to run it. -/
theorem Step.started (h : Step R m m') (hb : .started ∉ m.world.journal.life n)
    (ha : .started ∈ m'.world.journal.life n) : ∃ toRun toTerminate K,
      m.duties = .commit ⟨n :: toRun, toTerminate⟩ :: K ∧
        m'.duties = .body n :: .commit ⟨toRun, toTerminate⟩ :: K := by
  cases h with
  | calm h ht =>
    rw [Journal.life_of_lives n h.lives] at ha
    exact absurd ha hb
  | scriptWatch paths h =>
    rw [Journal.life_of_lives n (ends_scriptWatch ..).1.lives] at ha
    exact absurd ha hb
  | scriptUnwatch paths h =>
    rw [Journal.life_of_lives n (ends_scriptUnwatch ..).1.lives] at ha
    exact absurd ha hb
  | watchPaths paths h =>
    rw [Journal.life_of_lives n (still_watchPaths paths).lives] at ha
    exact absurd ha hb
  | unwatchPaths paths h =>
    rw [Journal.life_of_lives n (still_unwatchPaths paths).lives] at ha
    exact absurd ha hb
  | plan ho ht hf hm =>
    rw [Journal.life_of_lives n (hm.grown ht).lives] at ha
    exact absurd ha hb
  | @start w k s toRun toTerminate K hs hc =>
    by_cases hk : k = n
    · subst hk
      exact ⟨toRun, toTerminate, K, rfl, rfl⟩
    · dsimp only at ha
      rw [life_started, if_neg hk, List.append_nil] at ha
      exact absurd ha hb
  | @release w k s K hs hc =>
    dsimp only at ha
    rw [life_released, List.mem_append] at ha
    rcases ha with ha | ha
    · exact absurd ha hb
    · split at ha
      · cases List.mem_singleton.mp ha
      · cases ha
  | _ => exact absurd ha hb

namespace World

/-- How instances are replaced by a host that was new at first and has come to a world. -/
structure Replaces (w₀ w : World) : Prop where
  walk : Walk .all ⟨w₀, []⟩ ⟨w, []⟩
  /-- The commit of a cycle runs what the cycle has made and terminates what that replaces. -/
  planned : ∀ w₁ K done w₂, Walk .all ⟨w₀, []⟩ ⟨w₁, K⟩ → IsTame .all w₁ → w₁.isClosed = false →
    cycle w₁ = (.ok done, w₂) → Walk .all ⟨w₀, []⟩ ⟨w₂, .commit done.commit :: K⟩ ∧
      ∀ p old new, w₁.registry.get? p = some old → w₂.registry.get? p = some new → new ≠ old →
        new ∈ done.commit.toRun ∧ old ∈ done.commit.toTerminate
  /-- If the body of a new instance ever starts, nothing of the replaced one was torn down. -/
  ordered : ∀ m m' p old new, Walk .all ⟨w₀, []⟩ m → Step .all m m' →
    m.world.registry.get? p = some old →
    m'.world.registry.get? p = some new → new ≠ old → ∀ m₁ m₂, Walk .all m' m₁ → Step .all m₁ m₂ →
      .started ∉ m₁.world.journal.life new → .started ∈ m₂.world.journal.life new → m₂.Intact old
  /-- A commit begins to terminate when all that it runs has started or is over. -/
  committed : ∀ w₁ c K, Walk .all ⟨w₀, []⟩ ⟨w₁, .commit c :: K⟩ → IsTame .all w₁ → ∀ depth, ∃ w₂,
    commit (hostAt depth) ⟨c.toRun, []⟩ w₁ = (.ok (), w₂) ∧
      commit (hostAt depth) c w₁ = commit (hostAt depth) ⟨[], c.toTerminate⟩ w₂ ∧
      (∀ n ∈ c.toRun, .started ∈ w₂.journal.life n ∨ ∃ s, w₂.script? n = some s ∧ s.isOver = true) ∧
      ∀ n ∈ c.toTerminate, Intact ⟨w₂, .commit ⟨[], c.toTerminate⟩ :: K⟩ n

/-- A new instance starts before the one that it replaces is torn down, if it ever starts. -/
theorem replaces_first {w₀ w : World} (hnew : w₀.IsNew) (htame : w₀.IsTame .all)
    (h : History .all w₀ w) :
    Replaces w₀ w := by
  have hsane (m : Moment) (hm : Walk .all ⟨w₀, []⟩ m) : m.IsSane := Walk.isSane hm hnew.isSane
  have horderly (m : Moment) (hm : Walk .all ⟨w₀, []⟩ m) : m.IsOrderly .all :=
    Walk.isOrderly hm hnew.isSane hnew.isOrderly
  refine ⟨(h.reached id hnew.isSane htame).walk, ?_, ?_, ?_⟩
  · intro w₁ K done w₂ hw₁ ht₁ ho hc
    have hreached : Reached .all ⟨w₀, []⟩ K w₁ := ⟨hw₁, hsane _ hw₁, ht₁⟩
    have hstep := (hreached.step_of_cycle ho hc).1
    refine ⟨hw₁.tail hstep, fun p old new hold hnew hne => ?_⟩
    obtain ⟨-, -, c, hd, hmem⟩ := hstep.replaces (hsane _ hw₁) hold hnew hne
    obtain rfl : done.commit = c := Duty.commit.inj (List.cons.inj hd).1
    exact hmem
  · intro m m' p old new hm hstep hold hnew hne m₁ m₂ hrun hstart hb ha
    obtain ⟨hl, hfollows, -⟩ := hstep.replaces (hsane m hm) hold hnew hne
    have hm₁ : Walk .all ⟨w₀, []⟩ m₁ := (hm.tail hstep).trans hrun
    have hm₂ : Walk .all ⟨w₀, []⟩ m₂ := hm₁.tail hstart
    obtain ⟨toRun, toTerminate, K, hd₁, hd₂⟩ := hstart.started hb ha
    have hpending₁ : .commit ⟨new :: toRun, toTerminate⟩ ∈ m₁.pending := by
      rw [pending, hd₁]
      exact List.mem_cons_self ..
    have hpending₂ : .commit ⟨toRun, toTerminate⟩ ∈ m₂.pending := by
      rw [pending, hd₂]
      exact List.mem_cons_of_mem _ (List.mem_cons_self ..)
    have hold₂ : old ∈ toTerminate :=
      Walk.follows hrun hl hfollows ⟨new :: toRun, toTerminate⟩ hpending₁ (List.mem_cons_self ..)
    exact (horderly m₂ hm₂).intact (hsane m₂ hm₂) hpending₂ hold₂
  · intro w₁ c K hw₁ ht₁ depth
    have hreached : Reached .all ⟨w₀, []⟩ (.commit ⟨c.toRun ++ [], c.toTerminate⟩ :: K) w₁ := by
      rw [List.append_nil]
      exact ⟨hw₁, hsane _ hw₁, ht₁⟩
    have hran := Reached.ends_toRun (E := fun _ => False) (Reached.serves_hostAt depth) hreached
    obtain ⟨_, w₂, hrun, hw₂, hpast⟩ := hran.succeeds
    refine ⟨w₂, hrun, ?_, fun n hn => ?_, fun n hn => ?_⟩
    · rw [Reached.commit_eq, bind_of_ok hrun]
    · obtain ⟨s, hs, hne⟩ := hpast n hn
      by_cases ho : s.isOver = true
      · exact Or.inr ⟨s, hs, ho⟩
      · exact Or.inl ((horderly _ hw₂.walk).started_of_past hs hne (Bool.eq_false_iff.mpr ho))
    · exact (horderly _ hw₂.walk).intact hw₂.sane (List.mem_cons_self ..) hn

/-- A host with one script and a watch that hands out what is put into it. -/
def revised : World where
  root := ⟨.root, ["s"]⟩
  base := ⟨.root, ["s"]⟩
  files :=
    { here := ⟨.root, []⟩
      nodes :=
        [(["s"], .directory), (["s", "a"], .file (.script [.watch ["b"], .host .reconcile]) 0.0)] }
  watch := some (.scripted {})

theorem isTame_revised : revised.IsTame .all where
  root := by simp [revised, Path.hasNull]
  here := by simp [revised, Path.hasNull]
  nodes := by
    refine List.forall_mem_cons.mpr ⟨trivial, List.forall_mem_singleton.mpr ?_⟩
    exact ⟨fun _ _ => trivial, ⟨trivial, trivial⟩, trivial⟩
  tree := trivial
  raises := by
    rintro x ⟨⟩
    constructor <;> simp
  named := by
    rintro x ⟨⟩
    exact fun event he => absurd he List.not_mem_nil
  refusal e he := by cases he
  resources s hs := by cases hs

/-- A script is loaded, and replaced after its file was modified. -/
theorem replaces_first_revised : revised.IsNew ∧ revised.IsTame .all ∧
    Replaces revised
      (host .reconcile
        (host (.event "a" "modified")
          (host .reconcile (host (.watch ["a"]) revised).2).2).2).2 := by
  have hnew : revised.IsNew := ⟨rfl, rfl, rfl, rfl, rfl, rfl⟩
  have hnamed : (Path.parse "a").hasNull = false := by
    rw [Path.hasNull_eq_false_iff]
    decide
  have hloaded : History .all revised (host .reconcile (host (.watch ["a"]) revised).2).2 :=
    .request depthLimit .reconcile (.request depthLimit (.watch ["a"]) .refl trivial trivial)
      trivial trivial
  refine ⟨hnew, isTame_revised, replaces_first hnew isTame_revised ?_⟩
  exact .request depthLimit .reconcile
    (.request depthLimit (.event "a" "modified") hloaded trivial hnamed) trivial
    trivial

end World

end HotReload
