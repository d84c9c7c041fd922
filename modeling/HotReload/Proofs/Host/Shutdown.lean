import HotReload.Proofs.Host.Replacement
import HotReload.Proofs.Host.Termination

/-!
# After a shutdown

A host that was shut down makes no instances, and runs none but those that were still created and
that commits were to run which it did not wait for. Unless there are such instances, what waits
only ends others.
-/
namespace HotReload

open World Moment Operation

variable {R : Regime} {m m' : Moment} {w w' w'' : World} {n : Nat}

namespace Moment

/-- Whether a commit is to run an instance that was not run. -/
structure Awaits (m : Moment) (n : Nat) : Prop where
  created : ∃ s, m.world.script? n = some s ∧ s.state = .created
  pending : ∃ c, .commit c ∈ m.pending ∧ n ∈ c.toRun

/-- The body of an instance was started if the instance has a context, and not otherwise. -/
theorem IsOrderly.started_iff {s : Script} (ho : m.IsOrderly R) (hs : m.world.script? n = some s) :
    .started ∈ m.world.journal.life n ↔ s.hasContext = true := by
  rw [(ho.accounted n s hs).life, Script.milestones]
  split
  · rename_i hc
    simp only [hc, iff_true]
    split <;> simp
  · rename_i hc
    simp [hc]

end Moment

/-- A closed host makes no instances. -/
theorem Step.length_of_closed (h : Step R m m') (hc : m.world.isClosed = true) :
    m'.world.scripts.length = m.world.scripts.length := by
  cases h with
  | calm h ht => exact h.still.length
  | scriptWatch paths h => exact (ends_scriptWatch ..).1.still.length
  | scriptUnwatch paths h => exact (ends_scriptUnwatch ..).1.still.length
  | plan ho ht hf hm =>
    rw [ho] at hc
    cases hc
  | amend => exact List.length_modify ..
  | allocate => exact List.length_modify ..
  | start => exact List.length_modify ..
  | begin => exact List.length_modify ..
  | finish => exact List.length_modify ..
  | watchPaths paths h => exact (still_watchPaths paths).length
  | unwatchPaths paths h => exact (still_unwatchPaths paths).length
  | _ => rfl

theorem Walk.length_of_closed (h : Walk R m m') (hc : m.world.isClosed = true) :
    m'.world.scripts.length = m.world.scripts.length := by
  induction h with
  | refl => rfl
  | tail hw h ih => exact (h.length_of_closed (Walk.isClosed hw hc)).trans ih

/-- What a closed host is to run, it was to run before. -/
theorem Walk.runs_of_closed (h : Walk R m m') (hs : m.IsSane) (hc : m.world.isClosed = true)
    {c : Commit} (hm : .commit c ∈ m'.pending) (hn : n ∈ c.toRun) :
    ∃ c₀, .commit c₀ ∈ m.pending ∧ n ∈ c₀.toRun := by
  induction h generalizing c with
  | refl => exact ⟨c, hm, hn⟩
  | @tail m₁ m₂ hw h ih =>
    rcases h.commits hm with ⟨c₁, hc₁, hremains⟩ | hmade
    · exact ih hc₁ (hremains.toRun.subset hn)
    · have hknown : n < m₂.world.scripts.length :=
        (h.isSane (Walk.isSane hw hs)).known n
          (List.mem_flatMap.mpr ⟨_, hm, List.mem_append_left _ hn⟩)
      have hlength := h.length_of_closed (Walk.isClosed hw hc)
      have hfresh := hmade.fresh n hn
      omega

/-- Whether an instance was ever started is settled when it leaves its first state. -/
theorem Walk.started_of_past (h : Walk R m m') (hs : m.IsSane) (ho : m.IsOrderly R)
    (hp : m.world.IsPast n) :
    .started ∈ m'.world.journal.life n ↔ .started ∈ m.world.journal.life n := by
  induction h with
  | refl => exact Iff.rfl
  | @tail m₁ m₂ hw h ih =>
    have ho₁ := Walk.isOrderly hw hs ho
    obtain ⟨s, hn, hne⟩ := Walk.isPast hw hp
    obtain ⟨s', hn', hturns⟩ := h.turns ho₁ hn
    rw [(h.isOrderly (Walk.isSane hw hs) ho₁).started_iff hn', hturns.context hne,
      ← ho₁.started_iff hn, ih]

/-- A body that starts after the host was closed is that of an instance that was awaited then. -/
theorem Walk.awaits_of_started (h : Walk R m m') (hs : m.IsSane) (ho : m.IsOrderly R)
    (hc : m.world.isClosed = true) (hb : .started ∉ m.world.journal.life n)
    (ha : .started ∈ m'.world.journal.life n) : m.Awaits n := by
  refine ⟨?_, ?_⟩
  · have hknown : n < m.world.scripts.length := by
      by_contra hl
      have hunborn := (Walk.isOrderly h hs ho).unborn n (by rw [Walk.length_of_closed h hc]; omega)
      rw [hunborn] at ha
      cases ha
    have hn : m.world.script? n = some m.world.scripts[n] := List.getElem?_eq_getElem hknown
    refine ⟨_, hn, ?_⟩
    by_contra hne
    exact hb ((Walk.started_of_past h hs ho ⟨_, hn, hne⟩).mp ha)
  · induction h with
    | refl => exact absurd ha hb
    | @tail m₁ m₂ hw h ih =>
      by_cases hs₁ : .started ∈ m₁.world.journal.life n
      · exact ih hs₁
      · obtain ⟨toRun, toTerminate, K, hd, -⟩ := h.started hs₁ ha
        have hm : .commit ⟨n :: toRun, toTerminate⟩ ∈ m₁.pending := by
          rw [pending, hd]
          exact List.mem_cons_self ..
        exact Walk.runs_of_closed hw hs hc hm (List.mem_cons_self ..)

namespace World

/-! What a shutdown leaves. -/

/-- Whether an instance that was not run is registered nowhere, while a commit
that waits is to run it. -/
structure IsForsaken (w : World) (n : Nat) : Prop where
  created : ∃ s, w.script? n = some s ∧ s.state = .created
  unregistered : ∀ p, w.registry.get? p ≠ some n
  queued : ∃ c ∈ w.tasks, n ∈ c.toRun

/-- Whether the instances that are not of a kind, and what is queued, stay as they are. -/
structure Spared (R : Regime) (N : Nat → Prop) (w w' : World) : Prop where
  tame : IsTame R w'
  tasks : w'.tasks = w.tasks
  length : w'.scripts.length = w.scripts.length
  others : ∀ n, ¬N n → w'.script? n = w.script? n

variable {N : Nat → Prop} {E : Failure → Prop} {host : HostRequest → Act HostAnswer}

theorem Spared.transfer (h : Spared R N w w') (ht : IsTame R w'') (htasks : w''.tasks = w'.tasks)
    (hs : w''.scripts = w'.scripts) : Spared R N w w'' := by
  refine ⟨ht, htasks.trans h.tasks, (congrArg List.length hs).trans h.length, fun n hn => ?_⟩
  rw [← h.others n hn, script?, script?, hs]

theorem Spared.journal (h : Spared R N w w') (j : Journal) :
    Spared R N w { w' with journal := j } :=
  h.transfer (h.tame.transfer rfl rfl rfl rfl rfl) rfl rfl

/-- Terminating everything that is registered empties the registry and leaves the
other instances alone. -/
theorem Apart.ends_terminateAll (ht : IsTame R w) (hk : ∀ e ∈ w.registry, e.2 < w.scripts.length) :
    Ends (Apart R (· ∈ w.registry.map (·.2)) { w with registry := [] }) E (terminateAll w) := by
  rw [terminateAll, get_bind, set_bind]
  have hstart : IsTame R { w with registry := [] } := ht.transfer rfl rfl rfl rfl rfl
  refine keeps_foldlM (fun failures entry he w' h => ?_) 0 _ (Apart.refl hstart)
  have hl : entry.2 < w'.scripts.length := h.length ▸ hk entry he
  have hend : Ends (Apart R (· ∈ w.registry.map (·.2)) { w with registry := [] }) R.GivesUp
      (terminate entry.2 w') :=
    (Apart.ends_terminate h.tame (List.getElem?_eq_getElem hl)).imp fun w'' h' =>
      h.trans (h'.mono fun k hk => hk ▸ List.mem_map_of_mem he)
  refine Ends.bind (ends_attempt hend fun _ he => Or.inl he.1) fun result => ?_
  rcases result with e | _ | _
  · refine Keeps.bind (keeps_modify fun _ h' => ?_) fun _ => keeps_pure _
    exact h'.step ⟨rfl, rfl, fun _ _ => rfl⟩ (h'.tame.transfer rfl rfl rfl rfl rfl)
  · exact keeps_pure _
  · exact keeps_pure _

/-- Terminating everything that is registered spares the rest. -/
theorem ends_terminateAll (ht : IsTame R w) (hk : ∀ e ∈ w.registry, e.2 < w.scripts.length) :
    Ends (Spared R (· ∈ w.registry.map (·.2)) w) E (terminateAll w) :=
  (Apart.ends_terminateAll ht hk).imp fun w' h => ⟨h.tame, by rw [h.frame], h.length, h.others⟩

/-- Unless it waits for a pool, a shutdown concerns what is registered alone. -/
theorem ends_shutdown (hx : ∀ isClosed, w.executor ≠ .pool isClosed) (ht : IsTame R w)
    (hk : ∀ e ∈ w.registry, e.2 < w.scripts.length) :
    Ends (Spared R (· ∈ w.registry.map (·.2)) w) Ordinary (shutdown host w) := by
  have hidle : IsTame R w.idled := ht.transfer rfl rfl rfl rfl rfl
  have hkept : Spared R (· ∈ w.registry.map (·.2)) w w.idled := ⟨hidle, rfl, rfl, fun _ _ => rfl⟩
  cases hj : w.joinFault? with
  | some fault =>
    rw [shutdown, bind_of_error (stopPolling_of_some hj)]
    exact ends_error hkept (ordinary_joinFault hj)
  | none =>
    rw [shutdown, bind_of_ok (stopPolling_of_none hj),
      bind_of_ok (closePool_of_not_pool (w := w.idled) hx), get_bind]
    split
    · rw [modify_bind, get_bind]
      have hclosed : IsTame R { w.idled with isClosed := true } :=
        hidle.transfer rfl rfl rfl rfl rfl
      refine (ends_terminateAll (E := fun _ => False) hclosed hk).andThen fun failures w₁ h₁ => ?_
      rw [modify_bind]
      have h₂ : Spared R (· ∈ w.registry.map (·.2)) w { w₁ with claims := [] } :=
        ⟨h₁.tame.transfer rfl rfl rfl rfl rfl, h₁.tasks, h₁.length, h₁.others⟩
      refine Ends.bind ((ends_stopWatch h₂.tame).imp fun w₃ h₃ => ?_) fun _ =>
        keeps_modify fun _ h => h.journal _
      refine h₂.transfer (h₂.tame.tended h₃) ?_ ?_ <;> rw [h₃.frame]
    · exact ends_ok hkept

/-- A shutdown that does not wait forsakes what was forsaken before it. -/
theorem isForsaken_iff (hs : IsSane ⟨w, []⟩) (ho : IsOrderly R ⟨w, []⟩)
    (hw : Walk R ⟨w, []⟩ ⟨w', []⟩) (h : Spared R (· ∈ w.registry.map (·.2)) w w')
    (hc : w'.isClosed = true) :
    w'.IsForsaken n ↔ w.IsForsaken n := by
  have ho' := Walk.isOrderly hw hs ho
  have hnone : w'.registry = [] := ho'.closed hc
  constructor
  · rintro ⟨⟨s', hs', hcreated⟩, -, hqueued⟩
    have hl : n < w.scripts.length := h.length ▸ lt_of_script? hs'
    have hn : w.script? n = some w.scripts[n] := List.getElem?_eq_getElem hl
    have hcreated₀ : w.scripts[n].state = .created := by
      by_contra hne
      obtain ⟨t, ht, hpast⟩ := Walk.isPast hw ⟨_, hn, hne⟩
      obtain rfl : t = s' := Option.some.inj (ht.symm.trans hs')
      exact hpast hcreated
    refine ⟨⟨_, hn, hcreated₀⟩, fun p hp => ?_, h.tasks ▸ hqueued⟩
    · -- what was registered is to be terminated by nothing else, and is over
      obtain ⟨s, hs, rfl⟩ := hs.registered.script p n hp
      obtain rfl := Option.some.inj (hn.symm.trans hs)
      have hheld := (ho.accounted n _ hs).held (not_isAbandoned (by rw [hcreated₀]; decide))
      have hheld' := (ho'.accounted n s' hs').held (not_isAbandoned (by rw [hcreated]; decide))
      have hends : endings ⟨w', []⟩ n = endings ⟨w, []⟩ n := by rw [endings_eq, endings_eq, h.tasks]
      have hget : w'.registry.get? s'.path = none := by rw [hnone]; rfl
      simp only [holders, hp, if_true] at hheld
      simp only [holders, hends, hget, hcreated, reduceCtorEq, if_false] at hheld'
      omega
  · rintro ⟨hcreated, hfree, hqueued⟩
    refine ⟨?_, fun p hp => ?_, h.tasks.symm ▸ hqueued⟩
    · rw [h.others n]
      · exact hcreated
      · intro hm
        obtain ⟨⟨p, k⟩, he, rfl⟩ := List.mem_map.mp hm
        exact hfree p (Registry.get?_of_mem hs.registered.nodup he)
    · rw [hnone] at hp
      cases hp

/-! Commits of which nothing is run any more. -/

/-- Whether no script has claimed, exported, written or allocated anything. -/
structure Subsides (w w' : World) : Prop where
  files : w'.files = w.files
  exports : w'.exports = w.exports
  target : w'.claimTarget = w.claimTarget
  watched : w.claimTarget = .counted → w'.watched ⊆ w.watched
  holds : ∀ n s', w'.script? n = some s' → ∃ s, w.script? n = some s ∧
    s'.claims.paths ⊆ s.claims.paths ∧ s'.resources.held ⊆ s.resources.held

theorem subsides_refl (w : World) : Subsides w w :=
  ⟨rfl, rfl, rfl, fun _ => List.Subset.refl _, fun _ s hs =>
    ⟨s, hs, List.Subset.refl _, List.Subset.refl _⟩⟩

theorem Subsides.trans (h : Subsides w w') (h' : Subsides w' w'') : Subsides w w'' where
  files := h'.files.trans h.files
  exports := h'.exports.trans h.exports
  target := h'.target.trans h.target
  watched ht := List.Subset.trans (h'.watched (h.target.trans ht)) (h.watched ht)
  holds n s₂ hs₂ := by
    obtain ⟨s₁, hs₁, hclaims₁, hheld₁⟩ := h'.holds n s₂ hs₂
    obtain ⟨s, hs, hclaims, hheld⟩ := h.holds n s₁ hs₁
    exact ⟨s, hs, List.Subset.trans hclaims₁ hclaims, List.Subset.trans hheld₁ hheld⟩

/-- A termination only takes away, whether it comes to its end or not. -/
theorem Unburdened.subsides {s : Script} {state : ScriptState} {engine : Engine}
    (h : Unburdened n s state engine w w') (hs : w.script? n = some s) : Subsides w w' := by
  obtain ⟨resources, hsealed, ha⟩ := h
  refine ⟨?_, ?_, ?_, fun ht p hp => ?_, fun k t hk => ?_⟩
  · rw [ha.frame]
  · rw [ha.frame]
  · rw [ha.frame]
  · rw [watched, ha.counts ht] at hp
    exact ClaimCounts.keys_releaseAll hp
  · by_cases hkn : n = k
    · subst hkn
      rw [ha.script? hs] at hk
      cases hk
      refine ⟨s, hs, leftover_subset s w, ?_⟩
      rw [hsealed.held]
      exact List.nil_subset _
    · rw [ha.others hkn] at hk
      exact ⟨t, hk, List.Subset.refl _, List.Subset.refl _⟩

/-- Whether a world has only subsided, and certain instances were run before. -/
structure Ebbs (R : Regime) (past : List Nat) (w w' : World) : Prop extends Subsides w w' where
  tame : IsTame R w'
  length : w'.scripts.length = w.scripts.length
  past : ∀ n ∈ past, w'.IsPast n

namespace Ebbs

variable {past : List Nat}

theorem trans (h : Ebbs R past w w') (h' : Ebbs R past w' w'') : Ebbs R past w w'' :=
  ⟨h.toSubsides.trans h'.toSubsides, h'.tame, h'.length.trans h.length, h'.past⟩

theorem calm (h : Ebbs R past w w') (name : String) (j : Journal) :
    Ebbs R past w { w' with thread := name, journal := j } :=
  ⟨⟨h.files, h.exports, h.target, h.watched, h.holds⟩, h.tame.transfer rfl rfl rfl rfl rfl,
    h.length, h.past⟩

/-- An instance that was run before is not run. -/
theorem keeps_run (hn : n ∈ past) : Keeps (Ebbs R past w) E (run host n) := by
  intro w' h
  obtain ⟨s, hs, hne⟩ := h.past n hn
  rw [run, bind_of_ok (script_of_some hs), if_pos hne]
  exact ends_ok (h.calm w'.thread _)

theorem keeps_terminate (hn : n < w.scripts.length) :
    Keeps (Ebbs R past w) R.GivesUp (terminate n) := by
  intro w' h
  have hl : n < w'.scripts.length := h.length ▸ hn
  have hs : w'.script? n = some w'.scripts[n] := List.getElem?_eq_getElem hl
  by_cases ho : w'.scripts[n].isOver = true
  · rw [terminate, bind_of_ok (script_of_some hs), if_pos ho]
    exact keeps_pure true w' h
  · have hended :=
      ends_ended (h.tame.resources _ (List.mem_of_getElem? hs)) hs (Bool.eq_false_iff.mpr ho)
    have hapart := Apart.ends_terminate h.tame hs
    refine (hended.and hapart).imp fun w'' hterminated => h.trans ?_
    obtain ⟨hended, hapart⟩ := hterminated
    have hover : ∃ state engine,
      state ≠ .created ∧ Unburdened n w'.scripts[n] state engine w' w'' := by
      rcases hended with hended | ⟨-, habandoned⟩
      · exact ⟨_, _, ScriptState.noConfusion, hended⟩
      · exact ⟨_, _, ScriptState.noConfusion, habandoned⟩
    obtain ⟨state, engine, hstate, hrelieved⟩ := hover
    refine ⟨hrelieved.subsides hs, hapart.tame, hapart.length, fun k hk => ?_⟩
    obtain ⟨resources, -, ha⟩ := hrelieved
    obtain ⟨t, ht, hne⟩ := h.past k hk
    by_cases hkn : n = k
    · subst hkn
      exact ⟨_, ha.script? ht, hstate⟩
    · exact ⟨t, (ha.others hkn).trans ht, hne⟩

/-- A commit of which nothing is run any more only takes away. -/
theorem keeps_commit {c : Commit} (hk : ∀ n ∈ c.toTerminate, n < w.scripts.length) :
    Keeps (Ebbs R c.toRun w) E (commit host c) := by
  refine World.keeps_commit (fun w' j h _ => h.calm w'.thread j) (fun w' n h hn => ?_)
    (fun n hn => keeps_run hn)
    fun n hn => (keeps_terminate (hk n hn)).mono fun _ he => he.1
  rcases hn with hn | hn
  · obtain ⟨s, hs, -⟩ := h.past n hn
    exact ⟨s, hs⟩
  · have hl : n < w'.scripts.length := h.length ▸ hk n hn
    exact ⟨_, List.getElem?_eq_getElem hl⟩

end Ebbs

/-! Commits that are carried out in order. -/

/-- Whether the host is closed, and its executor and what waits for it stay as they are. -/
structure Latched (R : Regime) (executor : Executor) (tasks : List Commit) (count : Nat)
    (w : World) : Prop where
  tame : IsTame R w
  closed : w.isClosed = true
  executor : w.executor = executor
  tasks : w.tasks = tasks
  length : w.scripts.length = count

namespace Latched

variable {x : Executor} {tasks : List Commit} {count : Nat}

theorem transfer (h : Latched R x tasks count w) (ht : IsTame R w')
    (hc : w'.isClosed = w.isClosed) (hx : w'.executor = w.executor) (htasks : w'.tasks = w.tasks)
    (hl : w'.scripts.length = w.scripts.length) :
    Latched R x tasks count w' :=
  ⟨ht, hc.trans h.closed, hx.trans h.executor, htasks.trans h.tasks, hl.trans h.length⟩

theorem known (h : Latched R x tasks count w) (hn : n < count) : ∃ s, w.script? n = some s := by
  have hl : n < w.scripts.length := h.length ▸ hn
  exact ⟨_, List.getElem?_eq_getElem hl⟩

theorem reclaimed (h : Latched R x tasks count w) (hr : Reclaimed n w w') :
    Latched R x tasks count w' := by
  refine h.transfer (Reached.tame_reclaimed h.tame hr) ?_ ?_ ?_ hr.confined.length <;> rw [hr.frame]

theorem modify (h : Latched R x tasks count w) (f : Script → Script)
    (hf : ∀ s, s.resources.IsTame R → (f s).resources.IsTame R) :
    Latched R x tasks count { w with scripts := w.scripts.modify n f } :=
  h.transfer (h.tame.modify n f hf) rfl rfl rfl (List.length_modify ..)

theorem spans (hn : n < count) : Spans R n (Latched R x tasks count) where
  tame _ h := h.tame
  known _ h := h.known hn
  nearby _ _ h hl ht := h.transfer ht (by rw [hl.frame]) (by rw [hl.frame]) (by rw [hl.frame])
    (by rw [hl.frame])
  declare _ f h hf := h.modify f fun s hs => by rwa [hf s]
  allocate _ _ resources h _ hr := h.modify ({ · with resources }) fun _ _ => hr.tame
  unwatch w paths h := h.reclaimed (ends_scriptUnwatch n paths w).1
  turn _ f h hf := h.modify f fun s hs => by rwa [hf s]
  recorded _ _ h := h.transfer (h.tame.transfer rfl rfl rfl rfl rfl) rfl rfl rfl rfl
  engine _ _ h := h.transfer (h.tame.transfer rfl rfl rfl rfl rfl) rfl rfl rfl rfl

theorem framed (h : Latched R x tasks count w) (hf : Framed w w') (ht : IsTame R w') :
    Latched R x tasks count w' := by
  refine h.transfer ht ?_ ?_ ?_ ?_ <;> rw [hf.frame]

theorem operated (h : Latched R x tasks count w) (ho : Operated w w') :
    Latched R x tasks count w' := by
  refine h.transfer (h.tame.operated ho) ?_ ?_ ?_ ?_ <;> rw [ho]

theorem keeps_log (component : String) (level : LogLevel) (event : String)
    (fields : List (String × Value)) :
    Keeps (Latched R x tasks count) E (log component level event fields) :=
  keeps_modify fun _ h => h.transfer (h.tame.transfer rfl rfl rfl rfl rfl) rfl rfl rfl rfl

/-- The host does not become anything else by what it does apart from instances. -/
theorem abides : Abides R (Latched R x tasks count) where
  tame h := h.tame
  framed := framed
  polling h _ _ := h.transfer (h.tame.transfer rfl rfl rfl rfl rfl) rfl rfl rfl rfl
  watchPaths {w paths} h _ := h.operated (operated_watchPaths paths w)
  unwatchPaths {w paths} h _ := h.operated (operated_unwatchPaths paths w)

/-- A closed host goes through no cycle. -/
theorem keeps_reconcile : Keeps (Latched R x tasks count) E (reconcile host) := by
  refine keeps_get_bind fun w h => ?_
  rw [if_pos h.closed]
  exact keeps_pure _ w h

theorem keeps_preloadCycles (left cycles : Nat) :
    Keeps (Latched R x tasks count) E (preloadCycles host left cycles) := by
  cases left with
  | zero => exact keeps_pure _
  | succ left =>
    refine keeps_get_bind fun w h => ?_
    rw [if_pos h.closed]
    exact keeps_pure _ w h

/-- A host that is closed is not closed again, and waits for nothing but its
poll loop and a pool. -/
theorem keeps_shutdown (hx : ∀ isClosed, x ≠ .pool isClosed) :
    Keeps (Latched R x tasks count) Ordinary (shutdown host) := by
  intro w h
  have hidled : Latched R x tasks count w.idled := abides.polling h false false
  cases hj : w.joinFault? with
  | some fault =>
    rw [shutdown, bind_of_error (stopPolling_of_some hj)]
    exact ends_error hidled (ordinary_joinFault hj)
  | none =>
    rw [shutdown, bind_of_ok (stopPolling_of_none hj),
      bind_of_ok (closePool_of_not_pool (hidled.executor.symm ▸ hx)), get_bind,
      if_neg (by rw [hidled.closed]; decide)]
    exact keeps_pure _ _ hidled

/-- What scripts ask of a closed host starts nothing, and is not waited for. -/
theorem answers (hx : ∀ isClosed, x ≠ .pool isClosed) (depth : Nat) (request : HostRequest)
    (ha : R.asks request) (hn : request.IsNamed) :
    Keeps (Latched R x tasks count) Ordinary (hostAt depth request) := by
  cases depth with
  | zero =>
    refine keeps_throw ?_
    rfl
  | succ depth =>
    cases request with
    | reconcile => exact keeps_reconcile.bind fun _ => keeps_pure _
    | preload =>
      refine Keeps.bind ?_ fun _ => keeps_pure _
      exact keeps_preloading keeps_log fun left => keeps_preloadCycles left 0
    | shutdown => exact (keeps_shutdown hx).bind fun _ => keeps_pure _
    | _ => exact abides.keeps_answer id (R.permits ha) hn

theorem keeps_commit (hx : ∀ isClosed, x ≠ .pool isClosed) (depth : Nat) {c : Commit}
    (hk : ∀ n, n ∈ c.toRun ∨ n ∈ c.toTerminate → n < count) :
    Keeps (Latched R x tasks count) E (commit (hostAt depth) c) := by
  refine World.keeps_commit (fun w j h _ => ?_) (fun w n h hn => h.known (hk n hn))
    (fun n hn => ?_) fun n hn => ?_
  · exact h.transfer (h.tame.transfer rfl rfl rfl rfl rfl) rfl rfl rfl rfl
  · refine (spans (hk n (Or.inl hn))).keeps_run (fun w paths h _ => ?_) (answers hx depth)
    exact h.reclaimed (ends_scriptWatch n paths w).1
  · intro w h
    obtain ⟨s, hs⟩ := h.known (hk n (Or.inr hn))
    have hend : Ends (Latched R x tasks count) R.GivesUp (terminate n w) :=
      (Apart.ends_terminate h.tame hs).imp fun w' h' =>
        h.transfer h'.tame (by rw [h'.frame]) (by rw [h'.frame])
        (by rw [h'.frame]) h'.length
    exact hend.mono fun _ he => he.1

end Latched

section Draining

variable {m₀ : Moment} {c : Commit}
  {before after : List Commit} (ho : m₀.IsOrderly R) (hs : m₀.IsSane)
include ho hs

/-- An instance that is still to be terminated is started when its commit is carried out. -/
theorem ends_commit_started (hx : ∀ isClosed, w.executor ≠ .pool isClosed)
    (hc : w.isClosed = true) (h : Reached R m₀ [.commit c] w) (hn : n ∈ c.toRun)
    (ht : ∃ d ∈ c :: w.tasks, n ∈ d.toTerminate) (depth : Nat) :
    Ends (fun w' => Reached R m₀ [] w' ∧ .started ∈ w'.journal.life n) E
      (commit (hostAt depth) c w) := by
  have hall : Reached R m₀ [.commit ⟨c.toRun ++ [], c.toTerminate ++ []⟩] w := by
    rwa [List.append_nil, List.append_nil]
  have hlatched : Latched R w.executor w.tasks w.scripts.length w := ⟨h.tame, hc, rfl, rfl, rfl⟩
  have hran := Reached.ends_toRun (E := fun _ => False) (Reached.serves_hostAt depth) hall
  have hknown (k : Nat) (hk : k ∈ c.toRun ∨ k ∈ []) : k < w.scripts.length := by
    have hmem : k ∈ Duty.numbers (.commit c) :=
      List.mem_append_left _ (hk.resolve_right List.not_mem_nil)
    exact h.sane.known k (mem_numbers_cons.mpr (Or.inl hmem))
  have hkept := Latched.keeps_commit (E := fun _ => False) hx depth (c := ⟨c.toRun, []⟩) hknown w
    hlatched
  rw [Reached.commit_eq]
  refine (hran.and hkept).andThen fun _ w₁ ⟨⟨h₁, hpast⟩, hlatched₁⟩ => ?_
  have ho₁ := Walk.isOrderly h₁.walk hs ho
  obtain ⟨t, ht₁, hne⟩ := hpast n hn
  have hover : t.isOver = false := by
    obtain ⟨d, hd, hnd⟩ := ht
    rcases List.mem_cons.mp hd with rfl | hd
    · refine ho₁.not_over_of_commit (List.mem_cons_self ..) ?_ ht₁
      rwa [List.append_nil]
    · exact ho₁.not_over_of_commit (mem_pending.mpr (Or.inr (hlatched₁.tasks.symm ▸ hd))) hnd ht₁
  have hstarted := ho₁.started_of_past ht₁ hne hover
  refine (Reached.ends_toTerminate h₁.restart).imp fun w₂ h₂ => ?_
  have hdone := h₂.step .done h₂.tame
  exact ⟨h₁.trans hdone, (Walk.started_of_past hdone.walk h₁.sane ho₁ ⟨t, ht₁, hne⟩).mpr hstarted⟩

theorem ends_carry_started (hx : ∀ isClosed, w.executor ≠ .pool isClosed) (hc : w.isClosed = true)
    (h : Reached R m₀ [.commit c] w) (hn : n ∈ c.toRun) (ht : ∃ d ∈ c :: w.tasks, n ∈ d.toTerminate)
    (runner : Runner) (depth : Nat) :
    Ends (fun w' => Reached R m₀ [] w' ∧ .started ∈ w'.journal.life n) (fun _ => False)
      (runner.carry (hostAt depth) c w) := by
  have hthread {K : List Duty} {w : World} (name : String) (h : Reached R m₀ K w) :
      Reached R m₀ K { w with thread := name } :=
    h.calm ⟨rfl, rfl⟩ (h.tame.transfer rfl rfl rfl rfl rfl)
  cases runner with
  | caller => exact ends_commit_started ho hs hx hc h hn ht depth
  | pool =>
    rw [Runner.carry, runPooled, get_bind, modify_bind]
    have hcommit :=
      ends_commit_started (w := { w with thread := w.poolThread }) (E := fun _ => False) ho hs hx hc
      (hthread w.poolThread h) hn ht depth
    refine (ends_attempt hcommit fun _ he => he.elim).andThen fun _ w₁ h₁ =>
      ends_ok ⟨hthread _ h₁.1, h₁.2⟩
  | loop =>
    have hcommit := ends_commit_started (E := fun _ => False) ho hs hx hc h hn ht depth
    exact Ends.bind (ends_attempt hcommit fun _ he => he.elim) fun _ => keeps_pure _

/-- Of what waits, the first commits are carried out in order: an instance that none of them
terminates is started with the last of them. -/
theorem ends_drain_started (hx : ∀ isClosed, w.executor ≠ .pool isClosed) (hc : w.isClosed = true)
    (htasks : w.tasks = before ++ c :: after) (h : Reached R m₀ [] w) (hn : n ∈ c.toRun)
    (ht : ∃ d ∈ c :: after, n ∈ d.toTerminate) (runner : Runner) (depth : Nat) :
    Ends (fun w' => .started ∈ w'.journal.life n) (fun _ => False)
      (drainWith (runner.carry (hostAt depth)) (before.length + 1) w) := by
  induction before generalizing w with
  | nil =>
    have hdequeue := (Reached.sustains R m₀).dequeue 0 h (c := c) (by rw [htasks]; rfl)
    rw [htasks] at hdequeue
    rw [drainWith, get_bind, htasks]
    have hcarried := ends_carry_started (w := { w with tasks := after }) ho hs hx hc hdequeue hn ht
      runner depth
    exact hcarried.andThen fun _ w₁ h₁ => keeps_pure _ w₁ h₁.2
  | cons b rest ih =>
    have hdequeue := (Reached.sustains R m₀).dequeue 0 h (c := b) (by rw [htasks]; rfl)
    rw [htasks] at hdequeue
    rw [List.length_cons, drainWith, get_bind, htasks]
    have hlatched : Latched R w.executor (rest ++ c :: after) w.scripts.length
      { w with tasks := rest ++ c :: after } :=
      ⟨hdequeue.tame, hc, rfl, rfl, rfl⟩
    have hcommit : Keeps (Latched R w.executor (rest ++ c :: after) w.scripts.length)
      (fun _ => False)
        (commit (hostAt depth) b) :=
      Latched.keeps_commit hx depth fun k hk =>
        hdequeue.sane.known k (mem_numbers_cons.mpr (Or.inl (List.mem_append.mpr hk)))
    have hkept := runner.keeps_carry
      (fun _ _ h => h.transfer (h.tame.transfer rfl rfl rfl rfl rfl) rfl rfl rfl rfl) hcommit _
        hlatched
    refine ((runner.ends_carry depth hdequeue).and hkept).andThen fun _ w₁ ⟨h₁, hlatched₁⟩ => ?_
    exact ih (by rwa [hlatched₁.executor]) hlatched₁.closed hlatched₁.tasks h₁

end Draining

/-- What a shutdown that was called in one world and has returned in another one comes to. -/
structure IsFinal (w w₁ : World) : Prop where
  closed : w₁.isClosed = true
  /-- Whatever goes on, no instance is made any more. -/
  unborn : ∀ m, Walk .all ⟨w₁, []⟩ m → m.world.scripts.length = w₁.scripts.length
  /-- A body that starts is that of an instance that was forsaken. -/
  started : ∀ m n, Walk .all ⟨w₁, []⟩ m → .started ∉ w₁.journal.life n →
    .started ∈ m.world.journal.life n →
    w₁.IsForsaken n
  /-- Where none was forsaken, whatever waits only takes away. -/
  subsides : (∀ n, ¬w₁.IsForsaken n) → ∀ w₂ i c, History .all w₁ w₂ → w₂.tasks[i]? = some c →
    ∀ runner depth,
    Subsides w₂ (Runner.carry runner (hostAt depth) c { w₂ with tasks := w₂.tasks.eraseIdx i }).2
  /-- A shutdown that does not wait for a pool forsakes whom cycles have forsaken before it. -/
  forsaken : (∀ isClosed, w.executor ≠ .pool isClosed) → ∀ n, w₁.IsForsaken n ↔ w.IsForsaken n
  /-- Whoever is forsaken starts after all when what waits is carried out in order, unless a commit
  before that terminates it. -/
  strays : (∀ isClosed, w₁.executor ≠ .pool isClosed) →
    ∀ before c after n, w₁.tasks = before ++ c :: after →
    n ∈ c.toRun → w₁.IsForsaken n → (∀ b ∈ before, n ∉ b.toTerminate) → ∀ runner depth,
      .started ∉ w₁.journal.life n ∧
        .started ∈
          (drainWith (Runner.carry runner (hostAt depth)) (before.length + 1) w₁).2.journal.life n

/-- What shutting down comes to for a host that was new at first and has come to a world. -/
structure ShutsDown (w₀ w : World) : Prop where
  final : ∀ depth a w₁, hostAt depth .shutdown w = (.ok a, w₁) → IsFinal w w₁
  /-- Also while bodies run and commits are carried out, a closed host starts only
  what it was to start. -/
  awaits : ∀ m m' n, Walk .all ⟨w₀, []⟩ m → m.world.isClosed = true → Walk .all m m' →
    .started ∉ m.world.journal.life n → .started ∈ m'.world.journal.life n → m.Awaits n

variable {w₀ w₁ w₂ : World}

theorem isForsaken_of_awaits (hr : w.registry = []) (h : Moment.Awaits ⟨w, []⟩ n) :
    w.IsForsaken n := by
  obtain ⟨hcreated, c, hc, hn⟩ := h
  refine ⟨hcreated, fun p hp => ?_, c, (mem_pending.mp hc).resolve_left List.not_mem_nil, hn⟩
  rw [hr] at hp
  cases hp

theorem IsForsaken.not_started (h : w.IsForsaken n) (ho : IsOrderly R ⟨w, []⟩) :
    .started ∉ w.journal.life n := by
  obtain ⟨s, hs, hcreated⟩ := h.created
  rw [ho.started_iff hs, (ho.accounted n s hs).created hcreated]
  decide

/-- Whoever is forsaken by a host that has nothing registered is still to be terminated. -/
theorem IsForsaken.ending (h : w.IsForsaken n) (ho : IsOrderly R ⟨w, []⟩) (hr : w.registry = []) :
    ∃ c ∈ w.tasks, n ∈ c.toTerminate := by
  obtain ⟨s, hs, hcreated⟩ := h.created
  have hheld := (ho.accounted n s hs).held (not_isAbandoned (by rw [hcreated]; decide))
  have hget : w.registry.get? s.path = none := by rw [hr]; rfl
  simp only [holders, hget, hcreated, reduceCtorEq, if_false] at hheld
  rw [endings_eq, List.flatMap_nil, List.count_nil] at hheld
  have hmem : n ∈ w.tasks.flatMap (·.toTerminate) := List.count_pos_iff.mp (by omega)
  exact List.mem_flatMap.mp hmem

/-- Whoever carries out a commit of which nothing is run any more, only takes away. -/
theorem subsides_carry {R : Regime} {i : Nat} {c : Commit} (hs : IsSane ⟨w, []⟩) (ht : IsTame R w)
    (hi : w.tasks[i]? = some c) (hpast : ∀ n ∈ c.toRun, w.IsPast n) (runner : Runner)
    (depth : Nat) :
    Subsides w (runner.carry (hostAt depth) c { w with tasks := w.tasks.eraseIdx i }).2 := by
  have hstart : Ebbs R c.toRun w { w with tasks := w.tasks.eraseIdx i } :=
    ⟨⟨rfl, rfl, rfl, fun _ => List.Subset.refl _, (subsides_refl w).holds⟩,
      ht.transfer rfl rfl rfl rfl rfl, rfl, hpast⟩
  have hk (n : Nat) (hn : n ∈ c.toTerminate) : n < w.scripts.length :=
    hs.known n (mem_numbers.mpr (Or.inr ⟨c, List.mem_of_getElem? hi, Or.inr hn⟩))
  exact (runner.keeps_carry (fun w name h => h.calm name w.journal) (Ebbs.keeps_commit hk) _
    hstart).1.toSubsides

/-- Where none is forsaken, all that commits are to run was run before. -/
theorem past_of_queued (h : Reached .all ⟨w₁, []⟩ [] w₂) (hs : IsSane ⟨w₁, []⟩)
    (hc : w₁.isClosed = true) (hr : w₁.registry = []) (hnone : ∀ n, ¬w₁.IsForsaken n) {c : Commit}
    (hm : c ∈ w₂.tasks) (hn : n ∈ c.toRun) :
    w₂.IsPast n := by
  obtain ⟨c₀, hc₀, hn₀⟩ := Walk.runs_of_closed h.walk hs hc (mem_pending.mpr (Or.inr hm)) hn
  have hl : n < w₁.scripts.length :=
    hs.known n (List.mem_flatMap.mpr ⟨_, hc₀, List.mem_append_left _ hn₀⟩)
  have hs₁ : w₁.script? n = some w₁.scripts[n] := List.getElem?_eq_getElem hl
  by_contra hnot
  have hcreated : w₁.scripts[n].state = .created := by
    by_contra hne
    exact hnot (Walk.isPast h.walk ⟨_, hs₁, hne⟩)
  exact hnone n (isForsaken_of_awaits hr ⟨⟨_, hs₁, hcreated⟩, c₀, hc₀, hn₀⟩)

/-- A shutdown is final but for the instances that cycles have forsaken. -/
theorem shuts_down (hnew : w₀.IsNew) (htame : w₀.IsTame .all) (h : History .all w₀ w) :
    ShutsDown w₀ w := by
  have hreached {w} (h : History .all w₀ w) : Reached .all ⟨w₀, []⟩ [] w :=
    h.reached id hnew.isSane htame
  have horderly (m : Moment) (hm : Walk .all ⟨w₀, []⟩ m) : m.IsOrderly .all :=
    Walk.isOrderly hm hnew.isSane hnew.isOrderly
  have hsane (m : Moment) (hm : Walk .all ⟨w₀, []⟩ m) : m.IsSane := Walk.isSane hm hnew.isSane
  refine ⟨fun depth a w₁ hshut => ?_, fun m m' n hm hc hw hb ha => ?_⟩
  · have hw := hreached h
    have hc : w₁.isClosed = true := isClosed_shutdown hw trivial hshut
    have hw₁ : (hostAt depth .shutdown w).2 = w₁ := congrArg Prod.snd hshut
    have hrun : Reached .all ⟨w, []⟩ [] w₁ :=
      hw₁ ▸ (Reached.serves_hostAt depth ⟨w, []⟩ [] .shutdown trivial trivial w hw.restart).1
    have h₁ : Reached .all ⟨w₀, []⟩ [] w₁ := hw.trans hrun
    have ho₁ := horderly _ h₁.walk
    have hr : w₁.registry = [] := ho₁.closed hc
    refine ⟨hc, fun m hm => Walk.length_of_closed hm hc, fun m n hm hb ha => ?_,
      ?_, fun hx n => ?_, ?_⟩
    · exact isForsaken_of_awaits hr (Walk.awaits_of_started hm h₁.sane ho₁ hc hb ha)
    · intro hnone w₂ i c hrun₂ hi runner depth
      have h₂ : Reached .all ⟨w₁, []⟩ [] w₂ := hrun₂.reached id h₁.sane h₁.tame
      exact subsides_carry h₂.sane h₂.tame hi
        (fun n hn => past_of_queued h₂ h₁.sane hc hr hnone (List.mem_of_getElem? hi) hn)
          runner depth
    · obtain ⟨depth, hd⟩ := shutdown_of_hostAt hshut
      have hspared : Ends (Spared .all (· ∈ w.registry.map (·.2)) w) Ordinary
        (shutdown (hostAt depth) w) :=
        ends_shutdown hx hw.tame fun _ => hw.sane.registered.lt_length
      rw [hd] at hspared
      exact isForsaken_iff hw.sane (horderly _ hw.walk) hrun.walk hspared.1 hc
    · intro hx before c after n htasks hn hforsaken hbefore runner depth
      obtain ⟨d, hd, hnd⟩ := hforsaken.ending ho₁ hr
      rw [htasks, List.mem_append] at hd
      have hlater : ∃ d ∈ c :: after, n ∈ d.toTerminate :=
        ⟨d, hd.resolve_left fun hb => hbefore d hb hnd, hnd⟩
      exact ⟨hforsaken.not_started ho₁,
        (ends_drain_started ho₁ h₁.sane hx hc htasks h₁.restart hn hlater runner depth).1⟩
  · exact Walk.awaits_of_started hw (hsane m hm) (horderly m hm) hc hb ha

/-- An instance that two cycles made and unregistered while its commit waits. -/
theorem shuts_down_waiting : waiting.IsNew ∧ waiting.IsTame .all ∧
    ShutsDown waiting
      (World.host .reconcile
        (World.host (.unwatch ["a"])
          (World.host .reconcile (World.host (.watch ["a"]) waiting).2).2).2).2 := by
  have hnew : waiting.IsNew := ⟨rfl, rfl, rfl, rfl, rfl, rfl⟩
  have hloaded :
    History .all waiting (World.host .reconcile (World.host (.watch ["a"]) waiting).2).2 :=
    .request depthLimit .reconcile (.request depthLimit (.watch ["a"]) .refl trivial trivial)
      trivial trivial
  have htame : waiting.IsTame .all := isTame_waiting .all trivial fun _ => trivial
  refine ⟨hnew, htame, shuts_down hnew htame ?_⟩
  exact .request depthLimit .reconcile
    (.request depthLimit (.unwatch ["a"]) hloaded trivial trivial) trivial trivial

end World

end HotReload
