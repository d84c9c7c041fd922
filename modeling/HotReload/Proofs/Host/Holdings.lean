import HotReload.Proofs.Host.Listing
import HotReload.Proofs.Host.Termination

/-!
# What terminated instances hold

An instance that is terminated closes its resources, releases what it lists and has the engine
forget it. If its body goes on after that, its resources stay closed, but what the body claims then
stays listed, and the engine keeps its variables. An instance whose body has ended before holds
nothing any more.
-/
namespace HotReload

open World Moment Operation

variable {R : Regime} {m m' : Moment} {w w' w₀ : World} {K : List Duty} {n : Nat} {p : Path}
  {ns : Namespace}

namespace Engine

variable {e : Engine} {k : Nat}

/-- Whether nothing is kept for an instance. -/
structure Forgets (e : Engine) (n : Nat) : Prop where
  namespaces : ∀ ns, (n, ns) ∉ e.namespaces
  latest : ∀ p, Registry.get? e.latest p ≠ some n

theorem mem_keep {ns' : Namespace} : (n, ns) ∈ (e.keep p k ns').namespaces ↔
    n ≠ k ∧ (n, ns) ∈ e.namespaces ∨ n = k ∧ ns = ns' := by
  simp [keep, and_comm]

theorem mem_release : (n, ns) ∈ (e.release p k).namespaces ↔ n ≠ k ∧ (n, ns) ∈ e.namespaces := by
  simp [release, and_comm]

theorem Forgets.keep (h : e.Forgets n) (hk : n ≠ k) (p : Path) (ns : Namespace) :
    (e.keep p k ns).Forgets n where
  namespaces ns' hm := by
    rcases mem_keep.mp hm with ⟨-, hm⟩ | ⟨hn, -⟩
    · exact h.namespaces ns' hm
    · exact hk hn
  latest q hq := by
    rw [Engine.keep, Registry.get?_register] at hq
    split at hq
    · exact hk (Option.some.inj hq).symm
    · exact h.latest q hq

theorem Forgets.release (h : e.Forgets n) (p : Path) (k : Nat) : (e.release p k).Forgets n where
  namespaces ns hm := h.namespaces ns (mem_release.mp hm).2
  latest q hq := by
    rw [Engine.release, Registry.get?_unregister] at hq
    split at hq
    · cases hq
    · exact h.latest q hq

/-- What is released is forgotten, if it was the latest at its own path only. -/
theorem forgets_release (hp : ∀ q, Registry.get? e.latest q = some n → q = p) :
    (e.release p n).Forgets n where
  namespaces ns hm := (mem_release.mp hm).1 rfl
  latest q hq := by
    rw [Engine.release, Registry.get?_unregister] at hq
    split at hq
    · cases hq
    · rename_i hnot
      obtain rfl := hp q hq
      exact hnot ⟨rfl, hq⟩

end Engine

/-- Only a body that comes to its end, and the release of a context, concern
what the engine keeps. -/
theorem Step.engine (h : Step R m m') : m'.world.engine = m.world.engine ∨
    (∃ k s ns, .body k ∈ m.duties ∧ m.world.script? k = some s ∧
      m'.world.script? = m.world.script? ∧
      m'.world.engine = m.world.engine.keep s.path k ns) ∨
    ∃ k p, .ending k false ∈ m.duties ∧ m'.world.engine = m.world.engine.release p k := by
  cases h with
  | calm h ht =>
    refine Or.inl ?_
    rw [h.frame]
  | scriptWatch paths h =>
    refine Or.inl ?_
    rw [(ends_scriptWatch ..).1.frame]
  | scriptUnwatch paths h =>
    refine Or.inl ?_
    rw [(ends_scriptUnwatch ..).1.frame]
  | watchPaths paths h => exact Or.inl (operated_watchPaths ..).engine
  | unwatchPaths paths h => exact Or.inl (operated_unwatchPaths ..).engine
  | plan ho ht hf hm =>
    refine Or.inl ?_
    rw [hm.frame, ht.frame]
    rfl
  | complete ns hs => exact Or.inr (Or.inl ⟨_, _, ns, List.mem_cons_self .., hs, rfl, rfl⟩)
  | release hs hc => exact Or.inr (Or.inr ⟨_, _, List.mem_cons_self .., rfl⟩)
  | _ => exact Or.inl rfl

/-- The variables that the engine keeps for an instance depend on its body and
its termination alone. -/
theorem Step.variables_iff (h : Step R m m') (hd : ∀ d ∈ m.duties, ¬d.isOf n) :
    (n, ns) ∈ m'.world.engine.namespaces ↔ (n, ns) ∈ m.world.engine.namespaces := by
  rcases h.engine with he | ⟨k, s, ns', hk, -, -, he⟩ | ⟨k, p, hk, he⟩
  · rw [he]
  · have hne : n ≠ k := fun hn => hd _ hk (hn ▸ Duty.isOf_body k)
    rw [he, Engine.mem_keep]
    simp [hne]
  · have hne : n ≠ k := fun hn => hd _ hk (hn ▸ Duty.isOf_ending k false)
    rw [he, Engine.mem_release]
    simp [hne]

/-! Who lists and is kept something. -/

/-- Whether only instances that were started list paths, and the engine keeps something only for
such instances, at their own paths. -/
structure Moment.IsAttributed (m : Moment) : Prop where
  body : ∀ n, .body n ∈ m.duties → ∃ s, m.world.script? n = some s ∧ s.hasContext = true
  listed : ∀ n p, m.world.Lists n p → ∃ s, m.world.script? n = some s ∧ s.hasContext = true
  namespaces : ∀ n ns, (n, ns) ∈ m.world.engine.namespaces → ∃ s, m.world.script? n = some s ∧
    s.hasContext = true
  latest : ∀ n p, Registry.get? m.world.engine.latest p = some n →
    ∃ s, m.world.script? n = some s ∧ s.hasContext = true ∧ s.path = p

theorem Moment.IsAttributed.forgets (h : m.IsAttributed) {s : Script}
    (hs : m.world.script? n = some s) (hc : s.hasContext = false) : m.world.engine.Forgets n where
  namespaces ns hm := by
    obtain ⟨t, ht, hcontext⟩ := h.namespaces n ns hm
    obtain rfl : t = s := Option.some.inj (ht.symm.trans hs)
    rw [hc] at hcontext
    cases hcontext
  latest p hp := by
    obtain ⟨t, ht, hcontext, -⟩ := h.latest n p hp
    obtain rfl : t = s := Option.some.inj (ht.symm.trans hs)
    rw [hc] at hcontext
    cases hcontext

/-- Nothing is kept for an instance once its context, if it has one, is released. -/
theorem Moment.IsAttributed.forgets_released (h : m.IsAttributed) {s : Script}
    (hs : m.world.script? n = some s) :
    (if s.hasContext then m.world.engine.release s.path n else m.world.engine).Forgets n := by
  cases hc : s.hasContext with
  | false => exact h.forgets hs hc
  | true =>
    refine Engine.forgets_release fun q hq => ?_
    obtain ⟨t, ht, -, hp⟩ := h.latest n q hq
    obtain rfl : t = s := Option.some.inj (ht.symm.trans hs)
    exact hp.symm

/-- Whoever was started has been started for ever. -/
theorem Step.hasContext (h : Step R m m') (ho : m.IsOrderly R) {s : Script}
    (hs : m.world.script? n = some s) (hc : s.hasContext = true) :
    ∃ s', m'.world.script? n = some s' ∧ s'.hasContext = true ∧ s'.path = s.path := by
  obtain ⟨s', hs', hturns⟩ := h.turns ho hs
  have hne : s.state ≠ .created := fun hcreated => by
    rw [(ho.accounted n s hs).created hcreated] at hc
    cases hc
  exact ⟨s', hs', (hturns.context hne).trans hc, hturns.path⟩

theorem Step.isAttributed (h : Step R m m') (ho : m.IsOrderly R) (ha : m.IsAttributed) :
    m'.IsAttributed := by
  have hkept {n : Nat} (hn : ∃ s, m.world.script? n = some s ∧ s.hasContext = true) :
      ∃ s, m'.world.script? n = some s ∧ s.hasContext = true := by
    obtain ⟨s, hs, hc⟩ := hn
    obtain ⟨s', hs', hc', -⟩ := h.hasContext ho hs hc
    exact ⟨s', hs', hc'⟩
  have hlatest {n : Nat} {p : Path} (hn : Registry.get? m.world.engine.latest p = some n) :
      ∃ s, m'.world.script? n = some s ∧ s.hasContext = true ∧ s.path = p := by
    obtain ⟨s, hs, hc, rfl⟩ := ha.latest n p hn
    exact h.hasContext ho hs hc
  refine ⟨fun n hb => ?_, fun n p hl => ?_, fun n ns hm => ?_, fun n p hn => ?_⟩
  · rcases h.body hb with hb | ⟨-, s, hs, -, hc⟩
    · exact hkept (ha.body n hb)
    · exact ⟨s, hs, hc⟩
  · exact hkept ((h.listed hl).elim (ha.listed n p) (ha.body n))
  · rcases h.engine with he | ⟨k, s, ns', hk, -, -, he⟩ | ⟨k, q, -, he⟩ <;> rw [he] at hm
    · exact hkept (ha.namespaces n ns hm)
    · rcases Engine.mem_keep.mp hm with ⟨-, hm⟩ | ⟨rfl, -⟩
      · exact hkept (ha.namespaces n ns hm)
      · exact hkept (ha.body n hk)
    · exact hkept (ha.namespaces n ns (Engine.mem_release.mp hm).2)
  · rcases h.engine with he | ⟨k, s, ns', hk, hs, -, he⟩ | ⟨k, q, -, he⟩ <;> rw [he] at hn
    · exact hlatest hn
    · rw [Engine.keep, Registry.get?_register] at hn
      split at hn
      · rename_i hp
        obtain rfl : k = n := Option.some.inj hn
        obtain ⟨t, ht, hc⟩ := ha.body k hk
        obtain rfl : t = s := Option.some.inj (ht.symm.trans hs)
        exact hp ▸ h.hasContext ho ht hc
      · exact hlatest hn
    · rw [Engine.release, Registry.get?_unregister] at hn
      split at hn
      · cases hn
      · exact hlatest hn

theorem Walk.isAttributed (h : Walk R m m') (hs : m.IsSane) (ho : m.IsOrderly R)
    (ha : m.IsAttributed) :
    m'.IsAttributed := by
  induction h with
  | refl => exact ha
  | tail hw h ih => exact h.isAttributed (Walk.isOrderly hw hs ho) ih

/-! What does not change any more. -/

/-- What an instance holds that is terminated, and whose body does not run, it holds for ever. -/
theorem Walk.holdings (h : Walk R m m') (hs : m.IsSane) (ho : m.IsOrderly R) (hr : m.HasRun n)
    {s : Script} (hn : m.world.script? n = some s) (ht : s.state = .terminated) :
    (∃ s', m'.world.script? n = some s' ∧ s'.state = .terminated) ∧
      (∀ p, m'.world.Lists n p ↔ m.world.Lists n p) ∧
      ∀ ns, (n, ns) ∈ m'.world.engine.namespaces ↔ (n, ns) ∈ m.world.engine.namespaces := by
  suffices hall : m'.HasRun n ∧ (∃ s', m'.world.script? n = some s' ∧ s'.state = .terminated) ∧
      (∀ p, m'.world.Lists n p ↔ m.world.Lists n p) ∧
      ∀ ns, (n, ns) ∈ m'.world.engine.namespaces ↔ (n, ns) ∈ m.world.engine.namespaces from hall.2
  induction h with
  | refl => exact ⟨hr, ⟨s, hn, ht⟩, fun _ => Iff.rfl, fun _ => Iff.rfl⟩
  | @tail m₁ m₂ hw h ih =>
    obtain ⟨hr₁, ⟨s₁, hs₁, ht₁⟩, hlists, hvariables⟩ := ih
    have ho₁ := Walk.isOrderly hw hs ho
    -- neither its body nor its termination is under way, and nothing else changes what it holds
    have hfree : ∀ d ∈ m₁.duties, ¬d.isOf n := by
      intro d hd hof
      cases d with
      | commit c => exact hof
      | body k => exact hr₁.body ((show k = n from hof) ▸ hd)
      | ending k released =>
        obtain rfl : k = n := hof
        have hending := (ho₁.accounted k s₁ hs₁).ending released hd
        rw [ht₁] at hending
        cases hending
    refine ⟨h.hasRun hr₁, ?_, fun p => (h.lists_iff hfree).trans (hlists p), fun ns =>
      (h.variables_iff hfree).trans (hvariables ns)⟩
    obtain ⟨s₂, hs₂, hturns⟩ := h.turns ho₁ hs₁
    refine ⟨s₂, hs₂, ?_⟩
    rcases hturns.state with hsame | hnext
    · exact hsame.trans ht₁
    · rw [ht₁] at hnext
      cases hnext

/-! What is kept while something is being done. -/

/-- Whether the script at a path never asks the host for a cycle or a shutdown. -/
def Regime.IsPassive (R : Regime) (root p : Path) : Prop :=
  ∀ w : World, IsTame R w → w.root = root → ∀ action ∈ w.bodyOf p, ∀ request, action.Asks request →
    ¬request.Drives

/-- What instances, claims and the engine have to do with one another at a moment. -/
structure Moment.IsProper (R : Regime) (root : Path) (c : Path → Option Path) (m : Moment) :
    Prop where
  sane : m.IsSane
  orderly : m.IsOrderly R
  attributed : m.IsAttributed
  covered : m.world.IsCovered R root c (fun _ => False) fun _ => 0

theorem Walk.isProper {root : Path} {c : Path → Option Path} (h : Walk R m m')
    (hR : R.IsFirm root c) (hm : m.IsProper R root c) : m'.IsProper R root c where
  sane := Walk.isSane h hm.sane
  orderly := Walk.isOrderly h hm.sane hm.orderly
  attributed := Walk.isAttributed h hm.sane hm.orderly hm.attributed
  covered := Walk.isCovered h hR (fun _ _ _ _ _ _ _ hf => hf.elim) (fun _ _ => id) hm.covered

namespace World

/-- Whether the body of an instance does not go on once the instance is torn down: it has come to
its end in a certain world, where the instance is not torn down, or it never started, or it does
nothing that ends instances. -/
def IsTimely (R : Regime) (w₁ : World) (n : Nat) (s : Script) : Prop :=
  w₁.IsPast n ∧ w₁.IsLive n ∨ s.hasContext = false ∨ R.IsPassive w₁.root s.path

/-- What has become of terminated instances since a world in which nothing was being done. -/
structure Relinquishing (R : Regime) (w₁ : World) (K : List Duty) (w : World) : Prop where
  reached : Reached R ⟨w₁, []⟩ K w
  sealed : ∀ n s, w.script? n = some s → s.state = .terminated → s.resources.IsSealed
  emptied : ∀ n s, w.script? n = some s → s.state = .terminated → w₁.IsTimely R n s →
    s.claims.paths = [] ∧ w.engine.Forgets n

namespace Relinquishing

variable {w₁ : World} {K' : List Duty} {root : Path} {c : Path → Option Path} {E : Failure → Prop}
  {s : Script}

/-- Nothing that concerns a terminated instance changes. -/
theorem transfer (h : Relinquishing R w₁ K w) (hr : Reached R ⟨w₁, []⟩ K' w')
    (he : w'.engine = w.engine)
    (hs : ∀ n s, w'.script? n = some s → s.state = .terminated → w.script? n = some s) :
    Relinquishing R w₁ K' w' where
  reached := hr
  sealed n s hn ht := h.sealed n s (hs n s hn ht) ht
  emptied n s hn ht htimely := by
    rw [he]
    exact h.emptied n s (hs n s hn ht) ht htimely

theorem step (h : Relinquishing R w₁ K w) (hstep : Step R ⟨w, K⟩ ⟨w', K'⟩) (ht : IsTame R w')
    (he : w'.engine = w.engine) (hs : w'.script? = w.script?) : Relinquishing R w₁ K' w' :=
  h.transfer (h.reached.step hstep ht) he fun n s hn _ => by rwa [hs] at hn

theorem calm (h : Relinquishing R w₁ K w) (hc : Calm w w') (ht : IsTame R w') :
    Relinquishing R w₁ K w' :=
  h.step (.calm hc ht.tree) ht (by rw [hc.frame]) (by rw [hc.frame]; rfl)

/-- An instance is relieved of what it lists and holds, and no other is touched. -/
theorem unburdened {state : ScriptState} {engine : Engine} (h : Relinquishing R w₁ K w)
    (hu : Unburdened n s state engine w w') (hs : w.script? n = some s)
    (hr : Reached R ⟨w₁, []⟩ K' w') (hforgets : ∀ k, w.engine.Forgets k → engine.Forgets k)
    (hself : state = .terminated → (leftover s w).paths = [] ∧ engine.Forgets n) :
    Relinquishing R w₁ K' w' := by
  obtain ⟨resources, hsealed, ha⟩ := hu
  have hengine : w'.engine = engine := by rw [ha.frame]
  refine ⟨hr, fun k t hk ht => ?_, fun k t hk ht htimely => ?_⟩
  · by_cases hn : n = k
    · subst hn
      rw [ha.script? hs] at hk
      cases hk
      exact hsealed
    · exact h.sealed k t ((ha.others hn).symm.trans hk) ht
  · rw [hengine]
    by_cases hn : n = k
    · subst hn
      rw [ha.script? hs] at hk
      cases hk
      exact hself ht
    · obtain ⟨hempty, hnone⟩ := h.emptied k t ((ha.others hn).symm.trans hk) ht htimely
      exact ⟨hempty, hforgets k hnone⟩

section Proper

variable (hR : R.IsFirm root c) (hm : IsProper R root c ⟨w₁, []⟩)
include hR hm

/-- An instance that is terminated, timely or not, holds nothing as yet. -/
theorem ends_terminate {toTerminate : List Nat}
    (h : Relinquishing R w₁ (.commit ⟨[], n :: toTerminate⟩ :: K) w) :
    Ends (fun w' => Relinquishing R w₁ (.commit ⟨[], toTerminate⟩ :: K) w' ∧
      (w.isClosed = true → w'.isClosed = true)) Ordinary (terminate n w) := by
  have hproper := Walk.isProper h.reached.walk hR hm
  have hreached := (Reached.sustains R ⟨w₁, []⟩).terminate h.reached
  obtain ⟨s, hs, hscript⟩ := h.reached.known_toTerminate
  by_cases ho : s.isOver = true
  · have hover : terminate n w = (.ok true, w) := by
      rw [terminate, bind_of_ok hscript, if_pos ho]
      rfl
    rw [hover] at hreached ⊢
    exact ends_ok ⟨h.transfer hreached.1.1 rfl fun _ _ hn _ => hn, id⟩
  · obtain ⟨hends, hfails⟩ := ends_ended (h.reached.tame.resources s (List.mem_of_getElem? hs)) hs
      (Bool.eq_false_iff.mpr ho)
    refine ⟨⟨?_, hreached.1.2⟩, fun e he => (hfails e he).1⟩
    rcases hends with hended | ⟨-, habandoned⟩
    · refine h.unburdened hended hs hreached.1.1 (fun k hk => ?_) fun _ =>
        ⟨?_, hproper.attributed.forgets_released hs⟩
      · split
        · exact hk.release s.path n
        · exact hk
      · -- its paths are their own canonical forms, so every one of them is found among the
        -- paths to give up
        obtain ⟨hnodup, hfirm⟩ := hproper.covered.listed hs
        refine leftover_of_settled hnodup ?_
        rw [hproper.covered.form? hR]
        exact hfirm
    · exact h.unburdened habandoned hs hreached.1.1 (fun _ => id) ScriptState.noConfusion

/-- The changes that the host makes concern no terminated instance, but for terminations. -/
theorem sustains : Sustains R (Relinquishing R w₁) where
  sane h := h.reached.sane
  tame h := h.reached.tame
  calm h hc ht := h.calm hc.calm ht
  plan h ho ht hf hmade htame := by
    refine h.transfer (h.reached.step (.plan ho ht hf hmade) htame) ?_ fun n s hs hterminated => ?_
    · rw [hmade.frame, ht.frame]
      rfl
    · rcases (hmade.grown ht).script?_cases hf.nodup hs with hs | ⟨-, -, -, w₂, hw₂⟩
      · exact hs
      · rw [hw₂] at hterminated
        cases hterminated
  enqueue h := h.step .enqueue (h.reached.tame.transfer rfl rfl rfl rfl rfl) rfl rfl
  dequeue i h hc := h.step (.dequeue i hc) (h.reached.tame.transfer rfl rfl rfl rfl rfl) rfl rfl
  refuse h := h.step .refuse h.reached.tame rfl rfl
  done h := h.step .done h.reached.tame rfl rfl
  watchPaths {_ w paths} h hp :=
    have ho := operated_watchPaths paths w
    h.step (.watchPaths _ hp) (h.reached.tame.operated ho) ho.engine ho.script?
  unwatchPaths {_ w paths} h hp :=
    have ho := operated_unwatchPaths paths w
    h.step (.unwatchPaths _ hp) (h.reached.tame.operated ho) ho.engine ho.script?
  close h hcloses ho :=
    h.step (.close hcloses ho) (h.reached.tame.transfer rfl rfl rfl rfl rfl) rfl rfl
  clear h hcloses hc :=
    h.step (.clear hcloses hc) (h.reached.tame.transfer rfl rfl rfl rfl rfl) rfl rfl
  terminate h := h.ends_terminate hR hm

end Proper

end Relinquishing

/-- What has become of terminated instances while the body of the script at a path runs that was
started at a moment. -/
structure Attending (R : Regime) (w₁ : World) (n : Nat) (p : Path) (K : List Duty) (w₀ w : World) :
    Prop where
  relinquishing : Relinquishing R w₁ (.body n :: K) w
  since : Reached R ⟨w₀, .body n :: K⟩ (.body n :: K) w
  path : ∀ s, w.script? n = some s → s.path = p
  live : R.IsPassive w₁.root p → w.IsLive n

section Proper

variable {w₁ : World} {root : Path} {c : Path → Option Path} {E : Failure → Prop} {s : Script}
  (hR : R.IsFirm root c) (hm : IsProper R root c ⟨w₁, []⟩)
include hR hm

/-- An instance that is terminated while its body runs is not timely. -/
theorem not_timely (h : Reached R ⟨w₁, []⟩ K w) (hb : .body n ∈ K) (hs : w.script? n = some s)
    (ht : s.state = .terminated) (hlive : R.IsPassive w₁.root s.path → w.IsLive n) :
    ¬w₁.IsTimely R n s := by
  -- whoever has had its run has no body any more, whoever has a body was started, and a passive
  -- body
  -- ends nobody, least of all its own instance
  rintro (⟨hpast, -⟩ | hc | hp)
  · have hrun : HasRun ⟨w₁, []⟩ n := ⟨hpast, List.not_mem_nil⟩
    exact (Walk.hasRun h.walk hrun).body hb
  · obtain ⟨t, hn, hcontext⟩ := (Walk.isProper h.walk hR hm).attributed.body n hb
    obtain rfl : s = t := Option.some.inj (hs.symm.trans hn)
    rw [hc] at hcontext
    cases hcontext
  · obtain ⟨t, hn, hnot⟩ := hlive hp
    obtain rfl : s = t := Option.some.inj (hs.symm.trans hn)
    exact (not_over hnot).2 ht

namespace Attending

theorem not_timely (h : Attending R w₁ n p K w₀ w) (hs : w.script? n = some s)
    (ht : s.state = .terminated) :
    ¬w₁.IsTimely R n s :=
  World.not_timely hR hm h.relinquishing.reached (List.mem_cons_self ..) hs ht
    (h.path s hs ▸ h.live)

/-- The instance whose body runs changes, and no other. -/
theorem change (h : Attending R w₁ n p K w₀ w)
    (hstep : Step R ⟨w, .body n :: K⟩ ⟨w', .body n :: K⟩) (ht : IsTame R w')
    (he : w'.engine = w.engine) (hother : ∀ k, n ≠ k → w'.script? k = w.script? k)
    (hself : ∀ s', w'.script? n = some s' → ∃ s, w.script? n = some s ∧ s'.path = s.path ∧
      s'.state = s.state ∧ (s.resources.IsSealed → s'.resources.IsSealed)) :
    Attending R w₁ n p K w₀ w' := by
  have hreached := h.relinquishing.reached.step hstep ht
  have hpath (s' : Script) (hs' : w'.script? n = some s') : s'.path = p := by
    obtain ⟨s, hs, hp, -⟩ := hself s' hs'
    exact hp.trans (h.path s hs)
  have hlive (hp : R.IsPassive w₁.root p) : w'.IsLive n := by
    obtain ⟨s, hs, hnot⟩ := h.live hp
    obtain ⟨s', hs', -⟩ := hstep.script? hs
    obtain ⟨t, ht, -, hstate, -⟩ := hself s' hs'
    obtain rfl : s = t := Option.some.inj (hs.symm.trans ht)
    refine ⟨s', hs', ?_⟩
    rwa [Script.isOver, hstate]
  refine ⟨⟨hreached, fun k t hk hterminated => ?_, fun k t hk hterminated htimely => ?_⟩,
    h.since.step hstep ht, hpath, hlive⟩
  · by_cases hn : n = k
    · subst hn
      obtain ⟨s, hs, -, hstate, hsealed⟩ := hself t hk
      exact hsealed (h.relinquishing.sealed n s hs (hstate.symm.trans hterminated))
    · exact h.relinquishing.sealed k t ((hother k hn).symm.trans hk) hterminated
  · by_cases hn : n = k
    · subst hn
      have hnot := World.not_timely hR hm hreached (List.mem_cons_self ..) hk hterminated
        (hpath t hk ▸ hlive)
      exact absurd htimely hnot
    · rw [he]
      exact h.relinquishing.emptied k t ((hother k hn).symm.trans hk) hterminated htimely

theorem unchanged (h : Attending R w₁ n p K w₀ w)
    (hstep : Step R ⟨w, .body n :: K⟩ ⟨w', .body n :: K⟩) (ht : IsTame R w')
    (he : w'.engine = w.engine) (hs : w'.script? = w.script?) : Attending R w₁ n p K w₀ w' := by
  refine h.change hR hm hstep ht he (fun k _ => by rw [hs]) fun s hn => ⟨s, ?_, rfl, rfl, id⟩
  rwa [hs] at hn

theorem modify (h : Attending R w₁ n p K w₀ w) (f : Script → Script)
    (hstep : Step R ⟨w, .body n :: K⟩ ⟨{ w with scripts := w.scripts.modify n f }, .body n :: K⟩)
    (ht : ∀ s, s.resources.IsTame R → (f s).resources.IsTame R)
    (hf : ∀ s, w.script? n = some s → (f s).path = s.path ∧ (f s).state = s.state ∧
      (s.resources.IsSealed → (f s).resources.IsSealed)) :
    Attending R w₁ n p K w₀ { w with scripts := w.scripts.modify n f } := by
  refine h.change hR hm hstep (h.since.tame.modify n f ht)
    rfl (fun k hk => script?_other f hk) fun s' hs' => ?_
  rw [script?_modify, if_pos rfl] at hs'
  obtain ⟨s, hs, rfl⟩ := Option.map_eq_some_iff.mp hs'
  exact ⟨s, hs, hf s hs⟩

theorem reclaimed (h : Attending R w₁ n p K w₀ w)
    (hstep : Step R ⟨w, .body n :: K⟩ ⟨w', .body n :: K⟩) (hr : Reclaimed n w w') :
    Attending R w₁ n p K w₀ w' := by
  refine h.change hR hm hstep (Reached.tame_reclaimed h.since.tame hr) (by rw [hr.frame])
    (fun k hk => hr.confined.others k fun hn => hk hn.symm) fun s' hs' => ?_
  obtain ⟨s, hs, he⟩ := hr.script? hs'
  rw [he]
  exact ⟨s, hs, rfl, rfl, id⟩

theorem admits : Admits R n (Attending R w₁ n p K w₀) where
  tame _ h := h.since.tame
  known _ h := by
    obtain ⟨s, hs, -⟩ :=
      h.since.script_of_known (mem_numbers_cons.mpr (Or.inl (List.mem_singleton.mpr rfl)))
    exact ⟨s, hs⟩
  nearby _ _ h hl ht :=
    h.unchanged hR hm (.calm hl.calm ht.tree) ht (by rw [hl.frame]) (by rw [hl.frame]; rfl)
  declare _ f h hf := by
    refine h.modify hR hm f (.amend f fun s => by rw [hf s])
      (fun s hs => by rwa [hf s]) fun s _ => ?_
    rw [hf s]
    exact ⟨rfl, rfl, id⟩
  allocate _ s resources h hs hb := by
    refine h.modify hR hm ({ · with resources }) (.allocate resources (Duty.isOf_body n))
      (fun _ _ => hb.tame)
      fun t ht => ⟨rfl, rfl, ?_⟩
    obtain rfl : s = t := Option.some.inj (hs.symm.trans ht)
    exact hb.sealed
  unwatch w paths h :=
    h.reclaimed hR hm (.scriptUnwatch paths (Duty.isOf_body n)) (ends_scriptUnwatch n paths w).1

theorem scriptWatch (w : World) (paths : List Path) (h : Attending R w₁ n p K w₀ w)
    (hp : ∀ q ∈ paths, R.spells q) :
    Attending R w₁ n p K w₀ (scriptWatch n paths w).2 :=
  h.reclaimed hR hm (.scriptWatch paths hp) (ends_scriptWatch n paths w).1

/-- What the host is asked for but cycles and a shutdown ends no instance. -/
theorem abides : Abides R (Attending R w₁ n p K w₀) where
  tame h := h.since.tame
  framed h hf ht :=
    h.unchanged hR hm (.calm hf.calm ht.tree) ht (by rw [hf.frame]) (by rw [hf.frame]; rfl)
  polling h _ _ :=
    h.unchanged hR hm (.calm ⟨rfl, rfl⟩ h.since.tame.tree)
      (h.since.tame.transfer rfl rfl rfl rfl rfl) rfl rfl
  watchPaths {w paths} h hp :=
    have ho := operated_watchPaths paths w
    h.unchanged hR hm (.watchPaths _ hp) (h.since.tame.operated ho) ho.engine ho.script?
  unwatchPaths {w paths} h hp :=
    have ho := operated_unwatchPaths paths w
    h.unchanged hR hm (.unwatchPaths _ hp) (h.since.tame.operated ho) ho.engine ho.script?

/-- What its body raised is kept with the instance. -/
theorem blame (h : Attending R w₁ n p K w₀ w) (e : Failure) :
    Attending R w₁ n p K w₀ { w with scripts := w.scripts.modify n ({ · with error := some e }) } :=
  h.modify hR hm ({ · with error := some e }) (.amend ({ · with error := some e }) fun _ => rfl)
    (fun _ hs => hs)
    fun _ _ => ⟨rfl, rfl, id⟩

/-- A body that comes to its end leaves its variables, and those of no other instance. -/
theorem complete (h : Attending R w₁ n p K w₀ w) (ns : Namespace) :
    Relinquishing R w₁ K { w with engine := w.engine.keep p n ns } := by
  obtain ⟨s, hs⟩ := (admits hR hm).known w h
  have hstep := Step.complete (R := R) (K := K) ns hs
  rw [h.path s hs] at hstep
  refine ⟨h.relinquishing.reached.step hstep (h.since.tame.transfer rfl rfl rfl rfl rfl),
    h.relinquishing.sealed, fun k t hk ht htimely => ?_⟩
  by_cases hn : k = n
  · subst hn
    exact absurd htimely (h.not_timely hR hm hk ht)
  · obtain ⟨hempty, hforgets⟩ := h.relinquishing.emptied k t hk ht htimely
    exact ⟨hempty, hforgets.keep hn p ns⟩

end Attending

/-- Running an instance makes no timely instance hold anything. -/
theorem Relinquishing.runs (depth : Nat) (ha : Answers R (Relinquishing R w₁) (hostAt depth)) :
    Runs (Relinquishing R w₁) (hostAt depth) := by
  intro n toRun toTerminate K w h
  obtain ⟨s, hs, hscript⟩ := h.reached.known_toRun
  by_cases hc : s.state = .created
  · have hstart : Relinquishing R w₁ (.body n :: .commit ⟨toRun, toTerminate⟩ :: K)
      (w.started n s) := by
      refine h.transfer (h.reached.step (.start hs hc) (Reached.tame_started h.reached.tame n s))
        rfl
        fun k t hk ht => ?_
      by_cases hn : n = k
      · subst hn
        rw [script?_started hs] at hk
        cases hk
        cases ht
      · exact (script?_other _ hn).symm.trans hk
    have hpath
      {v : World} (hv : Reached R ⟨w.started n s, .body n :: .commit ⟨toRun, toTerminate⟩ :: K⟩
        (.body n :: .commit ⟨toRun, toTerminate⟩ :: K) v) (t : Script) (ht : v.script? n = some t) :
        t.path = s.path := by
      obtain ⟨t', ht', hp⟩ := Walk.script? hv.walk (script?_started hs)
      obtain rfl : t' = t := Option.some.inj (ht'.symm.trans ht)
      exact hp
    have hattending : Attending R w₁ n s.path (.commit ⟨toRun, toTerminate⟩ :: K) (w.started n s)
      (w.started n s) :=
      ⟨hstart, hstart.reached.restart, hpath hstart.reached.restart, fun _ =>
        ⟨_, script?_started hs, rfl⟩⟩
    refine (Attending.admits hR hm).ends_run (Attending.scriptWatch hR hm) hs hattending
      (fun action hmem request hasks hallowed hnamed => ?_) hc (fun v e hv => hv.blame hR hm e)
        (fun v ns hv => hv.complete hR hm ns) fun v hv => ?_
    · -- a passive body asks for nothing that ends its instance; any other may, and is not
      -- timely then
      by_cases hp : R.IsPassive w₁.root s.path
      · have hdrives := hp w h.reached.tame (Walk.root h.reached.walk) action hmem request hasks
        exact (Attending.abides hR hm).keeps_hostAt hdrives hallowed hnamed depth
      · intro v hv
        have hboth := (ha _ request hallowed hnamed v hv.relinquishing).and
          (Reached.serves_hostAt depth _ _ request hallowed hnamed v hv.since)
        exact hboth.imp fun v' hv' => ⟨hv'.1, hv'.2, hpath hv'.2, fun h => absurd h hp⟩
    · exact hv.relinquishing.step .fail hv.since.tame rfl rfl
  · rw [run, bind_of_ok hscript, if_pos hc]
    exact (sustains hR hm).keeps_log _ _ _ _ w (h.step (.skip hs hc) h.reached.tame rfl rfl)

end Proper

/-- What terminated instances hold when nothing is being done, some time after
a world of that kind. -/
structure Relinquished (R : Regime) (w₁ w : World) : Prop where
  /-- Resources are closed, whatever came late. -/
  sealed : ∀ n s, w.script? n = some s → s.state = .terminated → s.resources.IsSealed
  /-- Whoever lists a path has a claim on it, and nobody else has. -/
  counted : ∀ p, w.claims.count p ≤ listings w.owners p
  /-- An instance whose body has not gone on lists nothing, and the engine keeps nothing for it. -/
  emptied : ∀ n s, w.script? n = some s → s.state = .terminated → w₁.IsTimely R n s →
    s.claims.paths = [] ∧ w.engine.Forgets n
  /-- What is still held, is held for ever. -/
  settled : ∀ n s, w₁.script? n = some s → s.state = .terminated →
    (∀ p, w.Lists n p ↔ w₁.Lists n p) ∧
    ∀ ns, (n, ns) ∈ w.engine.namespaces ↔ (n, ns) ∈ w₁.engine.namespaces
  /-- Once the host was shut down and its commits were carried out, the engine keeps nothing, if no
  termination is given up. -/
  contexts : ¬R.abandons → w.isClosed = true → w.tasks = [] →
    (∀ n s, w.script? n = some s → w₁.IsTimely R n s) → w.engine.contextCount = 0

theorem IsNew.isProper {c : Path → Option Path} (hnew : w.IsNew)
    (htarget : w.claimTarget = .counted) (hengine : w.engine = {}) (htame : IsTame R w) :
    IsProper R w.root c ⟨w, []⟩ := by
  have hnone (n : Nat) : w.script? n = none := by
    rw [script?, hnew.scripts]
    rfl
  have hbalanced : w.IsBalanced R w.root c := hnew.isBalanced htarget htame.tree
  refine ⟨hnew.isSane, hnew.isOrderly,
    ⟨fun n hb => ?_, fun n p hl => ?_, fun n ns hm => ?_, fun n p hp => ?_⟩,
    ⟨hbalanced.root, hbalanced.tree, hbalanced.target, ?_⟩⟩
  · cases hb
  · obtain ⟨s, hs, -⟩ := hl
    rw [hnone] at hs
    cases hs
  · rw [hengine] at hm
    cases hm
  · rw [hengine] at hp
    cases hp
  · have hcovered := hbalanced.balanced.covered
    exact ⟨hcovered.kept, hcovered.most, fun _ hf => hf.elim, hcovered.once, hcovered.firm⟩

/-- What is known at one time is known since that time. -/
theorem Relinquishing.restart {w₁ : World} (h : Relinquishing R w₁ [] w) :
    Relinquishing R w [] w := by
  refine ⟨h.reached.restart, h.sealed, fun n s hs ht htimely => h.emptied n s hs ht ?_⟩
  rcases htimely with ⟨-, t, hn, hlive⟩ | htimely
  · obtain rfl : s = t := Option.some.inj (hs.symm.trans hn)
    exact absurd ht (not_over hlive).2
  · exact Or.inr (htimely.imp_right fun hp => Walk.root h.reached.walk ▸ hp)

/-- The engine of a host that is done keeps nothing if every instance is timely. -/
theorem Relinquishing.contextCount {w₁ : World} {root : Path} {c : Path → Option Path}
    (h : Relinquishing R w₁ [] w) (hproper : IsProper R root c ⟨w, []⟩) (ha : ¬R.abandons)
    (hc : w.isClosed = true) (htasks : w.tasks = [])
    (htimely : ∀ n s, w.script? n = some s → w₁.IsTimely R n s) : w.engine.contextCount = 0 := by
  refine List.length_eq_zero_iff.mpr (List.eq_nil_iff_forall_not_mem.mpr ?_)
  rintro ⟨n, ns⟩ hm
  obtain ⟨s, hs, -⟩ := hproper.attributed.namespaces n ns hm
  have hrest := hproper.orderly.atRest hproper.sane.registered hs
  have hterminated := hrest.terminated ha (hproper.orderly.closed hc) htasks
  exact (h.emptied n s hs hterminated (htimely n s hs)).2.namespaces ns hm

/-- A terminated instance holds nothing if its body has ended before, whatever other bodies do. -/
theorem relinquished {c : Path → Option Path} {w₁ : World} (hnew : w₀.IsNew)
    (htarget : w₀.claimTarget = .counted) (hengine : w₀.engine = {}) (hR : R.IsFirm w₀.root c)
    (hx : ¬R.direct) (htame : IsTame R w₀) (h₁ : History R w₀ w₁) (h : History R w₁ w) :
    Relinquished R w₁ w := by
  have hproper₀ : IsProper R w₀.root c ⟨w₀, []⟩ := hnew.isProper htarget hengine htame
  have hnone (n : Nat) (s : Script) (hs : w₀.script? n = some s) : False := by
    rw [script?, hnew.scripts] at hs
    cases hs
  have hbefore : Relinquishing R w₀ [] w₁ :=
    (Relinquishing.sustains hR hproper₀).of_history (Relinquishing.runs hR hproper₀)
      Relinquishing.calm hx h₁
      ⟨⟨.refl, hnew.isSane, htame⟩, fun n s hs => (hnone n s hs).elim, fun n s hs =>
        (hnone n s hs).elim⟩
  -- what holds up to the first world is known there of every instance that is terminated by then
  have hproper₁ := Walk.isProper hbefore.reached.walk hR hproper₀
  have hafter : Relinquishing R w₁ [] w :=
    (Relinquishing.sustains hR hproper₁).of_history (Relinquishing.runs hR hproper₁)
      Relinquishing.calm hx h
      hbefore.restart
  have hproper := Walk.isProper hafter.reached.walk hR hproper₁
  refine ⟨hafter.sealed, hproper.covered.covered.most, hafter.emptied, fun n s hs ht => ?_,
    hafter.contextCount hproper⟩
  have hpast : w₁.IsPast n := ⟨s, hs, by rw [ht]; exact ScriptState.noConfusion⟩
  exact (Walk.holdings hafter.reached.walk hproper₁.sane hproper₁.orderly ⟨hpast, List.not_mem_nil⟩
    hs ht).2

end World

/-- Runs in which the files stay as they are and nothing has a null character, and the
host may be shut down. -/
def Regime.fixed (files : FileTree FileContent) : Regime where
  asks
    | .watch claimed | .unwatch claimed => ∀ p ∈ claimed, (Path.parse p).hasNull = false
    | _ => True
  spells p := p.hasNull = false
  unwatches _ paths := ∀ p ∈ paths, p.hasNull = false
  closes := True
  direct := False
  edits := False
  abandons := False
  tree t := t = files
  spells_of_asks _ h := h
  unwatches_of_asks _ _ h := List.forall_mem_map.mpr h
  closes_of_asks _ := trivial
  tree_of_edits h := h.elim

theorem Regime.isFirm_fixed {files : FileTree FileContent} (hf : files.Holds FileTree.IsNoLink)
    (root : Path) :
    (fixed files).IsFirm root fun p => some (Path.canonical (Path.locate? files.here) root p) where
  forms t ht p := by
    have ht : t = files := ht
    rw [ht, form?_of_plain hf]
  spells _ h := by
    rintro q ⟨rfl⟩
    exact congrArg some (Path.canonical_canonical h)
  unwatches _ _ h p hp := by
    rintro q ⟨rfl⟩
    exact Or.inr (congrArg some (Path.canonical_canonical (h p hp)))

namespace World

/-- A host with a script that claims a path and allocates something. -/
def lodging : World where
  root := ⟨.root, ["s"]⟩
  base := ⟨.root, ["s"]⟩
  files :=
    { here := ⟨.root, []⟩
      nodes :=
        [(["s"], .directory),
        (["s", "a"], .file (.script [.watch ["x"], .defer "closed" none]) 0.0)] }

theorem isTame_lodging : lodging.IsTame (.fixed lodging.files) where
  root := by simp [lodging, Path.hasNull]
  here := by simp [lodging, Path.hasNull]
  nodes := by
    refine List.forall_mem_cons.mpr
      ⟨trivial, List.forall_mem_singleton.mpr ⟨?_, fun e he => ?_, trivial⟩⟩
    · refine List.forall_mem_singleton.mpr ?_
      show Path.hasNull _ = false
      rw [Path.hasNull_eq_false_iff]
      decide
    · cases he
  tree := rfl
  raises x hx := by cases hx
  named x hx := by cases hx
  refusal e he := by cases he
  resources s hs := by cases hs

theorem isPassive_lodging (p : Path) : (Regime.fixed lodging.files).IsPassive lodging.root p := by
  intro w htame _
  have hfiles : w.files = lodging.files := htame.tree
  refine bodyOf_holds
    (P := fun body => ∀ action ∈ body, ∀ request, action.Asks request → ¬request.Drives)
    (by simp) (fun loc body time he => ?_) p
  rw [hfiles] at he
  simp only [lodging, List.mem_cons, List.not_mem_nil, or_false, Prod.mk.injEq, FileNode.file.injEq,
    reduceCtorEq, and_false, false_or, FileContent.script.injEq] at he
  obtain ⟨-, rfl, -⟩ := he
  intro action hm request hasks
  simp only [List.mem_cons, List.not_mem_nil, or_false] at hm
  rcases hm with rfl | rfl <;> exact hasks.elim

/-- The script is run, and ends when the host is shut down. -/
theorem relinquished_lodging :
    Relinquished (.fixed lodging.files) (host .reconcile (host (.watch ["a"]) lodging).2).2
        (host .shutdown (host .reconcile (host (.watch ["a"]) lodging).2).2).2 ∧
      ((host .shutdown (host .reconcile (host (.watch ["a"]) lodging).2).2).2.isClosed = true →
        (host .shutdown (host .reconcile (host (.watch ["a"]) lodging).2).2).2.tasks = [] →
        (host .shutdown (host .reconcile (host (.watch ["a"]) lodging).2).2).2.engine.contextCount =
          0) := by
  have hnew : lodging.IsNew := ⟨rfl, rfl, rfl, rfl, rfl, rfl⟩
  have hlinks : lodging.files.Holds FileTree.IsNoLink := by
    simp [lodging, FileTree.Holds, FileTree.IsNoLink]
  have hwatch : (Regime.fixed lodging.files).asks (.watch ["a"]) := by
    show ∀ p ∈ ["a"], (Path.parse p).hasNull = false
    simp only [Path.hasNull_eq_false_iff]
    decide
  have hrun :
    History (.fixed lodging.files) lodging (host .reconcile (host (.watch ["a"]) lodging).2).2 :=
    .request depthLimit .reconcile (.request depthLimit (.watch ["a"]) .refl hwatch trivial)
      trivial trivial
  have hall := relinquished hnew rfl rfl (Regime.isFirm_fixed hlinks lodging.root) id
    isTame_lodging hrun
    (.request depthLimit .shutdown .refl trivial trivial)
  have hroot : (host .reconcile (host (.watch ["a"]) lodging).2).2.root = lodging.root :=
    Walk.root (hrun.reached id hnew.isSane isTame_lodging).walk
  refine ⟨hall, fun hc ht => hall.contexts id hc ht fun n s _ => Or.inr (Or.inr ?_)⟩
  rw [hroot]
  exact isPassive_lodging s.path

end World

end HotReload
