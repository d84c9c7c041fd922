import HotReload.Proofs.Host.Traversal

/-!
# No mess

Nothing that the host or its scripts do makes a mess: whoever is terminated has closed what it held,
and of all observers only the one in use runs, until a shutdown stops it.
-/
namespace HotReload

/-- Where no termination is given up, what closers raise has a literal. -/
theorem Failure.IsTame.thorough {R : Regime} {e : Failure} (h : e.IsTame R) (hR : ¬R.abandons) :
    e.IsTame .thorough :=
  ⟨h.1, Or.inr (h.2.resolve_left hR)⟩

mutual

theorem Action.isMild_of_isTame {R : Regime} (hR : ¬R.abandons) :
    (action : Action) → action.IsTame R → action.IsMild
  | .defer _ _, h => fun e he => (h e he).thorough hR
  | .once _ action, h => isMild_of_isTame hR action h
  | .write _ body, h => areMild_of_areTame hR body h.2
  | .depend _, _ | .watch _, _ | .unwatch _, _ | .set _ _, _ | .close, _ | .trace _,
    _ | .evaluate _, _ => trivial
  | .directory, _ | .paths, _ | .thread, _ | .fetch _ _, _ | .put _ _, _ | .drop _, _ | .count _,
    _ => trivial
  | .raise _, _ | .log _ _ _, _ | .host _, _ | .remove _, _ | .malformed, _ => trivial

theorem Action.areMild_of_areTame {R : Regime} (hR : ¬R.abandons) :
    (body : List Action) → Action.AreTame R body → Action.AreMild body
  | [], _ => trivial
  | action :: rest, h => ⟨isMild_of_isTame hR action h.1, areMild_of_areTame hR rest h.2⟩

end

theorem FileNode.IsTame.isMild {R : Regime} (hR : ¬R.abandons) {node : FileNode FileContent}
    (h : node.IsTame R) :
    node.IsMild := by
  unfold FileNode.IsMild
  split
  · exact Action.areMild_of_areTame hR _ h
  · trivial

namespace World

variable {R : Regime} {w w' : World}

theorem IsTame.isMild (hR : ¬R.abandons) (h : IsTame R w)
    (hs : ∀ s ∈ w.scripts, s.state ≠ .terminating) :
    IsMild w where
  nodes entry he := (h.nodes entry he).isMild hR
  scripts s hm := by
    refine ⟨fun g hg => ?_, hs s hm⟩
    obtain ⟨hadds, hfailure⟩ := h.resources s hm g hg
    exact ⟨hadds, fun e he => (hfailure e he).thorough hR⟩

/-- Whether whoever is terminated holds nothing any more, commits go to an executor of a
kind, and no observer runs but the one in use, nor that one when the host is closed and
has stopped its watch. -/
structure IsTidy (X : Executor → Prop) (p : Phase) (w : World) : Prop where
  mild : IsMild w
  sealed : ∀ s ∈ w.scripts, s.state = .terminated → s.resources.IsSealed
  executor : X w.executor
  attended : ∀ d, w.watch = some (.directory d) → d.IsAttended
  quiet : p = .between → w.isClosed = true → ∀ d, w.watch = some (.directory d) → d.IsQuiet

namespace IsTidy

variable {X : Executor → Prop} {p : Phase} {n : Nat}

theorem beside (h : IsTidy X p w) (hb : Beside w w') : IsTidy X p w' := by
  rw [hb.frame]
  exact ⟨⟨h.mild.nodes, h.mild.scripts⟩, h.sealed, h.executor, h.attended, h.quiet⟩

/-- A host that has made neither instances nor observers is tidy. -/
theorem new (hR : ¬R.abandons) (ht : IsTame R w) (hs : w.scripts = []) (hx : X w.executor)
    (ho : ∀ d, w.watch = some (.directory d) → d.current = none ∧ d.observers = []) :
    IsTidy X p w := by
  have hscripts : ∀ s ∈ w.scripts, False := by simp [hs]
  have hquiet (d) (hd : w.watch = some (.directory d)) : d.IsQuiet := by
    obtain ⟨hcurrent, hnone⟩ := ho d hd
    refine ⟨hcurrent, fun n o ho => ?_⟩
    rw [hnone] at ho
    cases ho
  exact ⟨ht.isMild hR fun s hs => (hscripts s hs).elim, fun s hs => (hscripts s hs).elim, hx,
    fun d hd => (hquiet d hd).isMinded, fun _ _ => hquiet⟩

theorem modify (h : IsTidy X p w) (f : Script → Script)
    (hf : ∀ s, w.script? n = some s → s.IsMild → (s.state = .terminated → s.resources.IsSealed) →
      (f s).IsMild ∧ ((f s).state = .terminated → (f s).resources.IsSealed)) :
    IsTidy X p { w with scripts := w.scripts.modify n f } := by
  have hsealed (s) (hs : w.script? n = some s) := h.sealed s (List.mem_of_getElem? hs)
  have hmild (s) (hs : w.script? n = some s) := h.mild.scripts s (List.mem_of_getElem? hs)
  exact ⟨h.mild.modify fun s hs hm => (hf s hs hm (hsealed s hs)).1,
    forall_modify h.sealed fun s hs ht => (hf s hs (hmild s hs) ht).2,
    h.executor, h.attended, h.quiet⟩

/-- No operation of the host makes a mess. -/
theorem weathers (hX : ∀ isClosed, X (.pool isClosed) → X (.pool true)) : Weathers (IsTidy X) where
  mild h := h.mild
  beside := beside
  amend f h hf := h.modify f fun s _ hm ht => by
    obtain ⟨hresources, hstate⟩ := hf s
    rw [hresources, hstate]
    exact ⟨⟨hresources ▸ hm.resources, hstate ▸ hm.state⟩, ht⟩
  allocate h hs hb := h.modify _ fun t ht hm hsealed => by
    obtain rfl := Option.some.inj (ht.symm.trans hs)
    exact ⟨⟨hb.tame, hm.state⟩, fun hstate => hb.sealed (hsealed hstate)⟩
  launch h hs hc := h.modify ({ · with state := .running, hasContext := true }) fun t _ hm _ =>
    ⟨⟨hm.resources, ScriptState.noConfusion⟩, fun hstate => ScriptState.noConfusion hstate⟩
  ended := by
    rintro p w w' n s h hs - ⟨resources, hsealed, ha⟩
    have hended := h.modify (n := n)
      (fun t => { t with state := .terminated, claims := leftover s w, resources }) fun t _ _ _ =>
        ⟨⟨hsealed.isTame, ScriptState.noConfusion⟩, fun _ => hsealed⟩
    rw [ha.frame]
    exact hended.beside ⟨rfl⟩
  make h hs hc := by
    refine ⟨h.mild.make hs hc, ?_, h.executor, h.attended, h.quiet⟩
    refine List.forall_mem_append.mpr ⟨h.sealed, List.forall_mem_singleton.mpr fun hstate => ?_⟩
    rw [hc] at hstate
    cases hstate
  edit h hf := ⟨⟨hf, h.mild.scripts⟩, h.sealed, h.executor, h.attended, h.quiet⟩
  retire {_ _ isClosed} h hx :=
    ⟨⟨h.mild.nodes, h.mild.scripts⟩, h.sealed, hX isClosed (hx ▸ h.executor), h.attended, h.quiet⟩
  feed h _ :=
    ⟨⟨h.mild.nodes, h.mild.scripts⟩, h.sealed,
    h.executor, fun _ hd => (by cases hd), fun _ _ _ hd => by cases hd⟩
  tend h hx ha := by
    refine ⟨⟨h.mild.nodes, h.mild.scripts⟩, h.sealed, h.executor, fun d hd => ?_, fun hp =>
      Phase.noConfusion hp⟩
    cases hd
    exact ha (h.attended _ hx)
  enter h := ⟨h.mild, h.sealed, h.executor, h.attended, fun hp => Phase.noConfusion hp⟩
  leave h ho := by
    refine ⟨h.mild, h.sealed, h.executor, h.attended, fun _ hc => ?_⟩
    rw [ho] at hc
    cases hc
  close h :=
    ⟨⟨h.mild.nodes, h.mild.scripts⟩, h.sealed, h.executor,
    h.attended, fun hp => Phase.noConfusion hp⟩
  stop h hx hq := by
    have hquiet := hq (h.attended _ hx)
    refine ⟨⟨h.mild.nodes, h.mild.scripts⟩, h.sealed,
      h.executor, fun d hd => ?_, fun _ _ d hd => ?_⟩
    · cases hd
      exact hquiet.isMinded
    · cases hd
      exact hquiet
  settle h hnone := ⟨h.mild, h.sealed, h.executor, h.attended, fun _ _ d hd => absurd hd (hnone d)⟩

end IsTidy

end World

end HotReload
