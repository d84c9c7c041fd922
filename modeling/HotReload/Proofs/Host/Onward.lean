import HotReload.Proofs.Host.Traversal

/-!
# Whatever bodies raise

A world is mild if nothing but the bodies of its scripts raises what ends a run: whatever is held
closes ordinarily. Whatever is asked of the host in such a world, and whatever bodies raise, the
world stays mild, and every instance stays where it is or goes on to one of its next states.
-/
namespace HotReload

/-- Where the states of an instance lead. -/
abbrev ScriptState.Leads : ScriptState → ScriptState → Prop :=
  Relation.ReflTransGen ScriptState.Next

theorem ScriptState.Leads.ne_created {x y : ScriptState} (h : x.Leads y) (hx : x ≠ .created) :
    y ≠ .created := by
  induction h with
  | refl => exact hx
  | tail _ hn _ =>
    rintro rfl
    cases hn

theorem ScriptState.Leads.eq_terminated {x y : ScriptState} (h : x.Leads y) (hx : x = .terminated) :
    y = .terminated := by
  induction h with
  | refl => exact hx
  | tail _ hn ih =>
    subst ih
    cases hn

namespace World

open Operation

/-- Whether a mild world has come of another, with every instance where it was or further on. -/
structure Onward (w₀ w : World) : Prop where
  mild : IsMild w
  instances : ∀ n s, w₀.script? n = some s → ∃ s', w.script? n = some s' ∧ s.state.Leads s'.state

/-- Whether an instance is there and terminated. -/
def IsTerminated (n : Nat) (w : World) : Prop := ∃ s, w.script? n = some s ∧ s.state = .terminated

variable {w₀ w w' : World} {n : Nat} {s : Script} {host : HostRequest → Act HostAnswer}

namespace Onward

theorem refl (h : IsMild w) : Onward w w := ⟨h, fun _ s hs => ⟨s, hs, .refl⟩⟩

theorem trans (h : Onward w₀ w) (h' : Onward w w') : Onward w₀ w' := by
  refine ⟨h'.mild, fun n s hs => ?_⟩
  obtain ⟨s₁, hs₁, hl⟩ := h.instances n s hs
  obtain ⟨s₂, hs₂, hl'⟩ := h'.instances n s₁ hs₁
  exact ⟨s₂, hs₂, hl.trans hl'⟩

theorem isPast (h : Onward w₀ w) (hp : w₀.IsPast n) : w.IsPast n := by
  obtain ⟨s, hs, hne⟩ := hp
  obtain ⟨s', hs', hl⟩ := h.instances n s hs
  exact ⟨s', hs', hl.ne_created hne⟩

theorem isTerminated (h : Onward w₀ w) (ht : w₀.IsTerminated n) : w.IsTerminated n := by
  obtain ⟨s, hs, hstate⟩ := ht
  obtain ⟨s', hs', hl⟩ := h.instances n s hs
  exact ⟨s', hs', hl.eq_terminated hstate⟩

theorem known (h : Onward w₀ w) (hn : n < w₀.scripts.length) : ∃ s, w.script? n = some s := by
  obtain ⟨s, hs, -⟩ := h.instances n _ (List.getElem?_eq_getElem hn)
  exact ⟨s, hs⟩

/-! What may happen to a world. -/

/-- Neither instances nor files change. -/
theorem beside (h : Onward w₀ w) (hs : w'.scripts = w.scripts) (hf : w'.files = w.files) :
    Onward w₀ w' where
  mild := ⟨hf ▸ h.mild.nodes, hs ▸ h.mild.scripts⟩
  instances n s hn := by
    rw [World.script?, hs]
    exact h.instances n s hn

theorem alter (h : Onward w₀ w) (f : Script → Script)
    (hf : ∀ s, w.script? n = some s → s.IsMild → (f s).IsMild ∧ s.state.Leads (f s).state) :
    Onward w₀ { w with scripts := w.scripts.modify n f } := by
  refine ⟨h.mild.modify fun s hs hm => (hf s hs hm).1, fun k s hs => ?_⟩
  obtain ⟨s₁, hs₁, hl⟩ := h.instances k s hs
  rw [script?_modify, hs₁]
  split
  · rename_i hk
    exact ⟨f s₁, rfl, hl.trans (hf s₁ (hk ▸ hs₁) (h.mild.scripts s₁ (List.mem_of_getElem? hs₁))).2⟩
  · exact ⟨s₁, rfl, hl⟩

theorem weathers (w₀ : World) : Weathers fun _ => Onward w₀ where
  mild h := h.mild
  beside h hb := h.beside (by rw [hb.frame]) (by rw [hb.frame])
  amend f h hf := h.alter f fun s _ hm => by
    obtain ⟨hresources, hstate⟩ := hf s
    exact ⟨⟨hresources ▸ hm.resources, hstate ▸ hm.state⟩, hstate ▸ .refl⟩
  allocate h _ hb := h.alter ({ · with resources := _ }) fun _ _ hm => ⟨⟨hb.tame, hm.state⟩, .refl⟩
  launch h hs hc := h.alter ({ · with state := .running, hasContext := true }) fun t ht hm => by
    obtain rfl := Option.some.inj (ht.symm.trans hs)
    exact ⟨⟨hm.resources, ScriptState.noConfusion⟩, .single (hc ▸ .start)⟩
  ended := by
    rintro _ w w' n s h hs ho ⟨resources, hsealed, ha⟩
    obtain ⟨hnot, hnot'⟩ := Moment.not_over ho
    let f (t : Script) : Script :=
      { t with state := .terminated, claims := leftover s w, resources }
    have hended : Onward w₀ { w with scripts := w.scripts.modify n f } := by
      refine h.alter f fun t ht _ => ⟨⟨hsealed.isTame, ScriptState.noConfusion⟩, ?_⟩
      obtain rfl := Option.some.inj (ht.symm.trans hs)
      have hfinish : ScriptState.Leads .terminating .terminated := .single .finish
      rcases hstate : t.state with _ | _ | _ | _
      · exact hfinish.head .abandon
      · exact hfinish.head .stop
      · exact absurd hstate hnot
      · exact absurd hstate hnot'
    rw [ha.frame]
    exact hended.beside rfl rfl
  make h hs hc := by
    refine ⟨h.mild.make hs hc, fun n t ht => ?_⟩
    obtain ⟨t', ht', hl⟩ := h.instances n t ht
    refine ⟨t', ?_, hl⟩
    rw [World.script?, List.getElem?_append_left (lt_of_script? ht')]
    exact ht'
  edit h hf := ⟨⟨hf, h.mild.scripts⟩, h.instances⟩
  retire h _ := h.beside rfl rfl
  feed h _ := h.beside rfl rfl
  tend h _ _ := h.beside rfl rfl
  enter h := h
  leave h _ := h
  close h := h.beside rfl rfl
  stop h _ _ := h.beside rfl rfl
  settle h _ := h

/-! Commits. -/

/-- Running an instance leaves it past its first state, whatever its body raises. -/
theorem ends_run (hh : ∀ w₀ request, Keeps (Onward w₀) anything (host request)) (h : Onward w₀ w)
    (hs : w.script? n = some s) :
    Ends (fun w' => Onward w₀ w' ∧ w'.IsPast n) anything (run host n w) := by
  by_cases hc : s.state = .created
  · have hstart := (weathers w₀).launch (p := .between) h hs hc
    have hpast : (w.launched n).IsPast n := by
      refine ⟨{ s with state := .running, hasContext := true }, ?_, ScriptState.noConfusion⟩
      rw [World.launched, script?_modify, if_pos rfl, hs]
      rfl
    rw [run_of_created hs hc]
    have hrest := (weathers (w.launched n)).keeps_runLaunched (hh _) s (n := n) _ (refl hstart.mild)
    exact hrest.imp fun w' h' => ⟨hstart.trans h', h'.isPast hpast⟩
  · have hskip := (weathers w).keeps_run (hh w) (n := n) w (refl h.mild)
    exact hskip.imp fun w' h' => ⟨h.trans h', h'.isPast ⟨s, hs, hc⟩⟩

theorem ends_runListed (hh : ∀ w₀ request, Keeps (Onward w₀) anything (host request))
    (h : Onward w₀ w) (hs : w.script? n = some s) :
    Ends (fun w' => Onward w₀ w' ∧ w'.IsPast n) anything (runListed host n w) := by
  rw [runListed, bind_of_ok (script_of_some hs)]
  refine Ends.bind (ends_attempting (ends_run hh h hs)) fun result => ?_
  cases result with
  | ok _ => exact keeps_pure _
  | error e => exact keeps_modify fun _ h' => ⟨h'.1.beside rfl rfl, h'.2⟩

theorem ends_terminate {E : Failure → Prop} (h : Onward w₀ w) (hs : w.script? n = some s) :
    Ends (fun w' => Onward w₀ w' ∧ w'.IsTerminated n) E (terminate n w) := by
  refine ((weathers w₀).ends_terminate (p := .between) h hs).and ?_
  have hm := h.mild.scripts s (List.mem_of_getElem? hs)
  by_cases ho : s.isOver = true
  · rw [terminate, bind_of_ok (script_of_some hs), if_pos ho]
    have hstate : s.state = .terminated := by
      simpa [Script.isOver, hm.state] using ho
    exact ends_ok ⟨s, hs, hstate⟩
  · refine (ends_thorough id hm.resources hs (Bool.eq_false_iff.mpr ho)).imp fun w' h' => ?_
    obtain ⟨resources, -, ha⟩ := h'
    exact ⟨_, ha.script? hs, rfl⟩

theorem ends_endListed {E : Failure → Prop} (h : Onward w₀ w) (hs : w.script? n = some s) :
    Ends (fun w' => Onward w₀ w' ∧ w'.IsTerminated n) E (endListed n w) := by
  rw [endListed, bind_of_ok (script_of_some hs)]
  refine Ends.bind (ends_attempt (ends_terminate (E := fun _ => False) h hs) fun _ he => he.elim)
    fun result => ?_
  rcases result with e | _ | _
  · exact keeps_modify fun _ h' => ⟨h'.1.beside rfl rfl, h'.2⟩
  · exact keeps_modify fun _ h' => ⟨h'.1.beside rfl rfl, h'.2⟩
  · exact keeps_pure _

/-- Whatever is asked of the host, and whatever bodies raise, no instance goes back. -/
theorem keeps_hostAt (depth : Nat) (w₀ : World) (request : HostRequest) :
    Keeps (Onward w₀) anything (hostAt depth request) := (weathers w₀).keeps_hostAt depth request

end Onward

end World

end HotReload
