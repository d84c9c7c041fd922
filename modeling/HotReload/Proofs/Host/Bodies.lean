import HotReload.Proofs.Host.Actions

/-!
# Bodies in small steps

Whatever the body of an instance does in a tame world is a walk, and what it raises is
ordinary. What it asks of the host is a walk by assumption.
-/
namespace HotReload.World

open Operation

/-- Whether a walk leads from a moment to a tame world with certain duties. -/
structure Reached (R : Regime) (m₀ : Moment) (K : List Duty) (w : World) : Prop where
  walk : Walk R m₀ ⟨w, K⟩
  sane : Moment.IsSane ⟨w, K⟩
  tame : IsTame R w

namespace Reached

variable {R : Regime} {m₀ : Moment} {K K' : List Duty} {w w' : World} {E : Failure → Prop}

theorem step (h : Reached R m₀ K w) (hs : Step R ⟨w, K⟩ ⟨w', K'⟩) (ht : IsTame R w') :
    Reached R m₀ K' w' :=
  ⟨h.walk.tail hs, hs.isSane h.sane, ht⟩

theorem trans (h : Reached R m₀ K w) (h' : Reached R ⟨w, K⟩ K' w') : Reached R m₀ K' w' :=
  ⟨h.walk.trans h'.walk, h'.sane, h'.tame⟩

/-- Where a walk leads, a walk may begin. -/
theorem restart (h : Reached R m₀ K w) : Reached R ⟨w, K⟩ K w := ⟨.refl, h.sane, h.tame⟩

theorem calm (h : Reached R m₀ K w) (hc : Calm w w') (ht : IsTame R w') : Reached R m₀ K w' :=
  h.step (.calm hc ht.tree) ht

/-- The journal takes anything but the start of a body and the release of a context. -/
theorem keeps_enter (entry : LogEntry) : Keeps (Reached R m₀ K) E (enter entry) :=
  keeps_modify fun _ h => h.calm ⟨rfl, rfl⟩ (h.tame.transfer rfl rfl rfl rfl rfl)

theorem keeps_log (component : String) (level : LogLevel) (event : String)
    (fields : List (String × Value)) :
    Keeps (Reached R m₀ K) E (log component level event fields) :=
  keeps_enter _

theorem script_of_known (h : Reached R m₀ K w) {n : Nat} (hn : n ∈ Moment.numbers ⟨w, K⟩) :
    ∃ s, w.script? n = some s ∧ script n w = (.ok s, w) := by
  have hl : n < w.scripts.length := h.sane.known n hn
  exact ⟨_, List.getElem?_eq_getElem hl, script_of_some (List.getElem?_eq_getElem hl)⟩

theorem tame_reclaimed {n : Nat} (h : IsTame R w) (hr : Reclaimed n w w') :
    IsTame R w' := by
  rcases hr.scripts with hs | ⟨claims, hs⟩ <;> rw [hr.frame, hs]
  · exact h.transfer rfl rfl rfl rfl rfl
  · have hm := h.modify n ({ · with claims }) fun _ hs => hs
    exact ⟨h.root, h.here, h.nodes, h.tree, h.raises, h.named, h.refusal, hm.resources⟩

/-- A walk goes on with what the instance does that it has come to. -/
theorem admits {d : Duty} {n : Nat} (hd : d.isOf n) (hn : n ∈ d.numbers) :
    Admits R n (Reached R m₀ (d :: K)) where
  tame _ h := h.tame
  known w h := by
    obtain ⟨s, hs, -⟩ := h.script_of_known (Moment.mem_numbers_cons.mpr (Or.inl hn))
    exact ⟨s, hs⟩
  nearby _ _ h hl ht := h.calm hl.calm ht
  declare w f h hf := by
    refine h.step (.amend f fun s => by rw [hf s]) (h.tame.modify n f fun s hs => ?_)
    rw [hf s]
    exact hs
  allocate _ _ resources h _ hr :=
    h.step (.allocate resources hd) (h.tame.modify n _ fun _ _ => hr.tame)
  unwatch w paths h :=
    h.step (.scriptUnwatch paths hd) (tame_reclaimed h.tame (ends_scriptUnwatch n paths w).1)

theorem admits_body (n : Nat) : Admits R n (Reached R m₀ (.body n :: K)) :=
  admits (Duty.isOf_body n) (List.mem_singleton.mpr rfl)

theorem admits_ending (n : Nat) (released : Bool) :
    Admits R n (Reached R m₀ (.ending n released :: K)) :=
  admits (Duty.isOf_ending n released) (List.mem_singleton.mpr rfl)

/-- A body may also claim paths. -/
theorem scriptWatch (n : Nat) (w : World) (paths : List Path) (h : Reached R m₀ (.body n :: K) w)
    (hp : ∀ p ∈ paths, R.spells p) : Reached R m₀ (.body n :: K) (scriptWatch n paths w).2 :=
  h.step (.scriptWatch paths hp) (tame_reclaimed h.tame (ends_scriptWatch n paths w).1)

/-- Whether a host answers what it may be asked by a walk. -/
def Serves (R : Regime) (host : HostRequest → Act HostAnswer) : Prop :=
  ∀ m₀ K request, R.asks request → request.IsNamed → Keeps (Reached R m₀ K) Ordinary (host request)

end Reached

end HotReload.World
