import HotReload.Proofs.FileTree.Contents
import HotReload.Proofs.Host.Steps
import HotReload.Proofs.Path.Canonical
import HotReload.Proofs.Resource.Closing

/-!
# Tame worlds

In a tame world nothing raises a failure that ends whatever is running, scripts ask of the
host what they may ask, the executor refuses as executors do, and no null character stands
where it could get into the path of a script. Whatever the host does keeps a world tame.
-/
namespace HotReload

/-- A failure that is handled. -/
def Ordinary (e : Failure) : Prop := e.isOrdinary = true

namespace Failure

theorem ordinary_file (fault : FileFault) (path : String) : Ordinary (.file fault path) := by
  cases fault <;> rfl

theorem ordinary_of_isSystem {e : Failure} (h : e.isSystem = true) : Ordinary e := by
  have hk : e.kindName ∈ systemKinds := by simpa [isSystem] using h
  have ho : ∀ kind ∈ systemKinds, (!endingKinds.contains kind) = true := by decide
  exact ho _ hk

end Failure

/-- Whether a request names no path with a null character. -/
def HostRequest.IsNamed : HostRequest → Prop
  | .event path _ => (Path.parse path).hasNull = false
  | _ => True

/-- Whether a request has the host run cycles or shut down, and so may end instances. -/
def HostRequest.Drives : HostRequest → Prop
  | .reconcile | .preload | .shutdown => True
  | _ => False

/-- Whether a closer may raise a failure: it is handled, and has a literal unless
terminations may be given up. -/
def Failure.IsTame (R : Regime) (e : Failure) : Prop :=
  e.IsHandled ∧ (R.abandons ∨ e.literalFault? = none)

namespace Action

mutual

/-- Whether an action, or what it writes, raises nothing but ordinary failures and does
only what may be done. -/
def IsTame (R : Regime) : Action → Prop
  | .watch claimed => ∀ p ∈ claimed, R.spells (Path.parse p)
  | .raise failure => Ordinary failure
  | .defer _ failure => ∀ e, failure = some e → e.IsTame R
  | .once _ action => IsTame R action
  | .host request => R.asks request ∧ request.IsNamed
  | .write _ body => R.edits ∧ AreTame R body
  | .remove _ => R.edits
  | _ => True

def AreTame (R : Regime) : List Action → Prop
  | [] => True
  | action :: rest => IsTame R action ∧ AreTame R rest

end

end Action

/-- Whether a node is a tame body, or a link without a null character, or something else. -/
def FileNode.IsTame (R : Regime) : FileNode FileContent → Prop
  | .file (.script body) _ => Action.AreTame R body
  | .link target => target.hasNull = false
  | _ => True

/-- What a script registers: it reports its closing and may fail, and registers nothing more. -/
def Resource.IsTame (R : Regime) (r : Resource) : Prop :=
  r.adds = [] ∧ ∀ e, r.failure = some e → e.IsTame R

def ResourceRegistry.IsTame (R : Regime) (r : ResourceRegistry) : Prop :=
  ∀ h ∈ r.held, h.resource.IsTame R

/-- Whether a registry was closed and holds nothing. -/
structure ResourceRegistry.IsSealed (r : ResourceRegistry) : Prop where
  closed : r.isClosed = true
  held : r.held = []

/-- What an instance may make of its registry: what was closed is not filled again. -/
structure ResourceRegistry.Becomes (R : Regime) (r r' : ResourceRegistry) : Prop where
  tame : r'.IsTame R
  sealed : r.IsSealed → r'.IsSealed

/-- Whether what a watch reports names no path with a null character. -/
def Watch.IsNamed : Watch → Prop
  | .scripted s => ∀ event ∈ s.events, (Path.parse event.1).hasNull = false
  | .directory d => ∀ c ∈ d.debouncer.pending, c.path.hasNull = false

namespace ResourceRegistry

variable {R : Regime} {r : ResourceRegistry}

theorem closeOne_tame {resource : Resource} (h : resource.IsTame R) (r : ResourceRegistry) :
    closeOne resource r =
      (resource.failure, { r with closings := r.closings ++ [resource.name] }) := by
  obtain ⟨name, failure, adds⟩ := resource
  obtain rfl : adds = [] := h.1
  simp only [closeOne, addEach, Resource.failure, Resource.name]

/-- Deferring the closing of a tame resource keeps a registry tame, and fails ordinarily. A registry
that has closed does not take it. -/
theorem defer_tame {resource : Resource} (h : resource.IsTame R) (hr : r.IsTame R) :
    r.Becomes R (r.defer resource).2 ∧ ∀ e, (r.defer resource).1 = some e → Ordinary e := by
  rw [defer, addWith, closeOne_tame h]
  split
  · cases hf : resource.failure with
    | none => exact ⟨⟨hr, fun hs => ⟨hs.closed, hs.held⟩⟩, fun e he => by cases he⟩
    | some f =>
      refine ⟨⟨hr, fun hs => ⟨hs.closed, hs.held⟩⟩, fun e he => ?_⟩
      have hh : f.IsHandled := (h.2 f hf).1
      dsimp only at he
      rw [if_pos hh.ordinary] at he
      cases he
      exact (Failure.isHandled_composed (List.forall_mem_singleton.mpr hh) true).ordinary
  · rename_i hopen
    refine ⟨⟨fun g hg => ?_, fun hs => absurd hs.closed hopen⟩, fun e he => by cases he⟩
    rcases List.mem_append.mp hg with hg | hg
    · exact hr g hg
    · rw [List.mem_singleton.mp hg]
      exact h

theorem closeEach_tame {resources : List Resource} (h : ∀ resource ∈ resources, resource.IsTame R)
    {errors : List Failure} (he : ∀ e ∈ errors, e.IsTame R) (r : ResourceRegistry) :
    ∃ errors' closings, closeEach resources errors r = (.ok errors', { r with closings }) ∧
      ∀ e ∈ errors', e.IsTame R := by
  induction resources generalizing errors r with
  | nil => exact ⟨errors, r.closings, rfl, he⟩
  | cons resource rest ih =>
    obtain ⟨hr, hrest⟩ := List.forall_mem_cons.mp h
    rw [closeEach, closeOne_tame hr]
    cases hf : resource.failure with
    | none => exact ih hrest he _
    | some e =>
      have ht : e.IsTame R := hr.2 e hf
      simp only [if_pos ht.1.ordinary]
      exact ih hrest (List.forall_mem_append.mpr ⟨he, List.forall_mem_singleton.mpr ht⟩) _

theorem IsSealed.isTame (h : r.IsSealed) : r.IsTame R := fun g hg => by
  rw [h.held] at hg
  cases hg

/-- Closing what is held leaves nothing, and ends with the failures that it met, unless one
of them has no literal. -/
theorem closeHeld_tame (hr : r.IsTame R) :
    ∃ result r', r.closeHeld = (result, r') ∧ r'.IsSealed ∧ ∀ e, result = .error e → e.IsHandled ∧
      R.abandons := by
  have ht : ∀ resource ∈ r.held.reverse.map (·.resource), resource.IsTame R := by
    intro resource hm
    obtain ⟨g, hg, rfl⟩ := List.mem_map.mp hm
    exact hr g (List.mem_reverse.mp hg)
  obtain ⟨errors, closings, hc, htame⟩ :=
    closeEach_tame ht (List.forall_mem_nil _) { r with held := [], isClosed := true }
  refine ⟨Failure.gather errors, { held := [], isClosed := true, closings }, ?_,
    ⟨rfl, rfl⟩, fun fault hf => ?_⟩
  · rw [closeHeld, hc]
  · obtain ⟨before, e, after, rfl, -, hl⟩ := Failure.gather_error hf
    obtain ⟨hh, ha⟩ := htame e (by simp)
    refine ⟨hh.literal hl, ha.resolve_right fun hnone => ?_⟩
    rw [hnone] at hl
    cases hl

theorem close_tame (hr : r.IsTame R) :
    r.Becomes R r.close.2 ∧ ∀ e, r.close.1 = some e → Ordinary e := by
  obtain ⟨result, r', hc, hs, hfault⟩ := closeHeld_tame hr
  have hbecomes : r.Becomes R r' := ⟨hs.isTame, fun _ => hs⟩
  rw [close, hc]
  rcases result with fault | _ | ⟨f, rest⟩
  · refine ⟨hbecomes, fun e he => ?_⟩
    cases he
    exact (hfault fault rfl).1.ordinary
  · exact ⟨hbecomes, fun e he => by cases he⟩
  · refine ⟨hbecomes, fun e he => ?_⟩
    cases he
    rfl

end ResourceRegistry

namespace Watch

theorem isNamed_of_essence {x y : Watch} (h : x.essence = y.essence) (hy : y.IsNamed) :
    x.IsNamed := by
  rcases x with s | d <;> rcases y with t | e
  · have he : s.essence.events = t.essence.events := by rw [Watch.scripted.inj h]
    have hs : s.events = t.events := he
    rw [IsNamed, hs]
    exact hy
  · cases h
  · cases h
  · have he : d.essence.debouncer = e.essence.debouncer := by rw [Watch.directory.inj h]
    have hd : d.debouncer = e.debouncer := he
    rw [IsNamed, hd]
    exact hy

theorem isNamed_polled {x : Watch} (h : x.IsNamed) (now : Float) : (x.polled now).IsNamed := by
  rcases x with s | d
  · intro event he
    refine h event ?_
    by_cases hp : s.pollError.isSome = true
    · simpa only [if_pos hp] using he
    · simp [hp] at he
  · intro c hc
    refine h c ?_
    have hm : c ∈ (d.debouncer.pending.partition (d.debouncer.isSettled now)).2 := hc
    rw [List.partition_eq_filter_filter] at hm
    exact (List.mem_filter.mp hm).1

end Watch

namespace World

structure IsTame (R : Regime) (w : World) : Prop where
  root : w.root.hasNull = false
  here : w.files.here.hasNull = false
  nodes : w.files.Holds (FileNode.IsTame R)
  tree : R.tree w.files
  raises : WatchRaises Ordinary w
  named : ∀ x, w.watch = some x → x.IsNamed
  refusal : ∀ e, w.executor = .refusable (some e) → e.isState = true
  resources : ∀ s ∈ w.scripts, s.resources.IsTame R

variable {R : Regime} {w w' : World}

/-- Nothing else in a world matters to whether it is tame. -/
theorem IsTame.transfer (h : IsTame R w) (hr : w'.root = w.root) (hf : w'.files = w.files)
    (hw : w'.watch = w.watch) (he : w'.executor = w.executor) (hs : w'.scripts = w.scripts) :
    IsTame R w' where
  root := hr ▸ h.root
  here := hf ▸ h.here
  nodes := hf ▸ h.nodes
  tree := hf ▸ h.tree
  raises x hx := h.raises x (hw ▸ hx)
  named x hx := h.named x (hw ▸ hx)
  refusal e hx := h.refusal e (he ▸ hx)
  resources s hm := h.resources s (hs ▸ hm)

/-- What the operator claims does not matter either. -/
theorem IsTame.operated (h : IsTame R w) (ho : Operated w w') : IsTame R w' := by
  rw [ho]
  exact h.transfer rfl rfl rfl rfl rfl

/-- What a tame world raises where a reported path is read is ordinary too. -/
theorem IsTame.raisesAll (h : IsTame R w) : Raises Ordinary w where
  watch := h.raises
  paths p _ e he := by
    obtain ⟨argument, rfl⟩ := circle?_failure he
    rfl

theorem IsTame.resolve? (h : IsTame R w) {p place : Path} (hp : p.hasNull = false)
    (hr : w.files.resolve? p = some place) : place.hasNull = false := by
  unfold FileTree.resolve? at hr
  split at hr
  · cases hr
  cases hr
  rw [Path.hasNull_eq_false_iff]
  intro name hname
  refine FileTree.follow_names (Q := fun name => '\x00' ∉ name.toList) (fun loc target ht => ?_)
    (List.forall_mem_nil _) ?_ name (Path.mem_foldParts hname)
  · have hl : loc ≠ [] := by
      rintro rfl
      cases ht
    exact Path.hasNull_eq_false_iff.mp (h.nodes.node? hl ht)
  · exact Path.hasNull_eq_false_iff.mp (Path.hasNull_join h.here hp)

theorem IsTame.canonical (h : IsTame R w) {p : Path} (hp : p.hasNull = false) :
    (w.canonical p).hasNull = false :=
  Path.hasNull_canonical hp fun _ hr => h.resolve? hp hr

/-- In a tame world no null character is reported. -/
theorem IsTame.reported (h : IsTame R w) : ∀ c ∈ w.reported, c.path.hasNull = false := by
  intro c hc
  rw [World.reported] at hc
  rcases hx : w.watch with _ | s | d
  · rw [hx] at hc
    cases hc
  · have hn := h.named _ hx
    rw [hx] at hc
    unfold Option.elim reports at hc
    dsimp only at hc
    split at hc
    · cases hc
    · obtain ⟨r, hr, hrc⟩ := List.mem_filterMap.mp hc
      obtain ⟨event, he, rfl⟩ := List.mem_map.mp hr
      unfold readChange at hrc
      split at hrc
      · rename_i hform _
        cases hrc
        rw [(normalize_ok hform).2]
        exact h.canonical (hn event he)
      · cases hrc
      · cases hrc
  · have hn := h.named _ hx
    rw [hx] at hc
    obtain ⟨c', hc', rfl⟩ := List.mem_map.mp hc
    refine h.canonical ?_
    have hm : c' ∈ ((d.debouncer.pending.partition (d.debouncer.isSettled w.now)).1).map
      (·.toChange) := hc'
    rw [List.partition_eq_filter_filter] at hm
    obtain ⟨pending, hp, rfl⟩ := List.mem_map.mp hm
    exact hn pending (List.mem_filter.mp hp).1

theorem IsTame.isNullFree (h : IsTame R w) (hn : ∀ p n, w.registry.get? p = some n → IsNamed w p) :
    IsNullFree w := by
  rintro p (⟨n, hp⟩ | ⟨c, hc, rfl, -⟩)
  · exact hn p n hp
  · exact Path.hasNull_join h.root (h.reported c hc)

/-- Looking after the watch keeps a world tame. -/
theorem IsTame.tended (h : IsTame R w) (ht : Tended w w') : IsTame R w' := by
  have hraises := ht.watchRaises h.raises
  have hnamed : ∀ x, w'.watch = some x → x.IsNamed := by
    intro x hx
    have hm := ht.watch
    rw [hx, Option.map_some] at hm
    obtain ⟨y, hy, he⟩ := Option.map_eq_some_iff.mp hm.symm
    exact Watch.isNamed_of_essence he.symm (h.named y hy)
  rw [ht.frame] at hraises hnamed ⊢
  exact ⟨h.root, h.here, h.nodes, h.tree, hraises, hnamed, h.refusal, h.resources⟩

theorem IsTame.polled (h : IsTame R w) : IsTame R w.polled := by
  refine ⟨h.root, h.here, h.nodes, h.tree, watchRaises_polled h.raises, fun x hx => ?_, h.refusal,
    h.resources⟩
  obtain ⟨y, hy, rfl⟩ := Option.map_eq_some_iff.mp hx
  exact Watch.isNamed_polled (h.named y hy) _

/-- New instances hold nothing. -/
theorem IsTame.remade (h : IsTame R w) {fresh gone : List Path} (hm : Remade w fresh gone w') :
    IsTame R w' := by
  have hs : ∀ s ∈ w'.scripts, s.resources.IsTame R := by
    rw [hm.scripts, List.forall_mem_append]
    refine ⟨h.resources, fun s hs => ?_⟩
    obtain ⟨p, -, rfl⟩ := List.mem_map.mp hs
    intro g hg
    cases hg
  rw [hm.frame] at hs ⊢
  exact ⟨h.root, h.here, h.nodes, h.tree, h.raises, h.named, h.refusal, hs⟩

/-- Changing one instance apart from its resources keeps a world tame. -/
theorem IsTame.modify (h : IsTame R w) (n : Nat) (f : Script → Script)
    (hf : ∀ s, s.resources.IsTame R → (f s).resources.IsTame R) :
    IsTame R { w with scripts := w.scripts.modify n f } :=
  ⟨h.root, h.here, h.nodes, h.tree, h.raises, h.named, h.refusal,
    forall_modify h.resources fun s _ => hf s⟩

end World

end HotReload
