import HotReload.Proofs.Host.Accounting
import HotReload.Proofs.Host.Termination

/-!
# Bodies that only declare

Some bodies only claim paths and declare dependencies, and then end, perhaps with a failure. What
such a body does is read off its actions: its instance lists what they claim, and what is counted
remains what is listed, if what is claimed is its own canonical form.
-/
namespace HotReload

/-- Whether an action only claims paths, declares a dependency or raises an ordinary failure. -/
def Action.IsDeclaring : Action → Prop
  | .watch _ | .depend _ => True
  | .raise failure => Ordinary failure
  | _ => False

/-- Whether no variable hides an object of the host that declarations need. -/
structure Namespace.IsOpen (ns : Namespace) : Prop where
  loader : Value.field? "loader" ns = none
  depend : Value.field? "depend" ns = none

theorem Value.field?_setField (key name : String) (v : Value) (fields : List (String × Value)) :
    field? name (setField key v fields) = if key = name then some v else field? name fields := by
  induction fields with
  | nil =>
    by_cases h : key = name <;> simp [field?, setField, h]
  | cons entry rest ih =>
    obtain ⟨k, old⟩ := entry
    unfold field? at ih ⊢
    by_cases hk : k = key
    · subst hk
      by_cases hn : k = name <;> simp [setField, hn]
    · by_cases hn : k = name
      · subst hn
        simp [setField, hk, Ne.symm hk]
      · simpa [setField, hk, hn] using ih

namespace World

open Operation

variable {w w' w'' : World} {n : Nat} {s : Script} {ns : Namespace}
  {host : HostRequest → Act HostAnswer}
  {E : Failure → Prop}

/-- A script finds the host's objects, whatever it is given. -/
theorem isOpen_initialNamespace (s : Script) (file : String) :
    (initialNamespace s file).IsOpen := by
  have hfilter (name : String) (h : name ∈ hostNames) :
      Value.field? name (s.bindings.filter fun entry => !decide (entry.1 ∈ hostNames)) = none := by
    rw [Value.field?, Option.map_eq_none_iff, List.find?_eq_none]
    intro entry he hname
    have hk := (List.mem_filter.mp he).2
    have hn : entry.1 = name := by simpa using hname
    simp [hn, h] at hk
  constructor
  · simp [initialNamespace, LogEntry.withFields, Value.field?_setField,
      hfilter "loader" (by decide)]
  · simp [initialNamespace, LogEntry.withFields, Value.field?_setField,
      hfilter "depend" (by decide)]

/-! What a body does, as it stands. -/

/-- Whether a declaration of the script at a path comes to its end. -/
def completes (w : World) (p : Path) : Action → Bool
  | .watch paths => (w.circleAmong? (paths.map Path.parse)).isNone
  | .depend path => (w.circle? (Path.parse path)).isNone &&
      (w.canonical (Path.parse path) = p || (w.modified? (w.canonical (Path.parse path))).isOk)
  | _ => false

/-- The declarations that come to their end, up to the first one that does not. -/
def performed (w : World) (p : Path) : List Action := (w.bodyOf p).takeWhile (w.completes p)

/-- What an instance lists because of some actions. -/
def listedBy (w : World) (actions : List Action) : List Path :=
  actions.flatMap fun
    | .watch paths => paths.map fun path => w.canonical (Path.parse path)
    | _ => []

/-- The other paths that some actions of the script at a path depend on. -/
def dependedBy (w : World) (p : Path) (actions : List Action) : List Path :=
  actions.flatMap fun
    | .depend path =>
      if w.canonical (Path.parse path) = p then [] else [w.canonical (Path.parse path)]
    | _ => []

/-- What the script at a path claims. -/
def demands (w : World) (p : Path) : List Path := w.listedBy (w.performed p)

/-- The other paths that the script at a path depends on. -/
def needs (w : World) (p : Path) : List Path := w.dependedBy p (w.performed p)

/-- What an instance that carried out some declarations has come to. -/
structure Declared (n : Nat) (actions : List Action) (w w' : World) : Prop where
  frame : w' = { w with scripts := w'.scripts, claims := w'.claims, engine := w'.engine,
                        journal := w'.journal }
  lives : w'.journal.lives = w.journal.lives
  length : w'.scripts.length = w.scripts.length
  others : ∀ k, n ≠ k → w'.script? k = w.script? k
  script : ∀ s, w.script? n = some s → ∃ s', w'.script? n = some s' ∧ s'.path = s.path ∧
    s'.state = s.state ∧
    s'.resources = s.resources ∧
      (∀ q, q ∈ s'.claims.paths ↔ q ∈ s.claims.paths ∨ q ∈ w.listedBy actions) ∧
    (w.dependedBy s.path actions = [] → s'.dependencies = s.dependencies)
  even : (∀ q ∈ w.listedBy actions, w.form? q = some q) → w.IsEven w.owners w.claims →
    w.IsEven w'.owners w'.claims

theorem declared_refl (n : Nat) (w : World) : Declared n [] w w := by
  refine ⟨rfl, rfl, rfl, fun _ _ => rfl,
    fun s hs => ⟨s, hs, rfl, rfl, rfl, fun q => ?_, fun _ => rfl⟩, fun _ h => h⟩
  simp [listedBy]

namespace Declared

variable {actions actions' : List Action}

theorem canonical (h : Declared n actions w w') : w'.canonical = w.canonical := by
  rw [h.frame]
  rfl

theorem form? (h : Declared n actions w w') : w'.form? = w.form? := by
  rw [h.frame]
  rfl

theorem listedBy (h : Declared n actions w w') (actions' : List Action) :
    w'.listedBy actions' = w.listedBy actions' := by
  rw [World.listedBy, World.listedBy, h.canonical]

theorem trans (h : Declared n actions w w') (h' : Declared n actions' w' w'') :
    Declared n (actions ++ actions') w w'' where
  frame := by rw [h'.frame, h.frame]
  lives := h'.lives.trans h.lives
  length := h'.length.trans h.length
  others k hk := (h'.others k hk).trans (h.others k hk)
  script s hs := by
    obtain ⟨s₁, hs₁, hpath₁, hstate₁, hresources₁, hclaims₁, hneeds₁⟩ := h.script s hs
    obtain ⟨s₂, hs₂, hpath₂, hstate₂, hresources₂, hclaims₂, hneeds₂⟩ := h'.script s₁ hs₁
    refine ⟨s₂, hs₂, hpath₂.trans hpath₁, hstate₂.trans hstate₁,
      hresources₂.trans hresources₁, fun q => ?_,
      fun hn => ?_⟩
    · rw [hclaims₂, hclaims₁, h.listedBy, World.listedBy, World.listedBy, World.listedBy,
        List.flatMap_append, List.mem_append, or_assoc]
    · rw [dependedBy, List.flatMap_append, List.append_eq_nil_iff] at hn
      have hlist : w'.dependedBy s₁.path actions' = w.dependedBy s.path actions' := by
        rw [dependedBy, dependedBy, h.canonical, hpath₁]
      rw [hneeds₂ (hlist.trans hn.2), hneeds₁ hn.1]
  even hstable heven := by
    have happend : w.listedBy (actions ++ actions') = w.listedBy actions ++ w.listedBy actions' :=
      List.flatMap_append
    rw [happend, List.forall_mem_append] at hstable
    have hnext := h'.even
    rw [IsEven, IsEven, h.form?, h.listedBy] at hnext
    exact hnext hstable.2 (h.even hstable.1 heven)

/-- What the engine keeps and what is recorded does not matter. -/
theorem beside (h : Declared n actions w w') (engine : Engine) {journal : Journal}
    (hj : journal.lives = w'.journal.lives) : Declared n actions w { w' with engine, journal } where
  frame := by rw [h.frame]
  lives := hj.trans h.lives
  length := h.length
  others := h.others
  script := h.script
  even := h.even

/-- Nor does what the body raised. -/
theorem raised (h : Declared n actions w w') (error : Option Failure) :
    Declared n actions w { w' with scripts := w'.scripts.modify n ({ · with error }) } where
  frame := by rw [h.frame]
  lives := h.lives
  length := (List.length_modify ..).trans h.length
  others k hk := by
    rw [script?_modify, if_neg hk]
    exact h.others k hk
  script s hs := by
    obtain ⟨s', hs', hrest⟩ := h.script s hs
    refine ⟨{ s' with error }, ?_, hrest⟩
    rw [script?_modify, if_pos rfl, hs']
    rfl
  even hstable heven := by
    rw [owners_modify ({ · with error }) fun _ => rfl]
    exact h.even hstable heven

end Declared

/-! Carrying out declarations. -/

theorem declared_watch (hs : w.script? n = some s) (ht : w.claimTarget = .counted)
    (paths : List String) (hc : w.circleAmong? (paths.map Path.parse) = none) :
    Declared n [.watch paths] w (scriptWatch n (paths.map Path.parse) w).2 := by
  rw [scriptWatch_eq hs ht hc]
  refine ⟨rfl, rfl, List.length_modify .., fun k hk => ?_, fun t hn => ?_, fun hstable h => ?_⟩
  · exact (script?_modify w n _ k).trans (if_neg hk)
  · obtain rfl : s = t := Option.some.inj (hs.symm.trans hn)
    have hclaimed := (altered_modify
      ({ · with claims := (s.claims.watch ((paths.map Path.parse).map w.canonical)).1 }) n
        w).script? hs
    refine ⟨_, hclaimed, rfl, rfl, rfl, fun q => ?_, fun _ => rfl⟩
    simp [ScopedClaims.mem_watch, listedBy]
  · have hfirm : ∀ q ∈ (paths.map Path.parse).map w.canonical, w.form? q = some q := by
      simpa [listedBy] using hstable
    have hadded : ∀ q ∈ (s.claims.watch ((paths.map Path.parse).map w.canonical)).2,
      w.form? q = some q :=
      fun q hq => hfirm q (ScopedClaims.mem_added.mp hq).1
    have hb := (h.covered.watch (owner_script hs) hfirm).balanced
    rw [reachable_eq (circleAmong?_of_settled hadded), map_canonical_of_settled hadded]
    rwa [← owners_reclaimed] at hb

/-- A script does not depend on its own path. -/
theorem declared_own (n : Nat) (path : String) (w : World) : Declared n [.depend path] w w := by
  refine ⟨rfl, rfl, rfl, fun _ _ => rfl,
    fun s hs => ⟨s, hs, rfl, rfl, rfl, fun q => ?_, fun _ => rfl⟩, fun _ h => h⟩
  simp [listedBy]

theorem declared_depend (hs : w.script? n = some s) (path : String) (modified : Option Float)
    (hp : w.canonical (Path.parse path) ≠ s.path) :
    Declared n [.depend path] w
      { w with scripts := w.scripts.modify n (·.addDependency (w.canonical (Path.parse path))
        modified) } := by
  refine ⟨rfl, rfl, List.length_modify .., fun k hk => ?_, fun t hn => ?_, fun _ h => ?_⟩
  · exact (script?_modify w n _ k).trans (if_neg hk)
  · obtain rfl : s = t := Option.some.inj (hs.symm.trans hn)
    have hadded :=
      (altered_modify (·.addDependency (w.canonical (Path.parse path)) modified) n w).script? hs
    refine ⟨_, hadded, rfl, rfl, rfl, fun q => ?_, fun hd => ?_⟩
    · simp [Script.addDependency, listedBy]
    · simp [dependedBy, hp] at hd
  · rwa [owners_modify (·.addDependency (w.canonical (Path.parse path)) modified) fun _ => rfl]

/-- Where claims are counted, claiming raises nothing if what is claimed is
its own canonical form. -/
theorem scriptWatch_ok (hs : w.script? n = some s) (ht : w.claimTarget = .counted)
    {paths : List Path} (hc : w.circleAmong? paths = none)
    (hfirm : ∀ q ∈ paths.map w.canonical, w.form? q = some q) :
    scriptWatch n paths w = (.ok (), (scriptWatch n paths w).2) := by
  refine Prod.ext ?_ rfl
  rw [scriptWatch_of_none hs hc]
  have hadded : ∀ q ∈ (s.claims.watch (paths.map w.canonical)).2, w.form? q = some q :=
    fun q hq => hfirm q (ScopedClaims.mem_added.mp hq).1
  generalize (s.claims.watch (paths.map w.canonical)).2 = added at hadded
  cases added with
  | nil => rfl
  | cons q rest =>
    have hnone := circleAmong?_of_settled hadded
    have hrequest (v : World) (hv : v.claimTarget = .counted)
      (hq : v.circleAmong? (q :: rest) = none) :
        (request (.watch (q :: rest)) v).1 = .ok () := by
      rw [request, get_bind, hv]
      exact congrArg Prod.fst (claimAll_of_none hq)
    exact hrequest _ ht hnone

/-- Whether an action comes to its end, or raises an ordinary failure and changes nothing. -/
def Declares (host : HostRequest → Act HostAnswer) (n : Nat) (p : Path) (action : Action)
    (ns : Namespace) (w : World) : Prop :=
  (w.completes p action = true ∧ ∃ w', runAction host n action ns w = (.ok ns, w') ∧
    Declared n [action] w w') ∨
    (w.completes p action = false ∧ ∃ e, runAction host n action ns w = (.error e, w) ∧ Ordinary e)

theorem declares_watch (host : HostRequest → Act HostAnswer) (hs : w.script? n = some s)
    (ht : w.claimTarget = .counted) (hns : ns.IsOpen) {paths : List String}
    (hfirm : w.completes s.path (.watch paths) = true → ∀ q ∈ w.listedBy [.watch paths],
      w.form? q = some q) :
    w.Declares host n s.path (.watch paths) ns := by
  have hobject : hostObject ns "loader" "watch" w = (.ok (), w) := by
    rw [hostObject, hns.loader]
    rfl
  rw [Declares, runAction, bind_of_ok hobject]
  cases hc : w.circleAmong? (paths.map Path.parse) with
  | none =>
    have hcompletes : w.completes s.path (.watch paths) = true := by
      rw [completes, hc]
      rfl
    have hlisted : ∀ q ∈ (paths.map Path.parse).map w.canonical, w.form? q = some q := by
      simpa [listedBy] using hfirm hcompletes
    refine Or.inl ⟨hcompletes, (scriptWatch n (paths.map Path.parse) w).2, ?_,
      declared_watch hs ht paths hc⟩
    rw [bind_of_ok (scriptWatch_ok hs ht hc hlisted)]
    rfl
  | some e =>
    obtain ⟨argument, rfl⟩ := circleAmong?_failure hc
    rw [bind_of_error (scriptWatch_of_some hs hc)]
    exact Or.inr ⟨by rw [completes, hc]; rfl, _, rfl, rfl⟩

theorem depend_of_circle (hs : w.script? n = some s) {p : Path} {e : Failure}
    (hc : w.circle? p = some e) :
    depend n p w = (.error e, w) := by
  rw [World.depend, bind_of_ok (script_of_some hs), get_bind, normalize_error.mpr hc]
  rfl

theorem depend_of_none (hs : w.script? n = some s) {p : Path} (hc : w.circle? p = none) :
    depend n p w = (if w.canonical p ≠ s.path then do
      let modified ← liftExcept (w.modified? (w.canonical p))
      updateScript n (·.addDependency (w.canonical p) modified) else pure () : Act Unit) w := by
  rw [World.depend, bind_of_ok (script_of_some hs), get_bind, normalize_of_none hc]
  rfl

theorem declares_depend (host : HostRequest → Act HostAnswer) (hs : w.script? n = some s)
    (hns : ns.IsOpen) (path : String) : w.Declares host n s.path (.depend path) ns := by
  have hobject : hostObject ns "depend" "" w = (.ok (), w) := by
    rw [hostObject, hns.depend]
    rfl
  rw [Declares, runAction, bind_of_ok hobject]
  rcases hc : w.circle? (Path.parse path) with _ | e
  · by_cases hp : w.canonical (Path.parse path) = s.path
    · have hdepend : depend n (Path.parse path) w = (.ok (), w) := by
        rw [depend_of_none hs hc, if_neg (not_not_intro hp)]
        rfl
      rw [bind_of_ok hdepend]
      exact Or.inl ⟨by simp [completes, hc, hp], w, rfl, declared_own n path w⟩
    · cases hm : w.modified? (w.canonical (Path.parse path)) with
      | error e =>
        have hdepend : depend n (Path.parse path) w = (.error e, w) := by
          rw [depend_of_none hs hc, if_pos hp, hm]
          rfl
        rw [bind_of_error hdepend]
        obtain ⟨fault, text, rfl⟩ := FileTree.modified?_error hm
        exact Or.inr
          ⟨by simp [completes, hp, hm, Except.isOk,
          Except.toBool], _, rfl, Failure.ordinary_file fault text⟩
      | ok modified =>
        have hdepend : depend n (Path.parse path) w = (.ok (),
            { w with scripts := w.scripts.modify n (·.addDependency (w.canonical (Path.parse path))
              modified) }) := by
          rw [depend_of_none hs hc, if_pos hp, hm]
          rfl
        rw [bind_of_ok hdepend]
        refine Or.inl ⟨by simp [completes, hc, hm, Except.isOk, Except.toBool], _, rfl, ?_⟩
        exact declared_depend hs path modified hp
  · rw [bind_of_error (depend_of_circle hs hc)]
    obtain ⟨argument, rfl⟩ := circle?_failure hc
    exact Or.inr ⟨by rw [completes, hc]; rfl, _, rfl, rfl⟩

theorem declares (host : HostRequest → Act HostAnswer) {action : Action} (ha : action.IsDeclaring)
    (hs : w.script? n = some s) (ht : w.claimTarget = .counted) (hns : ns.IsOpen)
    (hfirm : w.completes s.path action = true → ∀ q ∈ w.listedBy [action], w.form? q = some q) :
    w.Declares host n s.path action ns := by
  cases action with
  | watch paths => exact declares_watch host hs ht hns hfirm
  | depend path => exact declares_depend host hs hns path
  | raise failure => exact Or.inr ⟨rfl, failure, rfl, ha⟩
  | _ => exact ha.elim

theorem Declared.completes {actions : List Action} (h : Declared n actions w w') (p : Path) :
    w'.completes p = w.completes p := by
  funext action
  cases action with
  | depend path =>
    have hmodified : w'.modified? = w.modified? := by
      rw [h.frame]
      rfl
    have hcircle : w'.circle? = w.circle? := by
      rw [h.frame]
      rfl
    simp only [World.completes, h.canonical, hmodified, hcircle]
  | watch paths =>
    have hcircle : w'.circleAmong? = w.circleAmong? := by
      rw [h.frame]
      rfl
    simp only [World.completes, hcircle]
  | _ => rfl

theorem runActions_declaring {body : List Action} (hb : ∀ action ∈ body, action.IsDeclaring)
    (hs : w.script? n = some s) (ht : w.claimTarget = .counted) (hns : ns.IsOpen)
    (hfirm : ∀ q ∈ w.listedBy (body.takeWhile (w.completes s.path)), w.form? q = some q) :
    Ends (Declared n (body.takeWhile (w.completes s.path)) w) Ordinary
      (runActions host n body ns w) := by
  induction body generalizing w s with
  | nil => exact ends_ok (declared_refl n w)
  | cons action rest ih =>
    obtain ⟨ha, hrest⟩ := List.forall_mem_cons.mp hb
    rw [runActions]
    have hcons (hc : w.completes s.path action = true) :
        (∀ q ∈ w.listedBy [action], w.form? q = some q) ∧
          ∀ q ∈ w.listedBy (rest.takeWhile (w.completes s.path)), w.form? q = some q := by
      rw [List.takeWhile_cons_of_pos hc] at hfirm
      refine ⟨fun q hq => hfirm q ?_, fun q hq => hfirm q ?_⟩
      · rw [listedBy, List.flatMap_singleton] at hq
        exact List.mem_append_left _ hq
      · exact List.mem_append_right _ hq
    rcases declares host ha hs ht hns fun hc => (hcons hc).1 with ⟨hc, w₁, hr, h₁⟩ | ⟨hc, e, hr, he⟩
    · rw [bind_of_ok hr, List.takeWhile_cons_of_pos hc]
      obtain ⟨s₁, hs₁, hpath, -⟩ := h₁.script s hs
      have ht₁ : w₁.claimTarget = .counted := by
        rw [h₁.frame]
        exact ht
      have hnext := ih hrest hs₁ ht₁
      rw [h₁.completes, hpath, h₁.listedBy, h₁.form?] at hnext
      exact (hnext (hcons hc).2).imp fun w₂ h₂ => h₁.trans h₂
    · rw [bind_of_error hr, List.takeWhile_cons_of_neg (by rw [hc]; decide)]
      exact ends_error (declared_refl n w) he

/-- Running an instance whose body only declares. -/
theorem ends_run_declaring (hb : ∀ action ∈ w.bodyOf s.path, action.IsDeclaring)
    (hs : w.script? n = some s) (hc : s.state = .created) (ht : w.claimTarget = .counted)
    (hfirm : ∀ q ∈ w.demands s.path, w.form? q = some q) :
    Ends (Declared n (w.performed s.path) (w.started n s)) E (run host n w) := by
  have hs₁ : (w.started n s).script? n = some { s with state := .running, hasContext := true } :=
    (altered_modify ({ · with state := .running, hasContext := true }) n w).script? hs
  have hbody (ns : Namespace) (hns : ns.IsOpen) :
      Ends (Declared n (w.performed s.path) (w.started n s)) Ordinary ((do
        runActions host n (← loadBody { s with state := .running, hasContext := true }) ns)
          (w.started n s)) := by
    rcases loadBody_eq
      { s with state := .running, hasContext := true } (w.started n s) with hl | ⟨e, hl, he, hnone⟩
    · rw [bind_of_ok hl]
      exact runActions_declaring hb hs₁ ht hns hfirm
    · rw [bind_of_error hl]
      have hnone' : w.performed s.path = [] := by
        rw [performed, show w.bodyOf s.path = [] from hnone]
        rfl
      rw [hnone']
      exact ends_error (declared_refl n (w.started n s)) he
  have hexecute : Ends (Declared n (w.performed s.path) (w.started n s)) Ordinary
    (execute host n (w.launched n)) := by
    rw [execute, bind_of_ok (script_launched hs), get_bind, record, modify_bind]
    have hopen := isOpen_initialNamespace
      { s with state := .running, hasContext := true } (w.fileOf s.path).toText
    refine Ends.bind (ends_attempt (hbody _ hopen) fun e he => Or.inr he) fun result => ?_
    cases result with
    | ok ns => exact keeps_modify fun w' h => h.beside _ rfl
    | error e => exact keeps_throw rfl
  rw [run, bind_of_ok (script_of_some hs), if_neg (not_not_intro hc), updateScript, modify_bind]
  refine Ends.bind (ends_attempt hexecute fun e he => Or.inl he) fun result => ?_
  cases result with
  | ok _ => exact keeps_pure _
  | error e =>
    refine Keeps.bind (keeps_modify fun w' h => h.raised (some e)) fun _ => ?_
    exact keeps_modify fun w' h => h.beside w'.engine rfl

end World

end HotReload
