import HotReload.Proofs.Host.Idle

/-!
# Where preloading stops

Preloading stops after a cycle that leaves the number of watched paths the same. What is registered
then goes back to the last cycle that changed it, and the next cycle has nothing to do exactly if
the watched paths with a file are those that there were when that cycle was planned.
-/
namespace HotReload

open World Moment Operation

namespace World

variable {w w' : World} {n : Nat} {paths : List Path}

/-! Each watched path stands once. -/

/-- Claiming and releasing keep the counts in order, whether they are counted or only recorded. -/
theorem keeps_isKept (r : Option ClaimRequest) :
    Keeps (·.claims.IsKept) IsClaimFailure (requestAny r) := by
  have hrefusal (refuses : Bool) (r : ClaimRequest) (argument : String) :
      Keeps (·.claims.IsKept) IsClaimFailure (do
        record (.requested r)
        if refuses then throw (.raised "RuntimeError" argument)) := by
    refine Keeps.bind (keeps_modify fun _ h => h) fun _ => ?_
    split
    · exact keeps_throw ⟨_, _, rfl, Or.inr rfl⟩
    · exact keeps_pure _
  cases r with
  | none => exact keeps_pure _
  | some r =>
    refine keeps_get_bind fun s hs => ?_
    rcases s.claimTarget with _ | ⟨refusesWatch, refusesUnwatch⟩ <;> cases r
    · exact ((keeps_modify fun s hs => hs.claimAll _).bind fun _ => keeps_checkForms _) s hs
    · exact ((keeps_modify fun s hs => hs.releaseAll _).bind fun _ => keeps_checkForms _) s hs
    · exact hrefusal _ _ _ s hs
    · exact hrefusal _ _ _ s hs

theorem isKept_scriptWatch (h : w.claims.IsKept) (n : Nat) (paths : List Path) :
    (scriptWatch n paths w).2.claims.IsKept := by
  cases hs : w.script? n with
  | none => rwa [scriptWatch, bind_of_error (script_of_none hs)]
  | some s =>
    cases hc : w.circleAmong? paths with
    | none =>
      rw [scriptWatch_of_none hs hc]
      exact (keeps_isKept _ { w with scripts := w.scripts.modify n _ } h).1
    | some e => rwa [scriptWatch_of_some hs hc]

theorem isKept_scriptUnwatch (h : w.claims.IsKept) (n : Nat) (paths : List Path) :
    (scriptUnwatch n paths w).2.claims.IsKept := by
  cases hs : w.script? n with
  | none => rwa [scriptUnwatch, bind_of_error (script_of_none hs)]
  | some s =>
    cases hc : w.circleAmong? paths with
    | none =>
      rw [scriptUnwatch_of_none hs hc]
      exact (keeps_isKept _ { w with scripts := w.scripts.modify n _ } h).1
    | some e => rwa [scriptUnwatch_of_some hs hc]

theorem isKept_watchPaths (h : w.claims.IsKept) (paths : List Path) :
    (watchPaths paths w).2.claims.IsKept := by
  cases hc : w.circleAmong? paths with
  | none =>
    rw [watchPaths_state hc]
    exact h.claimAll _
  | some e => rwa [watchPaths_of_some hc]

theorem isKept_operatorUnwatch (h : w.claims.IsKept) (paths : List Path) :
    (operatorUnwatch paths w).2.claims.IsKept := by
  cases hc : w.circleAmong? paths with
  | none =>
    rw [operatorUnwatch_state hc]
    exact h.releaseAll _
  | some e => rwa [operatorUnwatch_of_some hc]

theorem isKept_unwatchPaths (h : w.claims.IsKept) (paths : List Path) :
    (unwatchPaths paths w).2.claims.IsKept := by
  cases hc : w.circleAmong? paths with
  | none =>
    rw [unwatchPaths_of_none hc]
    have hkeeps : Keeps (·.claims.IsKept) (fun _ => True) (operatorUnwatch (w.owned paths)) :=
      fun v hv => ⟨isKept_operatorUnwatch hv _, fun _ _ => trivial⟩
    refine (hkeeps.bind fun _ v hv => ⟨?_, fun _ _ => trivial⟩) w h |>.1
    rw [releaseAll_state]
    exact hv.releaseAll _
  | some e => rwa [unwatchPaths_of_some hc]

end World

variable {R : Regime} {m m' : Moment}

theorem Step.isKept (h : Step R m m') (hk : m.world.claims.IsKept) : m'.world.claims.IsKept := by
  cases h with
  | calm h ht =>
    rw [h.frame]
    exact hk
  | scriptWatch paths h => exact isKept_scriptWatch hk _ paths
  | scriptUnwatch paths h => exact isKept_scriptUnwatch hk _ paths
  | watchPaths paths h => exact isKept_watchPaths hk paths
  | unwatchPaths paths h => exact isKept_unwatchPaths hk paths
  | plan ho ht hf hm =>
    rw [hm.frame, ht.frame]
    exact hk
  | clear hc ho => exact ⟨List.nodup_nil, fun entry he => absurd he List.not_mem_nil⟩
  | _ => exact hk

theorem Walk.isKept (h : Walk R m m') (hk : m.world.claims.IsKept) : m'.world.claims.IsKept := by
  induction h with
  | refl => exact hk
  | tail _ h ih => exact h.isKept ih

theorem History.isKept {w₀ w : World} (h : History R w₀ w) (hs : IsSane ⟨w₀, []⟩) (ht : IsTame R w₀)
    (hk : w₀.claims.IsKept) : w.claims.IsKept := by
  have hlinks := (h.linked hs ht).1
  clear h
  induction hlinks with
  | refl => exact hk
  | tail _ hlink ih =>
    obtain ⟨K, -, hwalk⟩ := hlink
    exact Walk.isKept hwalk ih

theorem World.IsNew.isKept {w : World} (h : w.IsNew) : w.claims.IsKept := by
  rw [h.claims]
  exact ⟨List.nodup_nil, fun entry he => absurd he List.not_mem_nil⟩

/-! What is registered goes back to a cycle. -/

/-- Whether what is registered in one world is what a cycle has led to that was
planned in another one. -/
def World.Stems (v w : World) : Prop := ∃ done v', Outcome v done v' ∧ w.registry = v'.registry

/-- While the host is open, only a cycle changes what is registered. -/
theorem Walk.stems (h : Walk R m m') (hs : m.IsSane) (ho : m'.world.isClosed = false) :
    m'.world.registry = m.world.registry ∨ ∃ m₁, Walk R m m₁ ∧ Stems m₁.world m'.world := by
  induction h with
  | refl => exact Or.inl rfl
  | @tail m₁ m₂ hw h ih =>
    have hopen : m₁.world.isClosed = false := Bool.eq_false_iff.mpr fun hc => by
      rw [h.isClosed hc] at ho
      cases ho
    rcases h.registry with hsame | ⟨hc, -⟩ | ⟨u, ht, -, hm, -⟩
    · rw [hsame]
      refine (ih hopen).imp_right fun ⟨m₀, hw₀, done, v', hout, hr⟩ =>
        ⟨m₀, hw₀, done, v', hout, hsame.trans hr⟩
    · rw [ho] at hc
      cases hc
    · have hr := (Walk.isSane hw hs).registered
      exact Or.inr ⟨m₁, hw, _, _, outcome_of_remade hr ht hm, rfl⟩

namespace World

variable {v w w₀ w₁ u u' : World} {host : HostRequest → Act HostAnswer} {K : List Duty}
  {m₀ : Moment}

/-- Whether the same watched paths have a file. -/
def AgreesWith (v w : World) : Prop :=
  ∀ p, (p ∈ v.watched ∧ v.hasFile p = true) ↔ (p ∈ w.watched ∧ w.hasFile p = true)

/-- What goes back to a cycle that took in what agreed with the files fits the files exactly if
these are still the watched ones. -/
theorem Stems.isSettled_iff (h : Stems v w) (hf : Faithful v) : IsSettled w ↔ AgreesWith v w := by
  obtain ⟨done, v', hout, hr⟩ := h
  have hfit : IsSettled v' := hout.isSettled_iff.mpr hf
  have hunmoved := hout.unmoved
  have hkeys (p : Path) : (∃ n, w.registry.get? p = some n) ↔ p ∈ v.watched ∧
    v.hasFile p = true := by
    have hfile : v'.hasFile = v.hasFile := by
      rw [hout.frame]
      rfl
    rw [hr, hfit p, hunmoved.watched, hfile]
  rw [IsSettled, AgreesWith]
  simp only [hkeys]

/-- Of two lists of watched paths of the same length, one that has the paths of
the other has no more. -/
theorem watched_of_subset (hk : v.claims.IsKept) (hsub : v.watched ⊆ w.watched)
    (hl : w.watched.length = v.watched.length) (p : Path) : p ∈ w.watched ↔ p ∈ v.watched :=
  ((hk.nodup.subperm hsub).perm_of_length_le hl.le).mem_iff.symm

/-! Where the cycles end. -/

/-- How cycles that started in `w` have come to their end: a last one was planned in `u` and carried
out, and left the number of watched paths the same. -/
structure EndsWith (R : Regime) (K : List Duty) (w u w₁ : World) : Prop where
  before : Reached R ⟨w, K⟩ K u
  opened : u.isClosed = false
  last : ∃ done u', cycle u = (.ok done, u') ∧ Reached R ⟨u', .commit done.commit :: K⟩ K w₁
  number : w₁.watched.length = u.watched.length

/-- Cycles that end before they run out have come to a last one, or to a host that is closed. -/
theorem preloadCycles_cases (hh : Reached.Serves R host) {left cycles n : Nat} {settled : Bool}
    (h : Reached R m₀ K w) (hp : preloadCycles host left cycles w = (.ok (n, settled), w₁)) :
    Reached R ⟨w, K⟩ K w₁ ∧
      (settled = false → n = cycles + left) ∧
      (settled = true → w₁.isClosed = false → ∃ u, EndsWith R K w u w₁) := by
  induction left generalizing cycles w m₀ with
  | zero =>
    cases hp
    exact ⟨h.restart, fun _ => rfl, Bool.noConfusion⟩
  | succ left ih =>
    rw [preloadCycles, get_bind] at hp
    by_cases hc : w.isClosed = true
    · rw [if_pos hc] at hp
      cases hp
      refine ⟨h.restart, Bool.noConfusion, fun _ ho => ?_⟩
      rw [hc] at ho
      cases ho
    · have ho : w.isClosed = false := Bool.eq_false_iff.mpr hc
      rw [if_neg hc, get_bind] at hp
      obtain ⟨done, w', hcycle, hp⟩ := bind_eq_ok hp
      have hplanned := h.restart.cycle_ok ho hcycle
      obtain ⟨_, w₂, hcommit, hp⟩ := bind_eq_ok hp
      have hcommitted := Reached.ends_commit (E := fun _ => False) hh hplanned.restart
      rw [hcommit] at hcommitted
      have h₂ : Reached R ⟨w', .commit done.commit :: K⟩ K w₂ := hcommitted.1
      rw [get_bind] at hp
      by_cases hs : w₂.watched.length = w.watched.length
      · rw [if_pos hs] at hp
        cases hp
        exact ⟨hplanned.trans h₂, Bool.noConfusion, fun _ _ =>
          ⟨w, h.restart, ho, ⟨done, w', hcycle, h₂⟩, hs⟩⟩
      · rw [if_neg hs] at hp
        obtain ⟨h₁, hlimit, hend⟩ := ih h₂ hp
        refine ⟨(hplanned.trans h₂).trans h₁, fun hf => ?_, fun ht ho₁ => ?_⟩
        · rw [hlimit hf]
          omega
        · obtain ⟨u, hbefore, hu, hlast, hnumber⟩ := hend ht ho₁
          exact ⟨u, (hplanned.trans h₂).trans hbefore, hu, hlast, hnumber⟩

/-- Preloading that stops before its limit has come to a last cycle. -/
theorem preload_ends (hh : Reached.Serves R host) {n : Nat} (h : Reached R m₀ K w)
    (hp : preload host w = (.ok n, w₁)) (hn : (n : Int) < w.preloadMaxCycles)
    (ho : w₁.isClosed = false) :
    Reached R ⟨w, K⟩ K w₁ ∧ ∃ u, EndsWith R K w u w₁ := by
  rw [preload, get_bind] at hp
  obtain ⟨⟨cycles, settled⟩, v, hcycles, hp⟩ := bind_eq_ok hp
  obtain ⟨hv, hlimit, hend⟩ := preloadCycles_cases hh h hcycles
  have hlogs {m : Moment} (h : Reached R m K v) {j : Journal} (hj : j.lives = v.journal.lives) :
      Reached R m K { v with journal := j } :=
    h.calm ⟨rfl, hj⟩ (h.tame.transfer rfl rfl rfl rfl rfl)
  cases settled with
  | false =>
    cases hp
    have := hlimit rfl
    omega
  | true =>
    cases hp
    refine ⟨hlogs hv rfl, ?_⟩
    obtain ⟨u, hbefore, hu, ⟨done, u', hcycle, hlast⟩, hnumber⟩ := hend rfl ho
    exact ⟨u, hbefore, hu, ⟨done, u', hcycle, hlogs hlast rfl⟩, hnumber⟩

/-- What is true where preloading that began in `w` has stopped in `w₁`, with a last cycle
that was planned in `u`. -/
structure Stops (R : Regime) (K : List Duty) (w u w₁ : World) :
    Prop extends EndsWith R K w u w₁ where
  /-- The watched paths are the same if that cycle only added or only dropped some. -/
  same : u.watched ⊆ w₁.watched ∨ w₁.watched ⊆ u.watched → ∀ p, p ∈ w₁.watched ↔ p ∈ u.watched
  /-- Unless scripts had other cycles change it meanwhile, what is registered
  goes back to that cycle. -/
  own : ∀ done u', World.cycle u = (.ok done, u') → w₁.registry = u'.registry → Stems u w₁
  /-- It goes back to that cycle or to one that a script has asked for since. -/
  latest : ∃ v K', Walk R ⟨u, K⟩ ⟨v, K'⟩ ∧ Stems v w₁
  idle : IsSound w₁ → IsReadable w₁ → w₁.reported = [] →
    ∀ v, Stems v w₁ → Faithful v → (IsIdle w₁ ↔ AgreesWith v w₁)

/-- Preloading that stops before its limit leaves the host with nothing to do exactly if the watched
paths with a file are those that the latest cycle has gone by. -/
theorem preload_stops (hnew : w₀.IsNew) (htame : IsTame R w₀) (h : History R w₀ v)
    (hv : Reached R ⟨v, []⟩ K w) {depth n : Nat} (hp : preload (hostAt depth) w = (.ok n, w₁))
    (hn : (n : Int) < w.preloadMaxCycles) (ho : w₁.isClosed = false) : ∃ u, Stops R K w u w₁ := by
  obtain ⟨h₁, u, hend⟩ := preload_ends (Reached.serves_hostAt depth) hv hp hn ho
  obtain ⟨done, u', hcycle, hlast⟩ := hend.last
  have hkv : v.claims.IsKept := h.isKept hnew.isSane htame hnew.isKept
  have hku : u.claims.IsKept := Walk.isKept hend.before.walk (Walk.isKept hv.walk hkv)
  have hk₁ : w₁.claims.IsKept := Walk.isKept h₁.walk (Walk.isKept hv.walk hkv)
  have hstep := (hend.before.step_of_cycle hend.opened hcycle).1
  have hout : Outcome u done u' := by
    obtain ⟨u₁, ht, hm, rfl⟩ := hend.before.remade_of_cycle hcycle
    exact outcome_of_remade hend.before.sane.registered ht hm
  refine ⟨u, { hend with same := ?_, own := ?_, latest := ?_, idle := ?_ }⟩
  · rintro (hsub | hsub) p
    · exact watched_of_subset hku hsub hend.number p
    · exact (watched_of_subset hk₁ hsub hend.number.symm p).symm
  · intro done' u'' hcycle' hr
    cases hcycle.symm.trans hcycle'
    exact ⟨done, u', hout, hr⟩
  · rcases Walk.stems hlast.walk (hstep.isSane hend.before.sane) ho with hr | ⟨m, hm, hstems⟩
    · exact ⟨u, K, .refl, done, u', hout, hr⟩
    · exact ⟨m.world, m.duties, .head hstep hm, hstems⟩
  · intro hsound hreadable hq v' hstems hfaithful
    have hnull := h₁.tame.isNullFree h₁.sane.named
    rw [isIdle_iff h₁.sane.registered hnull ho hsound hreadable hq]
    exact hstems.isSettled_iff hfaithful

/-- Whether preloading stops before its limit although the next cycle has something to do. -/
def StopsEarly (w : World) : Prop :=
  ∃ n w₁ plan w₂, preload World.host w = (.ok n, w₁) ∧ (n : Int) < w.preloadMaxCycles ∧
    w₁.isClosed = false ∧
    IsSound w₁ ∧ IsReadable w₁ ∧ w₁.reported = [] ∧ reconcile World.host w₁ = (.ok plan, w₂) ∧
      (plan.loaded ≠ [] ∨ plan.unloaded ≠ [])

/-- Where what is registered does not fit the files, the next cycle loads or unloads. -/
theorem Reached.changes (h : Reached R m₀ K w) (depth : Nat) (ho : w.isClosed = false)
    (hw : IsSound w) (hf : IsReadable w) (hs : ¬IsSettled w) :
    ∃ plan w₁, reconcile (hostAt depth) w = (.ok plan, w₁) ∧
      (plan.loaded ≠ [] ∨ plan.unloaded ≠ []) := by
  obtain ⟨w₁, w', ht, hc, hm⟩ := cycle_eq h.sane.registered hw hf (h.tame.isNullFree h.sane.named)
  have hout := outcome_of_remade h.sane.registered ht hm
  obtain ⟨w₂, hr, -⟩ :=
    Reached.reconcile_of_cycle (Reached.serves_hostAt depth) (h.cycle_ok ho hc) ho hc
  refine ⟨_, w₂, hr, ?_⟩
  by_contra hnone
  obtain ⟨hloaded, hunloaded⟩ := not_or.mp hnone
  refine hs fun p => ⟨fun ⟨n, hn⟩ => ?_, fun ⟨hwatched, hfile⟩ => ?_⟩
  · by_contra hnot
    have hgone : w'.registry.get? p = none := (hout.unloads p n hn).mpr (by
      by_cases hwatched : p ∈ w.watched
      · exact Or.inr (Or.inl (Bool.eq_false_iff.mpr fun hfile => hnot ⟨hwatched, hfile⟩))
      · exact Or.inl hwatched)
    have hmem := (hout.unloaded.2 p).mpr ⟨by rw [hn]; exact Option.some_ne_none n, hgone⟩
    exact hunloaded (List.ne_nil_of_mem hmem)
  · apply Option.ne_none_iff_exists'.mp
    intro hp
    have hfresh := ((hout.loads p hp).1.mpr ⟨hwatched, Or.inl hfile⟩).get?_ne_none
    exact hloaded (List.ne_nil_of_mem ((hout.loaded.2 p).mpr ⟨hp, hfresh⟩))

/-- Preloading stops after a first cycle that leaves the number of watched paths the same. -/
theorem preload_of_cycle {done : Applied} {w' : World} (ho : w.isClosed = false)
    (hmax : 0 < w.preloadMaxCycles) (hc : cycle w = (.ok done, w'))
    (hcommit : commit host done.commit w' = (.ok (), w₁))
    (hl : w₁.watched.length = w.watched.length) :
    ∃ j, preload host w = (.ok 1, { w₁ with journal := j }) := by
  obtain ⟨left, hleft⟩ : ∃ left, w.preloadMaxCycles.toNat = left + 1 :=
    ⟨w.preloadMaxCycles.toNat - 1, by omega⟩
  have hcycles : preloadCycles host w.preloadMaxCycles.toNat 0 w = (.ok (1, true), w₁) := by
    rw [hleft, preloadCycles, get_bind, if_neg (by rw [ho]; decide), get_bind, bind_of_ok hc,
      bind_of_ok hcommit, get_bind, if_pos hl]
    rfl
  rw [preload, get_bind, bind_of_ok hcycles]
  exact ⟨_, rfl⟩

/-! A script that watches another path and has its own unwatched. -/

/-- A commit that runs one instance, whose body comes to its end. -/
theorem commit_of_body (host : HostRequest → Act HostAnswer) {n : Nat} {s : Script}
    {body : List Action} {time : Float} {ns : Namespace} (hs : w.script? n = some s)
    (hc : s.state = .created)
    (hf : w.files.lookup (w.files.here.join (w.fileOf s.path)).fold =
      .ok (.file (.script body) time))
    (hm : Action.malformedLine? body = none)
    (hr :
      runActions host n body
        (initialNamespace { s with state := .running, hasContext := true } (w.fileOf s.path).toText)
          (w.started n s) = (.ok ns, w₁)) :
    commit host ⟨[n], []⟩ w = (.ok (), { w₁ with engine := w₁.engine.keep s.path n ns }) := by
  have hload : loadBody s (w.started n s) = (.ok body, w.started n s) := by
    have hlookup : (w.started n s).files.lookup ((w.started n s).files.here.join
        ((w.started n s).fileOf s.path)).fold = .ok (.file (.script body) time) := hf
    rw [loadBody, get_bind, hlookup]
    dsimp only
    rw [hm]
    rfl
  have hbody : runBody host n s w = (.ok ns, w₁) := (bind_of_ok hload _).trans hr
  exact commit_of_run hs (run_of_ok hs hc hbody)

/-- What such a script does. -/
def swap : List Action := [.watch ["b"], .host (.unwatch ["a"])]

def swapping : World where
  root := ⟨.root, ["s"]⟩
  base := ⟨.root, ["s"]⟩
  files :=
    { here := ⟨.root, []⟩
      nodes :=
        [(["s"], .directory), (["s", "a"], .file (.script swap) 0.0),
        (["s", "b"], .file (.text "") 0.0)] }

/-- The operator watches the path of the script. -/
def poised : World := (World.host (.watch ["a"]) swapping).2

theorem lookup_poised : poised.files.lookup ⟨.root, ["s", "a"]⟩ = .ok (.file (.script swap) 0.0) ∧
    poised.files.lookup ⟨.root, ["s", "b"]⟩ = .ok (.file (.text "") 0.0) := by
  constructor <;>
  · exact FileTree.lookup_entry rfl (by decide) (by decide) rfl fun _ h => by cases h

theorem isFile_poised : poised.files.isFile (poised.fileOf ⟨.relative, ["a"]⟩) = .ok true ∧
    poised.files.isFile (poised.fileOf ⟨.relative, ["b"]⟩) = .ok true := by
  have hfirst : poised.fileOf ⟨.relative, ["a"]⟩ = ⟨.root, ["s", "a"]⟩ := rfl
  have hsecond : poised.fileOf ⟨.relative, ["b"]⟩ = ⟨.root, ["s", "b"]⟩ := rfl
  rw [hfirst, hsecond, FileTree.isFile, FileTree.isFile, lookup_poised.1, lookup_poised.2]
  exact ⟨rfl, rfl⟩

theorem plan_poised : poised.plan = { toLoad := [⟨.relative, ["a"]⟩] } := by
  have hwatched : poised.watched = [⟨.relative, ["a"]⟩] := rfl
  have hreported : poised.reported = [] := rfl
  rw [plan, hwatched, hreported, List.map_singleton, hasFile_of_isFile isFile_poised.1]
  rfl

theorem isTame_swapping : swapping.IsTame .all where
  root := by simp [swapping, Path.hasNull]
  here := by simp [swapping, Path.hasNull]
  nodes := by
    have hscript : (FileNode.file (FileContent.script swap) 0.0).IsTame .all :=
      ⟨fun p hp => trivial, ⟨trivial, trivial⟩, trivial⟩
    exact List.forall_mem_cons.mpr
      ⟨trivial, List.forall_mem_cons.mpr ⟨hscript, List.forall_mem_singleton.mpr trivial⟩⟩
  tree := trivial
  raises x hx := by cases hx
  named x hx := by cases hx
  refusal e he := by cases he
  resources s hs := by cases hs

theorem isNew_swapping : swapping.IsNew := ⟨rfl, rfl, rfl, rfl, rfl, rfl⟩

theorem history_poised : History .all swapping poised :=
  .request depthLimit (.watch ["a"]) .refl trivial trivial

theorem isReadable_poised : IsReadable poised := by
  intro p hp
  obtain rfl : p = ⟨.relative, ["a"]⟩ := List.mem_singleton.mp hp
  exact ⟨true, isFile_poised.1⟩

/-- The host once there is an instance of the script. -/
def primed (registry : Registry Nat) (watchStarted : Bool) (journal : Journal)
    (modified : Option Float) : World :=
  { poised with scripts := [Script.create ⟨.relative, ["a"]⟩ modified], registry, watchStarted,
                journal }

/-- The first cycle makes an instance of the script. -/
theorem cycle_poised : ∃ done registry watchStarted journal modified,
    cycle poised = (.ok done, primed registry watchStarted journal modified) ∧
      done.commit = ⟨[0], []⟩ ∧ Registry.get? registry ⟨.relative, ["b"]⟩ = none := by
  obtain ⟨-, hsane, htame⟩ := history_poised.linked isNew_swapping.isSane isTame_swapping
  have hregistered : IsRegistered poised := hsane.registered
  have hsound : IsSound poised := isSound_of_none rfl
  obtain ⟨w, w', ht, hc, hm⟩ :=
    cycle_eq hregistered hsound isReadable_poised (htame.isNullFree hsane.named)
  have hout := outcome_of_remade hregistered ht hm
  have hwatch : w'.watch = none := Option.map_eq_none_iff.mp hout.watch
  have hscripts : w'.scripts =
      [Script.create ⟨.relative, ["a"]⟩ (w.modified? ⟨.relative, ["a"]⟩).toOption.join] := by
    rw [hm.scripts, plan_poised, ht.frame]
    rfl
  have hframe := hout.frame
  rw [hscripts, hwatch] at hframe
  refine ⟨_, w'.registry, w'.watchStarted, w'.journal,
    (w.modified? ⟨.relative, ["a"]⟩).toOption.join,
    hc.trans (congrArg (Prod.mk _) hframe), ?_, ?_⟩
  · rw [plan_poised]
    rfl
  · rw [hm.registry, plan_poised, ht.frame]
    rfl

/-- Whether the other path is watched in place of the script's own, and has no instance. -/
structure IsSwapped (w : World) : Prop where
  root : w.root = poised.root
  files : w.files = poised.files
  watch : w.watch = none
  isClosed : w.isClosed = false
  claims : w.claims = [(⟨.relative, ["b"]⟩, 1)]
  registry : w.registry.get? ⟨.relative, ["b"]⟩ = none

theorem isSwapped_runActions {registry : Registry Nat}
    (hr : Registry.get? registry ⟨.relative, ["b"]⟩ = none)
    (watchStarted : Bool) (journal : Journal) (modified : Option Float) (file : String) :
    ∃ ns w₁, runActions World.host 0 swap
        (initialNamespace
          { Script.create ⟨.relative, ["a"]⟩ modified with
            state := .running, hasContext := true } file)
        ((primed registry watchStarted journal modified).started 0
          (Script.create ⟨.relative, ["a"]⟩ modified)) =
          (.ok ns, w₁) ∧ IsSwapped w₁ := by
  let result := runActions World.host 0 swap
    (initialNamespace
      { Script.create ⟨.relative, ["a"]⟩ modified with state := .running, hasContext := true } file)
    ((primed registry watchStarted journal modified).started 0
      (Script.create ⟨.relative, ["a"]⟩ modified))
  have hok : result.1.toOption.isSome = true := rfl
  have hswapped : IsSwapped result.2 := ⟨rfl, rfl, rfl, rfl, rfl, hr⟩
  show ∃ ns w₁, result = (.ok ns, w₁) ∧ IsSwapped w₁
  generalize result = r at hok hswapped
  obtain ⟨e | ns, w₁⟩ := r
  · cases hok
  · exact ⟨ns, w₁, rfl, hswapped⟩

/-- The script is run, and afterwards the other path is watched in place of its own. -/
theorem preload_poised : ∃ w₁, preload World.host poised = (.ok 1, w₁) ∧ IsSwapped w₁ := by
  obtain ⟨done, registry, watchStarted, journal, modified, hc, hcommit, hr⟩ := cycle_poised
  obtain ⟨ns, w₁, hbody, hswapped⟩ := isSwapped_runActions hr watchStarted journal modified _
  have hrun :=
    commit_of_body World.host (n := 0) (w := primed registry watchStarted journal modified)
    rfl rfl lookup_poised.1 rfl hbody
  rw [← hcommit] at hrun
  have hnumber : w₁.watched.length = poised.watched.length := by
    rw [watched, hswapped.claims]
    rfl
  obtain ⟨j, hp⟩ := preload_of_cycle rfl (by decide) hc hrun hnumber
  exact ⟨_, hp, hswapped.root, hswapped.files, hswapped.watch, hswapped.isClosed, hswapped.claims,
    hswapped.registry⟩

theorem preload_stops_poised :
    swapping.IsNew ∧ swapping.IsTame .all ∧ History .all swapping poised ∧
    ∃ w₁ u, preload World.host poised = (.ok 1, w₁) ∧ Stops .all [] poised u w₁ := by
  obtain ⟨-, hsane, htame⟩ := history_poised.linked isNew_swapping.isSane isTame_swapping
  obtain ⟨w₁, hp, h⟩ := preload_poised
  obtain ⟨u, hstops⟩ :=
    preload_stops isNew_swapping isTame_swapping history_poised ⟨.refl, hsane, htame⟩ hp (by decide)
      h.isClosed
  exact ⟨isNew_swapping, isTame_swapping, history_poised, w₁, u, hp, hstops⟩

/-- The other path has a file and no instance. -/
theorem stopsEarly_poised : StopsEarly poised := by
  obtain ⟨-, hsane, htame⟩ := history_poised.linked isNew_swapping.isSane isTame_swapping
  obtain ⟨w₁, hp, h⟩ := preload_poised
  have hstart : Reached .all ⟨poised, []⟩ [] poised := ⟨.refl, hsane, htame⟩
  have hw₁ := (preload_ends (Reached.serves_hostAt depthLimit) hstart hp (by decide) h.isClosed).1
  have hwatched : w₁.watched = [⟨.relative, ["b"]⟩] := by
    rw [watched, h.claims]
    rfl
  have hfile : w₁.files.isFile (w₁.fileOf ⟨.relative, ["b"]⟩) = .ok true := by
    rw [fileOf, h.files, h.root]
    exact isFile_poised.2
  have hsound : IsSound w₁ := isSound_of_none h.watch
  have hreadable : IsReadable w₁ := by
    intro p hp
    obtain rfl : p = ⟨.relative, ["b"]⟩ := List.mem_singleton.mp (hwatched ▸ hp)
    exact ⟨true, hfile⟩
  have hq : w₁.reported = [] := by
    rw [reported, h.watch]
    rfl
  have hunsettled : ¬IsSettled w₁ := by
    intro hs
    obtain ⟨n, hn⟩ := (hs ⟨.relative, ["b"]⟩).mpr
      ⟨hwatched ▸ List.mem_singleton.mpr rfl, hasFile_of_isFile hfile⟩
    rw [h.registry] at hn
    cases hn
  obtain ⟨plan, w₂, hr, hchanges⟩ := hw₁.changes depthLimit h.isClosed hsound hreadable hunsettled
  exact ⟨1, w₁, plan, w₂, hp, by decide, h.isClosed, hsound, hreadable, hq, hr, hchanges⟩

/-- A path that was reported and has no file has an instance. -/
theorem stopsEarly_expectant : StopsEarly (expectant []) := by
  have hnew : (told []).IsNew := ⟨rfl, rfl, rfl, rfl, rfl, rfl⟩
  obtain ⟨-, hsane, htame⟩ := (history_expectant []).linked hnew.isSane (isTame_told (by simp))
  obtain ⟨w, w', done, w₁, ht, hm, hc, hrun, hmoved, hkept⟩ := cycle_expectant World.host
  have h := misled_expectant ht hm hmoved hkept
  have hstart : Reached .all ⟨expectant [], []⟩ [] (expectant []) := ⟨.refl, hsane, htame⟩
  have hw₁ : Reached .all ⟨expectant [], []⟩ [] w₁ := by
    have hends := Reached.ends_commit (E := fun _ => False) (Reached.serves_hostAt depthLimit)
      (hstart.cycle_ok rfl hc)
    rw [show commit (hostAt depthLimit) done.commit w' = _ from hrun] at hends
    exact hends.1
  have hkept₀ : (expectant []).claims.IsKept :=
    (history_expectant []).isKept hnew.isSane (isTame_told (by simp)) hnew.isKept
  have hnumber : w₁.watched.length = (expectant []).watched.length :=
    ((List.perm_ext_iff_of_nodup (Walk.isKept hw₁.walk hkept₀).nodup hkept₀.nodup).mpr
      h.unmoved.watched).length_eq
  obtain ⟨j, hp⟩ := preload_of_cycle rfl (by decide) hc hrun hnumber
  have hlogged := (preload_ends (Reached.serves_hostAt depthLimit) hstart hp (by decide) h.opened).1
  have hsound : IsSound { w₁ with journal := j } := ⟨h.sound.watch, h.sound.paths⟩
  obtain ⟨plan, w₂, hr, hchanges⟩ :=
    hlogged.changes depthLimit h.opened hsound h.readable h.unsettled
  exact ⟨1, _, plan, w₂, hp, by decide, h.opened, hsound, h.readable, h.reported, hr, hchanges⟩

/-- Preloading may stop early after a cycle that took in what did not agree with the files, or in
which as many paths were dropped as added. -/
theorem preload_stops_early : (swapping.IsNew ∧ History .all swapping poised ∧ StopsEarly poised) ∧
    (told []).IsNew ∧ History .all (told []) (expectant []) ∧ StopsEarly (expectant []) :=
  ⟨⟨isNew_swapping, history_poised, stopsEarly_poised⟩, ⟨rfl, rfl, rfl, rfl, rfl, rfl⟩,
    history_expectant [], stopsEarly_expectant⟩

end World

end HotReload
