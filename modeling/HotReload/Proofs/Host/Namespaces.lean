import HotReload.Proofs.Host.Executions
import HotReload.Proofs.Host.Holdings
import HotReload.Proofs.Host.Preload

/-!
# What the engine answers

When no commit is left to be carried out, the engine keeps variables for registered instances only,
and for each of them whose body came to its end. It answers for a path with those of the registered
instance, unless an older instance of the path came to its end after it. All this if no termination
is given up.
-/
namespace HotReload

open World Moment Operation

variable {R : Regime} {w₀ w w' : World} {n : Nat} {s : Script}

/-- A request is answered. -/
theorem QuietHistory.answered {a : HostAnswer} (h : QuietHistory R w₀ w) (request : HostRequest)
    (hp : R.asks request) (hn : request.IsNamed) (ha : hostAt 1 request w = (.ok a, w')) :
    QuietHistory R w₀ w' := by
  have hrequest := h.request 1 request (R.permits hp) hn
  rwa [ha] at hrequest

/-- The commit that has waited longest is carried out. -/
theorem QuietHistory.carried {c : Commit} {r : Except Failure Unit} (h : QuietHistory R w₀ w)
    (hc : w.tasks[0]? = some c)
    (hr : commit (hostAt 0) c { w with tasks := w.tasks.eraseIdx 0 } = (r, w')) :
    QuietHistory R w₀ w' := by
  have hcarry := h.carry .caller 0 0 hc
  have hworld : (Runner.caller.carry (hostAt 0) c { w with tasks := w.tasks.eraseIdx 0 }).2 = w' :=
    congrArg Prod.snd hr
  rwa [hworld] at hcarry

namespace World

/-- Once no commit is pending, an instance is registered unless it is terminated. -/
theorem registered_iff (hR : ¬R.abandons) (h : IsOrderly R ⟨w, []⟩) (ht : w.tasks = [])
    (hs : w.script? n = some s) :
    w.registry.get? s.path = some n ↔ w.isGone n = false := by
  have haccounted := h.accounted n s hs
  have hheld := haccounted.held fun ha => hR (haccounted.abandoned ha).2
  rw [holders, endings_eq, ht] at hheld
  have hgone : w.isGone n = decide (s.state = .terminated) := by rw [isGone, hs]; rfl
  rw [hgone]
  by_cases hr : w.registry.get? s.path = some n <;> by_cases hd : s.state = .terminated <;> simp_all

/-- The instances whose bodies came to their end. -/
def completed (told : List Execution) : List Nat := (told.filter (·.result.isSome)).map (·.script)

/-- What the engine answers where certain executions have taken place, the last one first. -/
structure Follows (told : List Execution) (w : World) : Prop where
  /-- Whoever was started is told, once, and in the order in which the journal has it. -/
  numbers : (told.map (·.script)).Nodup
  started : ∀ n, n ∈ told.map (·.script) ↔ ∃ s, w.script? n = some s ∧ s.hasContext = true
  executed : w.journal.executed = (told.map (·.path)).reverse
  /-- A body came to its end exactly if its instance shows no failure. -/
  outcome : ∀ e ∈ told, ∃ s, w.script? e.script = some s ∧ s.path = e.path ∧
    (e.result.isSome = true ↔ s.error = none)
  /-- The engine answers for a path with the variables of the registered instance, if its body came
  to its end and no other body of the path did so later; else it has no answer. -/
  answer : ∀ p ns, w.engine.namespace? p = some ns ↔ ∃ n later earlier, w.registry.get? p = some n ∧
    told = later ++ ⟨n, p, some ns⟩ :: earlier ∧ ∀ e ∈ later, e.path = p → e.result = none
  /-- It keeps as many variables as registered instances have come to their end. -/
  contextCount : w.engine.contextCount = w.registry.countP (·.2 ∈ completed told)

namespace Kept

variable {told : List Execution} {ns : Namespace}

/-- What is kept for an instance is what is kept of its execution. -/
theorem find?_eq (h : Kept told w) {e : Execution} (he : e ∈ told) :
    w.engine.namespaces.find? (·.1 = e.script) = w.variables? e := by
  rcases hfind : w.engine.namespaces.find? (·.1 = e.script) with _ | kept <;> rw [hfind]
  · refine (Option.eq_none_iff_forall_ne_some.mpr fun kept hv => ?_).symm
    have hk : kept ∈ w.engine.namespaces := by
      rw [h.namespaces, List.mem_reverse]
      exact List.mem_filterMap.mpr ⟨e, he, hv⟩
    exact List.find?_eq_none.mp hfind kept hk (decide_eq_true (variables?_eq_some hv).1.symm)
  · have hn : kept.1 = e.script := by simpa using List.find?_some hfind
    obtain ⟨e', he', hv⟩ := h.told_of_mem (List.mem_of_find?_eq_some hfind)
    obtain rfl : e' = e :=
      List.inj_on_of_nodup_map h.numbers he' he ((variables?_eq_some hv).1.trans hn)
    exact hv.symm

theorem namespace?_eq (h : Kept told w) (p : Path) : w.engine.namespace? p =
    (told.find? (·.completes p)).bind fun e => if w.isGone e.script then none else e.result := by
  rw [Engine.namespace?, h.latest]
  rcases hfind : told.find? (·.completes p) with _ | e <;> rw [hfind]
  · rfl
  · have hvariables := h.find?_eq (List.mem_of_find?_eq_some hfind)
    rw [Option.bind_some, Option.bind_some]
    by_cases hgone : w.isGone e.script = true
    · rw [if_pos hgone, if_pos hgone]
      rfl
    · rw [if_neg hgone, if_neg hgone, Option.bind_some, hvariables, variables?, if_neg hgone]
      cases e.result <;> rfl

/-- The engine answers for a path with the last execution of the path that came to its end. -/
theorem namespace?_iff (h : Kept told w) (p : Path) (ns : Namespace) :
    w.engine.namespace? p = some ns ↔
    ∃ n later earlier, w.isGone n = false ∧ told = later ++ ⟨n, p, some ns⟩ :: earlier ∧
      ∀ e ∈ later, e.path = p → e.result = none := by
  have hcompletes (e : Execution) : (!e.completes p) = true ↔ (e.path = p → e.result = none) := by
    simp [Execution.completes, imp_iff_not_or]
  rw [h.namespace?_eq, Option.bind_eq_some_iff]
  constructor
  · rintro ⟨⟨n, q, r⟩, hfind, hr⟩
    split at hr
    · cases hr
    · obtain ⟨hc, later, earlier, htold, hlater⟩ := List.find?_eq_some_iff_append.mp hfind
      obtain ⟨rfl, -⟩ : q = p ∧ r.isSome = true := by simpa [Execution.completes] using hc
      obtain rfl : r = some ns := hr
      exact ⟨n, later, earlier, Bool.eq_false_iff.mpr ‹_›,
        htold, fun e he => (hcompletes e).mp (hlater e he)⟩
  · rintro ⟨n, later, earlier, hgone, htold, hlater⟩
    refine ⟨⟨n, p, some ns⟩,
      List.find?_eq_some_iff_append.mpr ⟨by simp [Execution.completes], later, earlier, htold,
      fun e he => (hcompletes e).mpr (hlater e he)⟩, ?_⟩
    rw [hgone]
    rfl

theorem keys_eq (told : List Execution) (w : World) : (told.filterMap w.variables?).map (·.1) =
    (told.filter fun e => !w.isGone e.script && e.result.isSome).map (·.script) := by
  induction told with
  | nil => rfl
  | cons e rest ih =>
    rcases e with ⟨n, p, _ | ns⟩ <;> by_cases hn : w.isGone n = true <;> simp [variables?, hn, ih]

end Kept

/-- Nobody is registered twice. -/
theorem nodup_registered (h : IsRegistered w) : (w.registry.map (·.2)).Nodup := by
  refine (List.nodup_map_iff_inj_on h.nodup.of_map).mpr ?_
  rintro ⟨p, n⟩ hp ⟨q, m⟩ hq (rfl : n = m)
  obtain ⟨s, hs, rfl⟩ := h.script p n (Registry.get?_of_mem h.nodup hp)
  obtain ⟨t, ht, rfl⟩ := h.script q n (Registry.get?_of_mem h.nodup hq)
  rw [Option.some.inj (hs.symm.trans ht)]

namespace Kept

variable {told : List Execution} (h : Kept told w) (hr : IsRegistered w)
  (hlive : ∀ n s, w.script? n = some s → (w.registry.get? s.path = some n ↔ w.isGone n = false))
include h hr hlive

/-- Variables are kept for the registered instances that have come to their end. -/
theorem mem_keys_iff (n : Nat) :
    n ∈ (told.filter fun e => !w.isGone e.script && e.result.isSome).map (·.script) ↔
    n ∈ (w.registry.filter (·.2 ∈ completed told)).map (·.2) := by
  constructor
  · intro hn
    obtain ⟨e, he, rfl⟩ := List.mem_map.mp hn
    obtain ⟨he, hkept⟩ := List.mem_filter.mp he
    obtain ⟨hgone, hsome⟩ : w.isGone e.script = false ∧ e.result.isSome = true := by
      simpa using hkept
    obtain ⟨s, hs, -⟩ := h.past e he
    have hentry := Registry.mem_of_get? ((hlive _ s hs).mpr hgone)
    have hcompleted : e.script ∈ completed told :=
      List.mem_map_of_mem (List.mem_filter.mpr ⟨he, hsome⟩)
    exact List.mem_map.mpr ⟨_, List.mem_filter.mpr ⟨hentry, decide_eq_true hcompleted⟩, rfl⟩
  · intro hn
    obtain ⟨⟨p, k⟩, hentry, rfl⟩ := List.mem_map.mp hn
    obtain ⟨hentry, hcompleted⟩ := List.mem_filter.mp hentry
    obtain ⟨e, he, hek⟩ := List.mem_map.mp (of_decide_eq_true hcompleted)
    obtain ⟨he, hsome⟩ := List.mem_filter.mp he
    obtain ⟨s, hs, rfl⟩ := hr.script p k (Registry.get?_of_mem hr.nodup hentry)
    have hgone := (hlive k s hs).mp (Registry.get?_of_mem hr.nodup hentry)
    refine List.mem_map.mpr ⟨e, List.mem_filter.mpr ⟨he, ?_⟩, hek⟩
    rw [show e.script = k from hek, hgone, hsome]
    rfl

theorem contextCount_eq : w.engine.contextCount = w.registry.countP (·.2 ∈ completed told) := by
  have hkeys :
    ((told.filter fun e => !w.isGone e.script && e.result.isSome).map (·.script)).Nodup :=
    h.numbers.sublist ((List.filter_sublist ..).map _)
  have hentries : ((w.registry.filter (·.2 ∈ completed told)).map (·.2)).Nodup :=
    (nodup_registered hr).sublist ((List.filter_sublist ..).map _)
  have hlength :=
    ((List.perm_ext_iff_of_nodup hkeys hentries).mpr (h.mem_keys_iff hr hlive)).length_eq
  rw [← keys_eq, List.length_map, List.length_map] at hlength
  rw [Engine.contextCount, h.namespaces, List.length_reverse, hlength, List.countP_eq_length_filter]

theorem follows (hj : Judged told w) : Follows told w where
  numbers := h.numbers
  started := h.started
  executed := h.executed
  outcome e he := by
    obtain ⟨s, hs, hpath, -⟩ := h.past e he
    obtain ⟨t, ht, hiff⟩ := hj.error e he
    obtain rfl : s = t := Option.some.inj (hs.symm.trans ht)
    exact ⟨s, hs, hpath, hiff⟩
  answer p ns := by
    rw [h.namespace?_iff]
    refine exists_congr fun n =>
      exists_congr fun later => exists_congr fun earlier => and_congr_left fun ⟨htold, _⟩ => ?_
    obtain ⟨s, hs, rfl, -⟩ :=
      h.past ⟨n, p, some ns⟩ (htold ▸ List.mem_append_right _ (List.mem_cons_self ..))
    exact (hlive n s hs).symm
  contextCount := h.contextCount_eq hr hlive

end Kept

/-- The path of the script. -/
def lone : Path := ⟨.relative, ["a"]⟩

/-- A host with one script, that leaves its commits for later. -/
def queued (body : List Action) (scripts : List Script) (registry : Registry Nat)
    (claimed : List Path) (engine : Engine) (tasks : List Commit) (journal : Journal) : World where
  root := ⟨.root, ["s"]⟩
  base := ⟨.root, ["s"]⟩
  files :=
    { here := ⟨.root, []⟩
      nodes := [(["s"], .directory), (["s", "a"], .file (.script body) 0.0)] }
  scripts
  registry
  claims := claimed.map (·, 1)
  operator := ⟨claimed⟩
  engine
  executor := .queue
  tasks
  journal

/-- A new instance of the script. -/
def fresh : Script := Script.create lone (some 0.0)

def active : Script := { fresh with state := .running, hasContext := true }

/-- A body that sets a variable. -/
def setting : List Action := [.set "x" (.int 1)]

/-- The variables that such a script leaves. -/
def leavings : Namespace :=
  Value.setField "x" (.int 1) (initialNamespace fresh (Path.toText ⟨.root, ["s", "a"]⟩))

def noted (event : String) (journal : Journal) : Journal :=
  journal.enter (.ofComponent "Reconciler" .info event [("path", .text lone.toText)])

def ran (n : Nat) (journal : Journal) : Journal :=
  journal.record (.execute n lone fresh.name (Path.toText ⟨.root, ["s", "a"]⟩))

section Queued

variable {body : List Action} {scripts : List Script} {registry : Registry Nat}
  {claimed : List Path} {engine : Engine}
  {tasks : List Commit} {journal : Journal} {host : HostRequest → Act HostAnswer}

theorem lookup_queued :
    (queued body scripts registry claimed engine tasks journal).files.lookup ⟨.root, ["s", "a"]⟩ =
    .ok (.file (.script body) 0.0) :=
  FileTree.lookup_entry rfl (by decide) (by decide) rfl fun _ h => by cases h

theorem watchedFiles_queued :
    watchedFiles (queued body scripts registry [lone] engine tasks journal) =
    (.ok [(lone, true)], queued body scripts registry [lone] engine tasks journal) := by
  have hfile : (queued body scripts registry [lone] engine tasks journal).files.isFile
    ⟨.root, ["s", "a"]⟩ = .ok true := by
    rw [FileTree.isFile, lookup_queued]
  have hplace : (queued body scripts registry [lone] engine tasks journal).fileOf lone =
    ⟨.root, ["s", "a"]⟩ := rfl
  have hwatched : (queued body scripts registry [lone] engine tasks journal).watched = [lone] := rfl
  rw [watchedFiles, get_bind, hwatched, List.mapM_cons, hplace, hfile]
  rfl

theorem registerNew_queued :
    registerNew lone (queued body scripts [] claimed engine tasks journal) =
    (.ok scripts.length,
      queued body (scripts ++ [fresh]) [(lone, scripts.length)] claimed engine tasks journal) := by
  have hplace : (queued body scripts [] claimed engine tasks journal).fileOf lone =
    ⟨.root, ["s", "a"]⟩ := rfl
  have hnew : newScript lone (queued body scripts [] claimed engine tasks journal) =
      (.ok scripts.length, queued body (scripts ++ [fresh]) [] claimed engine tasks journal) := by
    rw [newScript, get_bind, modified?, hplace, FileTree.modified?, lookup_queued]
    rfl
  rw [registerNew, bind_of_ok hnew]
  rfl

/-- A cycle makes an instance of the script. -/
theorem cycle_loads : cycle (queued body scripts [] [lone] engine tasks journal) =
    (.ok { plan := { toLoad := [lone], loaded := [lone] }, commit := ⟨[scripts.length], []⟩ },
      queued body (scripts ++ [fresh]) [(lone, scripts.length)] [lone] engine tasks
        (noted "script_loaded" journal)) := by
  have hensure : ensureWatch (queued body scripts [] [lone] engine tasks journal) =
      (.ok (), queued body scripts [] [lone] engine tasks journal) := rfl
  have hplan : planCycle (queued body scripts [] [lone] engine tasks journal) =
      (.ok { toLoad := [lone] }, queued body scripts [] [lone] engine tasks journal) := by
    rw [planCycle, bind_of_ok hensure, bind_of_ok watchedFiles_queued]
    rfl
  have hloads : applyLoads [lone]
    { plan := { toLoad := [lone] } } (queued body scripts [] [lone] engine tasks journal) =
      (.ok { plan := { toLoad := [lone], loaded := [lone] }, commit := ⟨[scripts.length], []⟩ },
        queued body (scripts ++ [fresh]) [(lone, scripts.length)] [lone] engine tasks
          (noted "script_loaded" journal)) := by
    rw [applyLoads, get_bind]
    exact (bind_of_ok registerNew_queued _).trans rfl
  rw [cycle, bind_of_ok hplan]
  exact bind_of_ok hloads _

/-- A cycle takes the instance out of the registry once the script is not claimed. -/
theorem cycle_unloads : cycle (queued body scripts [(lone, 0)] [] engine tasks journal) =
    (.ok { plan := { toUnload := [(lone, 0)], unloaded := [lone] }, commit := ⟨[], [0]⟩ },
      queued body scripts [] [] engine tasks (noted "script_unloaded" journal)) := rfl

/-- What a cycle leaves to be done is left for later. -/
theorem reconcile_queued {done : Applied} (ho : w.isClosed = false)
    (hc : cycle w = (.ok done, queued body scripts registry claimed engine tasks journal))
    (hany : (done.commit.toRun.isEmpty && done.commit.toTerminate.isEmpty) = false) :
    hostAt 1 .reconcile w =
      (.ok (.plan done.plan), queued body scripts registry claimed engine (tasks ++ [done.commit])
        journal) := by
  have hr : reconcile (hostAt 0) w =
      (.ok done.plan, queued body scripts registry claimed engine (tasks ++ [done.commit])
        journal) := by
    rw [reconcile, get_bind, if_neg (by rw [ho]; decide), bind_of_ok hc, if_pos (by rw [hany]; rfl)]
    rfl
  exact bind_of_ok hr _

theorem bodyOf_queued (hbody : (Action.malformedLine? body).isSome = false) :
    (queued body scripts registry claimed engine tasks journal).bodyOf lone = body := by
  have hplace : ((queued body scripts registry claimed engine tasks journal).files.here.join
      ((queued body scripts registry claimed engine tasks journal).fileOf lone)).fold =
        ⟨.root, ["s", "a"]⟩ := rfl
  rw [bodyOf, hplace, lookup_queued]
  exact if_neg (by rw [hbody]; decide)

variable (host) in
theorem run_queued (hs : scripts[n]? = some fresh) :
    run host n (queued setting scripts registry claimed engine tasks journal) =
    (.ok (), queued setting (scripts.modify n ({ · with state := .running, hasContext := true }))
      registry claimed
      (engine.keep lone n leavings) tasks (ran n journal)) := by
  have hbody : (queued setting scripts registry claimed engine tasks journal).bodyOf fresh.path =
    setting :=
    bodyOf_queued rfl
  have hruns := runBody_eq (s := fresh) host n (by rw [hbody]; exact List.cons_ne_nil _ _)
  rw [hbody] at hruns
  have hn : (queued setting scripts registry claimed engine tasks journal).script? n = some fresh :=
    hs
  exact run_of_ok hn rfl (hruns.trans rfl)

/-- Preloading makes an instance and runs it at once, before the commits that wait. -/
theorem preload_queued :
    ∃ a j, hostAt 1 .preload (queued setting [fresh] [] [lone] engine tasks journal) =
    (.ok a, queued setting [fresh, active] [(lone, 1)] [lone] (engine.keep lone 1 leavings) tasks
      j) := by
  have hcycle : cycle (queued setting [fresh] [] [lone] engine tasks journal) =
      (.ok { plan := { toLoad := [lone], loaded := [lone] }, commit := ⟨[1], []⟩ },
        queued setting [fresh, fresh] [(lone, 1)] [lone] engine tasks
          (noted "script_loaded" journal)) := cycle_loads
  have hcommit := commit_of_run (w := queued setting [fresh, fresh] [(lone, 1)] [lone] engine tasks
    (noted "script_loaded" journal)) (n := 1) rfl (run_queued (hostAt 0) rfl)
  obtain ⟨j, hp⟩ := preload_of_cycle rfl (Int.ofNat_succ_pos 63) hcycle hcommit rfl
  exact ⟨_, j, bind_of_ok hp _⟩

end Queued

/-- A host with one script, which nobody watches. -/
def unwatched (body : List Action) : World := queued body [] [] [] {} [] {}

theorem isNew_unwatched (body : List Action) : (unwatched body).IsNew :=
  ⟨rfl, rfl, rfl, rfl, rfl, rfl⟩

theorem isTame_unwatched {body : List Action} (hbody : Action.AreTame R body)
    (htree : ∀ t, R.tree t) :
    IsTame R (unwatched body) where
  root := by simp [unwatched, queued, Path.hasNull]
  here := by simp [unwatched, queued, Path.hasNull]
  nodes := List.forall_mem_cons.mpr ⟨trivial, List.forall_mem_singleton.mpr hbody⟩
  tree := htree _
  raises x hx := by cases hx
  named x hx := by cases hx
  refusal e he := by cases he
  resources s hs := by cases hs

/-- The script is watched, dropped and watched again; the first instance waits meanwhile. -/
theorem quiet_preloaded : ∃ j, QuietHistory .thorough (unwatched setting)
    (queued setting [fresh, active] [(lone, 1)] [lone] (({} : Engine).keep lone 1 leavings)
      [⟨[0], []⟩, ⟨[], [0]⟩] j) := by
  have h₁ : QuietHistory .thorough (unwatched setting) (queued setting [] [] [lone] {} [] {}) :=
    QuietHistory.refl.answered (.watch ["a"]) trivial trivial rfl
  have h₂ := h₁.answered .reconcile trivial trivial (reconcile_queued rfl cycle_loads rfl)
  have h₃ : QuietHistory .thorough (unwatched setting)
      (queued setting [fresh] [(lone, 0)] [] {} [⟨[0], []⟩] (noted "script_loaded" {})) :=
    h₂.answered (.unwatch ["a"]) trivial trivial rfl
  have h₄ := h₃.answered .reconcile trivial trivial (reconcile_queued rfl cycle_unloads rfl)
  have h₅ : QuietHistory .thorough (unwatched setting)
    (queued setting [fresh] [] [lone] {} [⟨[0], []⟩, ⟨[], [0]⟩]
      (noted "script_unloaded" (noted "script_loaded" {}))) :=
        h₄.answered (.watch ["a"]) trivial trivial rfl
  obtain ⟨_, j, hp⟩ : ∃ a j,
    hostAt 1 .preload (queued setting [fresh] [] [lone] {} [⟨[0], []⟩, ⟨[], [0]⟩]
      (noted "script_unloaded" (noted "script_loaded" {}))) =
        (.ok a, queued setting [fresh, active] [(lone, 1)] [lone]
        (({} : Engine).keep lone 1 leavings) [⟨[0], []⟩, ⟨[], [0]⟩] j) := preload_queued
  exact ⟨j, h₅.answered .preload trivial trivial hp⟩

/-- Whether the second instance is registered and has come to its end, and the
engine has no answer. -/
structure IsStale (w : World) : Prop where
  tasks : w.tasks = []
  registered : w.registry.get? lone = some 1
  kept : (1, leavings) ∈ w.engine.namespaces
  unanswered : w.engine.namespace? lone = none

/-- The first instance comes to its end after the second, and is terminated. -/
theorem quiet_stale : ∃ w, QuietHistory .thorough (unwatched setting) w ∧ IsStale w := by
  obtain ⟨j, h⟩ := quiet_preloaded
  have hrun := commit_of_run (w := queued setting [fresh, active] [(lone, 1)] [lone]
    (({} : Engine).keep lone 1 leavings) [⟨[], [0]⟩] j) (n := 0) rfl (run_queued (hostAt 0) rfl)
  have h₁ := h.carried rfl hrun
  have hended :=
    ends_thorough (E := fun _ => False) (R := .thorough)
      (w := queued setting [active, active] [(lone, 1)]
    [lone] ((({} : Engine).keep lone 1 leavings).keep lone 0 leavings) [] (ran 0 j)) (n := 0)
      (s := active)
    id (List.forall_mem_nil _) rfl rfl
  obtain ⟨clean, w', ht, resources, -, ha⟩ := hended.succeeds
  obtain ⟨j', hc⟩ := commit_of_terminate (hostAt 0) rfl ht
  refine ⟨_, h₁.carried rfl hc, ?_⟩
  have hkept :
    (1, leavings) ∈ ((({} : Engine).keep lone 1 leavings).keep lone 0 leavings).namespaces :=
    Engine.mem_keep.mpr (Or.inl ⟨by decide, Engine.mem_keep.mpr (Or.inr ⟨rfl, rfl⟩)⟩)
  rw [ha.frame]
  exact ⟨rfl, rfl, Engine.mem_release.mpr ⟨by decide, hkept⟩, rfl⟩

/-- What the closer raises: it has no literal. -/
def speechless : Failure := .unprintable "ValueError" "x" (.raised "ValueError" "y")

def allocating : List Action := [.defer "c" (some speechless)]

/-- An instance that was run and holds the resource. -/
def burdened : Script :=
  { active with resources := { held := [{ resource := .mk "c" (some speechless) [],
                                          isCall := true }] } }

/-- The script is watched, run, and dropped; its context is kept. -/
theorem quiet_burdened :
    ∃ w, QuietHistory .all (unwatched allocating) w ∧ w.tasks = [] ∧ w.registry = [] ∧
    w.engine.contextCount = 1 := by
  have h₁ : QuietHistory .all (unwatched allocating) (queued allocating [] [] [lone] {} [] {}) :=
    QuietHistory.refl.answered (.watch ["a"]) trivial trivial rfl
  have h₂ := h₁.answered .reconcile trivial trivial (reconcile_queued rfl cycle_loads rfl)
  have hbody :
    (queued allocating [fresh] [(lone, 0)] [lone] {} [] (noted "script_loaded" {})).bodyOf
      fresh.path =
      allocating := bodyOf_queued rfl
  have hruns := runBody_eq (s := fresh) (hostAt 0) 0 (by rw [hbody]; exact List.cons_ne_nil _ _)
  rw [hbody] at hruns
  obtain ⟨ns, hrun⟩ : ∃ ns, run (hostAt 0) 0
      (queued allocating [fresh] [(lone, 0)] [lone] {} [] (noted "script_loaded" {})) =
        (.ok (), queued allocating [burdened] [(lone, 0)] [lone] (({} : Engine).keep lone 0 ns) []
          (ran 0 (noted "script_loaded" {}))) :=
    ⟨_, run_of_ok rfl rfl (hruns.trans rfl)⟩
  have h₃ := h₂.carried rfl (commit_of_run rfl hrun)
  have h₄ : QuietHistory .all (unwatched allocating) (queued allocating [burdened] [(lone, 0)] []
      (({} : Engine).keep lone 0 ns) [] (ran 0 (noted "script_loaded" {}))) :=
    h₃.answered (.unwatch ["a"]) trivial trivial rfl
  have h₅ := h₄.answered .reconcile trivial trivial (reconcile_queued rfl cycle_unloads rfl)
  obtain ⟨s, j, ht⟩ : ∃ s j,
    terminate 0 (queued allocating [burdened] [] [] (({} : Engine).keep lone 0 ns) []
      (noted "script_unloaded" (ran 0 (noted "script_loaded" {})))) =
        (.error (.raised "ValueError" "y"),
        queued allocating [s] [] [] (({} : Engine).keep lone 0 ns) [] j) := ⟨_, _, rfl⟩
  obtain ⟨j', hc⟩ := commit_of_terminate_error (hostAt 0) rfl ht rfl
  exact ⟨_, h₅.carried rfl hc, rfl, rfl, rfl⟩

end World

end HotReload
