import HotReload.Proofs.Host.History
import HotReload.Proofs.Host.Onward
import HotReload.Proofs.Host.Running

/-!
# Commits that are broken off

A body may raise a failure that nothing handles, as a script does that exits. It leaves the run
of its instance, and the commit with it: of what is left of the commit nothing is started or
terminated. Every other failure of a body stays with its instance, and the commit is carried out
to its end.
-/
namespace HotReload

namespace Operation

variable {σ α : Type} {s s' : σ} {e : Failure}

/-- A loop fails where one of its steps fails, after steps that all succeed. -/
theorem forM_eq_error {f : α → Operation σ PUnit} {l : List α} :
    l.forM f s = (.error e, s') ↔ ∃ before x after s₁, l = before ++ x :: after ∧
      before.forM f s = (.ok (), s₁) ∧ f x s₁ = (.error e, s') := by
  induction l generalizing s with
  | nil =>
    refine ⟨fun h => (by cases h), ?_⟩
    rintro ⟨before, x, after, s₁, h, -⟩
    cases before <;> cases h
  | cons y rest ih =>
    rw [show (y :: rest).forM f = (f y >>= fun _ => rest.forM f) from rfl]
    rcases hy : f y s with ⟨e' | u, s₂⟩
    · rw [bind_of_error hy]
      constructor
      · rintro ⟨⟩
        exact ⟨[], y, rest, s, rfl, rfl, hy⟩
      · rintro ⟨_ | ⟨z, before⟩, x, after, s₁, h, hb, hx⟩
        · cases h
          cases hb
          rw [hy] at hx
          exact hx
        · cases h
          rw [show (y :: before).forM f = (f y >>= fun _ => before.forM f) from rfl,
            bind_of_error hy] at hb
          cases hb
    · rw [bind_of_ok hy, ih]
      constructor
      · rintro ⟨before, x, after, s₁, rfl, hb, hx⟩
        exact ⟨y :: before, x, after, s₁, rfl, (bind_of_ok hy _).trans hb, hx⟩
      · rintro ⟨_ | ⟨z, before⟩, x, after, s₁, h, hb, hx⟩
        · cases h
          cases hb
          rw [hy] at hx
          cases hx
        · cases h
          rw [show (y :: before).forM f = (f y >>= fun _ => before.forM f) from rfl,
            bind_of_ok hy] at hb
          exact ⟨before, x, after, s₁, rfl, hb, hx⟩

end Operation

namespace World

open Operation

variable {w w' : World} {n : Nat} {s : Script} {c : Commit} {e : Failure}
  {host : HostRequest → Act HostAnswer}

/-- Whether the body of an instance broke a commit off: those before it were run, and it raised a
failure that is not ordinary, in a world that the commit leaves as it is. -/
def BrokenOff (host : HostRequest → Act HostAnswer) (c : Commit) (w : World) (e : Failure)
    (w' : World) : Prop :=
  ∃ before n after w₁ s,
    c.toRun = before ++ n :: after ∧ commit host ⟨before, []⟩ w = (.ok (), w₁) ∧
    w₁.script? n = some s ∧ s.state = .created ∧ ¬Ordinary e ∧ runBody host n s w₁ = (.error e, w')

/-- A run that raises nothing is all that a commit does for an instance. -/
theorem runListed_of_ok {u : Unit} (hs : w.script? n = some s) (hr : run host n w = (.ok u, w')) :
    runListed host n w = (.ok (), w') := by
  rw [runListed, bind_of_ok (script_of_some hs)]
  exact bind_of_ok (World.attempt_of_ok hr) _

/-- What is raised out of the run of an instance that a commit lists. -/
theorem runListed_eq_error (hs : w.script? n = some s) : runListed host n w = (.error e, w') ↔
    s.state = .created ∧ ¬Ordinary e ∧ runBody host n s w = (.error e, w') := by
  have hclean {u : Unit} {w₁ : World} (hr : run host n w = (.ok u, w₁)) :
    runListed host n w ≠ (.error e, w') := by
    rw [runListed_of_ok hs hr]
    exact fun h => by cases h
  by_cases hc : s.state = .created
  · rcases hb : runBody host n s w with ⟨e₁ | ns, w₁⟩
    · by_cases he : Ordinary e₁
      · refine iff_of_false (hclean (run_of_ordinary hs hc hb he)) ?_
        rintro ⟨-, hne, ⟨⟩⟩
        exact hne he
      · have hnot : ¬e₁.isOrdinary = true := he
        have ha : World.attempt Failure.isOrdinary (run host n) w = _ :=
          World.attempt_of_error (run_of_error hs hc hb he)
        rw [if_neg hnot] at ha
        rw [runListed, bind_of_ok (script_of_some hs), bind_of_error ha]
        constructor
        · rintro ⟨⟩
          exact ⟨hc, he, rfl⟩
        · rintro ⟨-, -, ⟨⟩⟩
          rfl
    · refine iff_of_false (hclean (run_of_ok hs hc hb)) ?_
      rintro ⟨-, -, ⟨⟩⟩
  · exact iff_of_false (hclean (run_of_past host hs hc)) fun h => hc h.1

theorem commit_toRun_eq (host : HostRequest → Act HostAnswer) (toRun : List Nat) :
    commit host ⟨toRun, []⟩ = toRun.forM (runListed host) := by
  rw [commit_eq_loops]
  exact bind_pure_unit

section Commit

variable (hw : IsMild w)
include hw

/-- The instances that a commit has run are past their first state. -/
theorem past_of_toRun (depth : Nat) {toRun : List Nat} (hk : ∀ n ∈ toRun, n < w.scripts.length)
    (hc : toRun.forM (runListed (hostAt depth)) w = (.ok (), w')) :
    Onward w w' ∧ ∀ n ∈ toRun, w'.IsPast n := by
  induction toRun generalizing w with
  | nil =>
    cases hc
    exact ⟨.refl hw, fun n hn => by cases hn⟩
  | cons m rest ih =>
    obtain ⟨hm, hrest⟩ := List.forall_mem_cons.mp hk
    obtain ⟨s, hs⟩ := (Onward.refl hw).known hm
    obtain ⟨⟨⟩, w₁, h₁, h₂⟩ := bind_eq_ok hc
    have hends := (Onward.ends_runListed (Onward.keeps_hostAt depth) (.refl hw) hs).1
    rw [h₁] at hends
    obtain ⟨hon, hpast⟩ : Onward w w₁ ∧ w₁.IsPast m := hends
    have hknown (n) (hn : n ∈ rest) : n < w₁.scripts.length := by
      obtain ⟨t, ht⟩ := hon.known (hrest n hn)
      exact lt_of_script? ht
    obtain ⟨hon', hall⟩ := ih hon.mild hknown h₂
    exact ⟨hon.trans hon', List.forall_mem_cons.mpr ⟨hon'.isPast hpast, hall⟩⟩

/-- The instances that a commit has terminated stay so, and nothing is raised. -/
theorem ends_toTerminate {E : Failure → Prop} {toTerminate : List Nat}
    (hk : ∀ n ∈ toTerminate, n < w.scripts.length) :
    Ends (fun w' => Onward w w' ∧ ∀ n ∈ toTerminate, w'.IsTerminated n) E
      (toTerminate.forM endListed w) := by
  induction toTerminate generalizing w with
  | nil => exact ends_ok ⟨.refl hw, fun n hn => by cases hn⟩
  | cons m rest ih =>
    obtain ⟨hm, hrest⟩ := List.forall_mem_cons.mp hk
    obtain ⟨s, hs⟩ := (Onward.refl hw).known hm
    refine Ends.andThen (Onward.ends_endListed (.refl hw) hs) fun _ w₁ h₁ => ?_
    have hknown (n) (hn : n ∈ rest) : n < w₁.scripts.length := by
      obtain ⟨t, ht⟩ := h₁.1.known (hrest n hn)
      exact lt_of_script? ht
    refine (ih h₁.1.mild hknown).imp fun w₂ h₂ =>
      ⟨h₁.1.trans h₂.1, List.forall_mem_cons.mpr ⟨?_, h₂.2⟩⟩
    exact h₂.1.isTerminated h₁.2

/-- What comes of a commit in a mild world. -/
structure Completes (host : HostRequest → Act HostAnswer) (c : Commit) (w : World) : Prop where
  /-- All instances are where they were or further on, and the world is mild again. -/
  onward : Onward w (commit host c w).2
  /-- A commit that is carried out has started what it runs and terminated what it replaces. -/
  carried : ∀ w', commit host c w = (.ok (), w') →
    (∀ n ∈ c.toRun, w'.IsPast n) ∧ ∀ n ∈ c.toTerminate, w'.IsTerminated n
  /-- It is carried out unless a body breaks it off. -/
  broken : ∀ e w', commit host c w = (.error e, w') ↔ BrokenOff host c w e w'

/-- Whatever bodies raise and ask of the host, a commit is carried out to its end or broken off by
the first body that raises what is not ordinary. -/
theorem completes_unless_broken {c : Commit}
    (hk : ∀ n, n ∈ c.toRun ∨ n ∈ c.toTerminate → n < w.scripts.length) (depth : Nat) :
    Completes (hostAt depth) c w := by
  have hrun : ∀ n ∈ c.toRun, n < w.scripts.length := fun n hn => hk n (Or.inl hn)
  have hend {w₁} (h : Onward w w₁) : ∀ n ∈ c.toTerminate, n < w₁.scripts.length := fun n hn => by
    obtain ⟨t, ht⟩ := h.known (hk n (Or.inr hn))
    exact lt_of_script? ht
  constructor
  case onward =>
    exact ((Onward.weathers w).keeps_commit (Onward.keeps_hostAt depth w) c w (.refl hw)).1
  case carried =>
    intro w' hc
    rw [commit_eq_loops] at hc
    obtain ⟨⟨⟩, w₁, h₁, h₂⟩ := bind_eq_ok hc
    obtain ⟨hon, hpast⟩ := past_of_toRun hw depth hrun h₁
    have hends := (ends_toTerminate (E := fun _ => False) hon.mild (hend hon)).1
    rw [h₂] at hends
    exact ⟨fun n hn => hends.1.isPast (hpast n hn), hends.2⟩
  case broken =>
    intro e w'
    rw [commit_eq_loops, BrokenOff]
    constructor
    · intro hc
      rcases hr : c.toRun.forM (runListed (hostAt depth)) w with ⟨e' | ⟨⟩, w₁⟩
      · rw [bind_of_error hr] at hc
        cases hc
        obtain ⟨before, n, after, w₁, hsplit, hb, hn⟩ := forM_eq_error.mp hr
        have hbefore : ∀ k ∈ before, k < w.scripts.length := fun k hk =>
          hrun k (hsplit ▸ List.mem_append_left _ hk)
        obtain ⟨s, hs⟩ :=
          (past_of_toRun hw depth hbefore hb).1.known (hrun n (by rw [hsplit]; simp))
        obtain ⟨hcreated, he, hbody⟩ := (runListed_eq_error hs).mp hn
        exact ⟨before, n, after, w₁, s, hsplit, (congrFun (commit_toRun_eq ..) w).trans hb, hs,
          hcreated, he, hbody⟩
      · rw [bind_of_ok hr] at hc
        obtain ⟨hon, -⟩ := past_of_toRun hw depth hrun hr
        exact ((ends_toTerminate (E := fun _ => False) hon.mild (hend hon)).2 e
          (congrArg Prod.fst hc)).elim
    · rintro ⟨before, n, after, w₁, s, hsplit, hb, hs, hcreated, he, hbody⟩
      rw [commit_toRun_eq] at hb
      refine bind_of_error (forM_eq_error.mpr ⟨before, n, after, w₁, hsplit, hb, ?_⟩) _
      exact (runListed_eq_error hs).mpr ⟨hcreated, he, hbody⟩

end Commit

/-- A host with a script that exits, and another one after it. -/
def exiting : World where
  root := ⟨.root, ["s"]⟩
  base := ⟨.root, ["s"]⟩
  files :=
    { here := ⟨.root, []⟩
      nodes := [(["s"], .directory),
        (["s", "a"], .file (.script [.raise (.raised "SystemExit" "bye")]) 0.0),
        (["s", "b"], .file (.script []) 0.0)] }
  scripts := [Script.create ⟨.relative, ["a"]⟩ none, Script.create ⟨.relative, ["b"]⟩ none]
  registry := [(⟨.relative, ["a"]⟩, 0), (⟨.relative, ["b"]⟩, 1)]

theorem isMild_exiting : IsMild exiting := by
  constructor
  · simp [FileTree.Holds, exiting, FileNode.IsMild, Action.AreMild, Action.IsMild]
  · intro s hs
    simp only [exiting, List.mem_cons, List.not_mem_nil, or_false] at hs
    rcases hs with rfl | rfl
    all_goals exact ⟨List.forall_mem_nil _, ScriptState.noConfusion⟩

theorem bodyOf_exiting :
    exiting.bodyOf ⟨.relative, ["a"]⟩ = [.raise (.raised "SystemExit" "bye")] := by
  have hlookup : exiting.files.lookup ⟨.root, ["s", "a"]⟩ =
      .ok (.file (.script [.raise (.raised "SystemExit" "bye")]) 0.0) :=
    FileTree.lookup_entry rfl (by decide) (by decide) rfl fun _ h => by cases h
  have hplace : (exiting.files.here.join (exiting.fileOf ⟨.relative, ["a"]⟩)).fold =
    ⟨.root, ["s", "a"]⟩ := rfl
  rw [bodyOf, hplace, hlookup]
  rfl

theorem brokenOff_exiting : BrokenOff World.host ⟨[0, 1], []⟩ exiting (.raised "SystemExit" "bye")
    (exiting.started 0 (Script.create ⟨.relative, ["a"]⟩ none)) := by
  have hpath : (Script.create ⟨.relative, ["a"]⟩ none).path = ⟨.relative, ["a"]⟩ := rfl
  refine ⟨[], 0, [1], exiting, _, rfl, rfl, rfl, rfl, fun h => (by cases h), ?_⟩
  have hne : exiting.bodyOf (Script.create ⟨.relative, ["a"]⟩ none).path ≠ [] := by
    rw [hpath, bodyOf_exiting]
    exact List.cons_ne_nil _ _
  rw [runBody_eq World.host 0 hne, hpath, bodyOf_exiting]
  rfl

/-- The first of two scripts exits, and the second is left as it was made. -/
theorem completes_unless_broken_exiting :
    IsMild exiting ∧ Completes World.host ⟨[0, 1], []⟩ exiting ∧
    ∃ e w', commit World.host ⟨[0, 1], []⟩ exiting = (.error e, w') ∧
      w'.script? 1 = some (Script.create ⟨.relative, ["b"]⟩ none) := by
  have hcompletes : Completes World.host ⟨[0, 1], []⟩ exiting := by
    refine completes_unless_broken isMild_exiting (fun n hn => ?_) depthLimit
    rcases hn with hn | hn
    · exact List.mem_range.mp hn
    · cases hn
  exact ⟨isMild_exiting, hcompletes, _, _, (hcompletes.broken _ _).mpr brokenOff_exiting, rfl⟩

end World

end HotReload
