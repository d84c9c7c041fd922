import HotReload.Host.Setup
import HotReload.Proofs.Host.Lives

/-!
# Histories of a host

A host has come to where it is by requests, rounds of its poll loop and the commits that its
executor has taken, while the world around it went on. Between them nothing is being done,
and every instance is registered, queued for its termination or terminated.
-/
namespace HotReload

open World Moment Operation

/-- Who carries out a commit that the executor has taken. -/
inductive Runner where
  | caller
  | pool
  | loop

def Runner.carry : Runner → (HostRequest → Act HostAnswer) → Commit → Act Unit
  | .caller => commit
  | .pool => runPooled
  | .loop => runLooped

/-- How a host has come from one world to another, with commits carried out in any order. -/
inductive History (R : Regime) (w₀ : World) : World → Prop where
  | refl : History R w₀ w₀
  | request {w} (depth : Nat) (request : HostRequest) (h : History R w₀ w) (ha : R.asks request)
      (hn : request.IsNamed) : History R w₀ (hostAt depth request w).2
  | unwatch {w} (paths : List Path) (h : History R w₀ w) (hp : R.unwatches w paths) :
      History R w₀ (unwatchPaths paths w).2
  | poll {w} (depth : Nat) (h : History R w₀ w) : History R w₀ (pollRound (hostAt depth) w).2
  | carry {w c} (runner : Runner) (depth i : Nat) (h : History R w₀ w) (hc : w.tasks[i]? = some c) :
      History R w₀ (runner.carry (hostAt depth) c { w with tasks := w.tasks.eraseIdx i }).2
  /-- An instance is terminated, or claims or releases paths, apart from the host. -/
  | expire {w} (n : Nat) (h : History R w₀ w) (hx : R.direct) (hn : n < w.scripts.length) :
      History R w₀ (terminate n w).2
  | claim {w} (n : Nat) (paths : List Path) (h : History R w₀ w) (hx : R.direct)
    (hn : n < w.scripts.length) (hp : ∀ p ∈ paths, R.spells p) :
      History R w₀ (scriptWatch n paths w).2
  | disclaim {w} (n : Nat) (paths : List Path) (h : History R w₀ w) (hx : R.direct)
    (hn : n < w.scripts.length) : History R w₀ (scriptUnwatch n paths w).2
  /-- Files, clocks and threads change, and the watch learns of it. -/
  | outside {w w'} (h : History R w₀ w) (hc : Calm w w') (ht : IsTame R w') : History R w₀ w'

variable {R : Regime} {w₀ w w' : World}

theorem History.trans (h : History R w₀ w) (h' : History R w w') : History R w₀ w' := by
  induction h' with
  | refl => exact h
  | request depth request _ ha hn ih => exact .request depth request ih ha hn
  | unwatch paths _ hp ih => exact .unwatch paths ih hp
  | poll depth _ ih => exact .poll depth ih
  | carry runner depth i _ hc ih => exact .carry runner depth i ih hc
  | expire n _ hx hn ih => exact .expire n ih hx hn
  | claim n paths _ hx hn hp ih => exact .claim n paths ih hx hn hp
  | disclaim n paths _ hx hn ih => exact .disclaim n paths ih hx hn
  | outside _ hc ht ih => exact .outside ih hc ht

/-- Whoever carries out a commit does so to its end. -/
theorem World.Sustains.ends_carry {J : List Duty → World → Prop} (hJ : Sustains R J)
    {host : HostRequest → Act HostAnswer} (hr : Runs J host) (runner : Runner) {c : Commit}
    {K : List Duty} (h : J (.commit c :: K) w) :
    Ends (J K) (fun _ => False) (runner.carry host c w) := by
  cases runner with
  | caller => exact hJ.ends_commit hr h
  | pool => exact hJ.ends_runPooled hr h
  | loop => exact hJ.ends_runLooped hr h

/-- What is kept by the changes that the host makes and when instances are run is kept by every
history in which the host alone has to do with instances. -/
theorem World.Sustains.of_history {J : List Duty → World → Prop} (hJ : Sustains R J)
    (hr : ∀ depth, Answers R J (hostAt depth) → Runs J (hostAt depth))
    (hcalm : ∀ {w w'}, J [] w → Calm w w' → IsTame R w' → J [] w') (hx : ¬R.direct)
    (h : History R w₀ w) (h₀ : J [] w₀) : J [] w := by
  have hruns (depth : Nat) : Runs J (hostAt depth) := hr depth (hJ.keeps_hostAt hr depth)
  induction h with
  | refl => exact h₀
  | request depth request _ ha hn ih => exact (hJ.keeps_hostAt hr depth _ request ha hn _ ih).1
  | unwatch paths _ hp ih => exact hJ.unwatchPaths ih hp
  | poll depth _ ih => exact (hJ.keeps_pollRound (E := fun _ => False) (hruns depth) _ ih).1
  | carry runner depth i _ hc ih =>
    exact (hJ.ends_carry (hruns depth) runner (hJ.dequeue i ih hc)).1
  | expire n _ hd => exact absurd hd hx
  | claim n paths _ hd => exact absurd hd hx
  | disclaim n paths _ hd => exact absurd hd hx
  | outside _ hc ht ih => exact hcalm ih hc ht

theorem Runner.ends_carry (runner : Runner) (depth : Nat) {m₀ : Moment} {c : Commit}
    {K : List Duty} (h : Reached R m₀ (.commit c :: K) w) :
    Ends (Reached R m₀ K) (fun _ => False) (runner.carry (hostAt depth) c w) :=
  (Reached.sustains R m₀).ends_carry (Reached.runs (Reached.serves_hostAt depth) m₀) runner h

/-- Whoever carries out a commit keeps what the commit keeps, whichever thread is running. -/
theorem Runner.keeps_carry {I : World → Prop} {host : HostRequest → Act HostAnswer}
    {c : Commit} (runner : Runner) (hthread : ∀ w name, I w → I { w with thread := name })
    (hc : Keeps I (fun _ => False) (commit host c)) :
    Keeps I (fun _ => False) (runner.carry host c) := by
  have hattempt (handles : Failure → Bool) :
    Keeps I (fun _ => False) (World.attempt handles (commit host c)) :=
    World.keeps_attempt hc fun _ he => he.elim
  cases runner with
  | caller => exact hc
  | pool =>
    refine keeps_get_bind fun w h => ?_
    refine Keeps.bind (keeps_modify fun w h => hthread w _ h) (fun _ => ?_) w h
    exact (hattempt _).bind fun _ => keeps_modify fun w h => hthread w _ h
  | loop => exact (hattempt _).bind fun _ => keeps_pure _

/-- One part of a history: a walk that leaves nothing to be done, and begins with something to do
only apart from the host. -/
def Linked (R : Regime) (w w' : World) : Prop := ∃ K, (K ≠ [] → R.direct) ∧ Walk R ⟨w, K⟩ ⟨w', []⟩

theorem Moment.IsSane.cons {d : Duty} (h : IsSane ⟨w, []⟩)
    (hd : ∀ n ∈ d.numbers, n < w.scripts.length) :
    IsSane ⟨w, [d]⟩ where
  registered := h.registered
  named := h.named
  known n hn := (mem_numbers_cons.mp hn).elim (hd n) (h.known n)

/-- A history is a chain of walks between worlds in which nothing is being done. -/
theorem History.linked (h : History R w₀ w) (hs : IsSane ⟨w₀, []⟩) (ht : IsTame R w₀) :
    Relation.ReflTransGen (Linked R) w₀ w ∧ IsSane ⟨w, []⟩ ∧ IsTame R w := by
  have hnext {w w'} (hw : Relation.ReflTransGen (Linked R) w₀ w) (h : Reached R ⟨w, []⟩ [] w') :
      Relation.ReflTransGen (Linked R) w₀ w' ∧ IsSane ⟨w', []⟩ ∧ IsTame R w' :=
    ⟨hw.tail ⟨[], fun h => absurd rfl h, h.walk⟩, h.sane, h.tame⟩
  have hdirect {w w'} {d : Duty} (hw : Relation.ReflTransGen (Linked R) w₀ w) (hx : R.direct)
      (h : Reached R ⟨w, [d]⟩ [] w') :
      Relation.ReflTransGen (Linked R) w₀ w' ∧ IsSane ⟨w', []⟩ ∧ IsTame R w' :=
    ⟨hw.tail ⟨[d], fun _ => hx, h.walk⟩, h.sane, h.tame⟩
  induction h with
  | refl => exact ⟨.refl, hs, ht⟩
  | request depth request _ ha hn ih =>
    obtain ⟨hw, hsane, htame⟩ := ih
    exact hnext hw (Reached.serves_hostAt depth _ _ request ha hn _ ⟨.refl, hsane, htame⟩).1
  | unwatch paths _ hp ih =>
    obtain ⟨hw, hsane, htame⟩ := ih
    exact hnext hw (Reached.ends_unwatchPaths hp ⟨.refl, hsane, htame⟩).1
  | poll depth _ ih =>
    obtain ⟨hw, hsane, htame⟩ := ih
    exact hnext hw (Reached.keeps_pollRound (E := fun _ => False) (Reached.serves_hostAt depth) _
      ⟨.refl, hsane, htame⟩).1
  | @carry w c runner depth i _ hc ih =>
    obtain ⟨hw, hsane, htame⟩ := ih
    have hstart : Reached R ⟨w, []⟩ [] w := ⟨.refl, hsane, htame⟩
    have htaken := hstart.step (.dequeue i hc) (htame.transfer rfl rfl rfl rfl rfl)
    exact hnext hw (runner.ends_carry depth htaken).1
  | @expire w n _ hx hn ih =>
    obtain ⟨hw, hsane, htame⟩ := ih
    have hstart : Reached R ⟨w, [.commit ⟨[], [n]⟩]⟩ [.commit ⟨[], [n]⟩] w :=
      ⟨.refl, hsane.cons fun k hk => (List.mem_singleton.mp hk).symm ▸ hn, htame⟩
    have hend := (Reached.ends_terminate hstart).1
    exact hdirect hw hx (hend.step .done hend.tame)
  | @claim w n paths _ hx hn hp ih =>
    obtain ⟨hw, hsane, htame⟩ := ih
    have hstart : Reached R ⟨w, [.body n]⟩ [.body n] w :=
      ⟨.refl, hsane.cons fun k hk => (List.mem_singleton.mp hk).symm ▸ hn, htame⟩
    have hend := Reached.scriptWatch n w paths hstart hp
    exact hdirect hw hx (hend.step .fail hend.tame)
  | @disclaim w n paths _ hx hn ih =>
    obtain ⟨hw, hsane, htame⟩ := ih
    have hstart : Reached R ⟨w, [.body n]⟩ [.body n] w :=
      ⟨.refl, hsane.cons fun k hk => (List.mem_singleton.mp hk).symm ▸ hn, htame⟩
    have hend := (Reached.admits_body n).unwatch w paths hstart
    exact hdirect hw hx (hend.step .fail hend.tame)
  | outside _ hc htame' ih =>
    obtain ⟨hw, hsane, htame⟩ := ih
    have hstart : Reached R ⟨_, []⟩ [] _ := ⟨.refl, hsane, htame⟩
    exact hnext hw (hstart.calm hc htame')

/-- Where the host alone has to do with instances, a history is one walk. -/
theorem History.reached (h : History R w₀ w) (hx : ¬R.direct) (hs : IsSane ⟨w₀, []⟩)
    (ht : IsTame R w₀) :
    Reached R ⟨w₀, []⟩ [] w := by
  obtain ⟨hlinks, hsane, htame⟩ := h.linked hs ht
  refine ⟨?_, hsane, htame⟩
  clear h hsane htame
  induction hlinks with
  | refl => exact .refl
  | tail _ hstep ih =>
    obtain ⟨K, hK, hwalk⟩ := hstep
    obtain rfl : K = [] := Classical.byContradiction fun hne => hx (hK hne)
    exact ih.trans hwalk

namespace World

/-- Whether nothing was ever done with a host. -/
structure IsNew (w : World) : Prop where
  scripts : w.scripts = []
  registry : w.registry = []
  tasks : w.tasks = []
  claims : w.claims = []
  operator : w.operator.paths = []
  lives : w.journal.lives = []

/-- A host that was set up is new, whatever its settings are. -/
theorem isNew_create (settings : Settings) (files : FileTree FileContent) (o : HostOptions) :
    (World.create settings files o).IsNew := ⟨rfl, rfl, rfl, rfl, rfl, rfl⟩

theorem IsNew.isSane (h : w.IsNew) : IsSane ⟨w, []⟩ := by
  refine ⟨⟨?_, fun p n hp => ?_⟩, fun p n hp => ?_, fun n hn => ?_⟩
  · simp [h.registry]
  · rw [h.registry] at hp
    cases hp
  · rw [h.registry] at hp
    cases hp
  · simp [mem_numbers, h.tasks] at hn

theorem IsNew.isOrderly (h : w.IsNew) : IsOrderly R ⟨w, []⟩ where
  accounted n s hs := by
    rw [script?, h.scripts] at hs
    cases hs
  unborn n _ := by
    rw [Journal.life_of_lives n (k := {}) h.lives]
    rfl
  closed _ := h.registry

/-- What is true of an instance while nothing is being done. -/
structure AtRest (R : Regime) (w : World) (n : Nat) (s : Script) : Prop where
  /-- It is registered once, listed once for its termination, or over. -/
  held : (w.registry.map (·.2)).count n + (w.tasks.flatMap (·.toTerminate)).count n +
    (if s.isOver then 1 else 0) = 1
  /-- What is over is terminated, unless its termination was given up. -/
  state : s.state = .terminating → R.abandons
  created : s.state = .created → s.hasContext = false
  running : s.state = .running → s.hasContext = true
  /-- Its body was started once if it has run, and its context was released once if
  it is also terminated. -/
  life : w.journal.life n = s.milestones (s.state = .terminated)

end World

/-- Whether an instance is terminated, or its termination was given up. -/
def Script.IsSpent (R : Regime) (s : Script) : Prop :=
  s.state = .terminated ∨ R.abandons ∧ s.state = .terminating

theorem Moment.IsOrderly.atRest (h : IsOrderly R ⟨w, []⟩) (hr : IsRegistered w) {n : Nat}
    {s : Script} (hs : w.script? n = some s) : w.AtRest R n s := by
  have ha := h.accounted n s hs
  have habandoned (ht : s.state = .terminating) : IsAbandoned ⟨w, []⟩ n s :=
    ⟨ht, fun r => List.not_mem_nil⟩
  have hlife := ha.life
  have hcount := count_registered hr hs hr.nodup
  have hkey : w.registry.get? s.path = some n → s.path ∈ w.registry.map (·.1) := fun hg =>
    List.mem_map_of_mem (Registry.mem_of_get? hg)
  simp only [← registered_eq hr, and_iff_right_of_imp hkey] at hcount
  refine ⟨?_, fun ht => (ha.abandoned (habandoned ht)).2, ha.created, ha.running, ?_⟩
  · rw [hcount]
    by_cases ht : s.state = .terminating
    · have hzero := (ha.abandoned (habandoned ht)).1
      rw [holders, endings_eq, List.flatMap_nil, List.count_nil, Nat.zero_add] at hzero
      simp only [ht, reduceCtorEq, if_false, Nat.add_zero] at hzero
      rw [hzero, Script.isOver, ht]
      rfl
    · have hheld := ha.held (not_isAbandoned ht)
      rw [holders, endings_eq, List.flatMap_nil, List.count_nil, Nat.zero_add] at hheld
      simpa only [Script.isOver, ht, decide_false, Bool.false_or, decide_eq_true_eq] using hheld
  · simp only [List.not_mem_nil, or_false] at hlife
    exact hlife

namespace World

/-- What holds of the instances of a host that was new at first and has come to a world. -/
structure LivesOnce (R : Regime) (w₀ w : World) : Prop where
  walk : Walk R ⟨w₀, []⟩ ⟨w, []⟩
  /-- Whatever is being done, every instance is accounted for. -/
  orderly : ∀ m, Walk R ⟨w₀, []⟩ m → m.IsOrderly R
  /-- Whatever is being done, states only go forward. -/
  turns : ∀ m m', Walk R ⟨w₀, []⟩ m → Step R m m' → ∀ n s, m.world.script? n = some s →
    ∃ s', m'.world.script? n = some s' ∧ s.Turns s'
  atRest : ∀ n s, w.script? n = some s → w.AtRest R n s
  forward : ∀ w', History R w w' → ∀ n s, w.script? n = some s →
    ∃ s', w'.script? n = some s' ∧ Relation.ReflTransGen Script.Turns s s'
  /-- A termination that was given up is not taken up again. -/
  abandoned : ∀ w', History R w w' → ∀ n s, w.script? n = some s → s.state = .terminating →
    ∃ s', w'.script? n = some s' ∧ s'.state = .terminating
  closed : w.isClosed = true → w.tasks = [] → ∀ n s, w.script? n = some s → s.IsSpent R
  /-- Once the host has shut down and what was queued is done, every instance is terminated, unless
  its termination was given up. -/
  shutdown : R.asks .shutdown → ∀ depth a w₁ w₂, hostAt depth .shutdown w = (.ok a, w₁) →
    History R w₁ w₂ → w₂.tasks = [] →
    ∀ n s, w₂.script? n = some s → s.IsSpent R

theorem AtRest.isSpent {n : Nat} {s : Script} (h : w.AtRest R n s) (hr : w.registry = [])
    (ht : w.tasks = []) : s.IsSpent R := by
  have hheld := h.held
  rw [hr, ht] at hheld
  have hover : s.isOver = true := by
    by_contra hne
    rw [if_neg hne] at hheld
    cases hheld
  have hstate : s.state = .terminating ∨ s.state = .terminated := by
    simpa [Script.isOver] using hover
  rcases hstate with hstate | hstate
  · exact Or.inr ⟨h.state hstate, hstate⟩
  · exact Or.inl hstate

/-- Where closers raise only what has a literal, every instance is terminated. -/
theorem AtRest.terminated {n : Nat} {s : Script} (h : w.AtRest R n s) (hR : ¬R.abandons)
    (hr : w.registry = []) (ht : w.tasks = []) : s.state = .terminated :=
  (h.isSpent hr ht).resolve_right fun ha => hR ha.1

theorem shutdown_of_hostAt {depth : Nat} {a : HostAnswer}
    (hs : hostAt depth .shutdown w = (.ok a, w')) :
    ∃ depth, shutdown (hostAt depth) w = (.ok (), w') := by
  cases depth with
  | zero => cases hs
  | succ depth =>
    have hanswer : (do shutdown (hostAt depth); return HostAnswer.done : Act HostAnswer) w =
      (.ok a, w') := hs
    obtain ⟨_, w₁, hr, hpure⟩ := bind_eq_ok hanswer
    cases hpure
    exact ⟨depth, hr⟩

/-- A shutdown that returns leaves the host closed. -/
theorem isClosed_shutdown {m₀ : Moment} {K : List Duty} {depth : Nat} {a : HostAnswer}
    (h : Reached R m₀ K w) (hR : R.closes) (hs : hostAt depth .shutdown w = (.ok a, w')) :
    w'.isClosed = true := by
  obtain ⟨depth, hr⟩ := shutdown_of_hostAt hs
  have hcases := (Reached.shutdown_cases (Reached.serves_hostAt depth) hR h).2
  rw [hr] at hcases
  exact hcases () rfl

/-- No instance is lost or used twice, and none is left but those whose termination was given up,
where closers raise what has no literal. -/
theorem lives_once (hx : ¬R.direct) (hnew : w₀.IsNew) (htame : w₀.IsTame R) (h : History R w₀ w) :
    LivesOnce R w₀ w := by
  have hreached {w} (h : History R w₀ w) : Reached R ⟨w₀, []⟩ [] w := h.reached hx hnew.isSane htame
  have horderly (m : Moment) (hm : Walk R ⟨w₀, []⟩ m) : m.IsOrderly R :=
    hm.isOrderly hnew.isSane hnew.isOrderly
  have hclosed {w} (h : History R w₀ w) (hc : w.isClosed = true) (ht : w.tasks = []) (n : Nat)
      (s : Script) (hs : w.script? n = some s) : s.IsSpent R := by
    have ho := horderly _ (hreached h).walk
    exact (ho.atRest (hreached h).sane.registered hs).isSpent (ho.closed hc) ht
  have hw := hreached h
  refine ⟨hw.walk, horderly, fun m m' hm hstep n s hs => hstep.turns (horderly m hm) hs,
    fun n s hs => ?_, fun w' h' n s hs => ?_, fun w' h' n s hs ht => ?_, hclosed h,
    fun ha depth a w₁ w₂ hs hrun ht => ?_⟩
  · exact (horderly _ hw.walk).atRest hw.sane.registered hs
  · exact Walk.turns (h'.reached hx hw.sane hw.tame).walk hw.sane (horderly _ hw.walk) hs
  · have habandoned : IsAbandoned ⟨w, []⟩ n s := ⟨ht, fun _ => List.not_mem_nil⟩
    obtain ⟨s', hs', ha⟩ := Walk.isAbandoned (h'.reached hx hw.sane hw.tame).walk hs habandoned
    exact ⟨s', hs', ha.1⟩
  · have hw₁ : (hostAt depth .shutdown w).2 = w₁ := congrArg Prod.snd hs
    have hrun₁ : History R w₀ w₁ := hw₁ ▸ .request depth .shutdown h ha trivial
    have hc : w₁.isClosed = true := isClosed_shutdown hw (R.closes_of_asks ha) hs
    have hc₂ : w₂.isClosed = true := Walk.isClosed
      (hrun.reached hx (hreached hrun₁).sane (hreached hrun₁).tame).walk hc
    exact hclosed (hrun₁.trans hrun) hc₂ ht

/-- A host with one script, and commits that wait. -/
def waiting : World where
  root := ⟨.root, ["s"]⟩
  base := ⟨.root, ["s"]⟩
  files :=
    { here := ⟨.root, []⟩
      nodes := [(["s"], .directory), (["s", "a"], .file (.script [.host .reconcile]) 0.0)] }
  executor := .queue

theorem isTame_waiting (R : Regime) (hR : R.asks .reconcile) (ht : ∀ t, R.tree t) :
    waiting.IsTame R where
  root := by simp [waiting, Path.hasNull]
  here := by simp [waiting, Path.hasNull]
  nodes := by
    refine List.forall_mem_cons.mpr ⟨trivial, List.forall_mem_singleton.mpr ?_⟩
    exact ⟨⟨hR, trivial⟩, trivial⟩
  tree := ht _
  raises x hx := by cases hx
  named x hx := by cases hx
  refusal e he := by cases he
  resources s hs := by cases hs

/-- A cycle whose commit waits, and a shutdown before it is carried out. -/
theorem lives_once_waiting : ¬Regime.thorough.direct ∧ waiting.IsNew ∧ waiting.IsTame .thorough ∧
    LivesOnce .thorough waiting
      (host .shutdown (host .reconcile (host (.watch ["a"]) waiting).2).2).2 := by
  have hnew : waiting.IsNew := ⟨rfl, rfl, rfl, rfl, rfl, rfl⟩
  have htame : waiting.IsTame .thorough := isTame_waiting _ trivial fun _ => trivial
  have hrun : History .thorough waiting (host .reconcile (host (.watch ["a"]) waiting).2).2 :=
    .request depthLimit .reconcile (.request depthLimit (.watch ["a"]) .refl trivial trivial)
      trivial trivial
  refine ⟨id, hnew, htame, lives_once id hnew htame ?_⟩
  exact .request depthLimit .shutdown hrun trivial trivial

end World

end HotReload
