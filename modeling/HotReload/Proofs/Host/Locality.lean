import HotReload.Proofs.Claim.Count
import HotReload.Proofs.Host.Walks

/-!
# What instances leave alone

Running and terminating an instance whose body asks nothing of the host changes that
instance, files and the counts of claims. What is registered and queued, what the operator
claims and the other instances stay as they are. An instance that ends lists nothing, even where its
termination is given up.
-/
namespace HotReload.World

open Operation

/-- Whether the worlds of a kind are also kept when an instance is started and terminated. -/
structure Spans (R : Regime) (n : Nat) (I : World → Prop) : Prop extends Admits R n I where
  turn : ∀ w f, I w → (∀ s, f s = { s with
      state := (f s).state, hasContext := (f s).hasContext, error := (f s).error }) →
    I { w with scripts := w.scripts.modify n f }
  recorded : ∀ w event, I w → I { w with journal := w.journal.record event }
  engine : ∀ w engine, I w → I { w with engine }

namespace Spans

variable {R : Regime} {n : Nat} {I : World → Prop} {E : Failure → Prop} {w : World} {s : Script}

theorem admits (hI : Spans R n I) : Admits R n I := hI.toAdmits

theorem keeps_releaseContext (hI : Spans R n I) : Keeps I Ordinary (releaseContext n) := by
  refine hI.admits.keeps_script.bind fun s => ?_
  refine Keeps.bind (keeps_modify fun w h => hI.recorded w _ h) fun _ => ?_
  refine Keeps.bind (keeps_modify fun w h => hI.engine w _ h) fun _ => keeps_get_bind fun w h => ?_
  by_cases hf : w.releaseFaults.contains s.path = true
  · rw [if_pos hf]
    refine keeps_throw ?_ w h
    rfl
  · rw [if_neg hf]
    exact keeps_pure _ w h

/-- What follows once an instance that ends has released its claims. -/
theorem ends_terminate (hI : Spans R n I) (hs : w.script? n = some s) (ho : s.isOver = false)
    (hunwatch : Ends I Ordinary (scriptUnwatchAll n (w.turned n .terminating))) :
    Ends I R.GivesUp (terminate n w) := by
  have hfinish (b : Bool) : Keeps I R.GivesUp (do
      updateScript n ({ · with state := .terminated })
      return b) :=
    Keeps.bind (keeps_modify fun w' h => hI.turn w' _ h fun _ => rfl) fun _ => keeps_pure _
  rw [terminate, bind_of_ok (script_of_some hs), if_neg (by rw [ho]; decide), updateScript,
    modify_bind]
  refine (hI.admits.ends_cleanly (E := fun _ => False) hunwatch).andThen fun unwatched w₂ h₂ => ?_
  refine (hI.admits.keeps_closeSilently w₂ h₂).bind fun closed w₃ h₃ => ?_
  refine (hI.admits.keeps_script (E := fun _ => False) w₃ h₃).andThen fun t w₄ h₄ => ?_
  by_cases hc : t.hasContext = true
  · rw [if_pos hc]
    exact (hI.admits.ends_cleanly (hI.keeps_releaseContext w₄ h₄)).bind fun released => hfinish _
  · rw [if_neg hc]
    exact hfinish _ w₄ h₄

section Running

variable {host : HostRequest → Act HostAnswer} (hI : Spans R n I)
  (hw : ∀ w paths, I w → (∀ p ∈ paths, R.spells p) → I (scriptWatch n paths w).2)
  (hh : ∀ request, R.asks request → request.IsNamed → Keeps I Ordinary (host request))
include hI hw hh

theorem keeps_run : Keeps I E (run host n) := by
  intro w h
  obtain ⟨s, hs, hscript⟩ := hI.admits.script_eq h
  by_cases hc : s.state = .created
  · have hstart : I (w.started n s) := hI.recorded _ _ (hI.turn w _ h fun _ => rfl)
    exact hI.admits.ends_run hw hs hstart (fun _ _ request _ => hh request) hc
      (fun w' e h' => hI.turn w' ({ · with error := some e }) h' fun _ => rfl)
        (fun w' ns h' => hI.engine w' _ h')
      fun w' h' => h'
  · rw [run, bind_of_ok hscript, if_pos hc]
    exact hI.admits.keeps_log _ _ _ _ w h

end Running

end Spans

/-- Whether nothing that the host keeps changed but certain instances, and the counts. -/
structure Confined (N : Nat → Prop) (w w' : World) : Prop where
  frame : w' = { w with
    files := w'.files, scripts := w'.scripts, claims := w'.claims, exports := w'.exports
    engine := w'.engine, met := w'.met, journal := w'.journal }
  length : w'.scripts.length = w.scripts.length
  others : ∀ n, ¬N n → w'.script? n = w.script? n

variable {N N' : Nat → Prop} {w w' w'' : World} {n : Nat}

theorem confined_refl (w : World) : Confined N w w := ⟨rfl, rfl, fun _ _ => rfl⟩

theorem Confined.trans (h : Confined N w w') (h' : Confined N w' w'') : Confined N w w'' where
  frame := by rw [h'.frame, h.frame]
  length := h'.length.trans h.length
  others k hk := (h'.others k hk).trans (h.others k hk)

theorem Confined.mono (h : Confined N w w') (hn : ∀ k, N k → N' k) : Confined N' w w' :=
  ⟨h.frame, h.length, fun k hk => h.others k fun hN => hk (hn k hN)⟩

theorem confined_modify (f : Script → Script) (n : Nat) (w : World) :
    Confined (· = n) w { w with scripts := w.scripts.modify n f } where
  frame := rfl
  length := List.length_modify ..
  others k hk := by
    rw [script?_modify]
    exact if_neg fun hn => hk hn.symm

theorem Local.confined (h : Local w w') : Confined N w w' := by
  rw [h.frame]
  exact ⟨rfl, rfl, fun _ _ => rfl⟩

theorem Reclaimed.confined (h : Reclaimed n w w') : Confined (· = n) w w' := by
  rcases h.scripts with hs | ⟨claims, hs⟩ <;> rw [h.frame, hs]
  · exact ⟨rfl, rfl, fun _ _ => rfl⟩
  · have hm := confined_modify ({ · with claims }) n w
    exact ⟨rfl, hm.length, hm.others⟩

/-- Whether the next cycle starts from the same, but for files and claims. -/
structure Upheld (w w' : World) : Prop where
  root : w'.root = w.root
  registry : w'.registry = w.registry
  watch : w'.watch = w.watch
  isClosed : w'.isClosed = w.isClosed
  now : w'.now = w.now

theorem Confined.upheld (h : Confined N w w') : Upheld w w' := by
  constructor <;> rw [h.frame]

/-- What an instance lists after it released paths. -/
theorem script?_scriptUnwatch {s : Script} {paths : List Path} (hs : w.script? n = some s)
    (hc : w.circleAmong? paths = none) :
    (scriptUnwatch n paths w).2.script? n =
      some { s with claims := (s.claims.unwatch (paths.map w.canonical)).1 } := by
  have hm :=
    script?_modify w n ({ · with claims := (s.claims.unwatch (paths.map w.canonical)).1 }) n
  rw [if_pos rfl, hs] at hm
  rw [script?, scripts_scriptUnwatch hs hc]
  exact hm

/-- Whether nothing changed but certain instances, in a world that is tame. -/
structure Apart (R : Regime) (N : Nat → Prop) (w w' : World) : Prop extends Confined N w w' where
  tame : IsTame R w'

namespace Apart

variable {R : Regime} {E : Failure → Prop} {s : Script}

theorem confined (h : Apart R N w w') : Confined N w w' := h.toConfined

theorem refl (h : IsTame R w) : Apart R N w w := ⟨confined_refl w, h⟩

theorem step (h : Apart R N w w') (hc : Confined N w' w'') (ht : IsTame R w'') : Apart R N w w'' :=
  ⟨h.confined.trans hc, ht⟩

theorem trans (h : Apart R N w w') (h' : Apart R N w' w'') : Apart R N w w'' :=
  h.step h'.confined h'.tame

theorem mono (h : Apart R N w w') (hn : ∀ k, N k → N' k) : Apart R N' w w' :=
  ⟨h.confined.mono hn, h.tame⟩

theorem modify (h : Apart R (· = n) w w') (f : Script → Script)
    (hf : ∀ s, s.resources.IsTame R → (f s).resources.IsTame R) :
    Apart R (· = n) w { w' with scripts := w'.scripts.modify n f } :=
  h.step (confined_modify f n w') (h.tame.modify n f hf)

theorem reclaimed (h : Apart R (· = n) w w') (hr : Reclaimed n w' w'') : Apart R (· = n) w w'' :=
  h.step hr.confined (Reached.tame_reclaimed h.tame hr)

theorem spans (hn : w.script? n = some s) : Spans R n (Apart R (· = n) w) where
  tame _ h := h.tame
  known w' h := by
    have hl : n < w'.scripts.length := h.length ▸ lt_of_script? hn
    exact ⟨_, List.getElem?_eq_getElem hl⟩
  nearby _ _ h hl ht := h.step hl.confined ht
  declare _ f h hf := h.modify f fun s hs => by rwa [hf s]
  allocate _ _ resources h _ hr := h.modify ({ · with resources }) fun _ _ => hr.tame
  unwatch w' paths h := h.reclaimed (ends_scriptUnwatch n paths w').1
  turn _ f h hf := h.modify f fun s hs => by rwa [hf s]
  recorded _ event h := h.step ⟨rfl, rfl, fun _ _ => rfl⟩ (h.tame.transfer rfl rfl rfl rfl rfl)
  engine _ engine h := h.step ⟨rfl, rfl, fun _ _ => rfl⟩ (h.tame.transfer rfl rfl rfl rfl rfl)

/-- Terminating an instance leaves the others alone. -/
theorem ends_terminate (ht : IsTame R w) (hs : w.script? n = some s) :
    Ends (Apart R (· = n) w) R.GivesUp (terminate n w) := by
  by_cases ho : s.isOver = true
  · rw [terminate, bind_of_ok (script_of_some hs), if_pos ho]
    exact keeps_pure true w (refl ht)
  · have hturned : Apart R (· = n) w (w.turned n .terminating) :=
      (refl ht).modify ({ · with state := .terminating }) fun _ hs => hs
    refine (spans hs).ends_terminate hs (Bool.eq_false_iff.mpr ho) ?_
    exact (spans hs).admits.keeps_scriptUnwatchAll _ hturned

variable {host : HostRequest → Act HostAnswer} (ha : ∀ request, ¬R.asks request)
include ha

/-- Running an instance leaves the others alone. -/
theorem ends_run (ht : IsTame R w) (hs : w.script? n = some s) :
    Ends (Apart R (· = n) w) E (run host n w) := by
  refine (spans hs).keeps_run (fun w' paths h _ => ?_) (fun request hr => absurd hr (ha request)) w
    (refl ht)
  exact h.reclaimed (ends_scriptWatch n paths w').1

/-- A commit concerns its instances alone. -/
theorem ends_commit {c : Commit} (ht : IsTame R w)
    (hk : ∀ n, n ∈ c.toRun ∨ n ∈ c.toTerminate → n < w.scripts.length) :
    Ends (Apart R (fun n => n ∈ c.toRun ∨ n ∈ c.toTerminate) w) E (commit host c w) := by
  have hknown (w') (n) (h : Apart R (fun n => n ∈ c.toRun ∨ n ∈ c.toTerminate) w w')
      (hn : n ∈ c.toRun ∨ n ∈ c.toTerminate) : ∃ s, w'.script? n = some s := by
    have hl : n < w'.scripts.length := h.length ▸ hk n hn
    exact ⟨_, List.getElem?_eq_getElem hl⟩
  refine keeps_commit (fun w' j h hj => ?_) hknown (fun n hn w' h => ?_) (fun n hn w' h => ?_) w
    (refl ht)
  · exact h.step ⟨rfl, rfl, fun _ _ => rfl⟩ (h.tame.transfer rfl rfl rfl rfl rfl)
  · obtain ⟨s, hs⟩ := hknown w' n h (Or.inl hn)
    refine (ends_run ha h.tame hs).imp fun w'' h' => h.trans (h'.mono ?_)
    rintro k rfl
    exact Or.inl hn
  · obtain ⟨s, hs⟩ := hknown w' n h (Or.inr hn)
    refine ((ends_terminate h.tame hs).mono fun e he => he.1).imp fun w'' h' => h.trans (h'.mono ?_)
    rintro k rfl
    exact Or.inr hn

/-- What a cycle does with its commit leaves alone what the next one starts from, but
for files and claims. -/
theorem reconcile {done : Applied} (ht : IsTame R w') (ho : w.isClosed = false)
    (hc : cycle w = (.ok done, w'))
    (hk : ∀ n, n ∈ done.commit.toRun ∨ n ∈ done.commit.toTerminate → n < w'.scripts.length) :
    ∃ w₁, World.reconcile host w = (.ok done.plan, w₁) ∧ Upheld w' w₁ := by
  apply Reached.reconcile_cases ho hc ht.refusal
  · exact (ends_commit ha ht hk).imp fun _ h => h.confined.upheld
  · exact ⟨rfl, rfl, rfl, rfl, rfl⟩
  · intro entry
    have hlog : IsTame R { w' with journal := w'.journal.enter entry } :=
      ht.transfer rfl rfl rfl rfl rfl
    refine (ends_commit ha hlog fun n hn => ?_).imp fun _ h => ?_
    · exact hk n (hn.imp_left fun h => absurd h List.not_mem_nil)
    · have hu := h.confined.upheld
      exact ⟨hu.root, hu.registry, hu.watch, hu.isClosed, hu.now⟩
  · exact fun _ => ⟨rfl, rfl, rfl, rfl, rfl⟩

end Apart

/-- Whether an instance lists nothing, and the counts are what they should be. -/
structure Emptied (R : Regime) (n : Nat) (w : World) (counts : ClaimCounts) (w' : World) : Prop
    extends Apart R (· = n) w w' where
  listed : ∃ s, w'.script? n = some s ∧ s.claims.paths = []
  counts : w'.claims = counts

namespace Emptied

variable {R : Regime} {E : Failure → Prop} {counts : ClaimCounts} {s : Script}

theorem apart (h : Emptied R n w counts w') : Apart R (· = n) w w' := h.toApart

theorem modify (h : Emptied R n w counts w') (f : Script → Script)
    (hf : ∀ s, s.resources.IsTame R → (f s).resources.IsTame R)
    (hc : ∀ s, (f s).claims = s.claims) :
    Emptied R n w counts { w' with scripts := w'.scripts.modify n f } := by
  obtain ⟨s, hs, hempty⟩ := h.listed
  refine ⟨h.apart.modify f hf, ⟨f s, ?_, by rw [hc, hempty]⟩, h.counts⟩
  rw [script?_modify, if_pos rfl, hs]
  rfl

theorem transfer (h : Emptied R n w counts w') (hc : Confined (· = n) w' w'') (ht : IsTame R w'')
    (hs : w''.scripts = w'.scripts) (hk : w''.claims = w'.claims) : Emptied R n w counts w'' := by
  refine ⟨h.apart.step hc ht, ?_, hk.trans h.counts⟩
  rw [script?, hs]
  exact h.listed

theorem scriptUnwatch (h : Emptied R n w counts w') (ht : w.claimTarget = .counted)
    (paths : List Path) :
    Emptied R n w counts (scriptUnwatch n paths w').2 := by
  obtain ⟨s, hs, hempty⟩ := h.listed
  rcases hc : w'.circleAmong? paths with _ | e
  on_goal 2 =>
    rw [scriptUnwatch_of_some hs hc]
    exact h
  have htarget : w'.claimTarget = .counted := by
    rw [h.frame]
    exact ht
  have hnone : s.claims.unwatch (paths.map w'.canonical) = (⟨[]⟩, []) := by
    simp [ScopedClaims.unwatch, ScopedClaims.distinct, hempty]
  refine ⟨h.apart.reclaimed (ends_scriptUnwatch n paths w').1,
    ⟨_, script?_scriptUnwatch hs hc, ?_⟩, ?_⟩
  · rw [hnone]
  · rw [scriptUnwatch_eq hs htarget hc, hnone]
    exact h.counts

theorem spans (ht : w.claimTarget = .counted) : Spans R n (Emptied R n w counts) where
  tame _ h := h.tame
  known w' h := by
    obtain ⟨s, hs, -⟩ := h.listed
    exact ⟨s, hs⟩
  nearby _ _ h hl ht := h.transfer hl.confined ht (by rw [hl.frame]) (by rw [hl.frame])
  declare _ f h hf := h.modify f (fun s hs => by rwa [hf s]) fun s => by rw [hf s]
  allocate _ _ resources h _ hr := h.modify ({ · with resources }) (fun _ _ => hr.tame) fun _ => rfl
  unwatch _ paths h := h.scriptUnwatch ht paths
  turn _ f h hf := h.modify f (fun s hs => by rwa [hf s]) fun s => by rw [hf s]
  recorded _ event h :=
    h.transfer ⟨rfl, rfl, fun _ _ => rfl⟩ (h.tame.transfer rfl rfl rfl rfl rfl) rfl rfl
  engine _ engine h :=
    h.transfer ⟨rfl, rfl, fun _ _ => rfl⟩ (h.tame.transfer rfl rfl rfl rfl rfl) rfl rfl

end Emptied

/-- What becomes of the list of an instance that releases all of it, and what it passes on: nothing
where links lead one of its paths round in a circle. -/
def disclaimed (s : Script) (w : World) : ScopedClaims × List Path :=
  match w.circleAmong? s.claims.paths with
  | some _ => (s.claims, [])
  | none => s.claims.unwatch (s.claims.paths.map w.canonical)

/-- The counts after an instance has released what it lists. -/
def closings (s : Script) (w : World) : ClaimCounts :=
  w.claims.releaseAll ((w.reachable (disclaimed s w).2).map w.canonical)

theorem disclaimed_of_none {s : Script} (h : w.circleAmong? s.claims.paths = none) :
    disclaimed s w = s.claims.unwatch (s.claims.paths.map w.canonical) := by
  rw [disclaimed, h]

theorem disclaimed_of_some {s : Script} {e : Failure} (h : w.circleAmong? s.claims.paths = some e) :
    disclaimed s w = (s.claims, []) := by
  rw [disclaimed, h]

/-- An instance that is not over is terminated: it releases what it lists,
and then lists nothing. -/
theorem ends_terminate {R : Regime} {s : Script} (ht : IsTame R w)
    (htarget : w.claimTarget = .counted) (hs : w.script? n = some s) (ho : s.isOver = false)
    (hsettled : ∀ p ∈ s.claims.paths, w.form? p = some p) (hn : s.claims.paths.Nodup) :
    Ends (Emptied R n w (closings s w)) R.GivesUp (terminate n w) := by
  have hc := circleAmong?_of_settled hsettled
  have hturned : Apart R (· = n) w (w.turned n .terminating) :=
    (Apart.refl ht).modify ({ · with state := .terminating }) fun _ hs => hs
  have hs₁ : (w.turned n .terminating).script? n = some { s with state := .terminating } := by
    rw [turned, script?_modify, if_pos rfl, hs]
    rfl
  refine (Emptied.spans htarget).ends_terminate hs ho ?_
  have hr := ends_scriptUnwatch n s.claims.paths (w.turned n .terminating)
  rw [scriptUnwatchAll, bind_of_ok (script_of_some hs₁)]
  refine ⟨⟨hturned.reclaimed hr.1, ?_, ?_⟩, fun e he => ordinary_of_isClaimFailure (hr.2 e he)⟩
  · exact ⟨_, script?_scriptUnwatch hs₁ hc, ScopedClaims.unwatch_all hn fun p hp =>
      (form?_eq_some.mp (hsettled p hp)).2⟩
  · rw [scriptUnwatch_eq hs₁ htarget hc, closings, disclaimed_of_none hc]
    rfl

end HotReload.World
