import HotReload.Proofs.Host.Accounting
import HotReload.Proofs.Host.Locality

/-!
# What instances list

An instance lists nothing before its body starts. Once the body has come to its end, the
instance lists what it has claimed until it is torn down, whatever happens meanwhile; and what
is listed is watched.
-/
namespace HotReload

open World Moment Operation

variable {R : Regime} {m m' : Moment} {w w' : World} {n : Nat} {p : Path}

namespace World

/-- Whether an instance lists a path. -/
def Lists (w : World) (n : Nat) (p : Path) : Prop := ∃ s, w.script? n = some s ∧ p ∈ s.claims.paths

/-- Whether an instance is there that was not torn down. -/
def IsLive (w : World) (n : Nat) : Prop := ∃ s, w.script? n = some s ∧ s.isOver = false

theorem lists_of_eq (h : w'.script? n = w.script? n) : w'.Lists n p ↔ w.Lists n p := by
  rw [Lists, Lists, h]

/-- Changing an instance apart from what it lists. -/
theorem lists_modify (f : Script → Script) (hf : ∀ s, (f s).claims = s.claims) (k : Nat) :
    ({ w with scripts := w.scripts.modify k f } : World).Lists n p ↔ w.Lists n p := by
  rw [Lists, Lists, script?_modify]
  split
  · cases w.script? n with
    | none => simp
    | some s => simp [hf]
  · rfl

/-- What the operator claims is no matter of the instances. -/
theorem lists_operated (h : Operated w w') : w'.Lists n p ↔ w.Lists n p := by
  rw [h]
  rfl

/-- New instances list nothing. -/
theorem lists_grown {fresh gone : List Path} (h : Grown w fresh gone w') :
    w'.Lists n p ↔ w.Lists n p := by
  obtain ⟨w₁, hscripts⟩ := h.scripts
  constructor
  · rintro ⟨s, hs, hp⟩
    have hs : (w.scripts ++ fresh.map w₁.made)[n]? = some s := hscripts ▸ hs
    rcases List.getElem?_append.symm.trans hs with hs
    split at hs
    · exact ⟨s, hs, hp⟩
    · obtain ⟨q, -, rfl⟩ := List.mem_map.mp (List.mem_of_getElem? hs)
      cases hp
  · rintro ⟨s, hs, hp⟩
    exact ⟨s, h.script? hs, hp⟩

/-- Releasing paths, an instance comes to list nothing more. -/
theorem lists_scriptUnwatch {paths : List Path} (hl : (scriptUnwatch n paths w).2.Lists n p) :
    w.Lists n p := by
  cases hs : w.script? n with
  | none =>
    rw [scriptUnwatch, bind_of_error (script_of_none hs)] at hl
    exact hl
  | some s =>
    cases hc : w.circleAmong? paths with
    | some e =>
      rw [scriptUnwatch_of_some hs hc] at hl
      exact hl
    | none =>
      obtain ⟨t, ht, hp⟩ := hl
      rw [script?_scriptUnwatch hs hc] at ht
      cases ht
      exact ⟨s, hs, ScopedClaims.unwatch_subset _ _ hp⟩

theorem watched_of_lists (h : w.Accounts) (hl : w.Lists n p) : p ∈ w.watched := by
  obtain ⟨s, hs, hp⟩ := hl
  have ho : s.claims ∈ w.owners := List.mem_of_getElem? (owner_script hs)
  exact (h.watched p).mpr (List.countP_pos_iff.mpr ⟨s.claims, ho, by simpa using hp⟩)

/-- What is watched is listed by the operator or by an instance. -/
theorem mem_watched_iff (h : w.Accounts) :
    p ∈ w.watched ↔ p ∈ w.operator.paths ∨ ∃ n, w.Lists n p := by
  constructor
  · intro hp
    obtain ⟨o, ho, hl⟩ := List.countP_pos_iff.mp ((h.watched p).mp hp)
    have hl : p ∈ o.paths := by simpa using hl
    rcases List.mem_cons.mp ho with rfl | ho
    · exact Or.inl hl
    · obtain ⟨s, hs, rfl⟩ := List.mem_map.mp ho
      obtain ⟨n, hn⟩ := List.mem_iff_getElem?.mp hs
      exact Or.inr ⟨n, s, hn, hl⟩
  · rintro (hp | ⟨n, hl⟩)
    · have ho : w.operator ∈ w.owners := List.mem_cons_self ..
      exact (h.watched p).mpr (List.countP_pos_iff.mpr ⟨w.operator, ho, by simpa using hp⟩)
    · exact watched_of_lists h hl

section Covered

variable {root : Path} {c : Path → Option Path} {P : Path → Prop} {debt : Path → Nat} {s : Script}

/-- What an instance lists is firm and listed once. -/
theorem IsCovered.listed (h : IsCovered R root c P debt w) (hs : w.script? n = some s) :
    s.claims.paths.Nodup ∧ ∀ p ∈ s.claims.paths, c p = some p := by
  have howner := List.mem_of_getElem? (owner_script hs)
  exact ⟨h.covered.once _ howner, h.covered.firm _ howner⟩

/-- An instance that is terminated lists nothing any more. -/
theorem IsCovered.ends_terminate {R' : Regime} (h : IsCovered R root c P debt w)
    (hR : R.IsFirm root c) (ht : IsTame R' w) (hs : w.script? n = some s) (ho : s.isOver = false) :
    Operation.Ends (Emptied R' n w (closings s w)) R'.GivesUp (terminate n w) := by
  obtain ⟨hn, hfirm⟩ := h.listed hs
  refine World.ends_terminate ht h.target hs ho ?_ hn
  rw [h.form? hR]
  exact hfirm

end Covered

end World

namespace Moment

/-- Whether the body of an instance was started and has come to its end. -/
structure HasRun (m : Moment) (n : Nat) : Prop where
  past : m.world.IsPast n
  body : .body n ∉ m.duties

/-- Whether instances that were not run list nothing, and their bodies do not run. -/
def IsBlank (m : Moment) : Prop :=
  ∀ n, ¬m.world.IsPast n → .body n ∉ m.duties ∧ ∀ p, ¬m.world.Lists n p

theorem IsBlank.hasRun (h : m.IsBlank) (hl : m.world.Lists n p) (hb : .body n ∉ m.duties) :
    m.HasRun n := by
  refine ⟨?_, hb⟩
  by_contra hp
  exact (h n hp).2 p hl

end Moment

/-- A body starts when its instance is run for the first time, and then has a context. -/
theorem Step.body (h : Step R m m') (hb : .body n ∈ m'.duties) :
    .body n ∈ m.duties ∨ ¬m.world.IsPast n ∧
      ∃ s, m'.world.script? n = some s ∧ s.state = .running ∧ s.hasContext = true := by
  have hrest {d : Duty} {K : List Duty} (hd : Duty.body n ≠ d) (hm : .body n ∈ d :: K) :
    .body n ∈ K :=
    (List.mem_cons.mp hm).resolve_left hd
  cases h with
  | @start w k s toRun toTerminate K hs hc =>
    rcases List.mem_cons.mp hb with hb | hb
    · cases hb
      refine Or.inr ⟨?_, _, script?_started hs, rfl, rfl⟩
      rintro ⟨t, ht, hne⟩
      obtain rfl : t = s := Option.some.inj (ht.symm.trans hs)
      exact hne hc
    · exact Or.inl (List.mem_cons_of_mem _ (hrest Duty.noConfusion hb))
  | plan => exact Or.inl (hrest Duty.noConfusion hb)
  | dequeue => exact Or.inl (hrest Duty.noConfusion hb)
  | close => exact Or.inl (hrest Duty.noConfusion hb)
  | refuse => exact Or.inl (List.mem_cons_of_mem _ (hrest Duty.noConfusion hb))
  | skip => exact Or.inl (List.mem_cons_of_mem _ (hrest Duty.noConfusion hb))
  | pass => exact Or.inl (List.mem_cons_of_mem _ (hrest Duty.noConfusion hb))
  | release => exact Or.inl (List.mem_cons_of_mem _ (hrest Duty.noConfusion hb))
  | begin =>
    exact Or.inl (List.mem_cons_of_mem _ (hrest Duty.noConfusion (hrest Duty.noConfusion hb)))
  | enqueue => exact Or.inl (List.mem_cons_of_mem _ hb)
  | complete => exact Or.inl (List.mem_cons_of_mem _ hb)
  | fail => exact Or.inl (List.mem_cons_of_mem _ hb)
  | finish => exact Or.inl (List.mem_cons_of_mem _ hb)
  | done => exact Or.inl (List.mem_cons_of_mem _ hb)
  | abandon => exact Or.inl (List.mem_cons_of_mem _ hb)
  | _ => exact Or.inl hb

theorem Step.hasRun (h : Step R m m') (hr : m.HasRun n) : m'.HasRun n :=
  ⟨h.isPast hr.past, fun hb => (h.body hb).elim hr.body fun hnot => hnot.1 hr.past⟩

theorem Walk.hasRun (h : Walk R m m') (hr : m.HasRun n) : m'.HasRun n := by
  induction h with
  | refl => exact hr
  | tail _ h ih => exact h.hasRun ih

/-- What an instance lists depends on its body and its termination alone. -/
theorem Step.lists_iff (h : Step R m m') (hd : ∀ d ∈ m.duties, ¬d.isOf n) :
    m'.world.Lists n p ↔ m.world.Lists n p := by
  cases h with
  | calm h ht =>
    rw [h.frame]
    rfl
  | amend f h => exact lists_modify f (fun s => by rw [h s]) _
  | allocate resources h => exact lists_modify ({ · with resources }) (fun _ => rfl) _
  | @scriptWatch w K k paths h =>
    have hk : ¬n = k := fun hk => hd _ (List.mem_cons_self ..) (hk ▸ Duty.isOf_body k)
    exact lists_of_eq ((ends_scriptWatch ..).1.confined.others n hk)
  | @scriptUnwatch w d K k paths h =>
    have hk : ¬n = k := fun hk => hd d (List.mem_cons_self ..) (hk ▸ h)
    exact lists_of_eq ((ends_scriptUnwatch ..).1.confined.others n hk)
  | watchPaths paths h => exact lists_operated (operated_watchPaths ..)
  | unwatchPaths paths h => exact lists_operated (operated_unwatchPaths ..)
  | plan ho ht hf hm => exact lists_grown (hm.grown ht)
  | start hs hc =>
    exact lists_modify ({ · with state := .running, hasContext := true }) (fun _ => rfl) _
  | begin hs ho => exact lists_modify ({ · with state := .terminating }) (fun _ => rfl) _
  | finish hs hc => exact lists_modify ({ · with state := .terminated }) (fun _ => rfl) _
  | _ => exact Iff.rfl

/-- What an instance comes to list, its body claims. -/
theorem Step.listed (h : Step R m m') (hl : m'.world.Lists n p) :
    m.world.Lists n p ∨ .body n ∈ m.duties := by
  cases h with
  | calm h ht =>
    rw [h.frame] at hl
    exact Or.inl hl
  | amend f h => exact Or.inl ((lists_modify f (fun s => by rw [h s]) _).mp hl)
  | allocate resources h =>
    exact Or.inl ((lists_modify ({ · with resources }) (fun _ => rfl) _).mp hl)
  | @scriptWatch w K k paths h =>
    by_cases hk : n = k
    · exact Or.inr (hk ▸ List.mem_cons_self ..)
    · exact Or.inl ((lists_of_eq ((ends_scriptWatch ..).1.confined.others n hk)).mp hl)
  | @scriptUnwatch w d K k paths h =>
    by_cases hk : n = k
    · exact Or.inl (hk ▸ lists_scriptUnwatch (hk ▸ hl))
    · exact Or.inl ((lists_of_eq ((ends_scriptUnwatch ..).1.confined.others n hk)).mp hl)
  | watchPaths paths h => exact Or.inl ((lists_operated (operated_watchPaths ..)).mp hl)
  | unwatchPaths paths h => exact Or.inl ((lists_operated (operated_unwatchPaths ..)).mp hl)
  | plan ho ht hf hm => exact Or.inl ((lists_grown (hm.grown ht)).mp hl)
  | start hs hc =>
    exact Or.inl
      ((lists_modify ({ · with state := .running, hasContext := true }) (fun _ => rfl) _).mp hl)
  | begin hs ho =>
    exact Or.inl ((lists_modify ({ · with state := .terminating }) (fun _ => rfl) _).mp hl)
  | finish hs hc =>
    exact Or.inl ((lists_modify ({ · with state := .terminated }) (fun _ => rfl) _).mp hl)
  | _ => exact Or.inl hl

/-- Nothing is done for an instance by itself that does not run and is not over. -/
theorem Moment.IsOrderly.free (ho : m.IsOrderly R) (hs : m.IsSane) (hb : .body n ∉ m.duties)
    (hlive : ∀ s, m.world.script? n = some s → s.isOver = false) : ∀ d ∈ m.duties, ¬d.isOf n := by
  intro d hd hn
  cases d with
  | commit c => exact hn
  | body k => exact hb ((show k = n from hn) ▸ hd)
  | ending k released =>
    obtain rfl : k = n := hn
    have hk : k ∈ m.numbers :=
      List.mem_flatMap.mpr ⟨_, List.mem_append_left _ hd, List.mem_singleton.mpr rfl⟩
    have hl : k < m.world.scripts.length := hs.known k hk
    have hs : m.world.script? k = some m.world.scripts[k] := List.getElem?_eq_getElem hl
    exact (not_over (hlive _ hs)).1 ((ho.accounted k _ hs).ending released hd)

theorem Step.isBlank (h : Step R m m') (hs : m.IsSane) (ho : m.IsOrderly R) (hb : m.IsBlank) :
    m'.IsBlank := by
  intro n hnot
  have hfirst : ¬m.world.IsPast n := fun hp => hnot (h.isPast hp)
  obtain ⟨hbody, hnone⟩ := hb n hfirst
  have hlive (s : Script) (hs : m.world.script? n = some s) : s.isOver = false := by
    have hc : s.state = .created := Classical.byContradiction fun hne => hfirst ⟨s, hs, hne⟩
    rw [Script.isOver, hc]
    decide
  refine ⟨fun hm => ?_, fun p hl => hnone p ((h.lists_iff (ho.free hs hbody hlive)).mp hl)⟩
  rcases h.body hm with hm | ⟨-, s, hs, hrunning, -⟩
  · exact hbody hm
  · exact hnot ⟨s, hs, by rw [hrunning]; exact ScriptState.noConfusion⟩

theorem Walk.isBlank (h : Walk R m m') (hs : m.IsSane) (ho : m.IsOrderly R) (hb : m.IsBlank) :
    m'.IsBlank := by
  induction h with
  | refl => exact hb
  | tail hw h ih => exact h.isBlank (Walk.isSane hw hs) (Walk.isOrderly hw hs ho) ih

theorem ScriptState.Next.not_over {a b : ScriptState} (h : a.Next b)
    (hb : b ≠ .terminating ∧ b ≠ .terminated) :
    a ≠ .terminating ∧ a ≠ .terminated := by
  cases h <;> simp at hb ⊢

/-- What is over stays over. -/
theorem Step.not_over (h : Step R m m') (ho : m.IsOrderly R) (hlive : m'.world.IsLive n)
    {s : Script} (hs : m.world.script? n = some s) : s.isOver = false := by
  obtain ⟨s', hs', hturns⟩ := h.turns ho hs
  obtain ⟨t, ht, hover⟩ := hlive
  obtain rfl : s' = t := Option.some.inj (hs'.symm.trans ht)
  have hnot := Moment.not_over hover
  have hbefore : s.state ≠ .terminating ∧ s.state ≠ .terminated := by
    rcases hturns.state with hsame | hnext
    · rwa [hsame] at hnot
    · exact hnext.not_over hnot
  rw [Script.isOver, Bool.or_eq_false_iff, decide_eq_false_iff_not, decide_eq_false_iff_not]
  exact hbefore

theorem Walk.isLive (h : Walk R m m') (hs : m.IsSane) (ho : m.IsOrderly R) {s : Script}
    (hn : m.world.script? n = some s) (hlive : m'.world.IsLive n) : m.world.IsLive n := by
  induction h with
  | refl => exact hlive
  | tail hw h ih =>
    obtain ⟨s₁, hs₁, -⟩ := Walk.script? hw hn
    exact ih ⟨s₁, hs₁, h.not_over (Walk.isOrderly hw hs ho) hlive hs₁⟩

/-- An instance that has run keeps what it lists until it is torn down. -/
theorem Walk.lists (h : Walk R m m') (hs : m.IsSane) (ho : m.IsOrderly R) (hr : m.HasRun n)
    (hlive : m'.world.IsLive n) (hl : m.world.Lists n p) : m'.world.Lists n p ∧ m'.HasRun n := by
  induction h with
  | refl => exact ⟨hl, hr⟩
  | tail hw h ih =>
    have ho₁ := Walk.isOrderly hw hs ho
    obtain ⟨s, hm, -⟩ := hl
    obtain ⟨s₁, hs₁, -⟩ := Walk.script? hw hm
    obtain ⟨hl₁, hr₁⟩ := ih ⟨s₁, hs₁, h.not_over ho₁ hlive hs₁⟩
    have hfree := ho₁.free (Walk.isSane hw hs) hr₁.body fun s => h.not_over ho₁ hlive
    exact ⟨(h.lists_iff hfree).mpr hl₁, h.hasRun hr₁⟩

end HotReload
