import HotReload.Proofs.Watch.Tending

/-!
# The observer in use

A watch tells every observer that it started to stop before it starts another one. Whatever an
operation of a watch raises, no observer runs but the one in use, and none does once the watch was
stopped. If observers fail with system failures alone, those that could not be started are told to
stop as well.
-/
namespace HotReload.DirectoryWatch

open Operation

/-- Whether a watch uses an observer, or none, and every observer that was started, or every one at
`all`, was told to stop, but for one perhaps. -/
structure Attends (all : Prop) (spared current : Option Nat) (d : DirectoryWatch) : Prop where
  current : d.current = current
  others : ∀ n o, d.observers[n]? = some o → all ∨ o.isStarted = true →
    o.isStopped = true ∨ spared = some n

/-- Whether the observer in use is the only one that was not told to stop. -/
def IsMinded (all : Prop) (d : DirectoryWatch) : Prop := d.Attends all d.current d.current

/-- Whether no observer runs but the one in use. -/
def IsAttended (d : DirectoryWatch) : Prop := d.IsMinded False

/-- Whether no observer runs. -/
def IsQuiet (d : DirectoryWatch) : Prop := d.Attends False none none

theorem IsQuiet.stopped {d : DirectoryWatch} (h : d.IsQuiet) :
    d.current = none ∧ ∀ o ∈ d.observers, o.isStarted = true → o.isStopped = true := by
  refine ⟨h.current, fun o ho hs => ?_⟩
  obtain ⟨n, hn⟩ := List.mem_iff_getElem?.mp ho
  exact (h.others n o hn (Or.inr hs)).resolve_right fun hf => (by cases hf)

variable {d : DirectoryWatch} {all : Prop} {spared current : Option Nat} {n : Nat}
  {E : Failure → Prop} {r : Run}

theorem Attends.isMinded (h : d.Attends all current current) : d.IsMinded all := by
  rw [IsMinded, h.current]
  exact h

theorem Attends.choose (h : d.Attends all spared current) (chosen : Option Nat) :
    { d with current := chosen }.Attends all spared chosen := ⟨rfl, h.others⟩

/-- What is done to one observer. -/
theorem Attends.modify {spared' : Option Nat} (h : d.Attends all spared current)
    (f : Observer → Observer)
    (hf : ∀ o, all ∨ (f o).isStarted = true →
      (all ∨ o.isStarted = true → o.isStopped = true ∨ spared = some n) →
      (f o).isStopped = true ∨ spared' = some n)
    (hother : ∀ k, n ≠ k → spared = some k → spared' = some k) :
    { d with observers := d.observers.modify n f }.Attends all spared' current where
  current := h.current
  others k o ho hs := by
    have hm : (d.observers.modify n f)[k]? = some o := ho
    rw [List.getElem?_modify] at hm
    obtain ⟨o₀, hn, rfl⟩ := Option.map_eq_some_iff.mp hm
    by_cases hk : n = k
    · subst hk
      simp only [if_pos] at hs ⊢
      exact hf o₀ hs fun hs₀ => h.others n o₀ hn hs₀
    · simp only [if_neg hk] at hs ⊢
      exact (h.others k o₀ hn hs).imp_right (hother k hk)

/-- An observer that was not started need not be told to stop. -/
theorem Attends.unlaunched (h : d.Attends all (some n) current) (hall : ¬all)
    (hnew : ∀ o, d.observers[n]? = some o → o.isStarted = false) : d.Attends all none current where
  current := h.current
  others k o ho hs := by
    refine (h.others k o ho hs).imp_right fun hk => ?_
    obtain rfl : n = k := Option.some.inj hk
    have hstarted : o.isStarted = true := hs.resolve_left hall
    rw [hnew o ho] at hstarted
    cases hstarted

/-- An observer that is made is the one that need not be told to stop. -/
theorem Attends.make (h : r.watch.Attends all none current) : ∃ r',
    makeObserver r = (.ok r.watch.observers.length, r') ∧ r'.watch.behavior = r.watch.behavior ∧
      r'.watch.Attends all (some r.watch.observers.length) current ∧
      ∀ o, r'.watch.observers[r.watch.observers.length]? = some o → o.isStarted = false := by
  refine ⟨_, rfl, rfl, ⟨h.current, fun k o ho hs => ?_⟩, fun o ho => ?_⟩
  · have ho : (r.watch.observers ++ [({} : Observer)])[k]? = some o := ho
    rcases Nat.lt_trichotomy k r.watch.observers.length with hk | rfl | hk
    · rw [List.getElem?_append_left hk] at ho
      exact Or.inl ((h.others k o ho hs).resolve_right (Option.some_ne_none k).symm)
    · exact Or.inr rfl
    · have hlength : (r.watch.observers ++ [({} : Observer)]).length ≤ k := by
        simpa using Nat.succ_le_of_lt hk
      rw [List.getElem?_eq_none hlength] at ho
      cases ho
  · have ho : (r.watch.observers ++ [({} : Observer)])[r.watch.observers.length]? = some o := ho
    rw [List.getElem?_concat_length] at ho
    cases ho
    rfl

theorem keeps_attending_record (event : TraceEvent) :
    Keeps (fun r : Run => r.watch.Attends all spared current) E (record event) :=
  keeps_modify fun _ h => h

theorem keeps_attending_log (component : String) (level : LogLevel) (event : String)
    (fields : List (String × Value)) :
    Keeps (fun r : Run => r.watch.Attends all spared current) E
      (log component level event fields) :=
  keeps_modify fun _ h => h

/-- An observer that cannot be launched was not started. -/
theorem launch_cases (hall : all → r.watch.behavior.Sound)
    (h : r.watch.Attends all (some n) current)
    (hnew : ∀ o, r.watch.observers[n]? = some o → o.isStarted = false) :
    (∃ r', launch n r = (.ok (), r') ∧ r'.watch.Attends all (some n) current) ∨
      ∃ e r', launch n r = (.error e, r') ∧ r'.watch.Attends all (some n) current ∧
        (e.isSystem = false → r'.watch.Attends all none current) := by
  have hfailed {e : Failure} (he : all → e.isSystem = true ∨ False) (hs : e.isSystem = false) :
      r.watch.Attends all none current := by
    refine h.unlaunched (fun ha => ?_) hnew
    rw [hs] at he
    exact (he ha).elim Bool.noConfusion id
  rw [launch, get_bind, record, modify_bind]
  rcases hschedule : r.watch.behavior.scheduleError with _ | e
  · rcases hstart : r.watch.behavior.startError with _ | e
    · refine Or.inl ⟨_, rfl, ?_⟩
      exact h.modify ({ · with isStarted := true }) (fun _ _ _ => Or.inr rfl) fun _ _ hk => hk
    · exact Or.inr ⟨e, _, rfl, h, hfailed fun ha => (hall ha).start e hstart⟩
  · exact Or.inr ⟨e, _, rfl, h, hfailed fun ha => (hall ha).schedule e hschedule⟩

/-- An observer that is stopped was told so, whatever that raises. -/
theorem ends_stopObserver (h : r.watch.Attends all (some n) current) :
    Ends (fun r' => r'.watch.Attends all none current) (fun _ => True) (stopObserver n r) := by
  have hhalt : Ends (fun r' : Run => r'.watch.Attends all none current) (fun _ => True)
      (halt n r) := by
    refine (keeps_attending_record (E := fun _ => False) _ r h).andThen fun _ r₁ h₁ => ?_
    have htold : Ends (fun r' : Run => r'.watch.Attends all none current) (fun _ => False)
        (updateObserver n ({ · with isStopped := true }) r₁) :=
      ends_ok (h₁.modify ({ · with isStopped := true }) (fun _ _ _ => Or.inl rfl)
        fun k hk hs => absurd (Option.some.inj hs) hk)
    refine htold.andThen fun _ r₂ h₂ => keeps_get_bind (fun r₂ h₂ => ?_) r₂ h₂
    refine Ends.bind (I := fun r' : Run => r'.watch.Attends all none current) ?_
      fun _ => keeps_get_bind fun r₃ h₃ => ?_
    · rcases r₂.watch.behavior.stopError with _ | e
      · exact ends_ok h₂
      · exact ends_error h₂ trivial
    · split
      · refine (keeps_attending_record _).bind (fun _ => keeps_modify fun _ h₄ => ?_) r₃ h₃
        exact h₄.modify ({ · with isJoined := true }) (fun _ hs hstopped => hstopped hs)
          fun _ _ hk => hk
      · exact keeps_pure _ r₃ h₃
  rw [stopObserver, attempt_eq]
  refine Ends.bind (hhalt.attempt fun _ _ => Or.inr trivial) fun result => ?_
  cases result with
  | ok _ => exact keeps_pure _
  | error e => exact keeps_attending_log _ _ _ _

/-! What every observer but the one in use was told stays so, whatever an operation raises; that
goes for observers that were never started only if they fail with system failures alone. -/

theorem ends_start (hall : all → r.watch.behavior.Sound) (h : r.watch.IsMinded all) :
    Ends (fun r' => r'.watch.IsMinded all) (fun _ => True) (start r) := by
  rw [start, get_bind]
  by_cases hc : r.watch.current.isSome = true
  · rw [if_pos hc]
    exact ends_ok h
  · have hnone : r.watch.current = none := by simpa using hc
    rw [IsMinded, hnone] at h
    obtain ⟨r₀, hmake, hbehavior, h₀, hnew⟩ := h.make
    rw [if_neg hc, bind_of_ok hmake, attempt_eq]
    rcases launch_cases (fun ha => hbehavior ▸ hall ha) h₀ hnew with
      ⟨r₁, hl, h₁⟩ | ⟨e, r₁, hl, h₁, hnone₁⟩
    · rw [bind_of_ok (attempt_of_ok hl)]
      dsimp only
      rw [change, modify_bind, get_bind]
      exact ends_ok (h₁.choose (some r.watch.observers.length))
    · have ha : Operation.attempt Failure.isSystem (launch r.watch.observers.length) _ = _ :=
        attempt_of_error hl
      by_cases he : e.isSystem = true
      · rw [if_pos he] at ha
        rw [bind_of_ok ha]
        dsimp only
        rw [get_bind]
        have hlogged (fields) := keeps_attending_log (E := fun _ => False) "FileWatch" .error
          "file_watch_start_failed" fields r₁ h₁
        refine (hlogged _).andThen fun _ r₂ h₂ => ?_
        exact ((ends_stopObserver h₂).imp fun _ h₃ => h₃.isMinded).bind fun _ => keeps_pure _
      · rw [if_neg he] at ha
        rw [bind_of_error ha]
        exact ends_error (hnone₁ (Bool.eq_false_iff.mpr he)).isMinded trivial

/-- A watch that was stopped has no observer that runs, whatever stopping it raised. -/
theorem ends_stop (h : r.watch.IsMinded all) :
    Ends (fun r' => r'.watch.Attends all none none) (fun _ => True) (stop r) := by
  rw [stop, get_bind]
  rcases hc : r.watch.current with _ | n <;> rw [IsMinded, hc] at h
  · exact ends_ok h
  · dsimp only
    rw [change, modify_bind]
    have hstop := ends_stopObserver (r := { r with watch := { r.watch with current := none } })
      (h.choose none)
    exact hstop.bind fun _ => keeps_get_bind fun r₁ h₁ => keeps_attending_log _ _ _ _ r₁ h₁

theorem ends_recreate (hall : all → r.watch.behavior.Sound) (h : r.watch.IsMinded all) :
    Ends (fun r' => r'.watch.IsMinded all) (fun _ => True) (recreate r) := by
  have htends := keeps_stop r.watch.behavior.raises_anything r (tends_refl r)
  refine Ends.bindInto ((ends_stop h).and htends) (fun _ _ h' _ => ⟨h'.1.isMinded, trivial⟩)
    fun _ r' h' => ?_
  exact ends_start (fun ha => h'.2.behavior ▸ hall ha) h'.1.isMinded

theorem ends_rearm (rootExists : Except Failure Bool) (h : r.watch.IsMinded all) :
    Ends (fun r' => r'.watch.IsMinded all) (fun _ => True) (rearm rootExists r) := by
  rw [rearm, get_bind]
  rcases r.watch.current with _ | n
  · exact ends_ok h
  · dsimp only
    split
    · exact ends_ok h
    · rcases rootExists with e | _ | _
      · exact ends_error h trivial
      · exact ends_ok h
      · exact ends_ok h

theorem ends_poll (now : Float) (h : r.watch.IsMinded all) :
    Ends (fun r' => r'.watch.IsMinded all) (fun _ => True) (poll now r) := by
  obtain ⟨r', hp, hw, -⟩ := poll_eq now r
  rw [hp]
  refine ends_ok ?_
  rw [hw]
  exact ⟨rfl, h.others⟩

end HotReload.DirectoryWatch
