import HotReload.Proofs.Host.Teardown

/-!
# Closers that reach back

Closers may do more than fail and add resources: they run while their instance is being terminated,
and what each of them sees is the instance as it is by then, over and with nothing more to close. So
a termination from inside a closer does nothing, and whatever else closers do, the termination comes
to its end.
-/
namespace HotReload.World

open Operation Resource

/-- That resources of these names were closed. -/
def reporting (names : List String) : Touch where
  script t := { t with resources := { t.resources with closings := t.resources.closings ++ names } }
  events := names.map .closed

section Closers

variable (also : String → Act Unit) (n : Nat)

mutual

/-- Closes a resource of an instance: it reports, does what `also` says, registers what it adds and
then fails if it is to fail. -/
def closeLive : Resource → Act Unit
  | .mk name fault adds => do
    modify ((reporting [name]).on n)
    also name
    addEachLive adds
    liftExcept (outcome fault)

/-- Registers resources with an instance one after the other until one of them fails. -/
def addEachLive : List Resource → Act Unit
  | [] => pure ()
  | resource :: rest => do
    if (← script n).resources.isClosed then
      match ← World.attempt Failure.isOrdinary (closeLive resource) with
      | .ok () => pure ()
      | .error e => throw (Failure.composed [e] true)
    else updateScript n fun t =>
      { t with resources := { t.resources with held := t.resources.held ++ [{ resource }] } }
    addEachLive rest

end

/-- Closes resources in turn and collects what they raise. -/
def closeEachLive : List Resource → Act (List Failure)
  | [] => return []
  | resource :: rest => do
    match ← World.attempt Failure.isOrdinary (closeLive also n resource) with
    | .ok () => closeEachLive rest
    | .error e => return e :: (← closeEachLive rest)

def closeSilentlyLive : Act Bool := do
  let s ← script n
  updateScript n ({ · with resources := { s.resources with held := [], isClosed := true } })
  let errors ← liftExcept
    (Failure.gather (← closeEachLive also n (s.resources.held.reverse.map (·.resource))))
  errors.forM fun e => enter (closeComplaint s e)
  return errors.isEmpty

/-- A termination of an instance during which each of its closers does what `also` says. -/
def terminateLive : Act Bool := terminateBy (closeSilentlyLive also n) n

end Closers

variable {also : String → Act Unit} {n : Nat} {v w : World} {s t : Script}

theorem reporting_nil (n : Nat) (w : World) : (reporting []).on n w = w := by
  have hid : (reporting []).script = id := by
    funext t
    simp only [reporting, List.append_nil, id]
  rw [Touch.on, hid, List.modify_id]
  simp only [reporting, List.map_nil, Journal.append_empty, id]

theorem reporting_append (names others : List String) :
    (reporting names).andThen (reporting others) = reporting (names ++ others) := by
  simp only [reporting, Touch.andThen, Function.comp_def, List.append_assoc, List.map_append]
  rfl

/-- Whether closers do nothing of their own once their instance is over. -/
def AreQuiet (also : String → Act Unit) (n : Nat) : Prop :=
  ∀ name v t, v.script? n = some t → t.isOver = true → also name v = (.ok (), v)

mutual

-- The instance is over and its registry closed all the way down, so that what is added is closed on
-- the spot.
theorem closeLive_eq (hq : AreQuiet also n) :
    ∀ (resource : Resource) (v : World) (t : Script), resource.IsHandled →
    v.script? n = some t → t.isOver = true → t.resources.isClosed = true →
    closeLive also n resource v = (outcome resource.raises, (reporting resource.trace).on n v)
  | .mk name fault adds, v, t, h, ht, ho, hc => by
    have ht' := Touch.script?_on (t := reporting [name]) ht
    rw [closeLive, modify_bind, bind_of_ok (hq _ _ _ ht' ho)]
    have hadds := addEachLive_eq hq adds _ _ h.2 ht' ho hc
    rw [Touch.on_on, reporting_append] at hadds
    rw [raises, trace]
    cases hr : raisesEach adds with
    | none =>
      rw [hr] at hadds
      rw [bind_of_ok hadds]
      cases fault <;> rfl
    | some e =>
      rw [hr] at hadds
      rw [bind_of_error hadds]
      rfl

theorem addEachLive_eq (hq : AreQuiet also n) :
    ∀ (resources : List Resource) (v : World) (t : Script),
    AreHandled resources → v.script? n = some t → t.isOver = true → t.resources.isClosed = true →
    addEachLive also n resources v =
      (outcome (raisesEach resources), (reporting (traceEach resources)).on n v)
  | [], v, _, _, _, _, _ => by rw [addEachLive, raisesEach, traceEach, reporting_nil]; rfl
  | a :: rest, v, t, h, ht, ho, hc => by
    have ha := closeLive_eq hq a v t h.1 ht ho hc
    rw [addEachLive, bind_of_ok (script_of_some ht), if_pos hc, raisesEach, traceEach]
    cases hr : a.raises with
    | none =>
      rw [hr] at ha
      have hrest :=
        addEachLive_eq hq rest _ _ h.2 (Touch.script?_on (t := reporting a.trace) ht) ho hc
      rw [Touch.on_on, reporting_append] at hrest
      rw [bind_of_ok (World.attempt_of_ok ha)]
      exact hrest
    | some e =>
      rw [hr] at ha
      rw [bind_of_ok (World.attempt_of_handled ha (ordinary_raises h.1 hr))]
      simp
      rfl

end

theorem closeEachLive_eq (hq : AreQuiet also n) (resources : List Resource)
    (ht : v.script? n = some t) (h : ∀ a ∈ resources, a.IsHandled) (ho : t.isOver = true)
    (hc : t.resources.isClosed = true) :
    closeEachLive also n resources v =
      (.ok (resources.filterMap raises), (reporting (resources.flatMap trace)).on n v) := by
  induction resources generalizing v t with
  | nil => rw [closeEachLive, List.flatMap_nil, reporting_nil]; rfl
  | cons a rest ih =>
    obtain ⟨hhandled, hrest⟩ := List.forall_mem_cons.mp h
    have ha := closeLive_eq hq a v t hhandled ht ho hc
    have hnext := ih (Touch.script?_on (t := reporting a.trace) ht) hrest ho hc
    rw [Touch.on_on, reporting_append] at hnext
    rw [closeEachLive, List.flatMap_cons]
    cases hr : a.raises with
    | none =>
      rw [hr] at ha
      rw [bind_of_ok (World.attempt_of_ok ha), List.filterMap_cons_none hr]
      exact hnext
    | some e =>
      rw [hr] at ha
      rw [bind_of_ok (World.attempt_of_handled ha (ordinary_raises hhandled hr)),
        List.filterMap_cons_some hr]
      exact bind_of_ok hnext _

theorem closeSilentlyLive_eq (hq : AreQuiet also n) (hs : w.script? n = some s)
    (ho : s.isOver = true) (hr : ∀ g ∈ s.resources.held, g.resource.IsHandled) :
    closeSilentlyLive also n w = ((Failure.gather s.resources.failures).map List.isEmpty,
      (closing s).on n w) := by
  let sealing : Touch :=
    { script := ({ · with resources := { s.resources with held := [], isClosed := true } }) }
  have hclose :=
    closeEachLive_eq hq _ (Touch.script?_on (t := sealing) hs)
      (ResourceRegistry.handled_of_held hr) ho rfl
  rw [List.filterMap_map, List.flatMap_map, Touch.on_on] at hclose
  rw [closeSilentlyLive, bind_of_ok (script_of_some hs), updateScript, modify_bind, Touch.modify_eq,
    bind_of_ok hclose]
  refine (forM_closeComplaint s n _).trans ?_
  rw [Touch.on_on]
  simp only [Touch.andThen, reporting, List.append_nil]
  rfl

/-- Closers that do nothing of their own once their instance is over make no difference. -/
theorem terminateLive_eq (hq : AreQuiet also n) (hs : w.script? n = some s)
    (hr : ∀ g ∈ s.resources.held, g.resource.IsHandled) :
    terminateLive also n w = terminate n w := by
  by_cases ho : s.isOver = true
  · rw [terminate_of_over hs ho, terminateLive, terminateBy, bind_of_ok (script_of_some hs),
      if_pos ho]
    rfl
  · have hlive : s.isOver = false := Bool.eq_false_iff.mpr ho
    rw [terminate_eq hs hlive hr]
    exact terminateBy_eq hs hlive fun _ hv =>
      closeSilentlyLive_eq (s := { s with state := .terminating, claims := leftover s w }) hq
        hv rfl hr

/-! Closers that do something. -/

/-- Whether a failure is handled and has a literal. -/
def Legible (e : Failure) : Prop := Ordinary e ∧ e.literalFault? = none

mutual

/-- Whether a resource, and all that it adds, raises only what is handled and has a literal. -/
def IsLegible : Resource → Prop
  | .mk _ fault adds => (∀ e, fault = some e → Legible e) ∧ AreLegible adds

def AreLegible : List Resource → Prop
  | [] => True
  | a :: rest => IsLegible a ∧ AreLegible rest

end

/-- An instance is being terminated that lists some paths at most and can hold nothing more, and
resources of these names were closed in this order, with others perhaps between them. -/
def Ending (n : Nat) (paths : List Path) (names : List String) (w : World) : Prop :=
  ∃ t, w.script? n = some t ∧ t.state = .terminating ∧ t.claims.paths ⊆ paths ∧
    t.resources.IsSealed ∧
    names.Sublist t.resources.closings

variable {paths : List Path}

theorem Ending.reported {names : List String} (h : Ending n paths names v) (name : String) :
    Ending n paths (names ++ [name]) ((reporting [name]).on n v) := by
  obtain ⟨t, ht, hstate, hclaims, hsealed, hnames⟩ := h
  exact ⟨_, Touch.script?_on ht, hstate, hclaims, ⟨hsealed.closed, hsealed.held⟩,
    hnames.append (.refl _)⟩

theorem Ending.forget {names others : List String} (h : Ending n paths (names ++ others) v) :
    Ending n paths names v := by
  obtain ⟨t, ht, hstate, hclaims, hsealed, hnames⟩ := h
  exact ⟨t, ht, hstate, hclaims, hsealed, (List.sublist_append_left ..).trans hnames⟩

theorem Ending.closed {names : List String} (h : Ending n paths names v) :
    ∃ t, v.script? n = some t ∧ t.resources.isClosed = true := by
  obtain ⟨t, ht, -, -, hsealed, -⟩ := h
  exact ⟨t, ht, hsealed.closed⟩

mutual

theorem ends_closeLive (ha : ∀ name names, Keeps (Ending n paths names) Legible (also name)) :
    ∀ (resource : Resource) (names : List String), IsLegible resource → ∀ v,
      Ending n paths names v →
      Ends (Ending n paths (names ++ [resource.name])) Legible (closeLive also n resource v)
  | .mk name fault adds, names, h, v, hv => by
    rw [closeLive, modify_bind]
    refine Ends.bind (ha name _ _ (hv.reported name)) fun _ =>
      (keeps_addEachLive ha adds _ h.2).bind fun _ => ?_
    cases fault with
    | none => exact keeps_pure _
    | some e => exact keeps_throw (h.1 e rfl)

theorem keeps_addEachLive (ha : ∀ name names, Keeps (Ending n paths names) Legible (also name)) :
    ∀ (resources : List Resource) (names : List String), AreLegible resources →
      Keeps (Ending n paths names) Legible (addEachLive also n resources)
  | [], _, _ => by rw [addEachLive]; exact keeps_pure _
  | a :: rest, names, h => fun v hv => by
    obtain ⟨t, ht, hc⟩ := hv.closed
    rw [addEachLive, bind_of_ok (script_of_some ht), if_pos hc]
    obtain ⟨hkept, hraised⟩ := (ends_closeLive ha a names h.1 v hv).imp fun _ => Ending.forget
    rcases hx : closeLive also n a v with ⟨e | ⟨⟩, v'⟩ <;> rw [hx] at hkept hraised
    · have he : Legible e := hraised e rfl
      rw [bind_of_ok (World.attempt_of_handled hx he.1)]
      refine ends_error hkept ?_
      rw [Failure.composed_of_printable (List.forall_mem_singleton.mpr he.2)]
      exact ⟨rfl, rfl⟩
    · rw [bind_of_ok (World.attempt_of_ok hx)]
      exact keeps_addEachLive ha rest names h.2 v' hkept

end

section Loud

-- Closers may do what they like, as long as they neither claim for the instance nor open it again.
variable (ha : ∀ name names, Keeps (Ending n paths names) Legible (also name))
include ha

theorem ends_closeEachLive (resources : List Resource) (names : List String)
    (h : ∀ a ∈ resources, IsLegible a) (hv : Ending n paths names v) :
    ∃ errors v', closeEachLive also n resources v = (.ok errors, v') ∧
      Ending n paths (names ++ resources.map (·.name)) v' ∧ ∀ e ∈ errors,
        e.literalFault? = none := by
  induction resources generalizing names v with
  | nil =>
    refine ⟨[], v, rfl, ?_, List.forall_mem_nil _⟩
    rwa [List.map_nil, List.append_nil]
  | cons a rest ih =>
    obtain ⟨hlegible, hrest⟩ := List.forall_mem_cons.mp h
    obtain ⟨hkept, hraised⟩ := ends_closeLive ha a names hlegible v hv
    rw [closeEachLive, List.map_cons, List.append_cons]
    rcases hx : closeLive also n a v with ⟨e | ⟨⟩, v'⟩ <;> rw [hx] at hkept hraised
    · have he : Legible e := hraised e rfl
      obtain ⟨errors, v'', hclose, hv'', herrors⟩ := ih _ hrest hkept
      refine ⟨e :: errors, v'', ?_, hv'', List.forall_mem_cons.mpr ⟨he.2, herrors⟩⟩
      exact (bind_of_ok (World.attempt_of_handled hx he.1) _).trans (bind_of_ok hclose _)
    · obtain ⟨errors, v'', hclose, hv'', herrors⟩ := ih _ hrest hkept
      exact ⟨errors, v'', (bind_of_ok (World.attempt_of_ok hx) _).trans hclose, hv'', herrors⟩

theorem ends_closeSilentlyLive (ht : v.script? n = some t) (hstate : t.state = .terminating)
    (hclaims : t.claims.paths ⊆ paths) (hr : ∀ g ∈ t.resources.held, IsLegible g.resource) :
    Ends (Ending n paths (t.resources.closings ++ t.resources.held.reverse.map (·.resource.name)))
      (fun _ => False)
      (closeSilentlyLive also n v) := by
  let sealing : Touch :=
    { script := ({ · with resources := { t.resources with held := [], isClosed := true } }) }
  have hsealed : Ending n paths t.resources.closings (sealing.on n v) :=
    ⟨_, Touch.script?_on ht, hstate, hclaims, ⟨rfl, rfl⟩, .refl _⟩
  have hlegible : ∀ a ∈ t.resources.held.reverse.map (·.resource), IsLegible a := by
    refine List.forall_mem_map.mpr fun g hg => hr g (List.mem_reverse.mp hg)
  obtain ⟨errors, v', hclose, ⟨t', ht', hending⟩, herrors⟩ :=
    ends_closeEachLive ha _ _ hlegible hsealed
  rw [List.map_map] at hending
  rw [closeSilentlyLive, bind_of_ok (script_of_some ht), updateScript, modify_bind, Touch.modify_eq,
    bind_of_ok hclose, Failure.gather_eq_ok.mpr herrors, liftExcept, pure_bind]
  refine Ends.bind ?_ fun _ => keeps_pure _
  rw [forM_enter _ _ n]
  exact ends_ok ⟨_, Touch.script?_on ht', hending⟩

end Loud

/-- An instance was terminated; it lists some paths at most and holds nothing, and resources of
these names were closed in this order, with others perhaps between them. -/
def HasEnded (n : Nat) (paths : List Path) (names : List String) (w : World) : Prop :=
  ∃ t, w.script? n = some t ∧ t.state = .terminated ∧ t.claims.paths ⊆ paths ∧
    t.resources.IsSealed ∧
    names.Sublist t.resources.closings

/-- Whatever closers do short of claiming paths, opening their instance again or raising what has no
literal, they neither keep the termination from its end nor let anything be raised. -/
theorem ends_terminateLive (hs : w.script? n = some s) (ho : s.isOver = false)
    (ha : ∀ name names, Keeps (Ending n (leftover s w).paths names) Legible (also name))
    (hr : ∀ g ∈ s.resources.held, IsLegible g.resource) :
    Ends
      (HasEnded n (leftover s w).paths
        (s.resources.closings ++ s.resources.held.reverse.map (·.resource.name)))
      (fun _ => False) (terminateLive also n w) := by
  have hclose := ends_closeSilentlyLive ha (v := (unlisting s w).on n w) (Touch.script?_on hs) rfl
    (List.Subset.refl _) hr
  have hfinish {names : List String} (clean : Bool)
    {v : World} (hv : Ending n (leftover s w).paths names v) :
      Ends (HasEnded n (leftover s w).paths names) (fun _ => False)
        ((do updateScript n ({ · with state := .terminated }); return clean : Act Bool) v) := by
    obtain ⟨t, ht, -, hrest⟩ := hv
    rw [updateScript, modify_bind, Touch.modify_eq]
    exact ends_ok ⟨_, Touch.script?_on ht, rfl, hrest⟩
  rw [terminateLive, terminateBy, bind_of_ok (script_of_some hs), if_neg (by rw [ho]; decide),
    updateScript, modify_bind]
  show Ends _ _
    ((cleanly "script_unwatch_failed" s.path (scriptUnwatchAll n) >>= _) (w.turned n .terminating))
  rw [bind_of_ok (cleanly_unlisting hs)]
  refine hclose.andThen fun closed v hv => ?_
  obtain ⟨t, ht, hending⟩ := hv
  rw [bind_of_ok (script_of_some ht)]
  by_cases hc : t.hasContext = true
  · rw [if_pos hc]
    refine (bind_of_ok (cleanly_eq (s := s) (releaseContext_eq ht) fun e => ordinary_releaseFault)
      _).symm ▸ ?_
    exact hfinish _ ⟨_, Touch.script?_on ht, hending⟩
  · rw [if_neg hc]
    exact hfinish _ ⟨t, ht, hending⟩

/-- A closer that terminates its instance, and does something else if that
is not said to be over. -/
def again (n : Nat) (otherwise : String → Act Unit) (name : String) : Act Unit := do
  if !(← terminate n) then otherwise name

theorem areQuiet_again (n : Nat) (otherwise : String → Act Unit) :
    AreQuiet (again n otherwise) n := by
  intro name v t ht ho
  rw [again, bind_of_ok (terminate_of_over ht ho)]
  rfl

/-- An instance that is not over is torn down to the end, and nothing is raised, if what its closers
raise has literals: it releases what it lists, closes what it holds, the last first, and drops its
context if its body was started, each despite the failures before it; the answer says whether there
were none. It then holds nothing, and lists those of its paths that are the canonical form of none
of them. Where the failures of its closers cannot be put together, that is raised, with everything
closed and the context kept. A termination from inside a closer makes no difference, and an instance
that is over is neither terminated again nor run. -/
theorem tears_down (hs : w.script? n = some s) (hr : ∀ g ∈ s.resources.held, g.resource.IsHandled)
    (hn : s.claims.paths.Nodup) :
    (s.state = .created ∨ s.state = .running →
      ((∀ e ∈ s.resources.failures, e.literalFault? = none) →
        terminate n w = (.ok (endsCleanly s w), (teardown n s w).on n w) ∧
        (terminate n w).2.script? n =
          some { s with state := .terminated, claims := leftover s w,
                        resources := s.resources.emptied }) ∧
      (∀ fault, Failure.gather s.resources.failures = .error fault →
        terminate n w = (.error fault, (surrender s w).on n w) ∧
        (terminate n w).2.script? n =
          some { s with state := .terminating, claims := leftover s w,
                        resources := s.resources.emptied }) ∧
      (endsCleanly s w = false ↔ (refusal? s w).isSome ∨
        (∃ g ∈ s.resources.held, g.resource.raises.isSome) ∨
        s.hasContext ∧ (releaseFault? s w).isSome) ∧
      (∀ p, p ∈ (leftover s w).paths ↔ p ∈ s.claims.paths ∧
        (w.circleAmong? s.claims.paths = none → ∀ q ∈ s.claims.paths, w.canonical q ≠ p)) ∧
      ∀ also, (∀ g ∈ s.resources.held, IsLegible g.resource) →
        (∀ name names, Keeps (Ending n (leftover s w).paths names) Legible (also name)) →
        Ends (HasEnded n (leftover s w).paths
          (s.resources.closings ++ s.resources.held.reverse.map (·.resource.name))) (fun _ => False)
            (terminateLive also n w)) ∧
    (∀ otherwise, terminateLive (again n otherwise) n w = terminate n w) ∧
    ∀ v t, v.script? n = some t → t.state = .terminating ∨ t.state = .terminated →
      terminate n v = (.ok true, v) ∧
      ∀ host, run host n v = (.ok (), { v with
        journal := v.journal.enter (.ofComponent "Script" .warning "script_run_skipped"
          [("path", .text t.path.toText), ("state", .text t.state.word)]) }) := by
  refine ⟨fun hstate => ?_, fun otherwise => terminateLive_eq (areQuiet_again n otherwise) hs hr,
    fun v t ht hover => ?_⟩
  · have ho : s.isOver = false := by rcases hstate with h | h <;> rw [Script.isOver, h] <;> rfl
    have heq := terminate_eq hs ho hr
    refine ⟨fun hliteral => ?_, fun fault hg => ?_, endsCleanly_eq_false_iff,
      fun p => mem_leftover hn, fun also hlegible ha => ends_terminateLive hs ho ha hlegible⟩
    · rw [torn, Failure.gather_eq_ok.mpr hliteral] at heq
      exact ⟨heq, heq ▸ Touch.script?_on hs⟩
    · rw [torn, hg] at heq
      exact ⟨heq, heq ▸ Touch.script?_on hs⟩
  · have ho : t.isOver = true := by rcases hover with h | h <;> rw [Script.isOver, h] <;> rfl
    have hc : t.state ≠ .created := by rcases hover with h | h <;> rw [h] <;> decide
    exact ⟨terminate_of_over ht ho, fun host => run_of_past host ht hc⟩

/-- An instance that lists a path by a name that the host does not know it by, and that holds a
resource which fails. -/
def perched : Script where
  path := ⟨.relative, ["a"]⟩
  state := .running
  dependencies := []
  lastChange := 0.0
  claims := ⟨[⟨.root, ["s", "x"]⟩, ⟨.relative, ["b"]⟩]⟩
  resources :=
    { held := [{ resource := .mk "good" none [] }, { resource := ResourceRegistry.failing }] }
  hasContext := true

def perch : World where
  root := ⟨.root, ["s"]⟩
  base := ⟨.root, ["s"]⟩
  files := { here := ⟨.root, []⟩, nodes := [] }
  scripts := [perched]

/-- It is terminated with an error, and still lists that path. -/
theorem tears_down_perched : perch.script? 0 = some perched ∧
    (∀ g ∈ perched.resources.held, g.resource.IsHandled) ∧ perched.claims.paths.Nodup ∧
    (terminate 0 perch).1 = .ok false ∧ (terminate 0 perch).2.journal.trace =
      [.closed "bad", .closed "good", .release 0 ⟨.relative, ["a"]⟩] ∧
    (⟨.root, ["s", "x"]⟩ : Path) ∈ (leftover perched perch).paths ∧
    terminateLive (again 0 fun _ => throw (.raised "ValueError" "again")) 0 perch = terminate 0
      perch := by
  have hhandled : ∀ g ∈ perched.resources.held, g.resource.IsHandled := by
    intro g hg
    obtain rfl | rfl : g = { resource := .mk "good" none [] } ∨ g =
      { resource := ResourceRegistry.failing } := by
      simpa [perched] using hg
    · rw [IsHandled]
      exact ⟨fun e he => (by cases he), trivial⟩
    · rw [ResourceRegistry.failing, IsHandled]
      exact ⟨fun e he => by cases he; rfl, trivial⟩
  have hnodup : perched.claims.paths.Nodup := by decide
  obtain ⟨hends, hagain, -⟩ := tears_down (w := perch) (n := 0) (s := perched) rfl hhandled hnodup
  obtain ⟨hterminates, -, -, hleft, -⟩ := hends (.inr rfl)
  obtain ⟨hterminate, -⟩ := hterminates fun e he => by
    obtain rfl : e = .raised "ValueError" "x" := List.mem_singleton.mp he
    rfl
  refine ⟨rfl, hhandled, hnodup, ?_, ?_, (hleft _).mpr ?_, hagain _⟩
  · rw [hterminate]
    rfl
  · rw [hterminate]
    rfl
  · decide

end HotReload.World
