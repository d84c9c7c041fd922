import HotReload.Proofs.Resource.Accounts

/-!
# Closing a registry

What is left of the registrations when a registry closes is closed then, and nothing is
left afterwards. Whatever is asked of it keeps its ledger regular, and so what holds of one
request holds after any number of them.
-/
namespace HotReload.Ledger

open ResourceRegistry (Request)

/-- What a ledger shows of its registrations: which are left and when the others were closed, and
that closing it leaves none. -/
structure IsRegular (l : Ledger) : Prop where
  leaves : Leaves l.log l.held
  timely : Timely l.log
  shut : .shut ∈ l.log ↔ l.isClosed = true
  sealed : l.isClosed = true → l.held = []
  /-- What is held stands in the order of its registration. -/
  ordered : (l.held.map (·.1)).Pairwise (· < ·)
  handled : ∀ h ∈ l.held, h.2.resource.IsHandled

variable {l : Ledger}

theorem addWith_open {close : Nat → Ledger → Option Failure × Ledger} {g : Registration}
    (hl : l.isClosed = false) :
    addWith close g l =
      (none, { l.enter (.made g) with held := l.held ++ [(l.log.length, g)] }) := by
  rw [addWith, if_neg (by simp [hl])]

theorem isClosed_addWith (g : Registration) (l : Ledger) :
    (addWith (closeOne g.resource) g l).2.isClosed = l.isClosed := by
  cases hc : l.isClosed with
  | false => rw [addWith_open hc]; exact hc
  | true =>
    obtain ⟨new, he, -⟩ := addWith_late (closeOne_late g.resource) rfl hc
    rw [he]
    exact hc

theorem isClosed_addEach (as : List Resource) (l : Ledger) :
    (addEach as l).2.isClosed = l.isClosed := by
  induction as generalizing l with
  | nil => rfl
  | cons a rest ih =>
    have hc := isClosed_addWith { resource := a } l
    rw [addEach]
    rcases hx : addWith (closeOne a) { resource := a } l with ⟨_ | e, l'⟩ <;> rw [hx] at hc
    · exact (ih l').trans hc
    · exact hc

namespace IsRegular

theorem lt_length (hl : l.IsRegular) : ∀ h ∈ l.held, h.1 < l.log.length := fun h hh =>
  (List.getElem?_eq_some_iff.mp (hl.leaves.made h hh)).1

theorem addWith {g : Registration} (hl : l.IsRegular) (hg : g.resource.IsHandled) :
    (addWith (closeOne g.resource) g l).2.IsRegular := by
  cases hc : l.isClosed with
  | false =>
    have hs : .shut ∉ l.log := fun h => by simp [hl.shut.mp h] at hc
    rw [addWith_open hc]
    exact {
      leaves := hl.leaves.enterMade g
      timely := hl.timely.enter (.made g) (fun n a he => by cases he) (fun _ _ => hs)
      shut := by simpa [enter] using hl.shut
      sealed := fun h => by simp [enter, hc] at h
      ordered := by
        rw [List.map_append, List.pairwise_append]
        refine ⟨hl.ordered, List.pairwise_singleton _ _, fun n hn m hm => ?_⟩
        obtain ⟨h, hh, rfl⟩ := List.mem_map.mp hn
        obtain rfl : m = l.log.length := by simpa using hm
        exact hl.lt_length h hh
      handled := fun h hh => by
        rcases List.mem_append.mp hh with hh | hh
        · exact hl.handled h hh
        · obtain rfl := List.mem_singleton.mp hh
          exact hg }
  | true =>
    obtain ⟨new, he, hn⟩ := addWith_late (closeOne_late g.resource) rfl hc
    have hlate : Late l.log.length (.made g :: .closed l.log.length g.resource :: new) :=
      .single g hn
    have hs := hl.shut.mpr hc
    rw [he]
    exact {
      leaves := hl.leaves.late rfl hlate
      timely := hl.timely.late hs rfl hlate
      shut := ⟨fun _ => hc, fun _ => List.mem_append_left _ hs⟩
      sealed := hl.sealed
      ordered := hl.ordered
      handled := hl.handled }

theorem addEach {as : List Resource} (hl : l.IsRegular) (ha : ∀ a ∈ as, a.IsHandled) :
    (addEach as l).2.IsRegular := by
  induction as generalizing l with
  | nil => exact hl
  | cons a rest ih =>
    obtain ⟨hfirst, hrest⟩ := List.forall_mem_cons.mp ha
    have h := hl.addWith (g := { resource := a }) hfirst
    rw [Ledger.addEach]
    rcases hx : Ledger.addWith (closeOne a) { resource := a } l with ⟨_ | e, l'⟩ <;> rw [hx] at h
    · exact ih h hrest
    · exact h

/-- Closing goes through what is held, the last first. -/
theorem closeHeld_releases (hl : l.IsRegular) :
    ∃ new, l.closeHeld.2 = { held := [], isClosed := true, log := l.log ++ .shut :: new } ∧
      Releases (l.log.length + 1) l.held.reverse new := by
  obtain ⟨new, he, hn⟩ := closeEach_releases l.held.reverse []
    { l.enter .shut with held := [], isClosed := true }
    (fun h hh => hl.handled h (List.mem_reverse.mp hh)) rfl
  refine ⟨new, ?_, by simpa [enter] using hn⟩
  have hstate : l.closeHeld.2 =
      (closeEach l.held.reverse [] { l.enter .shut with held := [], isClosed := true }).2 := by
    rw [Ledger.closeHeld]
    rcases closeEach l.held.reverse []
      { l.enter .shut with held := [], isClosed := true } with ⟨_ | _, l'⟩ <;> rfl
  rw [hstate, he]
  simp [enter]

theorem closeHeld (hl : l.IsRegular) : l.closeHeld.2.IsRegular := by
  obtain ⟨new, he, hn⟩ := hl.closeHeld_releases
  have hlog : l.log ++ .shut :: new = (l.log ++ [.shut]) ++ new := by simp
  have hlen : l.log.length + 1 = (l.log ++ [Entry.shut]).length := by simp
  have hs : Entry.shut ∈ l.log ++ [.shut] := by simp
  rw [he, hlog]
  exact {
    leaves := (hl.leaves.enterShut.perm (List.reverse_perm _).symm).releases hlen hn
    timely := (hl.timely.enter .shut (fun n a he => by cases he) (fun g hg => by cases hg)).releases
      hs hlen hn
    shut := ⟨fun _ => rfl, fun _ => List.mem_append_left _ hs⟩
    sealed := fun _ => rfl
    ordered := List.Pairwise.nil
    handled := fun h hh => by cases hh }

theorem cleanup (hl : l.IsRegular) (reportsClosed : Resource → Bool) :
    (l.cleanup reportsClosed).IsRegular := by
  have hsub : (l.cleanup reportsClosed).held.Sublist l.held := List.filter_sublist
  have hperm :
    l.held.Perm
      (l.held.filter (IsGone reportsClosed) ++ l.held.filter fun h => !IsGone reportsClosed h) :=
    (List.filter_append_perm _ _).symm
  exact {
    leaves := (hl.leaves.perm hperm).drops
    timely := hl.timely.drops _
    shut := by simpa [Ledger.cleanup] using hl.shut
    sealed := fun h => by simp [Ledger.cleanup, hl.sealed h]
    ordered := hl.ordered.sublist (hsub.map _)
    handled := fun h hh => hl.handled h (hsub.subset hh) }

theorem perform {q : Request} (hl : l.IsRegular) (hq : q.IsHandled) :
    (l.perform q).2.IsRegular := by
  cases q with
  | add a => rw [Ledger.perform, returned_state]; exact hl.addWith (g := { resource := a }) hq
  | addAll as =>
    rw [Ledger.perform, returned_state]
    exact hl.addEach fun a h => hq a (by simpa using h)
  | defer a =>
    rw [Ledger.perform, returned_state]; exact hl.addWith (g :=
      { resource := a, isCall := true }) hq
  | close => rw [Ledger.perform, returned_state, close_state]; exact hl.closeHeld
  | closeSilently => rw [Ledger.perform, answered_state]; exact hl.closeHeld
  | cleanup reportsClosed => exact hl.cleanup reportsClosed

theorem isClosed_perform (hl : l.IsRegular) (q : Request) :
    (l.perform q).2.isClosed = true ↔ l.isClosed = true ∨ q.Closes := by
  obtain ⟨new, he, -⟩ := hl.closeHeld_releases
  cases q with
  | add a =>
    rw [Ledger.perform, returned_state, isClosed_addWith { resource := a }]; simp [Request.Closes]
  | addAll as => rw [Ledger.perform, returned_state, isClosed_addEach]; simp [Request.Closes]
  | defer a =>
    rw [Ledger.perform, returned_state, isClosed_addWith { resource := a, isCall := true }]
    simp [Request.Closes]
  | close => rw [Ledger.perform, returned_state, close_state, he]; simp [Request.Closes]
  | closeSilently => rw [Ledger.perform, answered_state, he]; simp [Request.Closes]
  | cleanup reportsClosed => simp [Ledger.perform, Ledger.cleanup, Request.Closes]

/-- Requests keep a ledger regular, and it is closed once one of them closes it. -/
theorem run {requests : List Request} (hl : l.IsRegular) (h : ∀ q ∈ requests, q.IsHandled) :
    (requests.foldl (fun l q => (l.perform q).2) l).IsRegular ∧
    ((requests.foldl (fun l q => (l.perform q).2) l).isClosed = true ↔
      l.isClosed = true ∨ ∃ q ∈ requests, q.Closes) := by
  induction requests generalizing l with
  | nil => exact ⟨hl, by simp⟩
  | cons q rest ih =>
    obtain ⟨hq, hrest⟩ := List.forall_mem_cons.mp h
    obtain ⟨hr, hc⟩ := ih (hl.perform hq) hrest
    refine ⟨hr, hc.trans ?_⟩
    rw [hl.isClosed_perform q, or_assoc, List.exists_mem_cons_iff]

end IsRegular

theorem isRegular_new : IsRegular {} where
  leaves := leaves_empty
  timely := ⟨by simp, by simp⟩
  shut := by simp
  sealed := fun h => by cases h
  ordered := List.Pairwise.nil
  handled := by simp

/-- What is registered is entered first; an open registry holds the resources of
a list in their order. -/
structure Registers (l : Ledger) : Prop where
  add : ∀ a, (l.perform (.add a)).2.log[l.log.length]? = some (.made { resource := a })
  defer : ∀ a,
    (l.perform (.defer a)).2.log[l.log.length]? = some (.made { resource := a, isCall := true })
  addAll : l.isClosed = false → ∀ as,
    (l.perform (.addAll as)).2.log = l.log ++ (as.filterMap id).map fun a => .made { resource := a }

theorem made_addWith (g : Registration) (l : Ledger) :
    (addWith (closeOne g.resource) g l).2.log[l.log.length]? = some (.made g) := by
  cases hc : l.isClosed with
  | false => rw [addWith_open hc]; simp [enter]
  | true =>
    obtain ⟨new, he, -⟩ := addWith_late (closeOne_late g.resource) rfl hc
    rw [he]
    simp

theorem addEach_open (as : List Resource) {l : Ledger} (hl : l.isClosed = false) :
    (addEach as l).2.log = l.log ++ as.map fun a => .made { resource := a } := by
  induction as generalizing l with
  | nil => simp [addEach]
  | cons a rest ih =>
    rw [addEach, addWith_open hl]
    dsimp only
    rw [ih (by exact hl)]
    simp [enter]

theorem registers (l : Ledger) : l.Registers where
  add a := by rw [perform, returned_state]; exact made_addWith { resource := a } l
  defer a := by rw [perform, returned_state]; exact made_addWith { resource := a, isCall := true } l
  addAll hl as := by rw [perform, returned_state]; exact addEach_open _ hl

/-- What closing what is held raises, in the order of the closing. -/
def failures (l : Ledger) : List Failure := l.held.reverse.filterMap (·.2.resource.raises)

/-- One failure for all, if there are any. -/
def composite : List Failure → Option Failure
  | [] => none
  | errors => some (.closing errors false)

/-- What closing comes to: what is held is closed, each once and the last first, and its failures
are raised together, or answered. Where one of them has no literal, what asking for it raises is
raised instead, after all is closed. -/
structure Closes (l : Ledger) : Prop where
  released : ∃ new, (l.perform .close).2 =
    { held := [], isClosed := true, log := l.log ++ .shut :: new } ∧
    (closedNumbers new).filter (· < l.log.length) = (l.held.map (·.1)).reverse ∧
      (l.held = [] → new = [])
  silently :
    l.perform .closeSilently = ((Failure.gather l.failures).map composite, (l.perform .close).2)
  raises : (l.perform .close).1 = match (Failure.gather l.failures).map composite with
    | .ok none => .ok none
    | .ok (some e) => .error e
    | .error fault => .error fault
  gathers : Failure.gather l.failures = .ok l.failures ↔ ∀ e ∈ l.failures, e.literalFault? = none
  faults : ∀ fault, Failure.gather l.failures = .error fault → ∃ before e after,
    l.failures = before ++ e :: after ∧ (∀ e ∈ before, e.literalFault? = none) ∧
      e.literalFault? = some fault

theorem IsRegular.closes {l : Ledger} (hl : l.IsRegular) : l.Closes := by
  obtain ⟨new, he, hn⟩ := hl.closeHeld_releases
  have hheld : ∀ g ∈ l.registry.held, g.resource.IsHandled := by
    intro g hg
    obtain ⟨h, hh, rfl⟩ := List.mem_map.mp hg
    exact hl.handled h hh
  have hfailures : l.registry.held.reverse.filterMap (·.resource.raises) = l.failures := by
    simp only [registry, failures, ← List.map_reverse, List.filterMap_map, Function.comp_def]
  have hgather : l.closeHeld.1 = Failure.gather l.failures := by
    have h := congrArg Prod.fst l.closeHeld_registry
    rw [ResourceRegistry.closeHeld_eq _ hheld, hfailures] at h
    exact h
  have hstate : (l.perform .close).2 = l.closeHeld.2 := by
    rw [Ledger.perform, returned_state, close_state]
  refine ⟨⟨new, hstate.trans he, ?_, fun hnil => ?_⟩, ?_, ?_,
    Failure.gather_eq_ok, fun fault hf => ?_⟩
  · rw [hn.closedNumbers_filter (Nat.le_succ _) fun h hh => hl.lt_length h (List.mem_reverse.mp hh)]
    rw [List.map_reverse]
  · rw [hnil] at hn
    cases hn
    rfl
  · rw [hstate, Ledger.perform, ← hgather]
    rcases l.closeHeld with ⟨_ | _ | _, l'⟩ <;> rfl
  · rw [Ledger.perform, close, ← hgather]
    rcases l.closeHeld with ⟨_ | _ | _, l'⟩ <;> rfl
  · exact Failure.gather_error hf

/-- Whatever is asked of a registry, its ledger shows each registration held, or closed once, or
dropped: closed when the registry first closes, the last first, or on the spot if it comes later.
Closing raises what the closings of the held resources raised, in that order; only what reports
itself closed is dropped. -/
theorem closes_once (requests : List Request) (h : ∀ q ∈ requests, q.IsHandled) :
    (after requests).registry = ResourceRegistry.after requests ∧
    (∀ q, ((after requests).perform q).map id registry =
      (ResourceRegistry.after requests).perform q) ∧
    (after requests).IsRegular ∧
    ((after requests).isClosed = true ↔ ∃ q ∈ requests, q.Closes) ∧
    (after requests).Registers ∧ (after requests).Closes ∧
    (∀ reportsClosed, ((after requests).perform (.cleanup reportsClosed)).2 =
      { after requests with
        held := (after requests).held.filter fun h => !(!h.2.isCall && reportsClosed h.2.resource)
        log := (after requests).log ++ ((after requests).held.filter fun h =>
          !h.2.isCall && reportsClosed h.2.resource).map fun h => .dropped h.1 }) := by
  obtain ⟨hregular, hclosed⟩ := isRegular_new.run h
  refine ⟨after_registry requests, fun q => ?_, hregular, ?_, registers _,
    hregular.closes, fun _ => rfl⟩
  · rw [perform_registry, after_registry]
  · exact hclosed.trans (by simp)

/-- Closing it registers a resource that fails. -/
def reopening : Resource :=
  .mk "outer" none [.mk "inner" (some (.raised "ValueError" "x")) [], .mk "rest" none []]

def busy : List Request :=
  [.add reopening, .add (.mk "done" none []), .defer (.mk "done" none []),
    .cleanup (·.name = "done"), .addAll [none, some (.mk "plain" none [])], .close,
    .defer (.mk "late" none []), .closeSilently]

/-- The call outlives the cleanup that drops the resource, and the failure inside of the first
resource keeps none of the others from being closed. -/
theorem closes_once_busy :
    (∀ q ∈ busy, q.IsHandled) ∧ (after busy).IsRegular ∧
    (ResourceRegistry.after busy).closings = ["plain", "done", "outer", "inner", "late"] ∧
    closedNumbers (after busy).log = [4, 2, 0, 9, 11] ∧ droppedNumbers (after busy).log = [1] := by
  have hh : ∀ q ∈ busy, q.IsHandled := by
    intro q hq
    simp only [busy, List.mem_cons, List.not_mem_nil, or_false] at hq
    rcases hq with rfl | rfl | rfl | rfl | rfl | rfl | rfl | rfl <;>
      simp [Request.IsHandled, reopening, Resource.IsHandled, Resource.AreHandled]
    rfl
  exact ⟨hh, (closes_once busy hh).2.2.1, rfl, rfl, rfl⟩

end HotReload.Ledger
