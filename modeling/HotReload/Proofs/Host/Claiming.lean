import HotReload.Host.Claiming
import HotReload.Proofs.Claim.Count
import HotReload.Proofs.Host.Forms
import HotReload.Proofs.Watch.Tending
import Mathlib.Data.List.TakeWhile

/-!
# What claiming changes

Claiming and releasing concern the lists of the owners and the counts of the host, and
nothing else.
-/
namespace HotReload.World

open Operation

variable {w : World}

theorem script_of_some {n : Nat} {s : Script} (h : w.script? n = some s) :
    script n w = (.ok s, w) := by
  rw [script, get_bind, h]
  rfl

theorem script_of_none {n : Nat} (h : w.script? n = none) :
    script n w = (.error (.raised "LookupError" "no such script"), w) := by
  rw [script, get_bind, h]
  rfl

/-- All paths are reached if every form can be found. -/
theorem reachable_eq {paths : List Path} (h : w.circleAmong? paths = none) :
    w.reachable paths = paths := by
  refine List.takeWhile_eq_self_iff.mpr fun p hp => ?_
  rw [circleAmong?_eq_none.mp h p hp]
  rfl

/-- What claiming may raise: there is no such instance, a form cannot be found, or
the claim is refused. -/
def IsClaimFailure (e : Failure) : Prop :=
  ∃ kind argument, e = .raised kind argument ∧ (kind = "LookupError" ∨ kind = "RuntimeError")

/-- Whether nothing changed but the counts and the journal, and no instance lived or died. -/
structure Counted (w w' : World) : Prop where
  frame : w' = { w with claims := w'.claims, journal := w'.journal }
  lives : w'.journal.lives = w.journal.lives

theorem Counted.trans {a b c : World} (h : Counted a b) (k : Counted b c) : Counted a c where
  frame := by rw [k.frame, h.frame]
  lives := k.lives.trans h.lives

theorem keeps_checkForms {I : World → Prop} (paths : List Path) :
    Keeps I IsClaimFailure (checkForms paths) := by
  refine keeps_get_bind fun s hs => ?_
  cases hc : s.circleAmong? paths with
  | none => exact keeps_pure _ s hs
  | some e =>
    obtain ⟨argument, rfl⟩ := circleAmong?_failure hc
    exact keeps_throw ⟨_, _, rfl, Or.inr rfl⟩ s hs

section Counts

variable {I : World → Prop} (hI : ∀ s claims, I s → I { s with claims })
include hI

theorem keeps_claimAll (paths : List Path) : Keeps I IsClaimFailure (claimAll paths) :=
  (keeps_modify fun s hs => hI s _ hs).bind fun _ => keeps_checkForms paths

theorem keeps_releaseAll (paths : List Path) : Keeps I IsClaimFailure (releaseAll paths) :=
  (keeps_modify fun s hs => hI s _ hs).bind fun _ => keeps_checkForms paths

end Counts

theorem keeps_refusal (refuses : Bool) (r : ClaimRequest) (argument : String) :
    Keeps (Counted w) IsClaimFailure (do
      record (.requested r)
      if refuses then throw (.raised "RuntimeError" argument)) := by
  refine Keeps.bind (keeps_modify fun s hs => hs.trans ⟨rfl, ?_⟩) fun _ => ?_
  · rw [Journal.lives_record]
    exact List.append_nil _
  · split
    · exact keeps_throw ⟨_, _, rfl, Or.inr rfl⟩
    · exact keeps_pure _

/-- Passing on a request of a script concerns the counts; where requests are only
recorded it may be refused. -/
theorem keeps_request (r : ClaimRequest) : Keeps (Counted w) IsClaimFailure (request r) := by
  refine keeps_get_bind fun s hs => ?_
  rcases s.claimTarget with _ | ⟨refusesWatch, refusesUnwatch⟩ <;> cases r
  · exact keeps_claimAll (fun _ _ h => h.trans ⟨rfl, rfl⟩) _ s hs
  · exact keeps_releaseAll (fun _ _ h => h.trans ⟨rfl, rfl⟩) _ s hs
  · exact keeps_refusal _ _ _ s hs
  · exact keeps_refusal _ _ _ s hs

theorem keeps_requestAny (r : Option ClaimRequest) :
    Keeps (Counted w) IsClaimFailure (requestAny r) := by
  cases r with
  | none => exact keeps_pure _
  | some r => exact keeps_request r

/-- An instance whose list of claims was changed, with the counts that go with it. -/
structure Reclaimed (n : Nat) (w w' : World) : Prop where
  frame : w' = { w with scripts := w'.scripts, claims := w'.claims, journal := w'.journal }
  lives : w'.journal.lives = w.journal.lives
  scripts : w'.scripts = w.scripts ∨ ∃ claims, w'.scripts = w.scripts.modify n ({ · with claims })

/-- The instance keeps everything but its list. -/
theorem Reclaimed.script? {w' : World} {n : Nat} {s' : Script} (h : Reclaimed n w w')
    (hs : w'.script? n = some s') :
    ∃ s, w.script? n = some s ∧ s' = { s with claims := s'.claims } := by
  rcases h.scripts with hscripts | ⟨claims, hscripts⟩ <;> rw [World.script?, hscripts] at hs
  · exact ⟨s', hs, rfl⟩
  · rw [List.getElem?_modify_eq] at hs
    obtain ⟨s, hn, rfl⟩ := Option.map_eq_some_iff.mp hs
    exact ⟨s, hn, rfl⟩

theorem ends_reclaim (n : Nat) (claims : ScopedClaims) (r : Option ClaimRequest) (w : World) :
    Ends (Reclaimed n w) IsClaimFailure
      (requestAny r { w with scripts := w.scripts.modify n ({ · with claims }) }) := by
  obtain ⟨⟨hf, hl⟩, he⟩ := keeps_requestAny r
    { w with scripts := w.scripts.modify n ({ · with claims }) } ⟨rfl, rfl⟩
  refine ⟨⟨?_, hl, Or.inr ⟨claims, ?_⟩⟩, he⟩ <;> rw [hf]

theorem ends_unknown {α : Type} {n : Nat} (h : w.script? n = none) (f : Script → Act α) :
    Ends (Reclaimed n w) IsClaimFailure ((script n >>= f) w) := by
  rw [bind_of_error (script_of_none h)]
  exact ends_error ⟨rfl, rfl, Or.inl rfl⟩ ⟨_, _, rfl, Or.inl rfl⟩

section Script

variable {n : Nat} {s : Script} {paths : List Path} (hs : w.script? n = some s)
include hs

/-- Where a form cannot be found, nothing is claimed. -/
theorem scriptWatch_of_some {e : Failure} (h : w.circleAmong? paths = some e) :
    scriptWatch n paths w = (.error e, w) := by
  rw [scriptWatch, bind_of_ok (script_of_some hs), get_bind, normalizeAll_of_some h]
  rfl

theorem scriptWatch_of_none (h : w.circleAmong? paths = none) :
    scriptWatch n paths w = requestAny
      (ScopedClaims.watchRequest? (s.claims.watch (paths.map w.canonical)).2)
      { w with scripts := w.scripts.modify n ({ · with claims := (s.claims.watch
        (paths.map w.canonical)).1 }) } := by
  rw [scriptWatch, bind_of_ok (script_of_some hs), get_bind, normalizeAll_of_none h]
  rfl

/-- Where a form cannot be found, nothing is released. -/
theorem scriptUnwatch_of_some {e : Failure} (h : w.circleAmong? paths = some e) :
    scriptUnwatch n paths w = (.error e, w) := by
  rw [scriptUnwatch, bind_of_ok (script_of_some hs), get_bind, normalizeAll_of_some h]
  rfl

theorem scriptUnwatch_of_none (h : w.circleAmong? paths = none) :
    scriptUnwatch n paths w = requestAny
      (ScopedClaims.unwatchRequest? (s.claims.unwatch (paths.map w.canonical)).2)
      { w with scripts := w.scripts.modify n ({ · with claims := (s.claims.unwatch
        (paths.map w.canonical)).1 }) } := by
  rw [scriptUnwatch, bind_of_ok (script_of_some hs), get_bind, normalizeAll_of_none h]
  rfl

end Script

theorem ends_unreached {n : Nat} {paths : List Path} {e : Failure}
    (h : w.circleAmong? paths = some e) :
    Ends (Reclaimed n w) IsClaimFailure ((.error e, w) : Except Failure Unit × World) := by
  obtain ⟨argument, rfl⟩ := circleAmong?_failure h
  exact ends_error ⟨rfl, rfl, Or.inl rfl⟩ ⟨_, _, rfl, Or.inr rfl⟩

theorem ends_scriptWatch (n : Nat) (paths : List Path) (w : World) :
    Ends (Reclaimed n w) IsClaimFailure (scriptWatch n paths w) := by
  cases hs : w.script? n with
  | none => exact ends_unknown hs _
  | some s =>
    cases hc : w.circleAmong? paths with
    | none =>
      rw [scriptWatch_of_none hs hc]
      exact ends_reclaim ..
    | some e =>
      rw [scriptWatch_of_some hs hc]
      exact ends_unreached hc

theorem ends_scriptUnwatch (n : Nat) (paths : List Path) (w : World) :
    Ends (Reclaimed n w) IsClaimFailure (scriptUnwatch n paths w) := by
  cases hs : w.script? n with
  | none => exact ends_unknown hs _
  | some s =>
    cases hc : w.circleAmong? paths with
    | none =>
      rw [scriptUnwatch_of_none hs hc]
      exact ends_reclaim ..
    | some e =>
      rw [scriptUnwatch_of_some hs hc]
      exact ends_unreached hc

/-- What an instance lists after it released paths, wherever its claims go. -/
theorem scripts_scriptUnwatch {n : Nat} {s : Script} {paths : List Path} (hs : w.script? n = some s)
    (hc : w.circleAmong? paths = none) : (scriptUnwatch n paths w).2.scripts =
      w.scripts.modify n ({ · with claims := (s.claims.unwatch (paths.map w.canonical)).1 }) := by
  rw [scriptUnwatch_of_none hs hc]
  obtain ⟨⟨hf, -⟩, -⟩ := keeps_requestAny
    (ScopedClaims.unwatchRequest? (s.claims.unwatch (paths.map w.canonical)).2)
    { w with scripts := w.scripts.modify n ({ · with claims := (s.claims.unwatch
      (paths.map w.canonical)).1 }) }
    ⟨rfl, rfl⟩
  exact congrArg World.scripts hf

/-! Where claims are counted. -/

theorem checkForms_state (paths : List Path) (w : World) : (checkForms paths w).2 = w := by
  rw [checkForms, get_bind]
  cases w.circleAmong? paths <;> rfl

theorem claimAll_state (paths : List Path) (w : World) :
    (claimAll paths w).2 =
      { w with claims := w.claims.claimAll ((w.reachable paths).map w.canonical) } := by
  rw [claimAll, modify_bind]
  exact checkForms_state paths _

theorem releaseAll_state (paths : List Path) (w : World) :
    (releaseAll paths w).2 =
      { w with claims := w.claims.releaseAll ((w.reachable paths).map w.canonical) } := by
  rw [releaseAll, modify_bind]
  exact checkForms_state paths _

theorem claimAll_of_none {paths : List Path} (h : w.circleAmong? paths = none) :
    claimAll paths w =
      (.ok (), { w with claims := w.claims.claimAll (paths.map w.canonical) }) := by
  have hw : ({ w with claims := w.claims.claimAll (paths.map w.canonical) } : World).circleAmong?
    paths = none := h
  rw [claimAll, modify_bind, reachable_eq h, checkForms, get_bind, hw]
  rfl

theorem releaseAll_of_none {paths : List Path} (h : w.circleAmong? paths = none) :
    releaseAll paths w =
      (.ok (), { w with claims := w.claims.releaseAll (paths.map w.canonical) }) := by
  have hw : ({ w with claims := w.claims.releaseAll (paths.map w.canonical) } : World).circleAmong?
    paths = none := h
  rw [releaseAll, modify_bind, reachable_eq h, checkForms, get_bind, hw]
  rfl

/-- Paths that are their own canonical forms are released as they are. -/
theorem releaseAll_of_settled {paths : List Path} (h : ∀ p ∈ paths, w.form? p = some p) :
    releaseAll paths w = (.ok (), { w with claims := w.claims.releaseAll paths }) := by
  rw [releaseAll_of_none (circleAmong?_of_settled h), map_canonical_of_settled h]

theorem requestAny_watch (ht : w.claimTarget = .counted) (added : List Path) :
    (requestAny (ScopedClaims.watchRequest? added) w).2 =
      { w with claims := w.claims.claimAll ((w.reachable added).map w.canonical) } := by
  cases added with
  | nil => rfl
  | cons p rest =>
    have hr : request (.watch (p :: rest)) w = claimAll (p :: rest) w := by
      rw [request, get_bind, ht]
    exact (congrArg Prod.snd hr).trans (claimAll_state _ w)

theorem requestAny_unwatch (ht : w.claimTarget = .counted) (removed : List Path) :
    (requestAny (ScopedClaims.unwatchRequest? removed) w).2 =
      { w with claims := w.claims.releaseAll ((w.reachable removed).map w.canonical) } := by
  cases removed with
  | nil => rfl
  | cons p rest =>
    have hr : request (.unwatch (p :: rest)) w = releaseAll (p :: rest) w := by
      rw [request, get_bind, ht]
    exact (congrArg Prod.snd hr).trans (releaseAll_state _ w)

theorem scriptWatch_eq {n : Nat} {s : Script} {paths : List Path} (hs : w.script? n = some s)
    (ht : w.claimTarget = .counted) (hc : w.circleAmong? paths = none) : (scriptWatch n paths w).2 =
      { w with
        scripts :=
          w.scripts.modify n ({ · with claims := (s.claims.watch (paths.map w.canonical)).1 })
        claims := w.claims.claimAll
          ((w.reachable (s.claims.watch (paths.map w.canonical)).2).map w.canonical) } := by
  rw [scriptWatch_of_none hs hc]
  let claims := (s.claims.watch (paths.map w.canonical)).1
  have ht' : ({ w with scripts := w.scripts.modify n ({ · with claims }) } : World).claimTarget =
      .counted := ht
  exact requestAny_watch ht' _

theorem scriptUnwatch_eq {n : Nat} {s : Script} {paths : List Path} (hs : w.script? n = some s)
    (ht : w.claimTarget = .counted) (hc : w.circleAmong? paths = none) :
    (scriptUnwatch n paths w).2 =
      { w with
        scripts :=
          w.scripts.modify n ({ · with claims := (s.claims.unwatch (paths.map w.canonical)).1 })
        claims := w.claims.releaseAll
          ((w.reachable (s.claims.unwatch (paths.map w.canonical)).2).map w.canonical) } := by
  rw [scriptUnwatch_of_none hs hc]
  let claims := (s.claims.unwatch (paths.map w.canonical)).1
  have ht' : ({ w with scripts := w.scripts.modify n ({ · with claims }) } : World).claimTarget =
      .counted := ht
  exact requestAny_unwatch ht' _

/-! The operator. -/

/-- Whether nothing changed but what the operator watches and the counts. -/
def Operated (w w' : World) : Prop := w' = { w with operator := w'.operator, claims := w'.claims }

theorem Operated.trans {a b c : World} (h : Operated a b) (k : Operated b c) : Operated a c := by
  rw [Operated] at h k ⊢
  rw [k, h]

theorem Operated.engine {w' : World} (h : Operated w w') : w'.engine = w.engine := by rw [h]

theorem Operated.script? {w' : World} (h : Operated w w') : w'.script? = w.script? := by
  rw [h]
  rfl

theorem watchPaths_of_some {paths : List Path} {e : Failure} (h : w.circleAmong? paths = some e) :
    watchPaths paths w = (.error e, w) := by
  rw [watchPaths, get_bind, normalizeAll_of_some h]
  rfl

/-- The operator's claims and the counts, after the operator watched paths. -/
theorem watchPaths_state {paths : List Path} (h : w.circleAmong? paths = none) :
    (watchPaths paths w).2 =
    { w with
      operator := (w.operator.watch (paths.map w.canonical)).1
      claims :=
        w.claims.claimAll
          ((w.reachable (w.operator.watch (paths.map w.canonical)).2).map w.canonical) } := by
  rw [watchPaths, get_bind, normalizeAll_of_none h]
  exact claimAll_state _ _

/-- The canonical paths among some paths that the operator claims, and those that it does not. -/
def owned (w : World) (paths : List Path) : List Path :=
  (ScopedClaims.distinct (paths.map w.canonical)).filter (· ∈ w.operator.paths)

def foreign (w : World) (paths : List Path) : List Path :=
  (ScopedClaims.distinct (paths.map w.canonical)).filter (· ∉ w.operator.paths)

theorem operatorUnwatch_of_some {paths : List Path} {e : Failure}
    (h : w.circleAmong? paths = some e) :
    operatorUnwatch paths w = (.error e, w) := by
  rw [operatorUnwatch, get_bind, normalizeAll_of_some h]
  rfl

theorem operatorUnwatch_of_settled {paths : List Path} (h : ∀ p ∈ paths, w.form? p = some p) :
    operatorUnwatch paths w =
      (.ok (), { w with
        operator := (w.operator.unwatch paths).1,
          claims := w.claims.releaseAll (w.operator.unwatch paths).2 }) := by
  rw [operatorUnwatch, get_bind, normalizeAll_of_none (circleAmong?_of_settled h),
    map_canonical_of_settled h]
  have hremoved : ∀ q ∈ (w.operator.unwatch paths).2,
      ({ w with operator := (w.operator.unwatch paths).1 } : World).form? q = some q :=
    fun q hq => h q (ScopedClaims.mem_removed.mp hq).1
  exact releaseAll_of_settled hremoved

theorem operatorUnwatch_state {paths : List Path} (h : w.circleAmong? paths = none) :
    (operatorUnwatch paths w).2 =
    { w with
      operator := (w.operator.unwatch (paths.map w.canonical)).1
      claims :=
        w.claims.releaseAll
          ((w.reachable (w.operator.unwatch (paths.map w.canonical)).2).map w.canonical) } := by
  rw [operatorUnwatch, get_bind, normalizeAll_of_none h]
  exact releaseAll_state _ _

section Operator

variable {I : World → Prop} (hI : ∀ s operator claims, I s → I { s with operator, claims })
include hI

theorem keeps_watchPaths (paths : List Path) : Keeps I IsClaimFailure (watchPaths paths) := by
  intro s hs
  cases hc : s.circleAmong? paths with
  | none =>
    rw [watchPaths, get_bind, normalizeAll_of_none hc]
    exact keeps_claimAll (fun s claims h => hI s s.operator claims h) _ _ (hI s _ s.claims hs)
  | some e =>
    obtain ⟨argument, rfl⟩ := circleAmong?_failure hc
    rw [watchPaths_of_some hc]
    exact ends_error hs ⟨_, _, rfl, Or.inr rfl⟩

theorem keeps_operatorUnwatch (paths : List Path) :
    Keeps I IsClaimFailure (operatorUnwatch paths) := by
  intro s hs
  cases hc : s.circleAmong? paths with
  | none =>
    rw [operatorUnwatch, get_bind, normalizeAll_of_none hc]
    exact keeps_releaseAll (fun s claims h => hI s s.operator claims h) _ _ (hI s _ s.claims hs)
  | some e =>
    obtain ⟨argument, rfl⟩ := circleAmong?_failure hc
    rw [operatorUnwatch_of_some hc]
    exact ends_error hs ⟨_, _, rfl, Or.inr rfl⟩

end Operator

theorem unwatchPaths_of_some {paths : List Path} {e : Failure} (h : w.circleAmong? paths = some e) :
    unwatchPaths paths w = (.error e, w) := by
  rw [unwatchPaths, get_bind, normalizeAll_of_some h]
  rfl

theorem unwatchPaths_of_none {paths : List Path} (h : w.circleAmong? paths = none) :
    unwatchPaths paths w = (do operatorUnwatch (w.owned paths); releaseAll (w.foreign paths) :
      Act Unit) w := by
  rw [unwatchPaths, get_bind, normalizeAll_of_none h]
  rfl

theorem keeps_unwatchPaths {I : World → Prop}
    (hI : ∀ s operator claims, I s → I { s with operator, claims }) (paths : List Path) :
    Keeps I IsClaimFailure (unwatchPaths paths) := by
  intro s hs
  cases hc : s.circleAmong? paths with
  | none =>
    rw [unwatchPaths_of_none hc]
    refine Keeps.bind (keeps_operatorUnwatch hI _) (fun _ => ?_) s hs
    exact keeps_releaseAll (fun s claims h => hI s s.operator claims h) _
  | some e =>
    obtain ⟨argument, rfl⟩ := circleAmong?_failure hc
    rw [unwatchPaths_of_some hc]
    exact ends_error hs ⟨_, _, rfl, Or.inr rfl⟩

theorem operated_watchPaths (paths : List Path) (w : World) : Operated w (watchPaths paths w).2 :=
  (keeps_watchPaths (I := Operated w) (fun _ _ _ h => h.trans rfl) paths w rfl).1

theorem operated_unwatchPaths (paths : List Path) (w : World) :
    Operated w (unwatchPaths paths w).2 :=
  (keeps_unwatchPaths (I := Operated w) (fun _ _ _ h => h.trans rfl) paths w rfl).1

end HotReload.World
