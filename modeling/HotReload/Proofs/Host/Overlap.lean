import HotReload.Proofs.Claim.Overlap
import HotReload.Proofs.Host.Accounting

/-!
# Overlapping calls to a host

The operator and every instance claim through one owner, whoever calls it. As long as calls do not
overlap, the host takes the two steps of each together. Where they do, the host is off by the
releases that were lost, and only by these.
-/
namespace HotReload.World

open Operation

variable {w : World} {n : Nat} {s : Script}

/-- The lists and counts of a host, with no call under way. -/
def overlap (w : World) : Overlap where
  owners := w.owners
  counts := w.claims

/-- Whether a path has a canonical form that is its own canonical form. -/
def Settles (w : World) (p : Path) : Prop := ∃ q, w.form? p = some q ∧ w.form? q = some q

theorem Settles.form? {p : Path} (h : w.Settles p) :
    w.form? (w.canonical p) = some (w.canonical p) := by
  obtain ⟨q, hp, hq⟩ := h
  rwa [(form?_eq_some.mp hp).2]

theorem Settles.canonical {p : Path} (h : w.Settles p) :
    w.canonical (w.canonical p) = w.canonical p :=
  (form?_eq_some.mp h.form?).2

/-! A call that nothing overlaps is the host's own. -/

section Calls

variable {paths : List Path}

/-- What is new to an owner is found again if all that it is asked to list is. -/
theorem reachable_added (hf : w.circleAmong? (paths.map w.canonical) = none)
    (claims : ScopedClaims) :
    w.reachable (claims.watch (paths.map w.canonical)).2 =
      (claims.watch (paths.map w.canonical)).2 :=
  reachable_eq (circleAmong?_eq_none.mpr fun p hp =>
    circleAmong?_eq_none.mp hf p (ScopedClaims.mem_added.mp hp).1)

/-- What an owner lists is found if it is its own canonical form. -/
theorem reachable_removed {claims : ScopedClaims} (hfirm : ∀ p ∈ claims.paths, w.form? p = some p) :
    w.reachable (claims.unwatch (paths.map w.canonical)).2 =
      (claims.unwatch (paths.map w.canonical)).2 :=
  reachable_eq (circleAmong?_of_settled fun p hp => hfirm p (ScopedClaims.mem_removed.mp hp).2)

variable (hc : w.circleAmong? paths = none)
include hc

theorem overlap_watchPaths (hf : w.circleAmong? (paths.map w.canonical) = none) (caller : Nat) :
    (watchPaths paths w).2.overlap = w.overlap.after w.canonical
      [.watch caller 0 paths, .deliver caller] := by
  have howner : w.overlap.owners[0]? = some w.operator := rfl
  rw [Overlap.after_watch rfl howner, watchPaths_state hc, reachable_added hf]
  rfl

theorem overlap_operatorUnwatch (hfirm : ∀ p ∈ w.operator.paths, w.form? p = some p)
    (caller : Nat) :
    (operatorUnwatch paths w).2.overlap =
      w.overlap.after w.canonical [.unwatch caller 0 paths, .deliver caller] := by
  have howner : w.overlap.owners[0]? = some w.operator := rfl
  rw [Overlap.after_unwatch rfl howner, operatorUnwatch_state hc, reachable_removed hfirm]
  rfl

variable (hs : w.script? n = some s) (ht : w.claimTarget = .counted)
include hs ht

theorem overlap_scriptWatch (hf : w.circleAmong? (paths.map w.canonical) = none) (caller : Nat) :
    (scriptWatch n paths w).2.overlap =
      w.overlap.after w.canonical [.watch caller (n + 1) paths, .deliver caller] := by
  have howners : (scriptWatch n paths w).2.owners =
      w.owners.set (n + 1) (s.claims.watch (paths.map w.canonical)).1 := by
    rw [scriptWatch_eq hs ht hc]
    exact owners_reclaimed _ n
  rw [Overlap.after_watch rfl (owner_script hs), overlap, howners, scriptWatch_eq hs ht hc,
    reachable_added hf]
  rfl

theorem overlap_scriptUnwatch (hfirm : ∀ p ∈ s.claims.paths, w.form? p = some p) (caller : Nat) :
    (scriptUnwatch n paths w).2.overlap =
      w.overlap.after w.canonical [.unwatch caller (n + 1) paths, .deliver caller] := by
  have howners : (scriptUnwatch n paths w).2.owners =
      w.owners.set (n + 1) (s.claims.unwatch (paths.map w.canonical)).1 := by
    rw [scriptUnwatch_eq hs ht hc]
    exact owners_reclaimed _ n
  rw [Overlap.after_unwatch rfl (owner_script hs), overlap, howners, scriptUnwatch_eq hs ht hc,
    reachable_removed hfirm]
  rfl

end Calls

/-! A path that is not its own canonical form. -/

/-- Claiming such a path does not count it. -/
theorem count_claimAll_unsettled {p : Path} (hp : w.form? p ≠ some p) (counts : ClaimCounts) :
    (counts.claimAll ((w.reachable [p]).map w.canonical)).count p = counts.count p := by
  cases hc : w.circle? p with
  | some e =>
    rw [reachable, List.takeWhile_cons_of_neg (by simp [hc])]
    rfl
  | none =>
    have hne : p ≠ w.canonical p := fun he => hp (form?_eq_some.mpr ⟨hc, he.symm⟩)
    rw [reachable_eq (circleAmong?_eq_none.mpr (by simpa using hc))]
    exact (ClaimCounts.count_claim ..).trans (by rw [if_neg hne, Nat.add_zero])

/-- An owner that lists one more path lists it once more. -/
theorem listings_added {owners : List ScopedClaims} {i : Nat} {claims : ScopedClaims} {p : Path}
    (ho : owners[i]? = some claims) (hp : p ∉ claims.paths) :
    listings (owners.set i ⟨claims.paths ++ [p]⟩) p = listings owners p + 1 := by
  have hset := listings_set ho ⟨claims.paths ++ [p]⟩ p
  rwa [if_neg hp, if_pos (List.mem_append_right _ List.mem_cons_self), Nat.add_zero] at hset

/-! Calls that overlap. -/

section Balanced

variable (h : w.IsEven w.owners w.claims)
include h

theorem isFirm_overlap : w.overlap.IsFirm w.canonical :=
  ⟨h.once, fun o ho p hp => (form?_eq_some.mp (h.firm o ho p hp)).2⟩

theorem tallied_overlap : Tallied w.canonical w.overlap.owners w.overlap.counts where
  kept := h.kept
  counted p := (h.counted p).trans ((isFirm_overlap h).tally_eq_listings p).symm

theorem accounted_overlap : w.overlap.Accounted w.canonical fun _ => 0 where
  kept := h.kept
  counted p := (tallied_overlap h).counted p

/-- After a call about one path that is not its own canonical form, the path is
listed and not counted. -/
theorem uncounted_watchPaths {q : Path} (hc : w.circle? q = none)
    (hq : w.canonical q ∉ w.operator.paths) (hf : w.form? (w.canonical q) ≠ some (w.canonical q)) :
    (watchPaths [q] w).2.claims.count (w.canonical q) + 1 =
      listings (watchPaths [q] w).2.owners (w.canonical q) := by
  have howner : w.owners[0]? = some w.operator := rfl
  have hadded :
    w.operator.watch [w.canonical q] = (⟨w.operator.paths ++ [w.canonical q]⟩, [w.canonical q]) :=
    ScopedClaims.watch_singleton hq
  rw [watchPaths_state (circleAmong?_eq_none.mpr (by simpa using hc)), List.map_singleton, hadded,
    count_claimAll_unsettled hf, h.counted, ← listings_added howner hq]
  rfl

theorem uncounted_scriptWatch {q : Path} (hc : w.circle? q = none) (hs : w.script? n = some s)
    (ht : w.claimTarget = .counted) (hq : w.canonical q ∉ s.claims.paths)
    (hf : w.form? (w.canonical q) ≠ some (w.canonical q)) :
    (scriptWatch n [q] w).2.claims.count (w.canonical q) + 1 =
      listings (scriptWatch n [q] w).2.owners (w.canonical q) := by
  have hadded :
    s.claims.watch [w.canonical q] = (⟨s.claims.paths ++ [w.canonical q]⟩, [w.canonical q]) :=
    ScopedClaims.watch_singleton hq
  rw [scriptWatch_eq hs ht (circleAmong?_eq_none.mpr (by simpa using hc)),
    List.map_singleton, hadded, count_claimAll_unsettled hf, h.counted,
    ← listings_added (owner_script hs) hq, ← owners_reclaimed]
  rfl

end Balanced

/-- Whatever calls overlap, and however they do. Take a host whose counts are those of the lists. A
call that names a path whose canonical form cannot be found fails and changes nothing. Another call
that nothing overlaps is the host's own, if what it lists is found once more. As long as calls name
paths with stable canonical forms, the counts are at every moment those of the lists but for the
requests on the way and the releases that were lost, so that once all calls have returned they agree
with the lists exactly if no release was lost; and none is, and no claim of another owner is
released even for a while, if the requests of each owner about a path reach the counts in the order
in which it made them. They need not: with two callers, an owner that lists a path and no longer
lists it releases another owner's claim for a while, and leaves its own claim behind where there is
none. And a path without a stable canonical form is listed and not counted after one call alone. -/
theorem overlapping_calls (h : w.IsEven w.owners w.claims) :
    (∀ paths e, w.circleAmong? paths = some e →
      watchPaths paths w = (.error e, w) ∧ operatorUnwatch paths w = (.error e, w) ∧
      ∀ n s, w.script? n = some s →
        scriptWatch n paths w = (.error e, w) ∧ scriptUnwatch n paths w = (.error e, w)) ∧
    (∀ caller paths, w.circleAmong? paths = none →
      (w.circleAmong? (paths.map w.canonical) = none →
        w.overlap.after w.canonical [.watch caller 0 paths, .deliver caller] =
          (watchPaths paths w).2.overlap) ∧
      w.overlap.after w.canonical [.unwatch caller 0 paths, .deliver caller] =
        (operatorUnwatch paths w).2.overlap) ∧
    (w.claimTarget = .counted → ∀ n s, w.script? n = some s →
      ∀ caller paths, w.circleAmong? paths = none →
      (w.circleAmong? (paths.map w.canonical) = none →
        w.overlap.after w.canonical [.watch caller (n + 1) paths, .deliver caller] =
          (scriptWatch n paths w).2.overlap) ∧
      w.overlap.after w.canonical [.unwatch caller (n + 1) paths, .deliver caller] =
        (scriptUnwatch n paths w).2.overlap) ∧
    (∀ steps, (∀ step ∈ steps, ∀ q ∈ step.paths, w.Settles q) →
      let d := w.overlap.after w.canonical steps
      let lost := w.overlap.lost w.canonical steps
      (∀ p, d.counts.count p + Overlap.asking w.canonical true d.underway p =
        listings d.owners p + Overlap.asking w.canonical false d.underway p + lost p) ∧
      (d.underway = [] → ((∀ p, d.counts.count p = listings d.owners p) ↔ ∀ p, lost p = 0)) ∧
      (w.overlap.InTurn w.canonical steps → (∀ p, lost p = 0) ∧
        ∀ p, d.settled p ≤ d.counts.count p)) ∧
    (∀ caller other i s q, caller ≠ other → w.owners[i]? = some s → w.canonical q ∉ s.paths →
      w.Settles q →
      let early := [.watch caller i [q], .unwatch other i [q], .deliver other]
      let d := w.overlap.after w.canonical (early ++ [.deliver caller])
      (w.overlap.after w.canonical early).counts.count (w.canonical q) = w.claims.count
        (w.canonical q) - 1 ∧
      d.owners = w.owners ∧ d.underway = [] ∧
      d.counts.count (w.canonical q) = max (w.claims.count (w.canonical q)) 1) ∧
    ∀ q, w.circle? q = none → w.form? (w.canonical q) ≠ some (w.canonical q) →
      (w.canonical q ∉ w.operator.paths →
        let d := (watchPaths [q] w).2
        d.claims.count (w.canonical q) + 1 = listings d.owners (w.canonical q)) ∧
      (w.claimTarget = .counted → ∀ n s, w.script? n = some s → w.canonical q ∉ s.claims.paths →
        let d := (scriptWatch n [q] w).2
        d.claims.count (w.canonical q) + 1 = listings d.owners (w.canonical q)) := by
  have hoperator : ∀ p ∈ w.operator.paths, w.form? p = some p :=
    h.firm w.operator (List.mem_cons_self ..)
  have hscript {n : Nat} {s : Script} (hs : w.script? n = some s) : ∀ p ∈ s.claims.paths,
    w.form? p = some p :=
    h.firm s.claims (List.mem_of_getElem? (owner_script hs))
  refine ⟨fun paths e hc => ⟨watchPaths_of_some hc, operatorUnwatch_of_some hc, fun n s hs =>
      ⟨scriptWatch_of_some hs hc, scriptUnwatch_of_some hs hc⟩⟩,
    fun caller paths hc => ⟨fun hf => (overlap_watchPaths hc hf caller).symm,
      (overlap_operatorUnwatch hc hoperator caller).symm⟩,
    fun ht n s hs caller paths hc => ⟨fun hf => (overlap_scriptWatch hc hs ht hf caller).symm,
      (overlap_scriptUnwatch hc hs ht (hscript hs) caller).symm⟩,
    fun steps hsteps => ?_, fun caller other i s q hne hs hq hf => ?_, fun q hc hf =>
      ⟨fun hq => uncounted_watchPaths h hc hq hf, fun ht n s hs hq =>
        uncounted_scriptWatch h hc hs ht hq hf⟩⟩
  · have hfirm := (isFirm_overlap h).after fun step hm q hq => (hsteps step hm q hq).canonical
    have haccounted := (accounted_overlap h).after steps
    simp only [Nat.zero_add] at haccounted
    have hcounted := haccounted.counted
    simp only [hfirm.tally_eq_listings] at hcounted
    refine ⟨hcounted, fun hnone => ?_, fun hturn => ?_⟩
    · rw [hnone] at hcounted
      refine forall_congr' fun p => ?_
      have hp := hcounted p
      rw [Overlap.asking_nil, Overlap.asking_nil, Nat.add_zero, Nat.add_zero] at hp
      omega
    · obtain ⟨hlost, heard, hheard⟩ :=
        (Overlap.heard_start (tallied_overlap h) h.once rfl).after hturn
      exact ⟨hlost, hfirm.settled_le hheard⟩
  · have hs' : w.overlap.owners[i]? = some s := hs
    have hovertaken := Overlap.after_overtaken rfl hs' hq hf.canonical hne
    have hdelivered := Overlap.after_overtaken_deliver rfl hs' hq hf.canonical hne
    dsimp only
    rw [hovertaken, hdelivered]
    refine ⟨h.kept.count_release_self _, rfl, rfl, ?_⟩
    have hreleased := h.kept.count_release_self (w.canonical q)
    rw [ClaimCounts.count_claim, if_pos rfl]
    change ClaimCounts.count (ClaimCounts.release _ w.claims) _ + 1 = _
    rw [hreleased]
    omega

theorem isEven_detoured : detoured.IsEven detoured.owners detoured.claims where
  kept := ⟨List.nodup_nil, by simp [detoured]⟩
  counted p := by simp [detoured, owners, listings, ClaimCounts.count]
  once := by simp [detoured, owners]
  firm := by simp [detoured, owners]

/-- Two callers of the operator's owner leave a claim that is not listed, and one caller a listed
path that is not counted. -/
theorem overlapping_calls_detoured :
    (let x : Path := ⟨.relative, ["x"]⟩
      let d := detoured.overlap.after detoured.canonical
        [.watch 0 0 [x], .unwatch 1 0 [x], .deliver 1, .deliver 0]
      d.underway = [] ∧ d.owners = [{}] ∧ d.counts.count x = 1) ∧
    let d := (watchPaths [detour] detoured).2
    d.claims.count (detoured.canonical detour) + 1 = listings d.owners
      (detoured.canonical detour) := by
  obtain ⟨-, -, -, -, hraced, hunstable⟩ := overlapping_calls isEven_detoured
  obtain ⟨-, howners, hnone, hcount⟩ :=
    hraced 0 1 0 {} ⟨.relative, ["x"]⟩ Nat.zero_ne_one rfl List.not_mem_nil ⟨_, rfl, rfl⟩
  obtain ⟨hfound, hform⟩ := form?_eq_some.mp form?_detour
  refine ⟨⟨hnone, howners, hcount⟩, (hunstable detour hfound fun hf => ?_).1 List.not_mem_nil⟩
  rw [hform, form?_below] at hf
  cases hf

end HotReload.World
