import HotReload.Claim.Overlap
import HotReload.Proofs.Claim.Balance
import HotReload.Proofs.Claim.Delegation
import HotReload.Proofs.Claim.Tally

/-!
# What overlapping calls leave

Where calls overlap, a release may reach the counts before the claim that it takes back, and is lost
on a path without claims. Nothing else can go wrong: at every moment the counts are those of the
lists but for what is on the way and what was lost. Requests about one path that reach the counts in
the order in which its owner made them are never lost.
-/
namespace HotReload

variable {form : Path → Path}

/-- How often a request asks for a claim on a path, or for its release. -/
def ClaimRequest.asks (form : Path → Path) (isWatch : Bool) (p : Path) (r : ClaimRequest) : Nat :=
  if r.isWatch = isWatch then (r.paths.map form).count p else 0

theorem ClaimRequest.reach_watchRequest? (added : List Path) (counts : ClaimCounts) :
    (ScopedClaims.watchRequest? added).elim counts (·.reach form counts) = counts.claimAll
      (added.map form) := by
  cases added <;> rfl

theorem ClaimRequest.reach_unwatchRequest? (removed : List Path) (counts : ClaimCounts) :
    (ScopedClaims.unwatchRequest? removed).elim counts (·.reach form counts) =
      counts.releaseAll (removed.map form) := by
  cases removed <;> rfl

theorem ClaimRequest.isKept_reach {counts : ClaimCounts} (h : counts.IsKept) (r : ClaimRequest) :
    (r.reach form counts).IsKept := by
  cases r with
  | watch paths => exact h.claimAll _
  | unwatch paths => exact h.releaseAll _

/-- A request moves the counts by what it asks for, but for releases that find no claim. -/
theorem ClaimRequest.count_reach {counts : ClaimCounts} (form : Path → Path) (h : counts.IsKept)
    (r : ClaimRequest) (p : Path) :
    (r.reach form counts).count p + r.asks form false p =
      counts.count p + r.asks form true p + (r.asks form false p - counts.count p) := by
  cases r with
  | watch paths => simp [reach, asks, isWatch, ClaimRequest.paths, ClaimCounts.count_claimAll_add]
  | unwatch paths =>
    simp only [reach, asks, isWatch, ClaimRequest.paths, h.count_releaseAll_sub, if_true,
      reduceCtorEq, if_false]
    omega

/-- An owner asks for claims on what it lists in addition, and for releases of
what it no longer lists. -/
theorem ScopedClaims.answer_count (form : Path → Path) (s : ScopedClaims) (call : ScopedCall)
    (p : Path) :
    ((s.answer form call).1.paths.map form).count
      p + ((s.answer form call).2.elim 0 (·.asks form false p)) =
      (s.paths.map form).count p + (s.answer form call).2.elim 0 (·.asks form true p) := by
  have hwatch (paths : List Path) : ((s.watch paths).1.paths.map form).count p +
      (watchRequest? (s.watch paths).2).elim 0 (·.asks form false p) =
        (s.paths.map form).count p + (watchRequest? (s.watch paths).2).elim 0
          (·.asks form true p) := by
    have hlist : (s.watch paths).1.paths = s.paths ++ (s.watch paths).2 := rfl
    rw [hlist, List.map_append, List.count_append]
    cases (s.watch paths).2 <;> simp [watchRequest?, ClaimRequest.asks, ClaimRequest.isWatch,
      ClaimRequest.paths]
  have hunwatch (paths : List Path) : ((s.unwatch paths).1.paths.map form).count p +
      (unwatchRequest? (s.unwatch paths).2).elim 0 (·.asks form false p) =
        (s.paths.map form).count p + (unwatchRequest? (s.unwatch paths).2).elim 0
          (·.asks form true p) := by
    rw [← ((s.removed_append_perm paths).map form).count_eq p, List.map_append, List.count_append]
    cases (s.unwatch paths).2 <;>
      simp [unwatchRequest?, ClaimRequest.asks, ClaimRequest.isWatch, ClaimRequest.paths,
        Nat.add_comm]
  cases call with
  | watch paths => exact hwatch _
  | unwatch paths => exact hunwatch _
  | close => exact hunwatch _

/-- The paths that a step is about. -/
def OverlapStep.paths : OverlapStep → List Path
  | .watch _ _ paths | .unwatch _ _ paths => paths
  | .deliver _ => []

namespace Overlap

variable {d d' : Overlap} {step : OverlapStep} {p : Path}

/-- How many claims on a path some requests ask for, or how many releases. -/
def asking (form : Path → Path) (isWatch : Bool) (requests : List Underway) (p : Path) : Nat :=
  (requests.map (·.request.asks form isWatch p)).sum

theorem asking_nil (isWatch : Bool) (p : Path) : asking form isWatch [] p = 0 := rfl

theorem asking_append (isWatch : Bool) (us vs : List Underway) (p : Path) :
    asking form isWatch (us ++ vs) p = asking form isWatch us p + asking form isWatch vs p := by
  rw [asking, List.map_append, List.sum_append, asking, asking]

theorem asking_cons (isWatch : Bool) (u : Underway) (us : List Underway) (p : Path) :
    asking form isWatch (u :: us) p = u.request.asks form isWatch p + asking form isWatch us p := by
  rw [asking, List.map_cons, List.sum_cons, asking]

theorem asking_toList (isWatch : Bool) (caller owner : Nat) (r : Option ClaimRequest) (p : Path) :
    asking form isWatch (r.map fun request => Underway.mk caller owner request).toList p =
      r.elim 0 (·.asks form isWatch p) := by
  cases r <;> simp [asking]

/-- How many of a path's releases that reach the counts in a step find no claim. -/
def missed (form : Path → Path) (d : Overlap) : OverlapStep → Path → Nat
  | .deliver caller, p =>
    (d.ofCaller? caller).elim 0 fun u => u.request.asks form false p - d.counts.count p
  | _, _ => 0

/-- How many of a path's releases find no claim in the course of some steps. -/
def lost (form : Path → Path) : Overlap → List OverlapStep → Path → Nat
  | _, [], _ => 0
  | d, step :: rest, p => d.missed form step p + (d.perform form step).lost form rest p

/-- What a step may come to: nothing, another list of an owner, or other counts. -/
inductive Move (form : Path → Path) (d : Overlap) (step : OverlapStep) : Overlap → Prop where
  | idle (hm : ∀ p, d.missed form step p = 0) : Move form d step d
  | list {caller owner : Nat} {call : ScopedCall} {s : ScopedClaims}
    (hm : ∀ p, d.missed form step p = 0) (hc : d.ofCaller? caller = none)
    (hs : d.owners[owner]? = some s) :
      Move form d step
        { d with
          owners := d.owners.set owner (s.answer form call).1
          underway :=
            d.underway ++ ((s.answer form call).2.map fun r => Underway.mk caller owner r).toList }
  | deliver {u : Underway} {earlier later : List Underway} (hstep : step = .deliver u.caller)
    (hu : d.underway = earlier ++ u :: later) (he : ∀ v ∈ earlier, v.caller ≠ u.caller) :
      Move form d step
        { d with counts := u.request.reach form d.counts, underway := earlier ++ later }

theorem move_list {caller owner : Nat} {call : ScopedCall} (hm : ∀ p, d.missed form step p = 0) :
    Move form d step (d.list form caller owner call) := by
  rcases hc : d.ofCaller? caller with _ | u
  · rcases hs : d.owners[owner]? with _ | s
    · simp only [Overlap.list, hc, hs]
      exact .idle hm
    · simp only [Overlap.list, hc, hs]
      exact .list hm hc hs
  · simp only [Overlap.list, hc]
    exact .idle hm

theorem move (form : Path → Path) (d : Overlap) (step : OverlapStep) :
    Move form d step (d.perform form step) := by
  cases step with
  | watch => exact move_list fun _ => rfl
  | unwatch => exact move_list fun _ => rfl
  | deliver caller =>
    rcases hu : d.ofCaller? caller with _ | u
    · simp only [perform, Overlap.deliver, hu]
      refine .idle fun p => ?_
      rw [missed, hu]
      rfl
    · simp only [perform, Overlap.deliver, hu]
      obtain ⟨hcaller, earlier, later, hsplit, he⟩ := List.find?_eq_some_iff_append.mp hu
      obtain rfl : u.caller = caller := by simpa using hcaller
      have hrest : d.underway.eraseP (·.caller = u.caller) = earlier ++ later := by
        rw [hsplit, List.eraseP_append_right _ fun v hv => by simpa using he v hv,
          List.eraseP_cons_of_pos (by simp)]
      rw [hrest]
      exact .deliver rfl hsplit fun v hv => by simpa using he v hv

theorem ofCaller?_of_split {u : Underway} {earlier later : List Underway}
    (hu : d.underway = earlier ++ u :: later) (he : ∀ v ∈ earlier, v.caller ≠ u.caller) :
    d.ofCaller? u.caller = some u := by
  rw [ofCaller?, hu]
  exact List.find?_eq_some_iff_append.mpr
    ⟨by simp, earlier, later, rfl, fun v hv => by simpa using he v hv⟩

/-! The counts and what is on the way. -/

/-- Whether the counts are those of the lists but for what is on the way, and some
releases that were lost. -/
structure Accounted (form : Path → Path) (gone : Path → Nat) (d : Overlap) : Prop where
  kept : d.counts.IsKept
  counted : ∀ p, d.counts.count p + asking form true d.underway p =
    tally form d.owners p + asking form false d.underway p + gone p

theorem Accounted.perform {gone : Path → Nat} (h : d.Accounted form gone) (step : OverlapStep) :
    (d.perform form step).Accounted form fun p => gone p + d.missed form step p := by
  have hmove := d.move form step
  generalize d.perform form step = d' at hmove
  cases hmove with
  | idle hm => exact ⟨h.kept, fun p => by rw [h.counted, hm, Nat.add_zero]⟩
  | @list caller owner call s hm hc hs =>
    refine ⟨h.kept, fun p => ?_⟩
    have hcounted := h.counted p
    have hset := tally_set (c := form) hs (s.answer form call).1 p
    have hanswer := s.answer_count form call p
    rw [asking_append, asking_append, asking_toList, asking_toList, hm]
    dsimp only
    omega
  | @deliver u earlier later hstep hu he =>
    refine ⟨u.request.isKept_reach h.kept, fun p => ?_⟩
    have hcounted := h.counted p
    have hreach := u.request.count_reach form h.kept p
    rw [hu, asking_append, asking_append, asking_cons, asking_cons] at hcounted
    rw [hstep, missed, ofCaller?_of_split hu he, Option.elim_some, asking_append, asking_append]
    dsimp only
    omega

theorem Accounted.after {gone : Path → Nat} (h : d.Accounted form gone) (steps : List OverlapStep) :
    (d.after form steps).Accounted form fun p => gone p + d.lost form steps p := by
  induction steps generalizing d gone with
  | nil => exact h
  | cons step rest ih =>
    have hrest := ih (h.perform step)
    simp only [Nat.add_assoc] at hrest
    exact hrest

/-! Requests that reach the counts in turn. -/

/-- Whether a step passes nothing on before what the same owner has to pass on about the same path
from an earlier call. -/
def IsInTurn (d : Overlap) : OverlapStep → Prop
  | .deliver caller => ∀ u ∈ d.ofCaller? caller, ∀ v ∈ d.underway.takeWhile (·.caller ≠ caller),
    v.owner = u.owner → ∀ q ∈ u.request.paths, q ∉ v.request.paths
  | _ => True

def InTurn (form : Path → Path) : Overlap → List OverlapStep → Prop
  | _, [] => True
  | d, step :: rest => d.IsInTurn step ∧ (d.perform form step).InTurn form rest

/-- What is on the way about a path of an owner: whether it is to be claimed, request by request. -/
def about (owner : Nat) (q : Path) (requests : List Underway) : List Bool :=
  (requests.filter fun u => u.owner = owner ∧ q ∈ u.request.paths).map (·.request.isWatch)

/-- Whether each of some requests asks for what is not so before it, from whether a claim is held to
whether the path is listed. -/
def Follows : Bool → List Bool → Bool → Prop
  | held, [], listed => held = listed
  | held, isWatch :: rest, listed => isWatch = !held ∧ Follows isWatch rest listed

theorem Follows.append {held listed : Bool} {requests : List Bool}
    (h : Follows held requests listed) :
    Follows held (requests ++ [!listed]) !listed := by
  induction requests generalizing held with
  | nil => exact ⟨congrArg (!·) h.symm, rfl⟩
  | cons isWatch rest ih => exact ⟨h.1, ih h.2⟩

end Overlap

namespace ClaimRequest

/-- What an owner lists by the requests that have reached the counts, after one more. -/
def hear : ClaimRequest → ScopedClaims → ScopedClaims
  | .watch paths, o => (o.watch paths).1
  | .unwatch paths, o => (o.unwatch paths).1

variable {r : ClaimRequest} {o : ScopedClaims} {i : Nat} {heard : List ScopedClaims}
  {counts : ClaimCounts}

theorem nodup_hear (h : o.paths.Nodup) (r : ClaimRequest) : (r.hear o).paths.Nodup := by
  cases r with
  | watch paths => exact ScopedClaims.nodup_watch h
  | unwatch paths => exact ScopedClaims.nodup_unwatch h

theorem mem_hear (h : o.paths.Nodup) (q : Path) :
    decide (q ∈ (r.hear o).paths) = if q ∈ r.paths then r.isWatch else decide (q ∈ o.paths) := by
  cases r with
  | watch paths =>
    by_cases hq : q ∈ paths <;> simp [hear, ScopedClaims.mem_watch, ClaimRequest.paths, isWatch, hq]
  | unwatch paths =>
    by_cases hq :
      q ∈ paths <;> simp [hear, ScopedClaims.mem_unwatch h, ClaimRequest.paths, isWatch, hq]

/-- A request that fits what has been heard of its owner is counted in full. -/
theorem tallied_hear (h : Tallied form heard counts) (ho : heard[i]? = some o) (hn : r.paths.Nodup)
    (hfit : ∀ q ∈ r.paths, r.isWatch = !decide (q ∈ o.paths)) :
    Tallied form (heard.set i (r.hear o)) (r.reach form counts) := by
  cases r with
  | watch paths =>
    have hadded : (o.watch paths).2 = paths := ScopedClaims.added_of_new hn fun q hq => by
      simpa [isWatch] using hfit q hq
    have hwatch := h.watch ho paths
    rwa [hadded] at hwatch
  | unwatch paths =>
    have hremoved : (o.unwatch paths).2 = paths := ScopedClaims.removed_of_listed hn fun q hq => by
      simpa [isWatch] using hfit q hq
    have hunwatch := h.unwatch ho paths
    rwa [hremoved] at hunwatch

theorem asks_le_count (h : Tallied form heard counts) (ho : heard[i]? = some o) (hn : r.paths.Nodup)
    (hfit : ∀ q ∈ r.paths, r.isWatch = !decide (q ∈ o.paths)) (p : Path) :
    r.asks form false p ≤ counts.count p := by
  cases r with
  | watch paths => exact Nat.zero_le _
  | unwatch paths =>
    obtain ⟨l, hperm, hsub⟩ :=
      hn.subperm fun q hq => show q ∈ o.paths by simpa [isWatch] using hfit q hq
    have hle := (hsub.map form).count_le p
    rw [(hperm.map form).count_eq] at hle
    have hset := tally_set (c := form) ho {} p
    rw [List.map_nil, List.count_nil, Nat.add_zero] at hset
    rw [h.counted]
    exact Nat.le_trans hle (hset ▸ Nat.le_add_left _ _)

end ClaimRequest

namespace Overlap

variable {d : Overlap} {heard : List ScopedClaims} {i : Nat} {q : Path}

theorem about_append (us vs : List Underway) :
    about i q (us ++ vs) = about i q us ++ about i q vs := by
  rw [about, List.filter_append, List.map_append, about, about]

theorem about_cons (u : Underway) (us : List Underway) : about i q (u :: us) =
    (if u.owner = i ∧ q ∈ u.request.paths then [u.request.isWatch] else []) ++ about i q us := by
  rw [about, List.filter_cons, about]
  by_cases h : u.owner = i ∧ q ∈ u.request.paths <;> simp [h]

theorem about_eq_nil {us : List Underway} (h : ∀ u ∈ us, u.owner = i → q ∉ u.request.paths) :
    about i q us = [] := by
  rw [about, List.filter_eq_nil_iff.mpr fun u hu hcond => ?_, List.map_nil]
  obtain ⟨howner, hq⟩ := of_decide_eq_true hcond
  exact h u hu howner hq

/-- What the owners list by the requests that have reached the counts: these are counted, and what
is on the way leads from there to the lists. -/
structure Heard (form : Path → Path) (heard : List ScopedClaims) (d : Overlap) : Prop where
  tallied : Tallied form heard d.counts
  length : heard.length = d.owners.length
  once : ∀ o ∈ heard, o.paths.Nodup
  onceListed : ∀ s ∈ d.owners, s.paths.Nodup
  owned : ∀ u ∈ d.underway, u.owner < d.owners.length
  named : ∀ u ∈ d.underway, u.request.paths.Nodup
  follows : ∀ (i : Nat) (o s : ScopedClaims), heard[i]? = some o → d.owners[i]? = some s → ∀ q,
    Follows (q ∈ o.paths) (about i q d.underway) (q ∈ s.paths)

theorem heard_start (h : Tallied form d.owners d.counts) (hn : ∀ s ∈ d.owners, s.paths.Nodup)
    (hu : d.underway = []) : d.Heard form d.owners where
  tallied := h
  length := rfl
  once := hn
  onceListed := hn
  owned := by simp [hu]
  named := by simp [hu]
  follows i o s ho hs q := by
    obtain rfl : o = s := Option.some.inj (ho.symm.trans hs)
    rw [hu]
    rfl

theorem nodup_answer {s : ScopedClaims} {call : ScopedCall} {r : ClaimRequest}
    (h : (s.answer form call).2 = some r) :
    r.paths.Nodup := by
  cases call with
  | watch paths =>
    obtain ⟨-, rfl⟩ := ScopedClaims.watchRequest?_eq_some.mp h
    exact ScopedClaims.nodup_added
  | unwatch paths | close =>
    obtain ⟨-, rfl⟩ := ScopedClaims.unwatchRequest?_eq_some.mp h
    exact ScopedClaims.nodup_removed

/-- An owner changes its list, and what it asks for comes last of what is on the way. -/
theorem Heard.list {caller owner : Nat} {call : ScopedCall} {s : ScopedClaims}
    (h : d.Heard form heard) (hs : d.owners[owner]? = some s) :
    Heard form heard
      { d with
        owners := d.owners.set owner (s.answer form call).1
        underway :=
          d.underway ++
            ((s.answer form call).2.map fun r => Underway.mk caller owner r).toList } where
  tallied := h.tallied
  length := by rw [List.length_set, h.length]
  once := h.once
  onceListed o ho := by
    rcases List.mem_or_eq_of_mem_set ho with ho | rfl
    · exact h.onceListed o ho
    · exact (ScopedClaims.passes_answer (h.onceListed s (List.mem_of_getElem? hs)) call).once
  owned u hu := by
    rw [List.length_set]
    rcases List.mem_append.mp hu with hu | hu
    · exact h.owned u hu
    · obtain ⟨r, -, rfl⟩ := Option.map_eq_some_iff.mp (Option.mem_toList.mp hu)
      exact (List.getElem?_eq_some_iff.mp hs).1
  named u hu := by
    rcases List.mem_append.mp hu with hu | hu
    · exact h.named u hu
    · obtain ⟨r, hr, rfl⟩ := Option.map_eq_some_iff.mp (Option.mem_toList.mp hu)
      exact nodup_answer hr
  follows i o s' ho hs' q := by
    have hpasses : s.Passes (s.answer form call) :=
      ScopedClaims.passes_answer (h.onceListed s (List.mem_of_getElem? hs)) call
    have hnew (hnot : owner = i → ∀ r, (s.answer form call).2 = some r → q ∉ r.paths) :
        about i q ((s.answer form call).2.map fun r => Underway.mk caller owner r).toList = [] := by
      refine about_eq_nil fun u hu howner => ?_
      obtain ⟨r, hr, rfl⟩ := Option.map_eq_some_iff.mp (Option.mem_toList.mp hu)
      exact hnot howner r hr
    rw [about_append]
    by_cases hi : owner = i
    · subst hi
      rw [List.getElem?_set_self (List.getElem?_eq_some_iff.mp hs).1, Option.some.injEq] at hs'
      subst hs'
      have hfollows := h.follows owner o s ho hs q
      by_cases hasked : ∃ r, (s.answer form call).2 = some r ∧ q ∈ r.paths
      · obtain ⟨r, hr, hq⟩ := hasked
        obtain ⟨hturned, hwatch⟩ := hpasses.turned r hr q hq
        have hlast : r.isWatch = !decide (q ∈ s.paths) := by
          rw [Bool.eq_iff_iff, hwatch]
          simp
        have hlisted : decide (q ∈ (s.answer form call).1.paths) = !decide (q ∈ s.paths) := by
          rw [Bool.eq_iff_iff]
          simpa using hturned
        rw [hr, Option.map_some, Option.toList_some, about_cons, if_pos ⟨rfl, hq⟩, hlast, hlisted]
        exact hfollows.append
      · have hkept : ∀ r, (s.answer form call).2 = some r →
          q ∉ r.paths := fun r hr hq => hasked ⟨r, hr, hq⟩
        rw [hnew fun _ => hkept, List.append_nil, decide_eq_decide.mpr (hpasses.kept q hkept)]
        exact hfollows
    · -- to the other owners nothing happens
      rw [List.getElem?_set_ne hi] at hs'
      rw [hnew fun howner => absurd howner hi, List.append_nil]
      exact h.follows i o s' ho hs' q

section Deliver

theorem about_split_of_not {u : Underway} {earlier later : List Underway}
    (h : ¬(u.owner = i ∧ q ∈ u.request.paths)) :
    about i q (earlier ++ u :: later) = about i q (earlier ++ later) := by
  rw [about_append, about_cons, if_neg h, List.nil_append, ← about_append]

variable {u : Underway} {earlier later : List Underway} (h : d.Heard form heard)
  (hu : d.underway = earlier ++ u :: later)
  (hturn : ∀ v ∈ earlier, v.owner = u.owner → ∀ q ∈ u.request.paths, q ∉ v.request.paths)
include h hu

theorem Heard.named_split : u.request.paths.Nodup :=
  h.named u (hu ▸ List.mem_append_right _ List.mem_cons_self)

theorem Heard.exists_owner : ∃ o, heard[u.owner]? = some o := by
  have howner := h.owned u (hu ▸ List.mem_append_right _ List.mem_cons_self)
  rw [← h.length] at howner
  exact ⟨_, List.getElem?_eq_getElem howner⟩

include hturn

/-- A request that is in turn fits what has been heard of its owner. -/
theorem Heard.fits {o : ScopedClaims} (ho : heard[u.owner]? = some o) :
    ∀ q ∈ u.request.paths, u.request.isWatch = !decide (q ∈ o.paths) := by
  intro q hq
  obtain ⟨s, hs⟩ : ∃ s, d.owners[u.owner]? = some s :=
    ⟨_, List.getElem?_eq_getElem (h.owned u (hu ▸ List.mem_append_right _ List.mem_cons_self))⟩
  have hfollows := h.follows u.owner o s ho hs q
  have hnone : about u.owner q earlier = [] :=
    about_eq_nil fun v hv howner => hturn v hv howner q hq
  rw [hu, about_append, about_cons, if_pos ⟨rfl, hq⟩, hnone] at hfollows
  exact hfollows.1

theorem Heard.deliver {o : ScopedClaims} (ho : heard[u.owner]? = some o) :
    Heard form (heard.set u.owner (u.request.hear o))
      { d with counts := u.request.reach form d.counts, underway := earlier ++ later } where
  tallied := ClaimRequest.tallied_hear h.tallied ho (h.named_split hu) (h.fits hu hturn ho)
  length := by rw [List.length_set, h.length]
  once o' ho' := by
    rcases List.mem_or_eq_of_mem_set ho' with ho' | rfl
    · exact h.once o' ho'
    · exact ClaimRequest.nodup_hear (h.once o (List.mem_of_getElem? ho)) _
  onceListed := h.onceListed
  owned v hv := h.owned v (by rw [hu]; simp at hv ⊢; tauto)
  named v hv := h.named v (by rw [hu]; simp at hv ⊢; tauto)
  follows i o' s ho' hs q := by
    by_cases hi : u.owner = i
    · subst hi
      rw [List.getElem?_set_self (List.getElem?_eq_some_iff.mp ho).1, Option.some.injEq] at ho'
      subst ho'
      have hfollows := h.follows u.owner o s ho hs q
      rw [ClaimRequest.mem_hear (h.once o (List.mem_of_getElem? ho))]
      rw [hu] at hfollows
      by_cases hq : q ∈ u.request.paths
      · have hnone : about u.owner q earlier = [] :=
          about_eq_nil fun v hv howner => hturn v hv howner q hq
        rw [about_append, about_cons, if_pos ⟨rfl, hq⟩, hnone] at hfollows
        rw [if_pos hq, about_append, hnone]
        exact hfollows.2
      · rw [about_split_of_not fun hcond => hq hcond.2] at hfollows
        rwa [if_neg hq]
    · rw [List.getElem?_set_ne hi] at ho'
      have hfollows := h.follows i o' s ho' hs q
      rwa [hu, about_split_of_not fun hcond => hi hcond.1] at hfollows

end Deliver

theorem Heard.perform (h : d.Heard form heard) {step : OverlapStep} (hturn : d.IsInTurn step) :
    (∀ p, d.missed form step p = 0) ∧ ∃ heard', (d.perform form step).Heard form heard' := by
  have hmove := d.move form step
  generalize d.perform form step = d' at hmove
  cases hmove with
  | idle hm => exact ⟨hm, heard, h⟩
  | list hm hc hs => exact ⟨hm, heard, h.list hs⟩
  | @deliver u earlier later hstep hu he =>
    have hcaller := ofCaller?_of_split hu he
    have hearlier : d.underway.takeWhile (·.caller ≠ u.caller) = earlier := by
      rw [hu, List.takeWhile_append_of_pos fun v hv => by simpa using he v hv,
        List.takeWhile_cons_of_neg (by simp), List.append_nil]
    rw [hstep, IsInTurn, hearlier] at hturn
    have hturn' := hturn u hcaller
    obtain ⟨o, ho⟩ := h.exists_owner hu
    refine ⟨fun p => ?_, _, h.deliver hu hturn' ho⟩
    rw [hstep, missed, hcaller, Option.elim_some]
    exact Nat.sub_eq_zero_of_le
      (ClaimRequest.asks_le_count h.tallied ho (h.named_split hu) (h.fits hu hturn' ho) p)

/-- Where requests reach the counts in turn, no release is lost. -/
theorem Heard.after (h : d.Heard form heard) {steps : List OverlapStep}
    (hturn : d.InTurn form steps) :
    (∀ p, d.lost form steps p = 0) ∧ ∃ heard', (d.after form steps).Heard form heard' := by
  induction steps generalizing d heard with
  | nil => exact ⟨fun _ => rfl, heard, h⟩
  | cons step rest ih =>
    obtain ⟨hmissed, heard', h'⟩ := h.perform hturn.1
    obtain ⟨hlost, hrest⟩ := ih h' hturn.2
    exact ⟨fun p => by rw [lost, hmissed, hlost], hrest⟩

/-- How many owners list a path and have nothing to pass on about it. -/
def settled (d : Overlap) (q : Path) : Nat :=
  d.owners.zipIdx.countP fun x => q ∈ x.1.paths ∧ about x.2 q d.underway = []

theorem countP_zipIdx_le {α β : Type} {P : α × Nat → Bool} {Q : β → Bool} {as : List α}
    (bs : List β) (n : Nat) (hl : bs.length = as.length)
    (h : ∀ i a b, as[i]? = some a → bs[i]? = some b → P (a, n + i) = true → Q b = true) :
    (as.zipIdx n).countP P ≤ bs.countP Q := by
  induction as generalizing bs n with
  | nil => exact Nat.zero_le _
  | cons a as ih =>
    cases bs with
    | nil => cases hl
    | cons b bs =>
      have hrest := ih bs (n + 1) (Nat.succ.inj hl) fun i a b ha hb hp => by
        refine h (i + 1) a b ha hb ?_
        rwa [Nat.add_right_comm] at hp
      have hfirst := h 0 a b rfl rfl
      rw [List.zipIdx_cons, List.countP_cons, List.countP_cons]
      by_cases hp : P (a, n) = true
      · rw [if_pos hp, if_pos (hfirst hp)]
        omega
      · rw [if_neg hp]
        omega

theorem listings_le_tally (owners : List ScopedClaims) (q : Path) :
    listings owners q ≤ tally form owners (form q) := by
  induction owners with
  | nil => exact Nat.zero_le _
  | cons o rest ih =>
    rw [listings, List.countP_cons, ← listings, tally, List.flatMap_cons, List.map_append,
      List.count_append, ← tally]
    have hone : (if decide (q ∈ o.paths) = true then 1 else 0) ≤ (o.paths.map form).count
      (form q) := by
      split
      case isTrue hq => exact List.count_pos_iff.mpr (List.mem_map_of_mem (of_decide_eq_true hq))
      case isFalse => exact Nat.zero_le _
    omega

/-- What is settled is counted. -/
theorem Heard.settled_le (h : d.Heard form heard) (q : Path) :
    d.settled q ≤ d.counts.count (form q) := by
  rw [h.tallied.counted]
  refine Nat.le_trans (countP_zipIdx_le heard 0 h.length fun i s o hs ho hp => ?_)
    (listings_le_tally heard q)
  obtain ⟨hq, hnone⟩ := of_decide_eq_true hp
  have hfollows := h.follows i o s ho hs q
  rw [Nat.zero_add] at hnone
  rw [hnone] at hfollows
  exact hfollows.trans (decide_eq_true hq)

/-! Lists of paths that keep their form. -/

/-- Whether the lists hold each path once, and in a form that is left alone. -/
structure IsFirm (form : Path → Path) (d : Overlap) : Prop where
  once : ∀ s ∈ d.owners, s.paths.Nodup
  firm : ∀ s ∈ d.owners, ∀ q ∈ s.paths, form q = q

theorem IsFirm.tally_eq_listings (h : d.IsFirm form) (p : Path) :
    tally form d.owners p = listings d.owners p := by
  obtain ⟨once, firm⟩ := h
  generalize d.owners = owners at once firm
  induction owners with
  | nil => rfl
  | cons o rest ih =>
    obtain ⟨honce, hrestOnce⟩ := List.forall_mem_cons.mp once
    obtain ⟨hfirm, hrestFirm⟩ := List.forall_mem_cons.mp firm
    have hrest := ih hrestOnce hrestFirm
    rw [tally] at hrest
    have hmap : o.paths.map form = o.paths := (List.map_congr_left hfirm).trans (List.map_id _)
    rw [tally, List.flatMap_cons, List.map_append, List.count_append, hrest, hmap, honce.count,
      listings, listings, List.countP_cons]
    simp only [decide_eq_true_eq]
    exact Nat.add_comm ..

theorem IsFirm.list {caller owner : Nat} {call : ScopedCall} (h : d.IsFirm form)
    (hcall : ∀ s ∈ d.owners, ∀ q ∈ (s.answer form call).1.paths, form q = q) :
    (d.list form caller owner call).IsFirm form := by
  unfold Overlap.list
  split
  case h_1 s hc hs =>
    refine ⟨fun o ho => ?_, fun o ho => ?_⟩
    · rcases List.mem_or_eq_of_mem_set ho with ho | rfl
      · exact h.once o ho
      · exact (ScopedClaims.passes_answer (h.once s (List.mem_of_getElem? hs)) call).once
    · rcases List.mem_or_eq_of_mem_set ho with ho | rfl
      · exact h.firm o ho
      · exact hcall s (List.mem_of_getElem? hs)
  case h_2 => exact h

theorem IsFirm.perform (h : d.IsFirm form) {step : OverlapStep}
    (hstep : ∀ q ∈ step.paths, form (form q) = form q) : (d.perform form step).IsFirm form := by
  cases step with
  | watch caller owner paths =>
    refine h.list fun s hs q hq => ?_
    rcases ScopedClaims.mem_watch.mp hq with hq | hq
    · exact h.firm s hs q hq
    · obtain ⟨q', hq', rfl⟩ := List.mem_map.mp hq
      exact hstep q' hq'
  | unwatch caller owner paths =>
    exact h.list fun s hs q hq => h.firm s hs q (ScopedClaims.unwatch_subset s _ hq)
  | deliver caller =>
    rw [Overlap.perform, Overlap.deliver]
    split
    · exact h
    · exact ⟨h.once, h.firm⟩

theorem IsFirm.after (h : d.IsFirm form) {steps : List OverlapStep}
    (hsteps : ∀ step ∈ steps, ∀ q ∈ step.paths, form (form q) = form q) :
    (d.after form steps).IsFirm form := by
  induction steps generalizing d with
  | nil => exact h
  | cons step rest ih =>
    obtain ⟨hstep, hrest⟩ := List.forall_mem_cons.mp hsteps
    exact ih (h.perform hstep) hrest

theorem IsFirm.settled_le (h : d.IsFirm form) (hheard : d.Heard form heard) (q : Path) :
    d.settled q ≤ d.counts.count q := by
  rcases Nat.eq_zero_or_pos (d.settled q) with hzero | hpos
  · rw [hzero]
    exact Nat.zero_le _
  · obtain ⟨x, hx, hcond⟩ := List.countP_pos_iff.mp hpos
    have hform := h.firm x.1 (List.fst_mem_of_mem_zipIdx hx) q (of_decide_eq_true hcond).1
    have hle := hheard.settled_le q
    rwa [hform] at hle

/-! Calls that do not overlap, and a claim that is overtaken by its release. -/

section Calls

variable {s : ScopedClaims} {caller other : Nat} (hu : d.underway = []) (hs : d.owners[i]? = some s)
include hu hs

theorem deliver_list (form : Path → Path) (caller : Nat) (call : ScopedCall) :
    (d.list form caller i call).deliver form caller = { d with
      owners := d.owners.set i (s.answer form call).1
      counts := (s.answer form call).2.elim d.counts (·.reach form d.counts) } := by
  rcases hr : (s.answer form call).2 with _ | r <;>
    simp [Overlap.list, Overlap.deliver, ofCaller?, hu, hs, hr]

/-- A call that no other overlaps changes list and counts as if it were one step. -/
theorem after_watch (paths : List Path) : d.after form [.watch caller i paths, .deliver caller] =
    { d with
      owners := d.owners.set i (s.watch (paths.map form)).1
      counts := d.counts.claimAll ((s.watch (paths.map form)).2.map form) } := by
  have hcall := deliver_list hu hs form caller (.watch paths)
  rw [after, List.foldl_cons, List.foldl_cons, List.foldl_nil, perform, perform, hcall]
  simp only [ScopedClaims.answer, ClaimRequest.reach_watchRequest?]

theorem after_unwatch (paths : List Path) :
    d.after form [.unwatch caller i paths, .deliver caller] =
    { d with
      owners := d.owners.set i (s.unwatch (paths.map form)).1
      counts := d.counts.releaseAll ((s.unwatch (paths.map form)).2.map form) } := by
  have hcall := deliver_list hu hs form caller (.unwatch paths)
  rw [after, List.foldl_cons, List.foldl_cons, List.foldl_nil, perform, perform, hcall]
  simp only [ScopedClaims.answer, ClaimRequest.reach_unwatchRequest?]

variable (hq : form q ∉ s.paths)
include hq

theorem perform_watch : d.perform form (.watch caller i [q]) =
    { d with owners := d.owners.set i ⟨s.paths ++ [form q]⟩,
             underway := [⟨caller, i, .watch [form q]⟩] } := by
  have hanswer : s.answer form (.watch [q]) = (⟨s.paths ++ [form q]⟩, some (.watch [form q])) := by
    simp [ScopedClaims.answer, ScopedClaims.watch_singleton hq, ScopedClaims.watchRequest?]
  simp [perform, Overlap.list, ofCaller?, hu, hs, hanswer]

/-- While an owner does not list a path, one caller may have it listed and another have it released,
and the release be counted first: it takes a claim that is not its own. -/
theorem after_overtaken (hf : form (form q) = form q) (hne : caller ≠ other) :
    d.after form [.watch caller i [q], .unwatch other i [q], .deliver other] =
      { d with counts := d.counts.release (form q),
               underway := [⟨caller, i, .watch [form q]⟩] } := by
  have hi : i < d.owners.length := (List.getElem?_eq_some_iff.mp hs).1
  have hback : (d.owners.set i ⟨s.paths ++ [form q]⟩).set i s = d.owners := by
    obtain ⟨_, rfl⟩ := List.getElem?_eq_some_iff.mp hs
    rw [List.set_set, List.set_getElem_self]
  have hanswer : ScopedClaims.answer form ⟨s.paths ++ [form q]⟩ (.unwatch [q]) =
    (s, some (.unwatch [form q])) := by
    simp [ScopedClaims.answer, ScopedClaims.unwatch, ScopedClaims.distinct,
      ScopedClaims.unwatchRequest?, List.erase_append_right _ hq]
  rw [after, List.foldl_cons, perform_watch hu hs hq]
  simp [perform, Overlap.list, Overlap.deliver, ofCaller?, hi, hne, hanswer, hback,
    ClaimRequest.reach, ClaimCounts.releaseAll, hf]

/-- The claim itself is counted when its own caller goes on, and nothing is left on the way. -/
theorem after_overtaken_deliver (hf : form (form q) = form q) (hne : caller ≠ other) :
    d.after form
      ([.watch caller i [q], .unwatch other i [q], .deliver other] ++ [.deliver caller]) =
      { d with counts := (d.counts.release (form q)).claim (form q) } := by
  have hovertaken := after_overtaken hu hs hq hf hne
  rw [after] at hovertaken
  rw [after, List.foldl_append, hovertaken]
  simp [perform, Overlap.deliver, ofCaller?, ClaimRequest.reach, ClaimCounts.claimAll, hf, hu]

end Calls

end Overlap

end HotReload
