import HotReload.Claim.Delegation
import HotReload.Proofs.Claim.Count
import Mathlib.Algebra.Ring.Parity
import Mathlib.Data.List.Induction
import Mathlib.Tactic.Tauto

/-!
# What owners remember

An owner lists a path if what it asked of its parent about it last was a claim, whether the parent
accepted that or refused it. About each path it asks for a claim and a release in turn, so that
after a refusal its list and what the parent holds for it are at odds until another request is
refused or the next one is accepted.
-/
namespace HotReload

namespace ClaimRequest

def paths : ClaimRequest → List Path
  | .watch paths | .unwatch paths => paths

def isWatch : ClaimRequest → Bool
  | .watch _ => true
  | .unwatch _ => false

end ClaimRequest

namespace Receipt

/-- The requests of one owner that name a path, in the order they came. -/
def about (owner : Nat) (p : Path) (receipts : List Receipt) : List Receipt :=
  receipts.filter fun r => r.owner = owner ∧ p ∈ r.request.paths

/-- Whether the last of some requests was a claim. -/
def endsInWatch (receipts : List Receipt) : Bool := receipts.getLast?.any (·.request.isWatch)

def accepted (receipts : List Receipt) : List Receipt := receipts.filter (·.isAccepted)

/-- How many of some requests were refused since the last one that was accepted. -/
def refusedSince (receipts : List Receipt) : Nat :=
  (receipts.reverse.takeWhile (!·.isAccepted)).length

/-- Whether some requests are claims and releases in turn, a claim first. -/
def TakeTurns (receipts : List Receipt) : Prop :=
  ∀ (k : Nat) (r : Receipt), receipts[k]? = some r → (r.request.isWatch = true ↔ Even k)

variable {receipts : List Receipt} {r : Receipt} {owner : Nat} {p : Path}

/-- The requests up to some moment are in turn as well. -/
theorem TakeTurns.of_append {later : List Receipt} (h : TakeTurns (receipts ++ later)) :
    TakeTurns receipts :=
  fun k r hk => h k r (by rw [List.getElem?_append_left (List.getElem?_eq_some_iff.mp hk).1, hk])

theorem takeTurns_append :
    TakeTurns (receipts ++ [r]) ↔ TakeTurns receipts ∧
      (r.request.isWatch = true ↔ Even receipts.length) := by
  constructor
  · intro h
    exact ⟨h.of_append, h receipts.length r (by simp)⟩
  · rintro ⟨h, hr⟩ k r' hk
    rw [List.getElem?_append] at hk
    split at hk
    · exact h k r' hk
    · obtain ⟨hzero, rfl⟩ : k - receipts.length = 0 ∧ r = r' := by
        simpa [List.getElem?_singleton] using hk
      obtain rfl : k = receipts.length := by omega
      exact hr

theorem endsInWatch_append : endsInWatch (receipts ++ [r]) = r.request.isWatch := by
  simp [endsInWatch]

/-- Where claims and releases take turns, the number of requests tells which comes last. -/
theorem TakeTurns.endsInWatch_iff (h : TakeTurns receipts) :
    endsInWatch receipts = true ↔ Odd receipts.length := by
  rcases List.eq_nil_or_concat receipts with rfl | ⟨before, r, rfl⟩
  · exact iff_of_false Bool.false_ne_true (by decide)
  · rw [List.concat_eq_append] at h ⊢
    rw [endsInWatch_append, (takeTurns_append.mp h).2, List.length_append, List.length_singleton,
      Nat.odd_add_one, Nat.not_odd_iff_even]

theorem refusedSince_append :
    refusedSince (receipts ++ [r]) = if r.isAccepted then 0 else refusedSince receipts + 1 := by
  rw [refusedSince, List.reverse_append, List.reverse_singleton, List.singleton_append,
    List.takeWhile_cons]
  cases r.isAccepted <;> rfl

theorem accepted_append :
    accepted (receipts ++ [r]) = accepted receipts ++ if r.isAccepted then [r] else [] := by
  rw [accepted, List.filter_append]
  cases h : r.isAccepted <;> simp [accepted, h]

/-- What was asked for last is what was accepted last unless an odd number of
requests was refused since. -/
theorem TakeTurns.agrees_iff (h : TakeTurns receipts) :
    (endsInWatch receipts = true ↔ endsInWatch (accepted receipts) = true) ↔
      Even (refusedSince receipts) := by
  induction receipts using List.reverseRecOn with
  | nil => exact iff_of_true Iff.rfl (by decide)
  | append_singleton before r ih =>
    have hbefore := (takeTurns_append.mp h).1
    rw [refusedSince_append, accepted_append]
    by_cases ha : r.isAccepted = true
    · rw [if_pos ha, if_pos ha, endsInWatch_append, endsInWatch_append]
      exact iff_of_true Iff.rfl (by decide)
    · -- a refused request turns what was asked for last, and leaves what was accepted last
      have hturned : endsInWatch (before ++ [r]) = true ↔ ¬endsInWatch before = true := by
        rw [endsInWatch_append, (takeTurns_append.mp h).2, hbefore.endsInWatch_iff,
          Nat.not_odd_iff_even]
      rw [if_neg ha, if_neg ha, List.append_nil, hturned, Nat.even_add_one, ← ih hbefore]
      tauto

end Receipt

namespace ScopedClaims

variable {s : ScopedClaims} {paths : List Path} {form : Path → Path}

/-- What an owner makes of a call: paths that it asks about are listed exactly if they were not, and
then it asks for claims; all others stay as they were. -/
structure Passes (s : ScopedClaims) (result : ScopedClaims × Option ClaimRequest) : Prop where
  once : result.1.paths.Nodup
  turned : ∀ r, result.2 = some r → ∀ p ∈ r.paths,
    (p ∈ result.1.paths ↔ p ∉ s.paths) ∧ (r.isWatch = true ↔ p ∉ s.paths)
  kept : ∀ p, (∀ r, result.2 = some r → p ∉ r.paths) → (p ∈ result.1.paths ↔ p ∈ s.paths)

theorem watchRequest?_eq_some {added : List Path} {r : ClaimRequest} :
    watchRequest? added = some r ↔ added ≠ [] ∧ r = .watch added := by
  cases added <;> simp [watchRequest?, eq_comm]

theorem unwatchRequest?_eq_some {removed : List Path} {r : ClaimRequest} :
    unwatchRequest? removed = some r ↔ removed ≠ [] ∧ r = .unwatch removed := by
  cases removed <;> simp [unwatchRequest?, eq_comm]

theorem passes_watch (h : s.paths.Nodup) (paths : List Path) :
    Passes s ((s.watch paths).1, watchRequest? (s.watch paths).2) where
  once := nodup_watch h
  turned r hr p hp := by
    obtain ⟨-, rfl⟩ := watchRequest?_eq_some.mp hr
    obtain ⟨hasked, hnew⟩ := mem_added.mp hp
    exact ⟨iff_of_true (mem_watch.mpr (Or.inr hasked)) hnew, iff_of_true rfl hnew⟩
  kept p hp := by
    have hold : p ∈ paths → p ∈ s.paths := fun hasked => by
      by_contra hnew
      have hadded : p ∈ (s.watch paths).2 := mem_added.mpr ⟨hasked, hnew⟩
      exact hp _ (watchRequest?_eq_some.mpr ⟨List.ne_nil_of_mem hadded, rfl⟩) hadded
    exact mem_watch.trans (or_iff_left_of_imp hold)

theorem passes_unwatch (h : s.paths.Nodup) (paths : List Path) :
    Passes s ((s.unwatch paths).1, unwatchRequest? (s.unwatch paths).2) where
  once := nodup_unwatch h
  turned r hr p hp := by
    obtain ⟨-, rfl⟩ := unwatchRequest?_eq_some.mp hr
    obtain ⟨hasked, hlisted⟩ := mem_removed.mp hp
    exact ⟨iff_of_false (fun hm => ((mem_unwatch h).mp hm).2 hasked) (not_not_intro hlisted),
      iff_of_false Bool.false_ne_true (not_not_intro hlisted)⟩
  kept p hp := by
    have hasked : p ∈ s.paths → p ∉ paths := fun hlisted hasked => by
      have hremoved : p ∈ (s.unwatch paths).2 := mem_removed.mpr ⟨hasked, hlisted⟩
      exact hp _ (unwatchRequest?_eq_some.mpr ⟨List.ne_nil_of_mem hremoved, rfl⟩) hremoved
    exact (mem_unwatch h).trans (and_iff_left_of_imp hasked)

theorem passes_answer (h : s.paths.Nodup) (call : ScopedCall) : Passes s (s.answer form call) := by
  cases call with
  | watch paths => exact passes_watch h _
  | unwatch paths => exact passes_unwatch h _
  | close => exact passes_unwatch h _

/-- An owner that is to watch paths asks for those that it does not list. -/
theorem asks_watch {p : Path} : (∃ r, (s.answer form (.watch paths)).2 = some r ∧ p ∈ r.paths) ↔
    p ∈ paths.map form ∧ p ∉ s.paths := by
  rw [← mem_added]
  constructor
  · rintro ⟨r, hr, hp⟩
    obtain ⟨-, rfl⟩ := watchRequest?_eq_some.mp hr
    exact hp
  · exact fun hp => ⟨_, watchRequest?_eq_some.mpr ⟨List.ne_nil_of_mem hp, rfl⟩, hp⟩

/-- An owner that is to release paths gives up those that it lists. -/
theorem asks_unwatch {p : Path} : (∃ r, (s.answer form (.unwatch paths)).2 = some r ∧ p ∈ r.paths) ↔
    p ∈ paths.map form ∧ p ∈ s.paths := by
  rw [← mem_removed]
  constructor
  · rintro ⟨r, hr, hp⟩
    obtain ⟨-, rfl⟩ := unwatchRequest?_eq_some.mp hr
    exact hp
  · exact fun hp => ⟨_, unwatchRequest?_eq_some.mpr ⟨List.ne_nil_of_mem hp, rfl⟩, hp⟩

end ScopedClaims

namespace Delegation

open Receipt

variable {form : Path → Path} {d : Delegation}

/-- Whether each owner asks for claims and releases of a path in turn, and lists the paths that it
asked to claim last. -/
structure Remembers (d : Delegation) : Prop where
  once : ∀ s ∈ d.owners, s.paths.Nodup
  turns : ∀ i p, TakeTurns (about i p d.receipts)
  listed : ∀ i (s : ScopedClaims), d.owners[i]? = some s → ∀ p,
    p ∈ s.paths ↔ Odd (about i p d.receipts).length

theorem about_append (i : Nat) (p : Path) (receipts later : List Receipt) :
    about i p (receipts ++ later) = about i p receipts ++ about i p later := List.filter_append ..

section Turn

variable {s : ScopedClaims} {result : ScopedClaims × Option ClaimRequest} {t : ScopedTurn} {i : Nat}
  {p : Path}

/-- What the parent receives if the call comes to this request. -/
def received (t : ScopedTurn) (request : Option ClaimRequest) : List Receipt :=
  (request.map fun request => ⟨t.owner, request, t.refusal.isNone⟩).toList

theorem about_received {request : ClaimRequest} (hp : p ∈ request.paths) :
    about t.owner p (received t (some request)) = [⟨t.owner, request, t.refusal.isNone⟩] := by
  simp [about, received, hp]

theorem about_received_of_ne {request : Option ClaimRequest}
    (h : t.owner = i → ∀ r, request = some r → p ∉ r.paths) :
    about i p (received t request) = [] := by
  refine List.filter_eq_nil_iff.mpr fun receipt hreceipt => ?_
  obtain ⟨r, rfl, rfl⟩ := Option.map_eq_some_iff.mp (Option.mem_toList.mp hreceipt)
  simpa using fun howner => h howner r rfl

theorem perform_of_owner (hs : d.owners[t.owner]? = some s) : (d.perform form t).2 =
    { owners := d.owners.set t.owner (s.answer form t.call).1
      receipts := d.receipts ++ received t (s.answer form t.call).2 } := by
  rcases ha : s.answer form t.call with ⟨s', _ | request⟩ <;>
    simp [Delegation.perform, hs, ha, received]

/-- After a call the requests of each owner about a path still take turns: a path is claimed exactly
if it was not listed, that is, after an even number of requests. -/
theorem Remembers.takeTurns (h : d.Remembers) (hs : d.owners[t.owner]? = some s)
    (hpasses : s.Passes result) :
    TakeTurns (about i p (d.receipts ++ received t result.2)) := by
  rw [about_append]
  by_cases hasked : t.owner = i ∧ ∃ r, result.2 = some r ∧ p ∈ r.paths
  · obtain ⟨rfl, r, hr, hp⟩ := hasked
    rw [hr, about_received hp, takeTurns_append, (hpasses.turned r hr p hp).2, h.listed _ s hs p,
      Nat.not_odd_iff_even]
    exact ⟨h.turns _ p, Iff.rfl⟩
  · rw [about_received_of_ne fun howner r hr hp => hasked ⟨howner, r, hr, hp⟩, List.append_nil]
    exact h.turns i p

theorem Remembers.lists (h : d.Remembers) (hs : d.owners[t.owner]? = some s)
    (hpasses : s.Passes result) :
    p ∈ result.1.paths ↔ Odd (about t.owner p (d.receipts ++ received t result.2)).length := by
  rw [about_append]
  by_cases hasked : ∃ r, result.2 = some r ∧ p ∈ r.paths
  · obtain ⟨r, hr, hp⟩ := hasked
    rw [hr, about_received hp, (hpasses.turned r hr p hp).1, h.listed _ s hs p, List.length_append,
      List.length_singleton, Nat.odd_add_one]
  · have hkept : ∀ r, result.2 = some r → p ∉ r.paths := fun r hr hp => hasked ⟨r, hr, hp⟩
    rw [about_received_of_ne fun _ => hkept, List.append_nil, hpasses.kept p hkept,
      h.listed _ s hs p]

theorem Remembers.perform (h : d.Remembers) : (d.perform form t).2.Remembers := by
  rcases hs : d.owners[t.owner]? with _ | s
  · simp only [Delegation.perform, hs]
    exact h
  · have hpasses : s.Passes (s.answer form t.call) :=
      ScopedClaims.passes_answer (h.once s (List.mem_of_getElem? hs)) t.call
    rw [perform_of_owner hs]
    refine ⟨fun u hu => ?_, fun i p => h.takeTurns hs hpasses, fun i u hu p => ?_⟩
    · rcases List.mem_or_eq_of_mem_set hu with hu | rfl
      · exact h.once u hu
      · exact hpasses.once
    · by_cases hi : t.owner = i
      · subst hi
        rw [List.getElem?_set_self (List.getElem?_eq_some_iff.mp hs).1, Option.some.injEq] at hu
        rw [← hu]
        exact h.lists hs hpasses
      · -- to the other owners nothing happens
        rw [List.getElem?_set_ne hi] at hu
        rw [about_append, about_received_of_ne fun howner => absurd howner hi, List.append_nil]
        exact h.listed i u hu p

end Turn

theorem remembers_new (owners : Nat) :
    ({ owners := List.replicate owners {} } : Delegation).Remembers where
  once s hs := by
    obtain ⟨-, rfl⟩ := List.mem_replicate.mp hs
    exact List.nodup_nil
  turns i p k r hr := by cases hr
  listed i s hs p := by
    obtain ⟨-, rfl⟩ := List.mem_replicate.mp (List.mem_of_getElem? hs)
    exact iff_of_false List.not_mem_nil Nat.not_odd_zero

/-- A sequence of calls is a step at a time from owners that list nothing. -/
theorem after_induction {P : Delegation → Prop} {owners : Nat}
    (start : P { owners := List.replicate owners {} }) (step : ∀ d t, P d → P (d.perform form t).2)
    (turns : List ScopedTurn) : P (after form owners turns) := by
  induction turns using List.reverseRecOn with
  | nil => exact start
  | append_singleton before t ih =>
    rw [after, List.foldl_append]
    exact step _ t ih

theorem remembers_after (owners : Nat) (turns : List ScopedTurn) :
    (after form owners turns).Remembers :=
  after_induction (remembers_new owners) (fun _ _ h => h.perform) turns

theorem length_perform (t : ScopedTurn) : (d.perform form t).2.owners.length = d.owners.length := by
  unfold Delegation.perform
  split
  · rfl
  · split <;> simp

/-- Whatever calls are made to any number of owners, and whatever their parent refuses: each owner
lists the paths that it asked to claim last, and these are the ones that its parent accepted as
claims last unless an odd number of requests about the path was refused since. A release reaches the
parent for a claim that it holds under the same condition. What an owner asks for next goes by its
list, so that a refused claim is not asked for again, and a refused release not given up again. -/
theorem remembers_asked (form : Path → Path) (owners : Nat) (turns : List ScopedTurn) :
    let d := after form owners turns
    d.owners.length = owners ∧
    (∀ i s, d.owners[i]? = some s → s.paths.Nodup ∧ ∀ p,
      (p ∈ s.paths ↔ endsInWatch (about i p d.receipts) = true) ∧
      ((p ∈ s.paths ↔ endsInWatch (accepted (about i p d.receipts)) = true) ↔
        Even (refusedSince (about i p d.receipts)))) ∧
    (∀ before r later, d.receipts = before ++ r :: later → r.request.isWatch = false →
      ∀ p ∈ r.request.paths,
      (endsInWatch (accepted (about r.owner p before)) = true ↔
        Even (refusedSince (about r.owner p before)))) ∧
    ∀ i s paths, d.owners[i]? = some s → ∀ p,
      ((∃ r, (s.answer form (.watch paths)).2 = some r ∧ p ∈ r.paths) ↔
        p ∈ paths.map form ∧ endsInWatch (about i p d.receipts) = false) ∧
      ((∃ r, (s.answer form (.unwatch paths)).2 = some r ∧ p ∈ r.paths) ↔
        p ∈ paths.map form ∧ endsInWatch (about i p d.receipts) = true) := by
  intro d
  have hd : d.Remembers := remembers_after owners turns
  have hlisted (i : Nat) (s : ScopedClaims) (hs : d.owners[i]? = some s) (p : Path) :
      p ∈ s.paths ↔ endsInWatch (about i p d.receipts) = true := by
    rw [hd.listed i s hs, (hd.turns i p).endsInWatch_iff]
  refine ⟨?_, fun i s hs => ⟨hd.once s (List.mem_of_getElem? hs), fun p => ⟨hlisted i s hs p, ?_⟩⟩,
    ?_, ?_⟩
  · exact after_induction (P := fun d => d.owners.length = owners) (by simp)
      (fun _ t h => (length_perform t).trans h) turns
  · rw [hlisted i s hs p]
    exact (hd.turns i p).agrees_iff
  · intro before r later hr hwatch p hp
    -- the owner listed what it gives up, so the release came after a claim
    have habout : about r.owner p d.receipts = about r.owner p before ++ [r] ++ about r.owner p
      later := by
      rw [hr, List.append_cons, about, List.filter_append, List.filter_append]
      simp [about, hp]
    have hturns := hd.turns r.owner p
    rw [habout] at hturns
    obtain ⟨hbefore, hlast⟩ := takeTurns_append.mp (hturns.of_append)
    have hasked : endsInWatch (about r.owner p before) = true := by
      rw [hbefore.endsInWatch_iff, ← Nat.not_even_iff_odd, ← hlast, hwatch]
      exact Bool.false_ne_true
    rw [← hbefore.agrees_iff]
    exact (iff_true_left hasked).symm
  · intro i s paths hs p
    rw [ScopedClaims.asks_watch, ScopedClaims.asks_unwatch, hlisted i s hs p, Bool.not_eq_true]
    exact ⟨Iff.rfl, Iff.rfl⟩

/-- The path `a`, claimed by the one owner and refused. -/
def refusedTurn : ScopedTurn :=
  ⟨0, .watch [⟨.relative, ["a"]⟩], some (.raised "RuntimeError" "refused")⟩

/-- A refused claim stays on the list, and the next call does not ask for it again. -/
theorem remembers_asked_refused :
    let d := after id 1 [refusedTurn]
    ∃ s, d.owners[0]? = some s ∧ ⟨.relative, ["a"]⟩ ∈ s.paths ∧
      endsInWatch (accepted (about 0 ⟨.relative, ["a"]⟩ d.receipts)) = false ∧
      ¬∃ r, (s.answer id (.watch [⟨.relative, ["a"]⟩])).2 = some r ∧
        ⟨.relative, ["a"]⟩ ∈ r.paths := by
  obtain ⟨-, hlisted, -, hnext⟩ := remembers_asked id 1 [refusedTurn]
  refine ⟨⟨[⟨.relative, ["a"]⟩]⟩, rfl, ((hlisted 0 _ rfl).2 _).1.mpr rfl, by
    decide, fun hasked => ?_⟩
  exact absurd (((hnext 0 _ [⟨.relative, ["a"]⟩] rfl _).1.mp hasked).2) (by decide)

end Delegation

end HotReload
