import Mathlib.Data.Finset.Card
import HotReload.Plan.Closure

/-!
# The walk finds the closure

The breadth-first walk over declared dependencies ends with exactly the paths that are
reached from the changed ones. The bound on its rounds is never what ends it: a round
takes one path off, and what it adds was missing from the queue.
-/
namespace HotReload.DependencyTable

/-- What is reached from the seeds that are not excluded, over scripts that depend on
something reached and are not excluded themselves. -/
inductive Closure (table : DependencyTable) (seed excluded : Path → Prop) : Path → Prop
  | seed {p : Path} : seed p → ¬ excluded p → Closure table seed excluded p
  | dependent {p q : Path} : Closure table seed excluded p → q ∈ table.dependents p →
      ¬ excluded q → Closure table seed excluded q

/-- The other scripts that depend on a path are those that are listed with it. -/
theorem mem_dependents {table : DependencyTable} {p q : Path} :
    q ∈ table.dependents p ↔ q ≠ p ∧ ∃ dependencies,
      (q, dependencies) ∈ table ∧ p ∈ dependencies := by
  simp only [dependents, List.mem_map, List.mem_filter, decide_eq_true_eq]
  constructor
  · rintro ⟨⟨q', ds⟩, ⟨hm, hne, hd⟩, rfl⟩
    exact ⟨hne, ds, hm, hd⟩
  · rintro ⟨hne, ds, hm, hd⟩
    exact ⟨(q, ds), ⟨hm, hne, hd⟩, rfl⟩

/-- Enqueueing puts the new paths behind the queue, each once. -/
theorem enqueue_eq (exclude ps queue : List Path) :
    (enqueue exclude ps queue).1 = queue ++ (enqueue exclude ps queue).2 := by
  induction ps generalizing queue with
  | nil => simp [enqueue]
  | cons p rest ih =>
    by_cases h : p ∈ queue ∨ p ∈ exclude
    · simp only [enqueue, if_pos h]
      exact ih queue
    · simp only [enqueue, if_neg h]
      rw [ih (queue ++ [p])]
      simp

theorem mem_enqueue {exclude ps queue : List Path} {p : Path} :
    p ∈ (enqueue exclude ps queue).2 ↔ p ∈ ps ∧ p ∉ queue ∧ p ∉ exclude := by
  induction ps generalizing queue with
  | nil => simp [enqueue]
  | cons q rest ih =>
    by_cases h : q ∈ queue ∨ q ∈ exclude
    · simp only [enqueue, if_pos h, ih, List.mem_cons]
      constructor
      · rintro ⟨hr, hq, he⟩
        exact ⟨Or.inr hr, hq, he⟩
      · rintro ⟨rfl | hr, hq, he⟩
        · exact absurd h (by simp [hq, he])
        · exact ⟨hr, hq, he⟩
    · simp only [enqueue, if_neg h, List.mem_cons, ih, List.mem_append]
      grind

theorem nodup_enqueue (exclude ps queue : List Path) : (enqueue exclude ps queue).2.Nodup := by
  induction ps generalizing queue with
  | nil => simp [enqueue]
  | cons p rest ih =>
    by_cases h : p ∈ queue ∨ p ∈ exclude
    · simp only [enqueue, if_pos h]
      exact ih queue
    · simp only [enqueue, if_neg h, List.nodup_cons]
      refine ⟨fun hp => ?_, ih _⟩
      have hq := (mem_enqueue.mp hp).2.1
      simp at hq

/-- How many listed scripts a queue does not hold yet. -/
def missing (table : DependencyTable) (queue : List Path) : Nat :=
  ((table.map (·.1)).toFinset \ queue.toFinset).card

theorem missing_append {table : DependencyTable} {queue new : List Path} (hn : new.Nodup)
    (hq : ∀ p ∈ new, p ∉ queue) (ht : ∀ p ∈ new, p ∈ table.map (·.1)) :
    missing table (queue ++ new) + new.length = missing table queue := by
  have hsub : new.toFinset ⊆ (table.map (·.1)).toFinset \ queue.toFinset := by
    intro p hp
    rw [List.mem_toFinset] at hp
    rw [Finset.mem_sdiff, List.mem_toFinset, List.mem_toFinset]
    exact ⟨ht p hp, hq p hp⟩
  have hcard : new.toFinset.card = new.length := List.toFinset_card_of_nodup hn
  have hsplit : (table.map (·.1)).toFinset \ (queue ++ new).toFinset =
      ((table.map (·.1)).toFinset \ queue.toFinset) \ new.toFinset := by
    rw [List.toFinset_append, Finset.sdiff_union_distrib]
    ext p
    simp only [Finset.mem_inter, Finset.mem_sdiff]
    tauto
  have hle := Finset.card_le_card hsub
  unfold missing
  rw [hsplit, Finset.card_sdiff_of_subset hsub]
  omega

/-- What holds of a walk under way: it only meets paths of the closure, and of those it has
met, each still waits or has its dependents in the queue. -/
structure Walked (table : DependencyTable) (seed : Path → Prop)
    (exclude queue pending : List Path) :
    Prop where
  nodup : queue.Nodup
  sound : ∀ p ∈ queue, Closure table seed (· ∈ exclude) p
  seeded : ∀ p, seed p → p ∉ exclude → p ∈ queue
  waiting : ∀ p ∈ pending, p ∈ queue
  covered : ∀ p ∈ queue, p ∈ pending ∨ ∀ q ∈ table.dependents p, q ∉ exclude → q ∈ queue

variable {table : DependencyTable} {seed : Path → Prop} {exclude queue pending : List Path}

theorem walked_seeds (table : DependencyTable) (changed exclude : List Path) :
    Walked table (· ∈ changed) exclude (enqueue exclude changed []).1
      (enqueue exclude changed []).2 := by
  rw [enqueue_eq, List.nil_append]
  refine ⟨nodup_enqueue _ _ _, fun p hp => ?_, fun p hp he => ?_, fun p hp => hp, fun p hp =>
    Or.inl hp⟩
  · obtain ⟨hc, -, he⟩ := mem_enqueue.mp hp
    exact .seed hc he
  · exact mem_enqueue.mpr ⟨hp, by simp, he⟩

/-- One turn of the walk, from what it has met and what of it still waits: the path at
the front is looked at. -/
def turn (table : DependencyTable) (exclude : List Path) :
    List Path × List Path → List Path × List Path
  | (queue, []) => (queue, [])
  | (queue, current :: pending) =>
    ((enqueue exclude (table.dependents current) queue).1,
      pending ++ (enqueue exclude (table.dependents current) queue).2)

theorem turns_nil (table : DependencyTable) (exclude queue : List Path) (n : Nat) :
    (turn table exclude)^[n] (queue, []) = (queue, []) :=
  Function.iterate_fixed rfl n

theorem walk_eq_iterate (table : DependencyTable) (exclude : List Path) (rounds : Nat)
    (queue pending : List Path) :
    walk table exclude rounds queue pending =
      ((turn table exclude)^[rounds] (queue, pending)).1 := by
  induction rounds generalizing queue pending with
  | zero => rfl
  | succ rounds ih =>
    rw [Function.iterate_succ_apply]
    cases pending with
    | nil =>
      rw [turn, turns_nil]
      simp [walk]
    | cons current pending => exact ih _ _

/-- Looking at one path keeps what holds of the walk. -/
theorem Walked.step {current : Path} (h : Walked table seed exclude queue (current :: pending)) :
    Walked table seed exclude (enqueue exclude (table.dependents current) queue).1
      (pending ++ (enqueue exclude (table.dependents current) queue).2) := by
  have hc : current ∈ queue := h.waiting current (by simp)
  rw [enqueue_eq]
  constructor
  · refine List.Nodup.append h.nodup (nodup_enqueue _ _ _) fun p hp hn => ?_
    exact (mem_enqueue.mp hn).2.1 hp
  · intro p hp
    rcases List.mem_append.mp hp with hq | hn
    · exact h.sound p hq
    · obtain ⟨hd, -, he⟩ := mem_enqueue.mp hn
      exact .dependent (h.sound current hc) hd he
  · intro p hp he
    exact List.mem_append_left _ (h.seeded p hp he)
  · intro p hp
    rcases List.mem_append.mp hp with hq | hn
    · exact List.mem_append_left _ (h.waiting p (List.mem_cons_of_mem _ hq))
    · exact List.mem_append_right _ hn
  · intro p hp
    rcases List.mem_append.mp hp with hq | hn
    · rcases h.covered p hq with hw | hd
      · rcases List.mem_cons.mp hw with rfl | hw
        · right
          intro q hq' he
          by_cases hin : q ∈ queue
          · exact List.mem_append_left _ hin
          · exact List.mem_append_right _ (mem_enqueue.mpr ⟨hq', hin, he⟩)
        · exact Or.inl (List.mem_append_left _ hw)
      · exact Or.inr fun q hq' he => List.mem_append_left _ (hd q hq' he)
    · exact Or.inl (List.mem_append_right _ hn)

theorem Walked.turns {s : List Path × List Path} (h : Walked table seed exclude s.1 s.2) (n : Nat) :
    Walked table seed exclude ((turn table exclude)^[n] s).1 ((turn table exclude)^[n] s).2 := by
  induction n generalizing s with
  | zero => exact h
  | succ n ih =>
    rw [Function.iterate_succ_apply]
    refine ih ?_
    obtain ⟨queue, _ | ⟨current, pending⟩⟩ := s
    · exact h
    · exact h.step

/-- A turn looks at one path and may add as many as it takes from the missing ones, so enough
turns leave none waiting. -/
theorem turns_settle {s : List Path × List Path} {n : Nat}
    (hn : s.2.length + missing table s.1 ≤ n) :
    ((turn table exclude)^[n] s).2 = [] := by
  induction n generalizing s with
  | zero => exact List.length_eq_zero_iff.mp (by simpa using (by omega : s.2.length = 0))
  | succ n ih =>
    obtain ⟨queue, _ | ⟨current, pending⟩⟩ := s
    · rw [turns_nil]
    · rw [Function.iterate_succ_apply]
      refine ih ?_
      have hkey : ∀ p ∈ (enqueue exclude (table.dependents current) queue).2,
        p ∈ table.map (·.1) := by
        intro p hp
        obtain ⟨-, ds, hd, -⟩ := mem_dependents.mp (mem_enqueue.mp hp).1
        exact List.mem_map.mpr ⟨_, hd, rfl⟩
      have hm := missing_append (nodup_enqueue exclude (table.dependents current) queue)
        (fun p hp => (mem_enqueue.mp hp).2.1) hkey
      rw [← enqueue_eq] at hm
      simp only [turn, List.length_append, List.length_cons] at hn ⊢
      omega

/-- At the end of a walk the queue is the closure. -/
theorem Walked.mem_iff (h : Walked table seed exclude queue []) {p : Path} :
    p ∈ queue ↔ Closure table seed (· ∈ exclude) p := by
  refine ⟨h.sound p, fun hp => ?_⟩
  induction hp with
  | seed hs he => exact h.seeded _ hs he
  | dependent _ hq he ih =>
    rcases h.covered _ ih with hw | hd
    · simp at hw
    · exact hd _ hq he

/-- The bound that `expand` puts on its rounds leaves nothing waiting. -/
theorem turns_expand (table : DependencyTable) (changed exclude : List Path) :
    (turn table exclude)^[changed.length + table.length + 1] (enqueue exclude changed []) =
      (table.expand changed exclude, []) := by
  refine Prod.ext (walk_eq_iterate _ _ _ _ _).symm (turns_settle ?_)
  have hs : (enqueue exclude changed []).2.length ≤ changed.length :=
    ((nodup_enqueue _ _ _).subperm fun p hp => (mem_enqueue.mp hp).1).length_le
  have hk : missing table (enqueue exclude changed []).1 ≤ table.length := by
    refine (Finset.card_le_card Finset.sdiff_subset).trans ((List.toFinset_card_le _).trans ?_)
    rw [List.length_map]
  omega

theorem walked_expand (table : DependencyTable) (changed exclude : List Path) :
    Walked table (· ∈ changed) exclude (table.expand changed exclude) [] := by
  have h := (walked_seeds table changed exclude).turns (changed.length + table.length + 1)
  rwa [turns_expand] at h

/-- What has to be reloaded is the closure of the changed paths. -/
theorem mem_expand {changed : List Path} {p : Path} :
    p ∈ table.expand changed exclude ↔ Closure table (· ∈ changed) (· ∈ exclude) p :=
  (walked_expand table changed exclude).mem_iff

theorem nodup_expand (table : DependencyTable) (changed exclude : List Path) :
    (table.expand changed exclude).Nodup :=
  (walked_expand table changed exclude).nodup

section Order

/-- The new paths come in the order in which they first occur. -/
theorem enqueue_eq_eraseDups (exclude ps queue : List Path) :
    (enqueue exclude ps queue).2 = (ps.filter fun p => p ∉ queue ∧ p ∉ exclude).eraseDups := by
  induction ps generalizing queue with
  | nil => rfl
  | cons p rest ih =>
    by_cases h : p ∈ queue ∨ p ∈ exclude
    · rw [enqueue, if_pos h, ih,
        List.filter_cons_of_neg (by simpa using fun hq => h.resolve_left hq)]
    · have hp : p ∉ queue ∧ p ∉ exclude := not_or.mp h
      rw [enqueue, if_neg h, List.filter_cons_of_pos (by simpa using hp), List.eraseDups_cons,
        List.filter_filter]
      simp only [ih, List.cons.injEq, true_and]
      congr 1
      refine List.filter_congr fun q _ => ?_
      by_cases hqp : q = p <;> simp [hqp, hp]

/-- Behind the first paths, each path comes after one that it depends on. -/
def IsLed (table : DependencyTable) (firsts queue : List Path) : Prop :=
  ∃ rest, queue = firsts ++ rest ∧
    ∀ l q r, rest = l ++ q :: r → ∃ p ∈ firsts ++ l, q ∈ table.dependents p

variable {firsts : List Path}

/-- What leads a path may come anywhere before it, so dependents of what is
there may be put behind. -/
theorem IsLed.append {current : Path} {new : List Path} (h : IsLed table firsts queue)
    (hc : current ∈ queue) (hn : ∀ q ∈ new, q ∈ table.dependents current) :
    IsLed table firsts (queue ++ new) := by
  obtain ⟨rest, rfl, hled⟩ := h
  refine ⟨rest ++ new, List.append_assoc _ _ _, fun l q r he => ?_⟩
  rcases List.append_eq_append_iff.mp he with ⟨l', rfl, hnew⟩ | ⟨r', hrest, hr⟩
  · refine ⟨current, ?_, hn q (by simp [hnew])⟩
    rw [← List.append_assoc]
    exact List.mem_append_left _ hc
  · cases r' with
    | nil =>
      rw [List.append_nil] at hrest
      subst hrest
      obtain rfl : q :: r = new := hr
      exact ⟨current, hc, hn q (by simp)⟩
    | cons q' r' =>
      obtain ⟨rfl, -⟩ := List.cons.inj hr
      exact hled l q r' hrest

theorem IsLed.turns {s : List Path × List Path} (h : IsLed table firsts s.1) (hs : s.2 ⊆ s.1)
    (exclude : List Path) (n : Nat) :
    IsLed table firsts ((turn table exclude)^[n] s).1 := by
  induction n generalizing s with
  | zero => exact h
  | succ n ih =>
    rw [Function.iterate_succ_apply]
    obtain ⟨queue, _ | ⟨current, pending⟩⟩ := s
    · exact ih h hs
    · refine ih ?_ ?_
      · simp only [turn, enqueue_eq exclude _ queue]
        exact h.append (hs (by simp)) fun q hq => (mem_enqueue.mp hq).1
      · simp only [turn, enqueue_eq exclude _ queue]
        refine List.append_subset.mpr
          ⟨fun p hp => List.mem_append_left _ (hs (List.mem_cons_of_mem _ hp)), ?_⟩
        exact List.subset_append_right _ _

/-- The changed paths come first, as they first occur, and then whatever depends
on something before it. -/
theorem isLed_expand (table : DependencyTable) (changed exclude : List Path) :
    IsLed table (changed.filter (· ∉ exclude)).eraseDups (table.expand changed exclude) := by
  have hs : (enqueue exclude changed []).1 = (changed.filter (· ∉ exclude)).eraseDups := by
    rw [enqueue_eq, enqueue_eq_eraseDups]
    simp
  have hled : IsLed table (changed.filter (· ∉ exclude)).eraseDups (enqueue exclude changed []).1 :=
    ⟨[], by rw [hs, List.append_nil], by simp⟩
  have hseeds : (enqueue exclude changed []).2 ⊆ (enqueue exclude changed []).1 :=
    (walked_seeds table _ _).waiting
  have h := hled.turns hseeds exclude (changed.length + table.length + 1)
  rwa [turns_expand] at h

/-- The paths that were looked at are as many as there were turns, and the others still wait. -/
theorem pending_turns (table : DependencyTable) (exclude : List Path) {s : List Path × List Path}
    (hs : s.2 = s.1) (n : Nat) :
    ((turn table exclude)^[n] s).2 = ((turn table exclude)^[n] s).1.drop n := by
  induction n with
  | zero => simpa using hs
  | succ n ih =>
    rw [Function.iterate_succ_apply']
    rcases h : (turn table exclude)^[n] s with ⟨queue, _ | ⟨current, pending⟩⟩
    · rw [h] at ih
      have hlen : queue.length ≤ n := List.drop_eq_nil_iff.mp ih.symm
      exact (List.drop_eq_nil_of_le (hlen.trans n.le_succ)).symm
    · rw [h] at ih
      have hlen : n + 1 ≤ queue.length := by
        have := congrArg List.length ih
        simp only [List.length_cons, List.length_drop] at this
        omega
      simp only [turn, enqueue_eq exclude _ queue]
      rw [List.drop_append_of_le_length hlen, ← List.drop_drop, ← ih, List.drop_one, List.tail_cons]

theorem prefix_turns (table : DependencyTable) (exclude : List Path) (s : List Path × List Path)
    (n : Nat) :
    s.1 <+: ((turn table exclude)^[n] s).1 := by
  induction n with
  | zero => exact List.prefix_refl _
  | succ n ih =>
    rw [Function.iterate_succ_apply']
    refine ih.trans ?_
    rcases (turn table exclude)^[n] s with ⟨queue, _ | ⟨current, pending⟩⟩
    · exact List.prefix_refl _
    · simp only [turn, enqueue_eq exclude _ queue, List.prefix_append]

/-- The loop ends, and it takes as many turns as it finds paths. -/
theorem turns_eq_expand_iff (table : DependencyTable) (changed exclude : List Path) (n : Nat) :
    (turn table exclude)^[n] (enqueue exclude changed []) = (table.expand changed exclude, []) ↔
      (table.expand changed exclude).length ≤ n := by
  have hs : (enqueue exclude changed []).2 = (enqueue exclude changed []).1 := by
    rw [enqueue_eq, List.nil_append]
  have hp := pending_turns table exclude hs n
  -- whatever the turns so far have come to, going on with it comes to the same as `expand`
  have hrest : (turn table exclude)^[changed.length + table.length + 1]
      ((turn table exclude)^[n] (enqueue exclude changed [])) =
        (table.expand changed exclude, []) := by
    rw [← Function.iterate_add_apply, Nat.add_comm, Function.iterate_add_apply, turns_expand,
      turns_nil]
  have hle := prefix_turns table exclude
    ((turn table exclude)^[n] (enqueue exclude changed [])) (changed.length + table.length + 1)
  rw [hrest] at hle
  constructor
  · intro he
    rw [he] at hp
    exact List.drop_eq_nil_iff.mp hp.symm
  · intro hn
    rw [List.drop_eq_nil_of_le (hle.length_le.trans hn)] at hp
    rcases h : (turn table exclude)^[n] (enqueue exclude changed []) with ⟨queue, pending⟩
    rw [h] at hp hrest
    obtain rfl : pending = [] := hp
    rwa [turns_nil] at hrest

end Order

end HotReload.DependencyTable
