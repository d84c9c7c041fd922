import HotReload.Proofs.Host.Idle
import HotReload.Proofs.Host.Listing
import HotReload.Proofs.Host.Replacement

/-!
# Handing claims over

A commit goes through stages, one for each instance that it runs and for each that it
terminates. What a replaced instance lists is watched until everything is run, because nothing
tears that instance down before; what a new instance lists once its body has ended is watched
from then on, because the commit does not tear that one down.
-/
namespace HotReload

open World Moment Operation

variable {R : Regime} {root : Path} {c₀ : Path → Option Path} {m m' m'' : Moment} {n old new : Nat}
  {p : Path}

/-- What holds at every moment of a run before the host is shut down. -/
structure Moment.IsRegular (R : Regime) (root : Path) (c₀ : Path → Option Path) (m : Moment) :
    Prop where
  sane : m.IsSane
  orderly : m.IsOrderly R
  blank : m.IsBlank
  parted : ∀ c, .commit c ∈ m.pending → c.IsParted
  balanced : m.world.IsBalanced R root c₀

theorem World.IsNew.isRegular {w : World} (h : w.IsNew) (htarget : w.claimTarget = .counted)
    (ht : R.tree w.files) :
    IsRegular R w.root c₀ ⟨w, []⟩ where
  sane := h.isSane
  orderly := h.isOrderly
  blank n _ := by
    refine ⟨List.not_mem_nil, fun p => ?_⟩
    rintro ⟨s, hs, -⟩
    rw [script?, h.scripts] at hs
    cases hs
  parted c hc := by simp [pending, h.tasks] at hc
  balanced := h.isBalanced htarget ht

theorem Walk.isRegular (h : Walk R m m') (hR : R.IsSteady root c₀) (hm : m.IsRegular R root c₀) :
    m'.IsRegular R root c₀ where
  sane := Walk.isSane h hm.sane
  orderly := Walk.isOrderly h hm.sane hm.orderly
  blank := Walk.isBlank h hm.sane hm.orderly hm.blank
  parted := Walk.isParted h hm.sane hm.parted
  balanced := Walk.isBalanced h hR hm.balanced

/-- What an instance lists once its body has ended is watched as long as it is not torn down. -/
theorem Walk.watched (hR : R.IsSteady root c₀) (hm : m.IsRegular R root c₀)
    (hb : .body n ∉ m.duties) (hl : m.world.Lists n p) (h : Walk R m m') (h' : Walk R m' m'')
    (hlive : m''.world.IsLive n) :
    p ∈ m'.world.watched := by
  have hm' := Walk.isRegular h hR hm
  have ⟨s, hs, _⟩ := hl
  obtain ⟨s', hs', -⟩ := Walk.script? h hs
  have hlive' : m'.world.IsLive n := Walk.isLive h' hm'.sane hm'.orderly hs' hlive
  have hkept := Walk.lists h hm.sane hm.orderly (hm.blank.hasRun hl hb) hlive' hl
  exact watched_of_lists hm'.balanced.accounts hkept.1

/-- The first instances that a commit runs, and when it has run all, terminates. -/
def Commit.take (k : Nat) (c : Commit) : Commit :=
  ⟨c.toRun.take k, c.toTerminate.take (k - c.toRun.length)⟩

/-- What is left of a commit after the first of its instances. -/
def Commit.drop (k : Nat) (c : Commit) : Commit :=
  ⟨c.toRun.drop k, c.toTerminate.drop (k - c.toRun.length)⟩

/-- A world in which the first instances of a commit were run or terminated. -/
def World.stage (host : HostRequest → Act HostAnswer) (c : Commit) (k : Nat) (w : World) : World :=
  (commit host (c.take k) w).2

namespace Commit

variable {c : Commit} {k : Nat}

theorem take_of_le (hk : k ≤ c.toRun.length) : c.take k = ⟨c.toRun.take k, []⟩ := by
  rw [take, Nat.sub_eq_zero_of_le hk]
  rfl

theorem drop_of_le (hk : k ≤ c.toRun.length) : c.drop k = ⟨c.toRun.drop k, c.toTerminate⟩ := by
  rw [drop, Nat.sub_eq_zero_of_le hk]
  rfl

theorem take_of_ge (hk : c.toRun.length ≤ k) :
    c.take k = ⟨c.toRun, c.toTerminate.take (k - c.toRun.length)⟩ := by
  rw [take, List.take_of_length_le hk]

theorem drop_of_ge (hk : c.toRun.length ≤ k) :
    c.drop k = ⟨[], c.toTerminate.drop (k - c.toRun.length)⟩ := by
  rw [drop, List.drop_of_length_le hk]

theorem drop_add (c : Commit) (i k : Nat) : (c.drop i).drop k = c.drop (i + k) := by
  have hsum : i - c.toRun.length + (k - (c.toRun.length - i)) = i + k - c.toRun.length := by omega
  simp only [drop, List.drop_drop, List.length_drop, hsum]

theorem take_nil (k : Nat) (toTerminate : List Nat) :
    Commit.take k ⟨[], toTerminate⟩ = ⟨[], toTerminate.take k⟩ := by
  simp [take]

theorem take_all (c : Commit) : c.take (c.toRun.length + c.toTerminate.length) = c := by
  rw [take_of_ge (Nat.le_add_right ..), Nat.add_sub_cancel_left, List.take_length]

end Commit

namespace World

variable {host : HostRequest → Act HostAnswer} {c : Commit} {k : Nat} {w w' : World}

theorem commit_append_toRun (host : HostRequest → Act HostAnswer)
    (first rest toTerminate : List Nat) :
    commit host ⟨first ++ rest, toTerminate⟩ =
      commit host ⟨first, []⟩ >>= fun _ => commit host ⟨rest, toTerminate⟩ := by
  simp only [commit, List.forM_eq_forM, List.forM_append, List.forM_nil, bind_assoc, pure_bind]

theorem commit_append_toTerminate (host : HostRequest → Act HostAnswer)
    (toRun first rest : List Nat) :
    commit host ⟨toRun, first ++ rest⟩ =
      commit host ⟨toRun, first⟩ >>= fun _ => commit host ⟨[], rest⟩ := by
  simp only [commit, List.forM_eq_forM, List.forM_append, List.forM_nil, bind_assoc, pure_bind]

/-- From one stage of a commit the next ones are those of what is left of it. -/
theorem commit_take_add (host : HostRequest → Act HostAnswer) (c : Commit) (i k : Nat) :
    commit host (c.take (i + k)) = commit host (c.take i) >>= fun _ =>
      commit host ((c.drop i).take k) := by
  by_cases hi : i ≤ c.toRun.length
  · have hleft : i + k - c.toRun.length = k - (c.toRun.length - i) := by omega
    rw [Commit.take_of_le hi, Commit.drop_of_le hi, ← commit_append_toRun, Commit.take, Commit.take,
      List.take_add, List.length_drop, hleft]
  · have hi : c.toRun.length ≤ i := by omega
    have hleft : i + k - c.toRun.length = i - c.toRun.length + k := by omega
    rw [Commit.take_of_ge hi, Commit.drop_of_ge hi, Commit.take_of_ge (by omega), hleft,
      List.take_add, commit_append_toTerminate, Commit.take_nil]

/-- Every stage of a commit is reached, whatever scripts ask of the host meanwhile. -/
theorem Reached.stage {m₀ : Moment} {K : List Duty} (hh : Reached.Serves R host)
    (h : Reached R m₀ (.commit c :: K) w) (k : Nat) :
    commit host (c.take k) w = (.ok (), w.stage host c k) ∧
      Reached R m₀ (.commit (c.drop k) :: K) (w.stage host c k) := by
  obtain ⟨toRun, toTerminate⟩ := c
  have hends : Ends (Reached R m₀ (.commit (Commit.drop k ⟨toRun, toTerminate⟩) :: K))
    (fun _ => False)
      (commit host (Commit.take k ⟨toRun, toTerminate⟩) w) := by
    by_cases hk : k ≤ toRun.length
    · rw [Commit.take_of_le hk, Commit.drop_of_le hk]
      rw [← List.take_append_drop k toRun] at h
      exact (ends_toRun hh h).imp fun _ h => h.1
    · have hk : toRun.length ≤ k := by omega
      rw [Commit.take_of_ge hk, Commit.drop_of_ge hk, commit_eq]
      rw [← List.append_nil toRun, ← List.take_append_drop (k - toRun.length) toTerminate] at h
      exact (ends_toRun hh h).andThen fun _ w₁ h₁ => ends_toTerminate h₁.1
  obtain ⟨_, w', hc, h'⟩ := hends.succeeds
  have hstage : w.stage host ⟨toRun, toTerminate⟩ k = w' := congrArg Prod.snd hc
  rw [hstage]
  exact ⟨hc, h'⟩

theorem stage_add {i : Nat} (h : commit host (c.take i) w = (.ok (), w.stage host c i)) (k : Nat) :
    w.stage host c (i + k) = (w.stage host c i).stage host (c.drop i) k := by
  rw [World.stage, commit_take_add, bind_of_ok h]
  rfl

/-- Between two stages of a commit lies what is done for the instances in between. -/
theorem Reached.stages {m₀ : Moment} {K : List Duty} (hh : Reached.Serves R host)
    (h : Reached R m₀ (.commit c :: K) w) (i k : Nat) :
    Walk R ⟨w.stage host c i, .commit (c.drop i) :: K⟩
      ⟨w.stage host c (i + k), .commit (c.drop (i + k)) :: K⟩ := by
  obtain ⟨hi, hreached⟩ := h.stage hh i
  have hnext := (hreached.restart.stage hh k).2.walk
  rwa [Commit.drop_add, ← stage_add hi] at hnext

section Silent

variable (hsilent : IsTame R.silent w)
include hsilent

/-- Where scripts ask nothing of the host, a commit leaves alone whatever it is not about. -/
theorem apart_stage (host : HostRequest → Act HostAnswer)
    (hk : ∀ n, n ∈ c.toRun ∨ n ∈ c.toTerminate → n < w.scripts.length) (k : Nat) :
    Apart R.silent (fun n => n ∈ (c.take k).toRun ∨ n ∈ (c.take k).toTerminate) w
      (w.stage host c k) := by
  refine (Apart.ends_commit (E := fun _ => True) (fun _ => id) hsilent fun n hn => hk n ?_).1
  exact hn.imp List.mem_of_mem_take List.mem_of_mem_take

/-- An instance that was run is the same at all later stages. -/
theorem script?_stage {m₀ : Moment} (hh : Reached.Serves R host) (h : Reached R m₀ [.commit c] w)
    (hp : c.IsParted) {i : Nat} (hi : c.toRun[i]? = some n) (k : Nat) :
    (w.stage host c (i + 1 + k)).script? n = (w.stage host c (i + 1)).script? n := by
  obtain ⟨hrun, hreached⟩ := h.restart.stage hh (i + 1)
  have htame : IsTame R.silent (w.stage host c (i + 1)) :=
    (apart_stage hsilent host h.known_commit _).tame
  rw [stage_add hrun]
  refine (apart_stage htame host hreached.known_commit k).others n ?_
  rintro (hn | hn)
  · obtain ⟨j, hj⟩ := List.mem_iff_getElem?.mp (List.mem_of_mem_take hn)
    have hj : c.toRun[i + 1 + j]? = some n := by rwa [Commit.drop, List.getElem?_drop] at hj
    have hl : i < c.toRun.length := (List.getElem?_eq_some_iff.mp hi).1
    have hij := (List.getElem?_inj hl hp.nodup).mp (hi.trans hj.symm)
    omega
  · exact hp.disjoint n (List.mem_of_getElem? hi) (List.mem_of_mem_drop (List.mem_of_mem_take hn))

/-- What a replaced instance lists at first and a new one after its body is watched all the time. -/
theorem watched_stage {m₀ : Moment} (hR : R.IsSteady root c₀) (hh : Reached.Serves R host)
    (h : Reached R m₀ [.commit c] w) (hm : IsRegular R root c₀ ⟨w, [.commit c]⟩)
    (hold : old ∈ c.toTerminate) {i : Nat} (hnew : c.toRun[i]? = some new)
    (hfirst : w.Lists old p) (hlive : (w.stage host c (i + 1)).IsLive new)
    (hthen : (w.stage host c (i + 1)).Lists new p) {k : Nat}
    (hwalk : Walk R ⟨w.stage host c k, [.commit (c.drop k)]⟩ m)
    (hwalk' : Walk R m ⟨w.stage host c (k + 1), [.commit (c.drop (k + 1))]⟩) :
    p ∈ m.world.watched := by
  have hstage (k : Nat) := (h.restart.stage hh k).2
  have hregular (k : Nat) := Walk.isRegular (hstage k).walk hR hm
  by_cases hk : k < c.toRun.length
  · -- the replaced instance is still to be terminated at the next stage
    have hleft : old ∈ (c.drop (k + 1)).toTerminate := by
      rw [Commit.drop_of_le hk]
      exact hold
    have hintact :=
      (hregular (k + 1)).orderly.intact (hregular (k + 1)).sane (List.mem_cons_self ..) hleft
    exact Walk.watched hR hm (by simp) hfirst ((hstage k).walk.trans hwalk) hwalk' hintact.notOver
  · -- the new instance was run before, and is left alone from then on
    have hl : i < c.toRun.length := (List.getElem?_eq_some_iff.mp hnew).1
    obtain ⟨j, rfl⟩ := Nat.exists_eq_add_of_le (show i + 1 ≤ k by omega)
    have hparted := hm.parted c (List.mem_cons_self ..)
    have hlive' : (w.stage host c (i + 1 + (j + 1))).IsLive new := by
      rw [IsLive, script?_stage hsilent hh h hparted hnew]
      exact hlive
    exact Walk.watched hR (hregular (i + 1)) (by simp) hthen ((h.stages hh (i + 1) j).trans hwalk)
      hwalk' hlive'

/-- What a commit has terminated lists nothing. -/
theorem ends_toTerminate_emptied {m₀ : Moment} {toTerminate : List Nat} {E : Failure → Prop}
    (hR : R.IsSteady root c₀) (h : Reached R m₀ [.commit ⟨[], toTerminate⟩] w)
    (hm : IsRegular R root c₀ ⟨w, [.commit ⟨[], toTerminate⟩]⟩) :
    Ends (fun w' => ∀ n ∈ toTerminate, ∀ p, ¬w'.Lists n p) E (commit host ⟨[], toTerminate⟩ w) := by
  let J (left : List Nat) (v : World) : Prop :=
    Reached R ⟨w, [.commit ⟨[], toTerminate⟩]⟩ [.commit ⟨[], left⟩] v ∧ IsTame R.silent v ∧
      ∀ n ∈ toTerminate, n ∈ left ∨ ∀ p, ¬v.Lists n p
  refine Ends.imp (I := J []) (Ends.forM (J := J) ?_ ⟨h.restart, hsilent, fun n hn => Or.inl hn⟩) ?_
  · rintro n left v ⟨hv, htame, hdone⟩
    obtain ⟨s, hs, hscript⟩ := hv.known_toTerminate
    have hregular := Walk.isRegular hv.walk hR hm
    have hover :=
      hregular.orderly.not_over_of_commit (List.mem_cons_self ..) (List.mem_cons_self ..) hs
    have hemptied := hregular.balanced.isCovered.ends_terminate hR.isStable.isFirm htame hs hover
    have hboth := ((Reached.ends_terminate hv.restart).mono fun _ he => he.1).and
      (hemptied.mono fun _ he => he.1)
    rw [bind_of_ok hscript]
    refine Ends.imp (Ends.bind (ends_attempt hboth fun e he => Or.inl he) fun result => ?_) ?_
    · have hspans : Spans R.silent n (Emptied R.silent n v (closings s v)) :=
        Emptied.spans hregular.balanced.target
      rcases result with e | _ | _
      · exact Keeps.and (Reached.keeps_log _ _ _ _) (hspans.admits.keeps_log _ _ _ _)
      · exact Keeps.and (Reached.keeps_log _ _ _ _) (hspans.admits.keeps_log _ _ _ _)
      · exact keeps_pure _
    · rintro v' ⟨hv', hempty⟩
      refine ⟨hv.trans hv', hempty.tame, fun k hk => ?_⟩
      by_cases hkn : k = n
      · refine Or.inr fun p => ?_
        rintro ⟨t, ht, hp⟩
        obtain ⟨t', ht', hnone⟩ := hempty.listed
        obtain rfl : t = t' := Option.some.inj (ht.symm.trans (hkn ▸ ht'))
        rw [hnone] at hp
        cases hp
      · rcases hdone k hk with hk | hnone
        · exact Or.inl ((List.mem_cons.mp hk).resolve_left hkn)
        · exact Or.inr fun p hl => hnone p ((lists_of_eq (hempty.others k hkn)).mp hl)
  · intro v hv n hn
    exact (hv.2.2 n hn).resolve_left List.not_mem_nil

end Silent

/-! A cycle that only replaces instances. -/

/-- Whether an instance has taken the place of another one in the registry. -/
def TakesPlace (w w' : World) (new old : Nat) : Prop :=
  ∃ q, w.registry.get? q = some old ∧ w'.registry.get? q = some new ∧ new ≠ old

/-- Where nothing is loaded or unloaded, the commit of a plan runs and
terminates instances in pairs. -/
theorem pairs_commitOf {K : List Duty} (hs : IsSane ⟨w, K⟩)
    (hg : Grown w (w.reloads w.plan ++ w.plan.toLoad) (w.plan.toUnload.map (·.1)) w')
    (hl : w.plan.toLoad = []) (hu : w.plan.toUnload = []) (hn : w.plan.reloadQueue.Nodup) :
    (∀ old ∈ (w.commitOf w.plan).toTerminate, ∃ new ∈ (w.commitOf w.plan).toRun,
      TakesPlace w w' new old) ∧
      ∀ new ∈ (w.commitOf w.plan).toRun, ∃ old ∈ (w.commitOf w.plan).toTerminate,
        TakesPlace w w' new old := by
  have hpair (q : Path) (old : Nat) (hq : q ∈ w.plan.reloadQueue)
    (ho : w.registry.get? q = some old) :
      q ∈ w.reloads w.plan ∧
        TakesPlace w w' (w.scripts.length + (w.reloads w.plan).idxOf q) old := by
    have hmem : q ∈ w.reloads w.plan := mem_reloads.mpr ⟨hq, old, ho⟩
    obtain ⟨s, hs, -⟩ := hs.registered.script q old ho
    have hlt : old < w.scripts.length := lt_of_script? hs
    refine ⟨hmem, q, ho, ?_, by omega⟩
    rw [hg.registry, hl, List.append_nil, if_pos hmem]
  rw [commitOf, hl, hu, List.append_nil, List.map_nil, List.append_nil]
  constructor
  · intro old ho
    obtain ⟨q, hq, ho⟩ := List.mem_filterMap.mp ho
    obtain ⟨hmem, htakes⟩ := hpair q old hq ho
    have hi := List.idxOf_lt_length_of_mem hmem
    exact ⟨_, List.mem_range'_1.mpr ⟨by omega, by omega⟩, htakes⟩
  · intro new hnew
    obtain ⟨i, hi, rfl⟩ := List.mem_range'.mp hnew
    obtain ⟨hq, old, ho⟩ := mem_reloads.mp (List.getElem_mem hi)
    refine ⟨old, List.mem_filterMap.mpr ⟨_, hq, ho⟩, ?_⟩
    have htakes := (hpair _ old hq ho).2
    have hnodup : (w.reloads w.plan).Nodup := hn.filter _
    rwa [hnodup.idxOf_getElem, ← Nat.one_mul i] at htakes

/-- What is watched stays the same if new instances list what those listed that they replace. -/
theorem watched_iff_of_pairs (ha : w.Accounts) (ha' : w'.Accounts)
    (hc : Confined (fun n => n ∈ c.toRun ∨ n ∈ c.toTerminate) w w')
    (hblank : ∀ n ∈ c.toRun, ∀ p, ¬w.Lists n p) (hempty : ∀ n ∈ c.toTerminate, ∀ p, ¬w'.Lists n p)
    (hold : ∀ old ∈ c.toTerminate, ∃ new ∈ c.toRun, ∀ p, w'.Lists new p ↔ w.Lists old p)
    (hnew : ∀ new ∈ c.toRun, ∃ old ∈ c.toTerminate, ∀ p, w'.Lists new p ↔ w.Lists old p)
    (p : Path) :
    p ∈ w'.watched ↔ p ∈ w.watched := by
  have hoperator : w'.operator = w.operator := by rw [hc.frame]
  rw [mem_watched_iff ha, mem_watched_iff ha', hoperator]
  apply or_congr_right
  constructor
  · rintro ⟨n, hl⟩
    by_cases hr : n ∈ c.toRun
    · obtain ⟨old, -, hiff⟩ := hnew n hr
      exact ⟨old, (hiff p).mp hl⟩
    · by_cases ht : n ∈ c.toTerminate
      · exact absurd hl (hempty n ht p)
      · exact ⟨n, (lists_of_eq (hc.others n (not_or.mpr ⟨hr, ht⟩))).mp hl⟩
  · rintro ⟨n, hl⟩
    by_cases ht : n ∈ c.toTerminate
    · obtain ⟨new, -, hiff⟩ := hold n ht
      exact ⟨new, (hiff p).mpr hl⟩
    · by_cases hr : n ∈ c.toRun
      · exact absurd hl (hblank n hr p)
      · exact ⟨n, (lists_of_eq (hc.others n (not_or.mpr ⟨hr, ht⟩))).mpr hl⟩

/-- How a commit that starts in a world hands claims over. -/
structure HandsOver (R : Regime) (host : HostRequest → Act HostAnswer) (c : Commit) (w : World) :
    Prop where
  /-- It goes through its stages to its end, and raises nothing. -/
  stages : ∀ k, commit host (c.take k) w = (.ok (), w.stage host c k)
  completed : commit host c w = (.ok (), w.stage host c (c.toRun.length + c.toTerminate.length))
  walk : ∀ i k,
    Walk R ⟨w.stage host c i, [.commit (c.drop i)]⟩
      ⟨w.stage host c (i + k), [.commit (c.drop (i + k))]⟩
  /-- What is listed by an instance that is to be terminated when the commit starts, and
  by an instance that the commit runs when its body has ended, is watched at every
  moment of every stage. -/
  watched : ∀ i old new p, old ∈ c.toTerminate → c.toRun[i]? = some new → w.Lists old p →
    (w.stage host c (i + 1)).IsLive new → (w.stage host c (i + 1)).Lists new p →
      ∀ k m, Walk R ⟨w.stage host c k, [.commit (c.drop k)]⟩ m →
        Walk R m ⟨w.stage host c (k + 1), [.commit (c.drop (k + 1))]⟩ → p ∈ m.world.watched

/-- What is the same after a cycle as before it. -/
structure Renewed (w w₁ : World) : Prop where
  watched : ∀ p, p ∈ w₁.watched ↔ p ∈ w.watched
  /-- The next cycle has nothing to do. -/
  idle : IsSound w → IsReadable w → w₁.files = w.files → IsIdle w₁

/-- How claims are handed over by a host that was new at first and has come to a world. -/
structure Gapless (R : Regime) (w₀ w : World) : Prop where
  /-- Every commit hands claims over whose bodies ask nothing of the host. -/
  commits : ∀ v c, Reached R ⟨w₀, []⟩ [.commit c] v → IsTame R.silent v →
    ∀ depth, HandsOver R (hostAt depth) c v
  /-- Such a commit is one that waits, or that of a cycle, with the instances that it replaces. -/
  queued : ∀ i c, w.tasks[i]? = some c → Reached R ⟨w₀, []⟩ [.commit c]
    { w with tasks := w.tasks.eraseIdx i }
  planned : ∀ done w', w.isClosed = false → cycle w = (.ok done, w') →
    Reached R ⟨w₀, []⟩ [.commit done.commit] w' ∧
    ∀ new old, TakesPlace w w' new old → new ∈ done.commit.toRun ∧ old ∈ done.commit.toTerminate
  /-- A cycle that only replaces instances, by ones that claim the same, and
  carries its commit out. -/
  renewed : ∀ done w', w.isClosed = false → cycle w = (.ok done, w') → IsTame R.silent w →
    done.plan.loaded = [] →
    done.plan.unloaded = [] → ∀ depth, ∃ w₁, commit (hostAt depth) done.commit w' = (.ok (), w₁) ∧
      (w.executor = .inline → reconcile (hostAt depth) w = (.ok done.plan, w₁)) ∧
        ((∀ new old, TakesPlace w w₁ new old → ∀ p, w₁.Lists new p ↔ w.Lists old p) → Renewed w w₁)

/-- An executor that does at once what it is given. -/
theorem reconcile_inline {done : Applied} {w₁ : World} (ho : w.isClosed = false)
    (hc : cycle w = (.ok done, w')) (hx : w'.executor = .inline)
    (hcommit : commit host done.commit w' = (.ok (), w₁)) :
    reconcile host w = (.ok done.plan, w₁) := by
  rw [reconcile, get_bind, if_neg (by rw [ho]; decide), bind_of_ok hc]
  by_cases hany : (!(done.commit.toRun.isEmpty && done.commit.toTerminate.isEmpty)) = true
  · have hsubmit : submit host done.commit w' = (.ok (), w₁) := by
      rw [submit, get_bind, hx]
      exact hcommit
    rw [if_pos hany, bind_of_ok (World.attempt_of_ok hsubmit)]
    rfl
  · obtain ⟨⟨toRun, toTerminate⟩, hd⟩ : ∃ c, done.commit = c := ⟨_, rfl⟩
    rw [hd] at hany hcommit
    obtain ⟨rfl, rfl⟩ : toRun = [] ∧ toTerminate = [] := by simpa using hany
    cases hcommit
    rw [hd]
    rfl

section Renewing

variable {m₀ : Moment} (hR : R.IsSteady root c₀) (hh : Reached.Serves R host)
include hR hh

theorem not_lists_stage (hsilent : IsTame R.silent w) (h : Reached R m₀ [.commit c] w)
    (hm : IsRegular R root c₀ ⟨w, [.commit c]⟩) (hn : n ∈ c.toTerminate) (p : Path) :
    ¬(w.stage host c (c.toRun.length + c.toTerminate.length)).Lists n p := by
  obtain ⟨hrun, hreached⟩ := h.restart.stage hh c.toRun.length
  have hregular := Walk.isRegular hreached.walk hR hm
  have htame := (apart_stage hsilent host h.known_commit c.toRun.length).tame
  have hdrop : c.drop c.toRun.length = ⟨[], c.toTerminate⟩ := by
    rw [Commit.drop_of_ge (Nat.le_refl _), Nat.sub_self]
    rfl
  rw [hdrop] at hreached hregular
  rw [stage_add hrun, hdrop, World.stage, Commit.take_nil, List.take_length]
  exact (ends_toTerminate_emptied (E := fun _ => False) htame hR hreached hregular).1 n hn p

/-- The watched paths are the same after a cycle that replaces instances by
ones that claim the same. -/
theorem renewed_of_pairs {w₁ w₂ : World} (hsane : IsSane ⟨w, []⟩) (ht : Tended w.polled w₁)
    (hm : Remade w₁ (w.reloads w.plan ++ w.plan.toLoad) (w.plan.toUnload.map (·.1)) w')
    (ho : w.isClosed = false) (hl : w.plan.toLoad = []) (hu : w.plan.toUnload = [])
    (hsilent : IsTame R.silent w') (h : Reached R m₀ [.commit (w.commitOf w.plan)] w')
    (hregular : IsRegular R root c₀ ⟨w', [.commit (w.commitOf w.plan)]⟩)
    (hcommit : commit host (w.commitOf w.plan) w' = (.ok (), w₂))
    (hclaims : ∀ new old, TakesPlace w w₂ new old → ∀ p, w₂.Lists new p ↔ w.Lists old p) :
    Renewed w w₂ := by
  have hg := hm.grown ht
  have hout := outcome_of_remade hsane.registered ht hm
  have hstage : w₂ = w'.stage host (w.commitOf w.plan)
      ((w.commitOf w.plan).toRun.length + (w.commitOf w.plan).toTerminate.length) := by
    rw [World.stage, Commit.take_all, hcommit]
  have hapart := apart_stage hsilent host h.known_commit
    ((w.commitOf w.plan).toRun.length + (w.commitOf w.plan).toTerminate.length)
  rw [Commit.take_all, ← hstage] at hapart
  have hreached := (h.restart.stage hh
    ((w.commitOf w.plan).toRun.length + (w.commitOf w.plan).toTerminate.length)).2
  rw [← hstage] at hreached
  have hkept := hapart.confined.upheld
  have hpair {new old : Nat} (hp : TakesPlace w w' new old) (p : Path) : w₂.Lists new p ↔
    w'.Lists old p := by
    rw [lists_grown hg]
    refine hclaims new old ?_ p
    rwa [TakesPlace, hkept.registry]
  obtain ⟨hold, hnew⟩ := pairs_commitOf hsane hg hl hu (Plan.nodup_reloadQueue_compute _ _)
  have hwatched : ∀ p, p ∈ w₂.watched ↔ p ∈ w.watched := by
    intro p
    rw [← hout.unmoved.watched p]
    apply watched_iff_of_pairs hregular.balanced.accounts
      (Walk.isRegular hreached.walk hR hregular).balanced.accounts
      hapart.confined
    · intro n hn p hlists
      obtain ⟨s, hs, -⟩ := (lists_grown hg).mp hlists
      have hlt : n < w.scripts.length := lt_of_script? hs
      have hge := (List.mem_range'_1.mp hn).1
      omega
    · intro n hn p
      have hnone := not_lists_stage hR hh hsilent h hregular hn p
      rwa [← hstage] at hnone
    · intro old ho
      obtain ⟨new, hn, hp⟩ := hold old ho
      exact ⟨new, hn, hpair hp⟩
    · intro new hn
      obtain ⟨old, ho, hp⟩ := hnew new hn
      exact ⟨old, ho, hpair hp⟩
  refine ⟨hwatched, fun hw hf hfiles => ?_⟩
  exact (isIdle_iff_of_upheld ht hm hsane.registered ho hw hf hreached hkept ⟨hfiles, hwatched⟩).mpr
    (faithful_of_kept hsane.registered hl hu)

end Renewing

/-- Claims are handed over without a gap where they are accounted for. -/
theorem hands_over {w₀ : World} (hnew : w₀.IsNew) (htarget : w₀.claimTarget = .counted)
    (hR : R.IsSteady w₀.root c₀) (hdirect : ¬R.direct) (htame : IsTame R w₀) (h : History R w₀ w) :
    Gapless R w₀ w := by
  have hregular (m : Moment) (hm : Walk R ⟨w₀, []⟩ m) : m.IsRegular R w₀.root c₀ :=
    Walk.isRegular hm hR (hnew.isRegular htarget htame.tree)
  have hw : Reached R ⟨w₀, []⟩ [] w := h.reached hdirect hnew.isSane htame
  refine { commits := ?_, queued := ?_, planned := ?_, renewed := ?_ }
  · intro v c hv hsilent depth
    have hh := Reached.serves_hostAt (R := R) depth
    refine { stages := fun k => (hv.stage hh k).1, completed := ?_, walk := hv.stages hh,
             watched := ?_ }
    · have hlast := (hv.stage hh (c.toRun.length + c.toTerminate.length)).1
      rwa [Commit.take_all] at hlast
    · intro i old new p hold hi hfirst hlive hthen k m hm hm'
      exact watched_stage hsilent hR hh hv (hregular _ hv.walk) hold hi hfirst hlive hthen hm hm'
  · intro i c hi
    exact hw.step (.dequeue i hi) (hw.tame.transfer rfl rfl rfl rfl rfl)
  · intro done w' ho hc
    refine ⟨hw.cycle_ok ho hc, fun new old ⟨q, hq, hq', hne⟩ => ?_⟩
    obtain ⟨-, -, c, hd, hmem⟩ := (hw.step_of_cycle ho hc).1.replaces hw.sane hq hq' hne
    obtain rfl : done.commit = c := Duty.commit.inj (List.cons.inj hd).1
    exact hmem
  · intro done w' ho hc hsilent hloaded hunloaded depth
    have hh := Reached.serves_hostAt (R := R) depth
    have hplanned := hw.cycle_ok ho hc
    have hlast := (hplanned.stage hh (done.commit.toRun.length + done.commit.toTerminate.length)).1
    rw [Commit.take_all] at hlast
    obtain ⟨w₁, ht, hm, rfl⟩ := hw.remade_of_cycle hc
    have hx : w'.executor = w.executor := by
      rw [(outcome_of_remade hw.sane.registered ht hm).frame]
    have hcommit : (Applied.extend { plan := w.plan } (w.reloads w.plan) w.plan.toLoad
        (w.plan.toUnload.map (·.1)) (w.commitOf w.plan)).commit = w.commitOf w.plan := by
      simp only [Applied.extend, List.nil_append]
    have hl : w.plan.toLoad = [] := (List.append_eq_nil_iff.mp hloaded).2
    have hu : w.plan.toUnload = [] := List.map_eq_nil_iff.mp (List.append_eq_nil_iff.mp hunloaded).2
    refine ⟨_, hlast, fun hi => reconcile_inline ho hc (hx.trans hi) hlast, fun hclaims => ?_⟩
    rw [hcommit] at hplanned hlast hclaims ⊢
    exact renewed_of_pairs hR hh hw.sane ht hm ho hl hu ((hsilent.polled.tended ht).remade hm)
      hplanned
      (hregular _ hplanned.walk) hlast hclaims

end World

namespace Regime

/-- The runs of a regime in which the host alone has to do with instances. -/
def hosted (R : Regime) : Regime := { R with direct := False }

theorem IsSteady.hosted (h : R.IsSteady root c₀) : R.hosted.IsSteady root c₀ where
  closes := h.closes
  forms := h.forms
  spells := h.spells
  unwatches := h.unwatches

end Regime

namespace World

/-- A host with one script that claims a path, and a watch that hands out what is put into it. -/
def claiming : World where
  root := ⟨.root, ["s"]⟩
  base := ⟨.root, ["s"]⟩
  files :=
    { here := ⟨.root, []⟩
      nodes := [(["s"], .directory), (["s", "a"], .file (.script [.watch ["b"]]) 0.0)] }
  watch := some (.scripted {})

theorem isTame_claiming :
    claiming.IsTame (Regime.plain claiming.root claiming.files.here).hosted where
  root := by simp [claiming, Path.hasNull]
  here := by simp [claiming, Path.hasNull]
  nodes := by
    refine List.forall_mem_cons.mpr ⟨trivial, List.forall_mem_singleton.mpr ⟨?_, trivial⟩⟩
    simp only [Action.IsTame, Regime.hosted, Regime.plain, Path.hasNull_eq_false_iff]
    decide
  tree := ⟨by simp [claiming, FileTree.Holds, FileTree.IsNoLink], rfl⟩
  raises := by
    rintro x ⟨⟩
    constructor <;> simp
  named := by
    rintro x ⟨⟩
    exact fun event he => absurd he List.not_mem_nil
  refusal e he := by cases he
  resources s hs := by cases hs

/-- A script is loaded, and its file is modified. -/
theorem hands_over_claiming : claiming.IsNew ∧
    Gapless (Regime.plain claiming.root claiming.files.here).hosted claiming
      (host (.event "a" "modified") (host .reconcile (host (.watch ["a"]) claiming).2).2).2 := by
  have hnew : claiming.IsNew := ⟨rfl, rfl, rfl, rfl, rfl, rfl⟩
  have hnamed : (Path.parse "a").hasNull = false := by
    rw [Path.hasNull_eq_false_iff]
    decide
  have hwatch : History (Regime.plain claiming.root claiming.files.here).hosted claiming
      (host (.watch ["a"]) claiming).2 := by
    refine .request depthLimit (.watch ["a"]) .refl ?_ trivial
    simp only [Regime.hosted, Regime.plain, Path.hasNull_eq_false_iff]
    decide
  refine ⟨hnew, hands_over hnew rfl (Regime.isSteady_plain _ _).hosted id isTame_claiming ?_⟩
  exact .request depthLimit (.event "a" "modified")
    (.request depthLimit .reconcile hwatch trivial trivial) trivial
    hnamed

end World

end HotReload
