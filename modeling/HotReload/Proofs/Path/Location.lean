import HotReload.Proofs.Path.Canonical

/-!
# Where canonical paths lead

Without links a path leads where its names lead, a step up taking back the name before it. Bringing
a path below a root to its canonical form does not change where it leads from the root. The
canonical form is its own canonical form unless it is an absolute path that lies below the root
after all, and without links only a null character that folding takes away brings that about.
-/
namespace HotReload.Path

variable {absolute : Bool} {parts done stack : List String} {here root p below : Path}
  {resolve : Path → Option Path}

/-- Where a path leads from the directory `here` when there are no links: the names from the top. -/
def location (here p : Path) : List String := foldParts true (here.join p).parts

/-! Folding in stretches. -/

/-- Folding a stack of names leads from anywhere where the names themselves
lead, a step at a time. -/
theorem foldl_foldStep_step (part : String) :
    (foldStep false stack part).reverse.foldl (foldStep absolute) done =
      foldStep absolute (stack.reverse.foldl (foldStep absolute) done) part := by
  have hpush : (part :: stack).reverse.foldl (foldStep absolute) done =
      foldStep absolute (stack.reverse.foldl (foldStep absolute) done) part := by
    rw [List.reverse_cons, List.foldl_append, List.foldl_cons, List.foldl_nil]
  by_cases hp : part = ".."
  · subst hp
    cases stack with
    | nil => rfl
    | cons last rest =>
      by_cases hl : last = ".."
      · have hs : foldStep false (last :: rest) ".." = ".." :: last :: rest := by
          simp [foldStep, hl]
        rw [hs, hpush]
      · -- the step up takes back the name that the stack ended with
        have hs : foldStep false (last :: rest) ".." = rest := by simp [foldStep, hl]
        rw [hs, List.reverse_cons, List.foldl_append, List.foldl_cons, List.foldl_nil,
          foldStep_of_ne hl]
        simp [foldStep, hl]
  · rw [foldStep_of_ne hp, hpush]

theorem foldl_foldl_foldStep :
    (parts.foldl (foldStep false) stack).reverse.foldl (foldStep absolute) done =
      parts.foldl (foldStep absolute) (stack.reverse.foldl (foldStep absolute) done) := by
  induction parts generalizing stack with
  | nil => rfl
  | cons part rest ih => rw [List.foldl_cons, ih, foldl_foldStep_step, List.foldl_cons]

/-- Names lead on from where they begin, whether or not what leads there was folded before. -/
theorem foldParts_append_left :
    foldParts absolute (foldParts absolute parts ++ done) = foldParts absolute (parts ++ done) := by
  have hf : IsFolded absolute (parts.foldl (foldStep absolute) []) := isFolded_foldl rfl
  rw [IsFolded] at hf
  simp only [foldParts, List.foldl_append, hf]

/-- Names lead on alike whether or not they were folded by themselves before. -/
theorem foldParts_append_right :
    foldParts absolute (done ++ foldParts false parts) = foldParts absolute (done ++ parts) := by
  simp only [foldParts, List.foldl_append, foldl_foldl_foldStep, List.reverse_nil, List.foldl_nil]

/-! Locations. -/

theorem location_of_absolute (h : p.isAbsolute = true) :
    location here p = foldParts true p.parts := by
  rw [location, join_of_absolute h]

theorem join_of_relative (h : p.isAbsolute = false) :
    root.join p = ⟨root.anchor, root.parts ++ p.parts⟩ :=
  if_neg (by rw [h]; decide)

/-- A path below a root leads on from where the root leads. -/
theorem location_join (h : p.isAbsolute = false) :
    location here (root.join p) = foldParts true (location here root ++ p.parts) := by
  rw [location, location, foldParts_append_left, join_of_relative h]
  by_cases hr : root.isAbsolute = true
  · have hj : (⟨root.anchor, root.parts ++ p.parts⟩ : Path).isAbsolute = true := hr
    rw [join_of_absolute hj, join_of_absolute hr]
  · have hj : (⟨root.anchor, root.parts ++ p.parts⟩ : Path).isAbsolute = false :=
      Bool.eq_false_iff.mpr hr
    rw [join_of_relative hj, join_of_relative (Bool.eq_false_iff.mpr hr), List.append_assoc]

/-- Folding a relative path leaves where it leads from any root. -/
theorem location_join_fold (h : p.isAbsolute = false) :
    location here (root.join p.fold) = location here (root.join p) := by
  have hf : p.fold.isAbsolute = false := h
  rw [location_join hf, location_join h, fold, h, foldParts_append_right]

theorem location_fold (h : p.isAbsolute = true) : location here p.fold = location here p := by
  have hf : p.fold.isAbsolute = true := h
  rw [location_of_absolute hf, location_of_absolute h, fold, h, foldParts_foldParts]

theorem locate?_eq (h : p.hasNull = false) : locate? here p = some ⟨.root, location here p⟩ :=
  locate?_of_named h

theorem parts_of_relativeTo? (h : p.relativeTo? root = some below) :
    p.anchor = root.anchor ∧ p.parts = root.parts ++ below.parts := by
  unfold relativeTo? at h
  split at h
  · rename_i hb
    obtain ⟨ha, rest, hp⟩ := hb
    cases h
    exact ⟨ha, by rw [← hp, List.drop_left]⟩
  · cases h

/-- What lies below the root by its names leads where it lies. -/
theorem location_of_relativeTo? (ha : p.isAbsolute = true) (h : p.relativeTo? root = some below) :
    location here (root.join below) = location here p := by
  obtain ⟨hanchor, hparts⟩ := parts_of_relativeTo? h
  have hroot : root.isAbsolute = true := by
    rw [isAbsolute, ← hanchor]
    exact ha
  rw [location_join (isAbsolute_relativeTo? h), location_of_absolute hroot, location_of_absolute ha,
    foldParts_append_left, ← hparts]

/-- What is located below the root leads where it is located. -/
theorem location_of_located (hp : p.isAbsolute = true) {place rootPlace : Path}
    (hplace : locate? here p = some place) (hroot : locate? here root = some rootPlace)
    (h : place.relativeTo? rootPlace = some below) :
    location here (root.join below) = location here p := by
  have hnames {q place : Path} (hq : locate? here q = some place) :
    place.parts = location here q := by
    unfold locate? at hq
    split at hq
    · cases hq
    · cases hq
      rfl
  have hparts := (parts_of_relativeTo? h).2
  rw [hnames hplace, hnames hroot] at hparts
  rw [location_join (isAbsolute_relativeTo? h), ← hparts, location_of_absolute hp,
    foldParts_foldParts]

/-- Without links the canonical form of a path leads from the root where the path leads. -/
theorem location_canonical :
    location here (root.join (canonical (locate? here) root p)) = location here (root.join p) := by
  by_cases ha : p.isAbsolute = true
  · have hcanonical : canonical (locate? here) root p = _ := if_pos ha
    rw [hcanonical, join_of_absolute ha]
    split
    · rw [location_join_fold (isAbsolute_relativeTo? ‹_›), location_of_relativeTo? ha ‹_›]
    · split
      · rename_i below hb
        obtain ⟨place, hplace, hb⟩ := Option.bind_eq_some_iff.mp hb
        obtain ⟨rootPlace, hroot, hb⟩ := Option.bind_eq_some_iff.mp hb
        rw [location_join_fold (isAbsolute_relativeTo? hb), location_of_located ha hplace hroot hb]
      · have hf : p.fold.isAbsolute = true := ha
        rw [join_of_absolute hf, location_fold ha]
  · have hr : p.isAbsolute = false := Bool.eq_false_iff.mpr ha
    rw [canonical_of_relative hr, location_join_fold hr]

/-! Stability. -/

/-- Whether a path lies below a root neither by its names nor by its location. -/
def IsFar (resolve : Path → Option Path) (root p : Path) : Prop :=
  p.relativeTo? root = none ∧
    (resolve p).bind (fun place => (resolve root).bind place.relativeTo?) = none

theorem canonical_of_far (ha : p.isAbsolute = true) (h : IsFar resolve root p) :
    canonical resolve root p = p.fold := by
  rw [canonical, if_pos ha, h.1]
  dsimp only
  rw [h.2]

/-- What is not far from a root has a relative canonical form. -/
theorem isAbsolute_canonical :
    (canonical resolve root p).isAbsolute = true ↔ p.isAbsolute = true ∧ IsFar resolve root p := by
  by_cases ha : p.isAbsolute = true
  · constructor
    · intro h
      refine ⟨ha, ?_⟩
      rw [canonical, if_pos ha] at h
      split at h
      · rw [isAbsolute_fold, isAbsolute_relativeTo? ‹_›] at h
        cases h
      · split at h
        · rename_i below hb
          obtain ⟨place, -, hb⟩ := Option.bind_eq_some_iff.mp hb
          obtain ⟨rootPlace, -, hb⟩ := Option.bind_eq_some_iff.mp hb
          rw [isAbsolute_fold, isAbsolute_relativeTo? hb] at h
          cases h
        · exact ⟨‹_›, ‹_›⟩
    · rintro ⟨-, hfar⟩
      rw [canonical_of_far ha hfar]
      exact ha
  · refine iff_of_false (fun h => ha ?_) fun h => ha h.1
    rwa [canonical_of_relative (Bool.eq_false_iff.mpr ha)] at h

theorem fold_canonical : (canonical resolve root p).fold = canonical resolve root p := by
  unfold canonical
  split
  · split
    · exact fold_fold
    · split <;> exact fold_fold
  · exact fold_fold

/-- A canonical form is stable unless it is absolute and yet below the root. -/
theorem canonical_canonical_iff :
    canonical resolve root (canonical resolve root p) = canonical resolve root p ↔
    ((canonical resolve root p).isAbsolute = true →
      IsFar resolve root (canonical resolve root p)) := by
  by_cases ha : (canonical resolve root p).isAbsolute = true
  · constructor
    · intro h _
      rw [← h, isAbsolute_canonical] at ha
      exact ha.2
    · intro h
      rw [canonical_of_far ha (h ha), fold_canonical]
  · refine iff_of_true ?_ fun h => absurd h ha
    rw [canonical_of_relative (Bool.eq_false_iff.mpr ha), fold_canonical]

/-- Without links a canonical form is not stable exactly if the path has a null character, so
that it is not resolved, is absolute and not below the root by its names, and is below the
root once it is folded. -/
theorem canonical_canonical_ne_iff :
    canonical (locate? here) root (canonical (locate? here) root p) ≠
        canonical (locate? here) root p ↔
      p.hasNull = true ∧ p.isAbsolute = true ∧ p.relativeTo? root = none ∧
        ¬IsFar (locate? here) root p.fold := by
  constructor
  · intro h
    have hnull : p.hasNull = true :=
      eq_true_of_ne_false fun hn => h (canonical_canonical hn)
    have hstays := mt canonical_canonical_iff.mpr h
    rw [Classical.not_imp] at hstays
    obtain ⟨ha, hfar⟩ := isAbsolute_canonical.mp hstays.1
    rw [canonical_of_far ha hfar] at hstays
    exact ⟨hnull, ha, hfar.1, hstays.2⟩
  · rintro ⟨hnull, ha, hnames, hnear⟩ h
    have hlocate : locate? here p = none := if_pos hnull
    have hfar : IsFar (locate? here) root p := ⟨hnames, by rw [hlocate]; rfl⟩
    rw [canonical_canonical_iff, canonical_of_far ha hfar] at h
    exact hnear (h ha)

variable {α : Type} {t : FileTree α}

/-- Without links a canonical path leads from the root where the path leads, and is its own
canonical form unless the path has a null character that folding takes away, and is below the root
only when it is folded. -/
theorem settles_in_place (ht : t.IsPlain) (root p : Path) :
    (canonical t.resolve? root (canonical t.resolve? root p) = canonical t.resolve? root p ↔
      ¬(p.hasNull = true ∧ p.isAbsolute = true ∧ p.relativeTo? root = none ∧
        ¬IsFar t.resolve? root p.fold)) ∧
    location t.here (root.join (canonical t.resolve? root p)) = location t.here (root.join p) ∧
    ∀ q, q.hasNull = false → t.resolve? q = some ⟨.root, location t.here q⟩ := by
  have hresolve : t.resolve? = locate? t.here := funext (FileTree.resolve?_eq ht)
  rw [hresolve]
  refine ⟨?_, location_canonical, fun q hq => locate?_eq hq⟩
  rw [← canonical_canonical_ne_iff, Classical.not_not]

/-- A root without links whose files nobody has written yet. -/
def bare : FileTree Unit := { here := ⟨.root, ["srv", "scripts"]⟩ }

/-- The path that the text `/srv/x\x00/../scripts/a` is read as. -/
def hidden : Path := ⟨.root, ["srv", "x\x00", "..", "scripts", "a"]⟩

/-- The null character keeps the path from being found below the root until
folding has taken it away. -/
theorem settles_in_place_hidden :
    bare.IsPlain ∧ canonical bare.resolve? bare.here hidden = hidden.fold ∧
    canonical bare.resolve? bare.here hidden.fold ≠ hidden.fold ∧
    location bare.here hidden.fold = ["srv", "scripts", "a"] := by
  have hplain : bare.IsPlain := fun loc target h => by
    unfold FileTree.node? bare at h
    split at h
    · cases h
    · exact absurd h (by simp)
  obtain ⟨hstable, -, -⟩ := settles_in_place hplain bare.here hidden
  have hnull : hidden.hasNull = true := by simp [hasNull, hidden, String.contains_char_eq]
  have hcanonical : canonical bare.resolve? bare.here hidden = hidden.fold :=
    canonical_of_far rfl ⟨by decide, by rw [FileTree.resolve?, hnull]; rfl⟩
  refine ⟨hplain, hcanonical, ?_, by decide⟩
  rw [hcanonical] at hstable
  exact fun h => hstable.mp h ⟨hnull, rfl, by decide, fun hfar => absurd hfar.1 (by decide)⟩

end HotReload.Path
