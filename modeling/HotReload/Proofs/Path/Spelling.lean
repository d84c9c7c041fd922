import HotReload.Proofs.Path.Location

/-!
# Spellings of one location

What leads to one location can be spelled from the root or from the top, and with detours. Without
links the canonical form of a path is told by where the path leads and by the manner of its
spelling: from the top, or from the root after so many steps up out of it. So two spellings of one
location have one canonical form exactly if they are of one manner, and steps out of the root that
lead back into it are what makes two forms of one file.
-/
namespace HotReload.Path

variable {absolute : Bool} {parts names : List String} {here root p a b below : Path} {k : Nat}

/-! Steps up. -/

/-- How many steps up lead out of the directory where names begin, when so many names
lead down from it before. -/
def rise : Nat → List String → Nat
  | _, [] => 0
  | depth, part :: rest =>
    if part ≠ ".." then rise (depth + 1) rest
    else if depth = 0 then rise 0 rest + 1
    else rise (depth - 1) rest

/-- Folding names keeps the steps up that lead out of the directory where they
begin, and no others. -/
theorem foldl_foldStep_eq (parts : List String) (hn : ".." ∉ names) :
    ∃ rest, ".." ∉ rest ∧ parts.foldl (foldStep false) (names ++ List.replicate k "..") =
      rest ++ List.replicate (k + rise names.length parts) ".." := by
  induction parts generalizing names k with
  | nil => exact ⟨names, hn, rfl⟩
  | cons part more ih =>
    by_cases hp : part = ".."
    · subst hp
      cases names with
      | nil =>
        -- the step leads out, and there is one more of them to be kept
        have hs : foldStep false ([] ++ List.replicate k "..") ".." = [] ++ List.replicate (k + 1)
          ".." := by
          cases k <;> simp [foldStep, List.replicate_succ]
        obtain ⟨rest, hr, he⟩ := ih (k := k + 1) hn
        refine ⟨rest, hr, ?_⟩
        rw [List.foldl_cons, hs, he, List.length_nil, rise, if_neg (not_not_intro rfl), if_pos rfl]
        simp only [Nat.add_assoc, Nat.add_comm 1]
      | cons last names =>
        rw [List.mem_cons, not_or] at hn
        have hs : foldStep false (last :: names ++ List.replicate k "..") ".." = names ++
          List.replicate k ".." := by
          simp [foldStep, Ne.symm hn.1]
        obtain ⟨rest, hr, he⟩ := ih (k := k) hn.2
        refine ⟨rest, hr, ?_⟩
        rw [List.foldl_cons, hs, he, List.length_cons, rise, if_neg (not_not_intro rfl),
          if_neg (Nat.succ_ne_zero _)]
        rfl
    · have hm : ".." ∉ part :: names := by simp [Ne.symm hp, hn]
      obtain ⟨rest, hr, he⟩ := ih (k := k) hm
      refine ⟨rest, hr, ?_⟩
      rw [List.foldl_cons, foldStep_of_ne hp, ← List.cons_append, he, rise, if_pos hp,
        List.length_cons]

theorem foldParts_eq_rise (parts : List String) :
    ∃ names, ".." ∉ names ∧ foldParts false parts = List.replicate (rise 0 parts) ".." ++
      names := by
  obtain ⟨rest, hr, he⟩ := foldl_foldStep_eq parts (k := 0) (List.not_mem_nil (a := ".."))
  have hfold : parts.foldl (foldStep false) [] = rest ++ List.replicate (rise 0 parts) ".." := by
    simpa using he
  refine ⟨rest.reverse, by simpa using hr, ?_⟩
  rw [foldParts, hfold, List.reverse_append, List.reverse_replicate]

theorem foldl_foldStep_up (h : ".." ∉ names) :
    (List.replicate k "..").foldl (foldStep true) names = names.drop k := by
  induction k generalizing names with
  | zero => rfl
  | succ k ih =>
    rw [List.replicate_succ, List.foldl_cons]
    cases names with
    | nil => exact (ih h).trans List.drop_nil
    | cons last rest =>
      rw [List.mem_cons, not_or] at h
      have hs : foldStep true (last :: rest) ".." = rest := by simp [foldStep, Ne.symm h.1]
      rw [hs, ih h.2, List.drop_succ_cons]

/-- Steps up from a directory lead to those above it, and from the top nowhere. -/
theorem foldParts_up (hp : ".." ∉ parts) (hn : ".." ∉ names) :
    foldParts true (parts ++ (List.replicate k ".." ++ names)) = parts.take (parts.length - k) ++
      names := by
  have hup : ".." ∉ parts.reverse := by simpa using hp
  rw [foldParts, List.foldl_append, List.foldl_append, foldl_foldStep_of_names hp, List.append_nil,
    foldl_foldStep_up hup, foldl_foldStep_of_names hn, List.reverse_append, List.reverse_reverse,
    List.drop_reverse, List.reverse_reverse]

/-! Manners of spelling. -/

/-- Where a path leads down to when it is spelled from a root: by its names alone. -/
def spelled? (root p : Path) : Option Path := if p.isAbsolute then p.relativeTo? root else some p

/-- Whether a path is found to lead into a root: neither has a null character, and the one
location is below the other. -/
def IsInside (here root p : Path) : Prop :=
  p.hasNull = false ∧ root.hasNull = false ∧ location here root <+: location here p

instance : Decidable (IsInside here root p) := inferInstanceAs (Decidable (_ ∧ _ ∧ _))

/-- The manner of a spelling: what it starts from, and how many steps up lead out of there. What is
spelled from the top and leads into the root counts as spelled from the root. -/
def manner (here root p : Path) : Anchor × Nat :=
  match spelled? root p with
  | some below => (.relative, rise 0 below.parts)
  | none => (if IsInside here root p then .relative else p.anchor, 0)

/-- The names of the canonical form for a location that is spelled in a
certain manner from a root. -/
def known (rootPlace place : List String) : Anchor × Nat → Path
  | (.relative, ups) => ⟨.relative, List.replicate ups ".." ++ place.drop (rootPlace.length - ups)⟩
  | (anchor, _) => ⟨anchor, place⟩

theorem up_not_mem_location : ".." ∉ location here p := up_not_mem_foldParts

/-- A path that is spelled from the root. -/
theorem fold_eq_known (here root : Path) (h : p.isAbsolute = false) :
    p.fold = known (location here root) (location here (root.join p))
      (.relative, rise 0 p.parts) := by
  obtain ⟨names, hn, hf⟩ := foldParts_eq_rise p.parts
  have hplace : location here (root.join p) =
      (location here root).take ((location here root).length - rise 0 p.parts) ++ names := by
    rw [location_join h, ← foldParts_append_right, hf, foldParts_up up_not_mem_location hn]
  have hanchor : p.anchor = .relative := by simpa [isAbsolute] using h
  have hlength : ((location here root).take ((location here root).length - rise 0 p.parts)).length =
      (location here root).length - rise 0 p.parts := by
    rw [List.length_take]
    omega
  rw [fold, h, hf, hanchor, known, hplace, List.drop_left' hlength]

/-- What is located below the root leads into it. -/
theorem located_eq :
    (locate? here p).bind (fun place => (locate? here root).bind place.relativeTo?) =
    if IsInside here root p then
      some ⟨.relative, (location here p).drop (location here root).length⟩ else none := by
  by_cases hp : p.hasNull = true
  · have ho : ¬IsInside here root p := fun h => by rw [IsInside, hp] at h; cases h.1
    rw [locate?, if_pos hp, if_neg ho, Option.bind_none]
  · by_cases hr : root.hasNull = true
    · have ho : ¬IsInside here root p := fun h => by rw [IsInside, hr] at h; cases h.2.1
      rw [locate?_eq (Bool.eq_false_iff.mpr hp), Option.bind_some, locate?, if_pos hr, if_neg ho,
        Option.bind_none]
    · rw [locate?_eq (Bool.eq_false_iff.mpr hp), locate?_eq (Bool.eq_false_iff.mpr hr),
        Option.bind_some, Option.bind_some, relativeTo?]
      simp only [IsInside, Bool.eq_false_iff.mpr hp, Bool.eq_false_iff.mpr hr, true_and]

/-- Without links the canonical form is told by where a path leads and by the
manner of its spelling. -/
theorem canonical_eq_known (here root p : Path) : canonical (locate? here) root p =
    known (location here root) (location here (root.join p)) (manner here root p) := by
  by_cases ha : p.isAbsolute = true
  · rw [canonical, if_pos ha, manner, spelled?, if_pos ha, join_of_absolute ha]
    rcases hb : p.relativeTo? root with _ | below
    · dsimp only
      rw [located_eq]
      by_cases hi : IsInside here root p
      · have hup : ".." ∉ (location here p).drop (location here root).length :=
          fun h => up_not_mem_location (List.mem_of_mem_drop h)
        rw [if_pos hi, if_pos hi]
        exact congrArg (Path.mk .relative) (foldParts_eq hup)
      · rw [if_neg hi, if_neg hi, location_of_absolute ha]
        dsimp only
        rw [fold, ha]
        obtain ⟨_ | _ | _, parts⟩ := p
        · cases ha
        · rfl
        · rfl
    · dsimp only
      rw [fold_eq_known here root (isAbsolute_relativeTo? hb), location_of_relativeTo? ha hb]
  · have hr := Bool.eq_false_iff.mpr ha
    rw [canonical_of_relative hr, fold_eq_known here root hr, manner, spelled?, if_neg ha]

/-- Nothing else is known under the same name. -/
theorem known_inj {rootPlace place : List String} (hp : ".." ∉ place) {m m' : Anchor × Nat}
    (hm : m.1 ≠ .relative → m.2 = 0) (hm' : m'.1 ≠ .relative → m'.2 = 0)
    (h : known rootPlace place m = known rootPlace place m') : m = m' := by
  obtain ⟨anchor, ups⟩ := m
  obtain ⟨anchor', ups'⟩ := m'
  have hanchor (anchor : Anchor) (ups : Nat) : (known rootPlace place (anchor, ups)).anchor =
    anchor := by
    cases anchor <;> rfl
  have hcount (ups : Nat) : (known rootPlace place (.relative, ups)).parts.count ".." = ups := by
    rw [known, List.count_append, List.count_replicate_self,
      List.count_eq_zero_of_not_mem fun hd => hp (List.mem_of_mem_drop hd)]
    rfl
  obtain rfl : anchor = anchor' := by rw [← hanchor anchor ups, h, hanchor]
  by_cases hr : anchor = .relative
  · subst hr
    rw [Prod.mk.injEq]
    exact ⟨rfl, by rw [← hcount ups, h, hcount]⟩
  · have hups : ups = 0 := hm hr
    have hups' : ups' = 0 := hm' hr
    rw [hups, hups']

theorem manner_zero (h : (manner here root p).1 ≠ .relative) : (manner here root p).2 = 0 := by
  unfold manner at h ⊢
  split at h
  · exact absurd rfl h
  · rfl

/-- Two spellings have one canonical form exactly if they lead to one location in one manner. -/
theorem canonical_eq_iff : canonical (locate? here) root a = canonical (locate? here) root b ↔
    location here (root.join a) = location here (root.join b) ∧
      manner here root a = manner here root b := by
  constructor
  · intro h
    have hplace : location here (root.join a) = location here (root.join b) := by
      rw [← location_canonical, h, location_canonical]
    refine ⟨hplace, ?_⟩
    rw [canonical_eq_known, canonical_eq_known, hplace] at h
    exact known_inj up_not_mem_location manner_zero manner_zero h
  · rintro ⟨hplace, hmanner⟩
    rw [canonical_eq_known, canonical_eq_known, hplace, hmanner]

/-! Straight spellings. -/

/-- Whether a path is spelled without null characters and double slashes in front, and without steps
up out of the root if it is spelled from there. -/
structure IsStraight (root p : Path) : Prop where
  named : p.hasNull = false
  anchor : p.anchor ≠ .doubleRoot
  inside : ∀ below, spelled? root p = some below → rise 0 below.parts = 0

/-- What is spelled from the root without steps out of it leads into it. -/
theorem inside_of_spelled (h : spelled? root p = some below) (hr : rise 0 below.parts = 0) :
    location here root <+: location here (root.join p) := by
  have hbelow : below.isAbsolute = false ∧
    location here (root.join below) = location here (root.join p) := by
    unfold spelled? at h
    split at h
    · rename_i ha
      rw [join_of_absolute ha]
      exact ⟨isAbsolute_relativeTo? h, location_of_relativeTo? ha h⟩
    · rename_i ha
      cases h
      exact ⟨Bool.eq_false_iff.mpr ha, rfl⟩
  obtain ⟨names, hn, hf⟩ := foldParts_eq_rise below.parts
  rw [hr] at hf
  have hnames : location here root ++ foldParts false below.parts = location here root ++
    names := by rw [hf]; rfl
  have hup : ".." ∉ location here root ++ names := by simp [up_not_mem_location, hn]
  rw [← hbelow.2, location_join hbelow.1, ← foldParts_append_right, hnames, foldParts_eq hup]
  exact List.prefix_append _ _

/-- The manner of a straight spelling is told by where it leads. -/
theorem IsStraight.manner_eq (h : IsStraight root p) (hr : root.hasNull = false) :
    manner here root p =
    (if location here root <+: location here (root.join p) then .relative else .root, 0) := by
  unfold manner
  split
  · rename_i below hb
    have hz := h.inside below hb
    rw [if_pos (inside_of_spelled hb hz), hz]
  · rename_i hnone
    have ha : p.isAbsolute = true := by
      unfold spelled? at hnone
      split at hnone
      · assumption
      · cases hnone
    have hinside : IsInside here root p ↔ location here root <+: location here p := by
      rw [IsInside, h.named, hr]
      simp only [true_and]
    have hanchor : p.anchor = .root := by
      have hd := h.anchor
      unfold isAbsolute at ha
      rcases hp : p.anchor with _ | _ | _
      · rw [hp] at ha
        cases ha
      · rfl
      · exact absurd hp hd
    rw [join_of_absolute ha, hanchor]
    simp only [hinside]

variable {α : Type} {t : FileTree α}

/-- Without links two paths have one canonical form below a root exactly if they lead to one
location from there and are spelled in one manner. Straight spellings of one location are of
one manner; a spelling that steps out of the root keeps these steps in its canonical form,
also where it leads back. -/
theorem same_form_iff (ht : t.IsPlain) (root : Path) :
    (∀ a b, canonical t.resolve? root a = canonical t.resolve? root b ↔
      location t.here (root.join a) = location t.here (root.join b) ∧
        manner t.here root a = manner t.here root b) ∧
    (root.hasNull = false → ∀ a b, IsStraight root a → IsStraight root b →
      location t.here (root.join a) = location t.here (root.join b) →
        canonical t.resolve? root a = canonical t.resolve? root b) ∧
    ∀ p below, spelled? root p = some below →
      (canonical t.resolve? root p).parts.count ".." = rise 0 below.parts := by
  have hresolve : t.resolve? = locate? t.here := funext (FileTree.resolve?_eq ht)
  rw [hresolve]
  refine ⟨fun a b => canonical_eq_iff, fun hr a b ha hb hplace => ?_, fun p below hb => ?_⟩
  · rw [canonical_eq_iff, ha.manner_eq hr, hb.manner_eq hr, hplace]
    exact ⟨rfl, rfl⟩
  · rw [canonical_eq_known, manner, hb, known, List.count_append, List.count_replicate_self,
      List.count_eq_zero_of_not_mem fun hd => up_not_mem_location (List.mem_of_mem_drop hd)]
    rfl

theorem isPlain_bare : bare.IsPlain := fun loc target h => by
  unfold FileTree.node? bare at h
  split at h
  · cases h
  · exact absurd h (by simp)

/-- The path that the text `/srv/x/../scripts/a` is read as. -/
def around : Path := ⟨.root, ["srv", "x", "..", "scripts", "a"]⟩

/-- The path that the text `/srv/scripts/../scripts/a` is read as. -/
def returning : Path := ⟨.root, ["srv", "scripts", "..", "scripts", "a"]⟩

/-- A detour outside the root is taken back, one that steps out of the root is kept: the file `a`
has two canonical forms. -/
theorem same_form_iff_returning : bare.IsPlain ∧
    canonical bare.resolve? bare.here around = canonical bare.resolve? bare.here
      ⟨.relative, ["a"]⟩ ∧
    location bare.here (bare.here.join returning) = location bare.here (bare.here.join around) ∧
    canonical bare.resolve? bare.here returning ≠ canonical bare.resolve? bare.here around := by
  obtain ⟨hiff, hstraight, -⟩ := same_form_iff isPlain_bare bare.here
  have hroot : bare.here.hasNull = false := by simp [hasNull, bare, String.contains_char_eq]
  have haround : around.hasNull = false := by simp [hasNull, around, String.contains_char_eq]
  have hfile : IsStraight bare.here ⟨.relative, ["a"]⟩ := by
    refine ⟨by simp [hasNull, String.contains_char_eq], by decide, fun below hb => ?_⟩
    obtain rfl : ⟨.relative, ["a"]⟩ = below := Option.some.inj hb
    decide
  have hdetour : IsStraight bare.here around := ⟨haround, by decide, fun below hb => by cases hb⟩
  refine ⟨isPlain_bare, hstraight hroot _ _ hdetour hfile (by decide), by decide, fun h => ?_⟩
  have hmanner := ((hiff returning around).mp h).2
  rw [hdetour.manner_eq hroot] at hmanner
  exact absurd hmanner (by decide)

end HotReload.Path
