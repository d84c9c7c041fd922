import HotReload.Proofs.FileTree.Lookup

/-!
# Canonical paths are stable

Without links, bringing a canonical path to its canonical form changes nothing. Whoever keeps a
canonical path may pass it on.
-/
namespace HotReload.Path

variable {here root p below : Path}

theorem isAbsolute_relativeTo? (h : p.relativeTo? root = some below) :
    below.isAbsolute = false := by
  unfold relativeTo? at h
  split at h
  · cases h
    rfl
  · cases h

theorem canonical_of_relative {resolve : Path → Option Path} (h : p.isAbsolute = false) :
    canonical resolve root p = p.fold := by
  rw [canonical, if_neg (by rw [h]; decide)]

theorem canonical_fold_of_relative {resolve : Path → Option Path} (h : p.isAbsolute = false) :
    canonical resolve root p.fold = p.fold := by
  rw [canonical_of_relative (isAbsolute_fold.trans h), fold_fold]

/-! Null characters. -/

theorem hasNull_fold {p : Path} (h : p.hasNull = false) : p.fold.hasNull = false := by
  rw [hasNull_eq_false_iff] at h ⊢
  exact fun name hn => h name (mem_foldParts hn)

theorem hasNull_relativeTo? {p base below : Path} (h : p.hasNull = false)
    (hb : p.relativeTo? base = some below) : below.hasNull = false := by
  unfold relativeTo? at hb
  split at hb
  · cases hb
    rw [hasNull_eq_false_iff] at h ⊢
    exact fun name hn => h name (List.mem_of_mem_drop hn)
  · cases hb

theorem hasNull_join {base p : Path} (hb : base.hasNull = false) (hp : p.hasNull = false) :
    (base.join p).hasNull = false := by
  unfold join
  split
  · exact hp
  · rw [hasNull_eq_false_iff] at hb hp ⊢
    exact List.forall_mem_append.mpr ⟨hb, hp⟩

/-- A canonical path has no null character if the path and its location have none. -/
theorem hasNull_canonical {resolve : Path → Option Path} {root p : Path} (hp : p.hasNull = false)
    (hr : ∀ place, resolve p = some place → place.hasNull = false) :
    (canonical resolve root p).hasNull = false := by
  unfold canonical
  split
  · split
    · exact hasNull_fold (hasNull_relativeTo? hp ‹_›)
    · split
      · rename_i below hb
        obtain ⟨place, hplace, hb⟩ := Option.bind_eq_some_iff.mp hb
        obtain ⟨rootPlace, -, hb⟩ := Option.bind_eq_some_iff.mp hb
        exact hasNull_fold (hasNull_relativeTo? (hr place hplace) hb)
      · exact hasNull_fold hp
  · exact hasNull_fold hp

/-! Without links. -/

theorem locate?_of_named (hp : p.hasNull = false) :
    locate? here p = some ⟨.root, foldParts true (here.join p).parts⟩ := by
  rw [locate?, hp]
  rfl

theorem join_of_absolute (h : p.isAbsolute = true) : here.join p = p := if_pos h

theorem locate?_of_absolute (hp : p.hasNull = false) (ha : p.isAbsolute = true) :
    locate? here p = some ⟨.root, p.fold.parts⟩ := by
  rw [locate?_of_named hp, join_of_absolute ha, fold, ha]

/-- What lies below the root by its names is located below the root. -/
theorem isSome_relativeTo? (hp : p.hasNull = false) (ha : p.isAbsolute = true)
    (h : p.fold.relativeTo? root = some below) :
    (locate? here p).bind (fun place => (locate? here root).bind place.relativeTo?) ≠ none := by
  unfold relativeTo? at h
  split at h
  · rename_i hb
    obtain ⟨hanchor, hbegin⟩ := hb
    have hparts : p.fold.parts = foldParts true p.parts := by rw [fold, ha]
    have hroot : root.isAbsolute = true := by
      rw [isAbsolute, ← hanchor]
      exact ha
    have hnames : root.hasNull = false := by
      have hf := hasNull_eq_false_iff.mp (hasNull_fold hp)
      exact hasNull_eq_false_iff.mpr fun name hn => hf name (hbegin.subset hn)
    have hup : ".." ∉ root.parts := fun hu => up_not_mem_foldParts (hparts ▸ hbegin.subset hu)
    have hplace : root.fold.parts = root.parts := by
      rw [fold, hroot]
      exact foldParts_eq hup
    rw [locate?_of_absolute hp ha, locate?_of_absolute hnames hroot, hplace, Option.bind_some,
      Option.bind_some, relativeTo?, if_pos ⟨rfl, hbegin⟩]
    exact Option.some_ne_none _
  · cases h

/-- An absolute path that is not below the root stays so when it is folded. -/
theorem canonical_fold_of_absolute (hp : p.hasNull = false) (ha : p.isAbsolute = true)
    (hfar :
      (locate? here p).bind (fun place => (locate? here root).bind place.relativeTo?) = none) :
    canonical (locate? here) root p.fold = p.fold := by
  have hlocate : locate? here p.fold = locate? here p := by
    rw [locate?_of_absolute hp ha, locate?_of_absolute (hasNull_fold hp) ha, fold_fold]
  have hnear : p.fold.relativeTo? root = none :=
    Option.eq_none_iff_forall_ne_some.mpr fun below hb => isSome_relativeTo? hp ha hb hfar
  have habsolute : p.fold.isAbsolute = true := ha
  rw [canonical, if_pos habsolute, hnear]
  dsimp only
  rw [hlocate, hfar]
  exact fold_fold

/-- Without links a canonical path is its own canonical form. -/
theorem canonical_canonical (hp : p.hasNull = false) :
    canonical (locate? here) root (canonical (locate? here) root p) = canonical (locate? here)
      root p := by
  by_cases ha : p.isAbsolute = true
  · have hcanonical : canonical (locate? here) root p = _ := if_pos ha
    rw [hcanonical]
    split
    · exact canonical_fold_of_relative (isAbsolute_relativeTo? ‹_›)
    · split
      · rename_i below hb
        obtain ⟨place, -, hb⟩ := Option.bind_eq_some_iff.mp hb
        obtain ⟨rootPlace, -, hb⟩ := Option.bind_eq_some_iff.mp hb
        exact canonical_fold_of_relative (isAbsolute_relativeTo? hb)
      · exact canonical_fold_of_absolute hp ha ‹_›
  · rw [canonical_of_relative (Bool.eq_false_iff.mpr ha)]
    exact canonical_fold_of_relative (Bool.eq_false_iff.mpr ha)

/-! A name without slashes is the text of a path. -/

theorem splitSlashes_of_plain {cs : List Char} (h : '/' ∉ cs) : splitSlashes cs = [cs] := by
  induction cs with
  | nil => rfl
  | cons c rest ih =>
    obtain ⟨hc, hrest⟩ := not_or.mp (mt List.mem_cons.mpr h)
    rw [splitSlashes, if_neg (Ne.symm hc), ih hrest]

theorem parse_of_plain {s : String} (h : '/' ∉ s.toList) (hn : isName s.toList = true) :
    parse s = ⟨.relative, [s]⟩ := by
  have htake : s.toList.takeWhile (· = '/') = [] := by
    cases hs : s.toList with
    | nil => rfl
    | cons c rest =>
      rw [hs] at h
      exact List.takeWhile_cons_of_neg
        (by simpa using fun hc : c = '/' => h (hc ▸ List.mem_cons_self ..))
  rw [parse, anchorOf, htake, splitSlashes_of_plain h]
  simp [hn]

end HotReload.Path
