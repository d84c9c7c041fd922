import HotReload.FileTree.Basic
import HotReload.Proofs.Path.Folding

/-!
# Looking up paths without links

In a tree without links the location of a path can be read off the path.
-/
namespace HotReload

theorem Path.hasNull_eq_false_iff {p : Path} :
    p.hasNull = false ↔ ∀ part ∈ p.parts, '\x00' ∉ part.toList := by
  simp [hasNull, String.contains_char_eq]

namespace FileTree

variable {α : Type} {t : FileTree α}

/-- Whether there are no links. -/
def IsPlain (t : FileTree α) : Prop := ∀ loc target, t.node? loc ≠ some (.link target)

/-- Following names without steps up ends where the names lead. -/
theorem walk_eq_ok (ht : IsPlain t) {fuel : Nat} {loc found : Location} {parts : List String}
    (hp : ".." ∉ parts) (h : t.walk fuel loc parts = .ok found) : found = loc ++ parts := by
  induction fuel generalizing loc parts with
  | zero =>
    cases parts with
    | nil =>
      cases h
      simp
    | cons part rest => cases h
  | succ fuel ih =>
    cases parts with
    | nil =>
      cases h
      simp
    | cons part rest =>
      rw [List.mem_cons, not_or] at hp
      unfold walk at h
      split at h
      · rw [if_neg (Ne.symm hp.1)] at h
        split at h
        · cases h
        · split at h
          · exact absurd ‹_› (ht _ _)
          · rw [ih hp.2 h, List.append_assoc]
            rfl
          · cases h
      · cases h
      · cases h

/-- Without links there is no circle to be caught in. -/
theorem walk_ne_tooManyLinks (ht : IsPlain t) {fuel : Nat} {loc : Location} {parts : List String}
    (hf : parts.length ≤ fuel) : t.walk fuel loc parts ≠ .error .tooManyLinks := by
  induction fuel generalizing loc parts with
  | zero =>
    have hp : parts = [] := List.length_eq_zero_iff.mp (by omega)
    subst hp
    exact nofun
  | succ fuel ih =>
    cases parts with
    | nil => exact nofun
    | cons part rest =>
      rw [List.length_cons] at hf
      have hrest : rest.length ≤ fuel := by omega
      unfold walk
      split
      · split
        · exact ih hrest
        · split
          · exact nofun
          · split
            · exact absurd ‹_› (ht _ _)
            · exact ih hrest
            · exact nofun
      · exact nofun
      · exact nofun

/-- A path without steps up that leads to a file stands for its place. -/
theorem node?_of_isFile (ht : IsPlain t) {p : Path} (hp : ".." ∉ (t.here.join p).parts)
    (h : t.isFile p = .ok true) :
    ∃ content time, t.node? (t.here.join p).parts = some (.file content time) := by
  unfold isFile at h
  split at h
  · rename_i content time hl
    refine ⟨content, time, ?_⟩
    unfold lookup find at hl
    split at hl
    · rename_i found hw
      split at hw
      · cases hw
      · rw [walk_eq_ok ht hp hw, List.nil_append] at hl
        cases hn : t.node? (t.here.join p).parts with
        | none =>
          rw [hn] at hl
          cases hl
        | some n =>
          rw [hn] at hl
          cases hl
          rfl
    · cases hl
  · cases h
  · split at h <;> cases h

/-- Following a path that may not exist takes back a name for each step up. -/
theorem follow_eq (ht : IsPlain t) {fuel : Nat} {opened : List (Location × Nat)} {loc : Location}
    {parts : List String} (hf : parts.length ≤ fuel) (hl : ".." ∉ loc) :
    t.follow fuel opened loc parts = (parts.foldl (Path.foldStep true) loc.reverse).reverse := by
  induction fuel generalizing loc parts with
  | zero =>
    have hp : parts = [] := List.length_eq_zero_iff.mp (by omega)
    subst hp
    simp [follow]
  | succ fuel ih =>
    cases parts with
    | nil => simp [follow]
    | cons part rest =>
      rw [List.length_cons] at hf
      rw [List.foldl_cons]
      unfold follow
      by_cases hp : part = ".."
      · rw [if_pos hp, ih (by omega) (fun h => hl (List.dropLast_subset _ h))]
        congr 2
        rcases List.eq_nil_or_concat loc with rfl | ⟨init, last, rfl⟩
        · simp [Path.foldStep, hp]
        · have hne : last ≠ ".." := by
            rintro rfl
            exact hl (by simp)
          simp [Path.foldStep, hp, hne]
      · rw [if_neg hp]
        have hs : Path.foldStep true loc.reverse part = (loc ++ [part]).reverse := by
          simp [Path.foldStep, hp]
        rw [hs]
        have hl' : ".." ∉ loc ++ [part] := by
          rw [List.mem_append, List.mem_singleton, not_or]
          exact ⟨hl, Ne.symm hp⟩
        split
        · exact absurd ‹_› (ht _ _)
        · exact ih (by omega) hl'

/-- Without links a path ends where its names lead. -/
theorem followed_eq (ht : IsPlain t) (p : Path) :
    t.followed p = ⟨.root, Path.foldParts true (t.here.join p).parts⟩ := by
  have hf : t.follow (stepLimit (t.here.join p).parts) [] [] (t.here.join p).parts =
      Path.foldParts true (t.here.join p).parts :=
    follow_eq ht (by simp [stepLimit]) (by simp)
  rw [followed, hf, Path.foldParts_foldParts]

theorem circle?_of_find {p : Path} {fault : FileFault} (h : t.find (t.followed p) = .error fault)
    (hf : fault ≠ .tooManyLinks) : t.circle? p = none := by
  rw [circle?, h]
  cases fault with
  | tooManyLinks => exact absurd rfl hf
  | _ => exact ite_self _

theorem circle?_of_found {p : Path} {loc : Location} (h : t.find (t.followed p) = .ok loc) :
    t.circle? p = none := by
  rw [circle?, h]
  exact ite_self _

theorem resolve?_of_none {p : Path} (hn : p.hasNull = false) (h : t.circle? p = none) :
    t.resolve? p = some (t.followed p) := by
  rw [resolve?, hn, h]
  rfl

/-- Without links every path can be resolved. -/
theorem circle?_eq_none (ht : IsPlain t) (p : Path) : t.circle? p = none := by
  unfold circle?
  split
  · rfl
  · split
    · rename_i hfind
      unfold find at hfind
      split at hfind
      · cases hfind
      · exact absurd hfind (walk_ne_tooManyLinks ht (by simp [stepLimit]))
    · rfl

/-- Without links the location of a path is found by looking at the path alone. -/
theorem resolve?_eq (ht : IsPlain t) (p : Path) : t.resolve? p = Path.locate? t.here p := by
  unfold resolve? Path.locate?
  rw [circle?_eq_none ht, followed_eq ht]
  cases p.hasNull <;> rfl

/-- What is a directory has no null character in its path. -/
theorem hasNull_of_isDirectory {p : Path} (h : t.isDirectory p = .ok true) : p.hasNull = false := by
  refine Bool.eq_false_iff.mpr fun hn => ?_
  have hlookup : t.lookup p = .error .nullCharacter := by
    rw [lookup, find, if_pos hn]
  rw [isDirectory, hlookup] at h
  cases h

/-! An entry of a directory that stands at the top. -/

/-- Whether a name may be that of an entry: neither a step up nor too long, and
without null characters. -/
def IsEntryName (name : String) : Prop :=
  name ≠ ".." ∧ name.utf8ByteSize ≤ nameLimit ∧ '\x00' ∉ name.toList

instance (name : String) : Decidable (IsEntryName name) := inferInstanceAs (Decidable (_ ∧ _ ∧ _))

/-- A name of a directory's entry that is no link is followed. -/
theorem walk_entry {fuel : Nat} {loc : Location} {name : String} {rest : List String}
    {node : FileNode α} (hd : t.node? loc = some .directory) (hname : IsEntryName name)
    (hn : t.node? (loc ++ [name]) = some node) (hl : ∀ target, node ≠ .link target) :
    t.walk (fuel + 1) loc (name :: rest) = t.walk fuel (loc ++ [name]) rest := by
  obtain ⟨hup, hsize, -⟩ := hname
  rw [walk, hd]
  dsimp only
  rw [if_neg hup, if_neg (Nat.not_lt.mpr hsize), hn]
  cases node with
  | link target => exact absurd rfl (hl target)
  | file | directory => rfl

theorem walk_missing {fuel : Nat} {loc : Location} {name : String} {rest : List String}
    (hd : t.node? loc = some .directory) (hname : IsEntryName name)
    (hn : t.node? (loc ++ [name]) = none) :
    t.walk (fuel + 1) loc (name :: rest) = .error .notFound := by
  obtain ⟨hup, hsize, -⟩ := hname
  rw [walk, hd]
  dsimp only
  rw [if_neg hup, if_neg (Nat.not_lt.mpr hsize), hn]

section Entry

variable {directory name : String} (hd : t.node? [directory] = some .directory)
  (hdirectory : IsEntryName directory) (hname : IsEntryName name)
include hd hdirectory hname

theorem find_entry :
    t.find ⟨.root, [directory, name]⟩ = t.walk (stepLimit [name]) [directory] [name] := by
  have hnull : (⟨.root, [directory, name]⟩ : Path).hasNull = false :=
    Path.hasNull_eq_false_iff.mpr (by simp [hdirectory.2.2, hname.2.2])
  rw [find, if_neg (by rw [hnull]; decide)]
  exact walk_entry rfl hdirectory hd fun target h => by cases h

theorem lookup_entry {node : FileNode α} (hn : t.node? [directory, name] = some node)
    (hl : ∀ target, node ≠ .link target) : t.lookup ⟨.root, [directory, name]⟩ = .ok node := by
  have hwalk : t.walk (stepLimit [name]) [directory] [name] = .ok [directory, name] :=
    walk_entry hd hname hn hl
  rw [lookup, find_entry hd hdirectory hname, hwalk]
  dsimp only
  rw [hn]
  rfl

theorem lookup_missing (hn : t.node? [directory, name] = none) :
    t.lookup ⟨.root, [directory, name]⟩ = .error .notFound := by
  have hwalk : t.walk (stepLimit [name]) [directory] [name] = .error .notFound :=
    walk_missing hd hname hn
  rw [lookup, find_entry hd hdirectory hname, hwalk]

theorem isFile_entry {content : α} {time : Float}
    (hn : t.node? [directory, name] = some (.file content time)) :
    t.isFile ⟨.root, [directory, name]⟩ = .ok true := by
  rw [isFile, lookup_entry hd hdirectory hname hn fun target h => by cases h]

theorem isFile_missing (hn : t.node? [directory, name] = none) :
    t.isFile ⟨.root, [directory, name]⟩ = .ok false := by
  rw [isFile, lookup_missing hd hdirectory hname hn]
  rfl

end Entry

end FileTree

end HotReload
