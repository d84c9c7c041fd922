import HotReload.Proofs.FileTree.Lookup

/-!
# What a tree holds

What is true of every node stays true when files are written and removed, if it is true of
what is written. All that an edit can fail with is a fault of a path.
-/
namespace HotReload.FileTree

variable {α : Type} {t t' : FileTree α} {P : FileNode α → Prop}

/-- Whether something is true of every node below the top. -/
def Holds (P : FileNode α → Prop) (t : FileTree α) : Prop := ∀ entry ∈ t.nodes, P entry.2

theorem Holds.node? (h : Holds P t) {loc : Location} {n : FileNode α} (hl : loc ≠ [])
    (hn : t.node? loc = some n) : P n := by
  rw [FileTree.node?, if_neg hl] at hn
  obtain ⟨entry, he, rfl⟩ := Option.map_eq_some_iff.mp hn
  exact h entry (List.mem_of_find?_eq_some he)

/-- What a path leads to is a directory or stands below the top. -/
theorem Holds.lookup (h : Holds P t) (hd : P .directory) {path : Path} {n : FileNode α}
    (hn : t.lookup path = .ok n) : P n := by
  unfold FileTree.lookup at hn
  split at hn
  · rename_i loc _
    by_cases hl : loc = []
    · rw [hl] at hn
      cases hn
      exact hd
    · cases hm : t.node? loc with
      | none =>
        rw [hm] at hn
        cases hn
      | some m =>
        rw [hm] at hn
        cases hn
        exact h.node? hl hm
  · cases hn

theorem mem_put {loc : Location} {n : FileNode α} {entry : Location × FileNode α}
    {nodes : List (Location × FileNode α)} (h : entry ∈ put loc n nodes) :
    entry.2 = n ∨ entry ∈ nodes := by
  induction nodes with
  | nil =>
    rw [put, List.mem_singleton] at h
    exact Or.inl (congrArg Prod.snd h)
  | cons first rest ih =>
    unfold put at h
    split at h
    · rcases List.mem_cons.mp h with h | h
      · exact Or.inl (congrArg Prod.snd h)
      · exact Or.inr (List.mem_cons_of_mem _ h)
    · rcases List.mem_cons.mp h with h | h
      · exact Or.inr (h ▸ List.mem_cons_self)
      · exact (ih h).imp_right (List.mem_cons_of_mem _)

theorem Holds.putNode (h : Holds P t) {n : FileNode α} (hn : P n) (loc : Location) :
    Holds P (t.putNode loc n) := by
  intro entry he
  rcases mem_put he with he | he
  · exact he ▸ hn
  · exact h entry he

theorem Holds.dropUnder (h : Holds P t) (loc : Location) : Holds P (t.dropUnder loc) :=
  fun entry he => h entry (List.mem_filter.mp he).1

/-- What an edit leads to: a tree that holds the same, or a fault of a path. -/
def Edits (P : FileNode α → Prop) (t : FileTree α) : Except Failure (FileTree α) → Prop
  | .ok t' => Holds P t' ∧ t'.here = t.here
  | .error e => ∃ fault path, e = .file fault path

theorem edits_makeDirectories (h : Holds P t) (hd : P .directory) (fuel : Nat) (path : Path) :
    Edits P t (t.makeDirectories fuel path) := by
  induction fuel generalizing path with
  | zero => exact ⟨_, _, rfl⟩
  | succ fuel ih =>
    unfold makeDirectories
    split
    · split
      · exact ⟨h, rfl⟩
      · exact ⟨_, _, rfl⟩
      · exact ⟨h.putNode hd _, rfl⟩
    · have ih := ih path.parent
      split
      · rename_i t₁ ht
        rw [ht] at ih
        split
        · exact ⟨ih.1.putNode hd _, ih.2⟩
        · exact ⟨_, _, rfl⟩
      · rename_i e he
        rw [he] at ih
        exact ih
    · exact ⟨_, _, rfl⟩

theorem edits_write (h : Holds P t) (hd : P .directory) {content : α} {time : Float}
    (hf : P (.file content time)) (path : Path) : Edits P t (t.write path content time) := by
  have hm := edits_makeDirectories h hd (path.parent.parts.length + 1) path.parent
  rw [write, makeDirectory]
  rcases hr : t.makeDirectories (path.parent.parts.length + 1) path.parent with e | t₁
  · rw [hr] at hm
    exact hm
  · rw [hr] at hm
    dsimp only [bind, Except.bind]
    split
    · exact ⟨_, _, rfl⟩
    · split
      · exact ⟨hm.1.putNode hf _, hm.2⟩
      · exact ⟨_, _, rfl⟩
    · split
      · exact ⟨hm.1.putNode hf _, hm.2⟩
      · exact ⟨_, _, rfl⟩

theorem edits_remove (h : Holds P t) (path : Path) : Edits P t (t.remove path) := by
  unfold remove
  split
  · split
    · exact ⟨_, _, rfl⟩
    · exact ⟨h.dropUnder _, rfl⟩
    · exact ⟨h, rfl⟩
  · exact ⟨h, rfl⟩
  · exact ⟨_, _, rfl⟩

/-- Following a path only meets names of the path and of links. -/
theorem follow_names {Q : String → Prop} (hl : ∀ loc target, t.node? loc = some (.link target) →
      ∀ name ∈ target.parts, Q name) {fuel : Nat} {opened : List (Location × Nat)} {loc : Location}
    {parts : List String} (h₁ : ∀ name ∈ loc, Q name) (h₂ : ∀ name ∈ parts, Q name) :
    ∀ name ∈ t.follow fuel opened loc parts, Q name := by
  induction fuel generalizing opened loc parts with
  | zero =>
    cases parts with
    | nil => exact h₁
    | cons part rest => exact List.forall_mem_append.mpr ⟨h₁, h₂⟩
  | succ fuel ih =>
    cases parts with
    | nil => exact h₁
    | cons part rest =>
      obtain ⟨hp, hrest⟩ := List.forall_mem_cons.mp h₂
      unfold follow
      split
      · exact ih (fun name hn => h₁ name (List.dropLast_subset _ hn)) hrest
      · split
        · rename_i target ht
          dsimp only
          split
          · exact List.forall_mem_append.mpr ⟨h₁, h₂⟩
          · refine ih (fun name hn => ?_) (List.forall_mem_append.mpr ⟨hl _ target ht, hrest⟩)
            split at hn
            · cases hn
            · exact h₁ name hn
        · exact ih (List.forall_mem_append.mpr ⟨h₁, List.forall_mem_singleton.mpr hp⟩) hrest

theorem modified?_error {path : Path} {e : Failure} (h : t.modified? path = .error e) :
    ∃ fault text, e = .file fault text := by
  unfold modified? at h
  split at h
  · cases h
  · cases h
  · cases h
    exact ⟨_, _, rfl⟩
  · cases h

end HotReload.FileTree
