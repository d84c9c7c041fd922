import HotReload.Path.Canonical

/-!
# Folding paths

Folding a path that was folded changes nothing. Names are kept one by one as long as there is no
step up, and none is left in a path from the top.
-/
namespace HotReload.Path

variable {absolute : Bool} {parts done : List String} {p : Path}

theorem foldStep_of_ne {part : String} (h : part ≠ "..") :
    foldStep absolute done part = part :: done :=
  if_pos h

/-- Whether what was folded so far, backwards, stays as it is when it is folded. -/
def IsFolded (absolute : Bool) (done : List String) : Prop :=
  done.reverse.foldl (foldStep absolute) [] = done

theorem IsFolded.of_cons {last : String} (h : IsFolded absolute (last :: done)) (hl : last ≠ "..") :
    IsFolded absolute done := by
  rw [IsFolded, List.reverse_cons, List.foldl_append, List.foldl_cons, List.foldl_nil,
    foldStep_of_ne hl] at h
  exact (List.cons.inj h).2

theorem IsFolded.step (h : IsFolded absolute done) (part : String) :
    IsFolded absolute (foldStep absolute done part) := by
  have hcons {part : String} (hs : foldStep absolute done part = part :: done) :
      IsFolded absolute (part :: done) := by
    rw [IsFolded, List.reverse_cons, List.foldl_append, h, List.foldl_cons, List.foldl_nil, hs]
  by_cases hp : part = ".."
  · subst hp
    cases done with
    | nil => cases absolute <;> rfl
    | cons last rest =>
      by_cases hl : last = ".."
      · have hs : foldStep absolute (last :: rest) ".." = ".." :: last :: rest := by
          simp [foldStep, hl]
        rw [hs]
        exact hcons hs
      · have hs : foldStep absolute (last :: rest) ".." = rest := by simp [foldStep, hl]
        rw [hs]
        exact h.of_cons hl
  · rw [foldStep_of_ne hp]
    exact hcons (foldStep_of_ne hp)

theorem isFolded_foldl (h : IsFolded absolute done) :
    IsFolded absolute (parts.foldl (foldStep absolute) done) := by
  induction parts generalizing done with
  | nil => exact h
  | cons part rest ih => exact ih (h.step part)

theorem foldParts_foldParts :
    foldParts absolute (foldParts absolute parts) = foldParts absolute parts := by
  have hf : IsFolded absolute (parts.foldl (foldStep absolute) []) := isFolded_foldl rfl
  exact congrArg List.reverse hf

theorem fold_fold : p.fold.fold = p.fold := congrArg (Path.mk p.anchor) foldParts_foldParts

/-- Names without steps up are kept one by one. -/
theorem foldl_foldStep_of_names (h : ".." ∉ parts) :
    parts.foldl (foldStep absolute) done = parts.reverse ++ done := by
  induction parts generalizing done with
  | nil => rfl
  | cons part rest ih =>
    rw [List.mem_cons, not_or] at h
    rw [List.foldl_cons, foldStep_of_ne (Ne.symm h.1), ih h.2, List.reverse_cons, List.append_assoc]
    rfl

/-- Names without steps up are left alone. -/
theorem foldParts_eq (h : ".." ∉ parts) : foldParts absolute parts = parts := by
  rw [foldParts, foldl_foldStep_of_names h, List.append_nil, List.reverse_reverse]

theorem fold_of_names (h : ".." ∉ p.parts) : p.fold = p := by rw [fold, foldParts_eq h]

/-- No step up is left from the top. -/
theorem up_not_mem_foldParts : ".." ∉ foldParts true parts := by
  have hf (done : List String) (h : ".." ∉ done) : ".." ∉ parts.foldl (foldStep true) done := by
    induction parts generalizing done with
    | nil => exact h
    | cons part rest ih =>
      refine ih _ ?_
      unfold foldStep
      grind
  rw [foldParts, List.mem_reverse]
  exact hf [] List.not_mem_nil

theorem isAbsolute_fold : p.fold.isAbsolute = p.isAbsolute := rfl

theorem mem_foldParts {absolute : Bool} {parts : List String} {name : String}
    (h : name ∈ foldParts absolute parts) : name ∈ parts := by
  have hm : ∀ (parts done : List String), name ∈ parts.foldl (foldStep absolute) done →
      name ∈ done ∨ name ∈ parts := by
    intro parts
    induction parts with
    | nil => exact fun done h => Or.inl h
    | cons part rest ih =>
      intro done h
      rcases ih _ h with h | h
      · unfold foldStep at h
        grind
      · exact Or.inr (List.mem_cons_of_mem _ h)
  exact (hm parts [] (List.mem_reverse.mp h)).resolve_left (List.not_mem_nil)

end HotReload.Path
