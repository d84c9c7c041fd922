import HotReload.Host.World

/-!
# Canonical forms that cannot be found

Finding a canonical form fails where links lead round in a circle, and nowhere else. A path that is
not absolute is never resolved, so its form is always found.
-/
namespace HotReload

/-- The canonical form of a path under a root, if it can be found. -/
def FileTree.form? {α : Type} (t : FileTree α) (root path : Path) : Option Path :=
  match t.circleUnder? root path with
  | some _ => none
  | none => some (Path.canonical t.resolve? root path)

namespace World

variable {w : World}

theorem circle?_failure {p : Path} {e : Failure} (h : w.circle? p = some e) :
    ∃ argument, e = .raised "RuntimeError" argument := by
  have hfiles {q : Path} (hq : w.files.circle? q = some e) : ∃ argument,
    e = .raised "RuntimeError" argument := by
    unfold FileTree.circle? at hq
    split at hq
    · cases hq
    · split at hq
      · cases hq
        exact ⟨_, rfl⟩
      · cases hq
  unfold circle? FileTree.circleUnder? at h
  split at h
  · rcases Option.or_eq_some_iff.mp h with hp | ⟨-, hroot⟩
    · exact hfiles hp
    · exact hfiles hroot
  · cases h

/-- Where no link is followed, none leads round in a circle. -/
theorem circle?_of_relative {p : Path} (h : p.isAbsolute = false) : w.circle? p = none := by
  rw [circle?, FileTree.circleUnder?, h]
  rfl

/-- The canonical form of a path, if it can be found. -/
def form? (w : World) (p : Path) : Option Path := w.files.form? w.root p

theorem form?_eq_some {p q : Path} :
    w.form? p = some q ↔ w.circle? p = none ∧ w.canonical p = q := by
  rw [form?, FileTree.form?, circle?, canonical]
  cases w.files.circleUnder? w.root p <;> simp

theorem form?_of_none {p : Path} (h : w.circle? p = none) : w.form? p = some (w.canonical p) :=
  form?_eq_some.mpr ⟨h, rfl⟩

theorem circleAmong?_eq_none {paths : List Path} :
    w.circleAmong? paths = none ↔ ∀ p ∈ paths, w.circle? p = none :=
  List.findSome?_eq_none_iff

theorem circleAmong?_failure {paths : List Path} {e : Failure} (h : w.circleAmong? paths = some e) :
    ∃ argument, e = .raised "RuntimeError" argument := by
  obtain ⟨p, -, hp⟩ := List.exists_of_findSome?_eq_some h
  exact circle?_failure hp

/-- Paths that are their own canonical forms are found, and stay what they are. -/
theorem circleAmong?_of_settled {paths : List Path} (h : ∀ p ∈ paths, w.form? p = some p) :
    w.circleAmong? paths = none :=
  circleAmong?_eq_none.mpr fun p hp => (form?_eq_some.mp (h p hp)).1

theorem map_canonical_of_settled {paths : List Path} (h : ∀ p ∈ paths, w.form? p = some p) :
    paths.map w.canonical = paths :=
  (List.map_congr_left fun p hp => (form?_eq_some.mp (h p hp)).2).trans (List.map_id paths)

theorem normalizeAll_of_none {paths : List Path} (h : w.circleAmong? paths = none) :
    w.normalizeAll paths = .ok (paths.map w.canonical) := by
  rw [normalizeAll, h]

theorem normalizeAll_of_some {paths : List Path} {e : Failure} (h : w.circleAmong? paths = some e) :
    w.normalizeAll paths = .error e := by
  rw [normalizeAll, h]

theorem normalize_of_none {p : Path} (h : w.circle? p = none) :
    w.normalize p = .ok (w.canonical p) := by
  rw [normalize, h]

theorem normalize_error {p : Path} {e : Failure} :
    w.normalize p = .error e ↔ w.circle? p = some e := by
  rw [normalize]
  cases w.circle? p <;> simp

theorem normalize_ok {p form : Path} (h : w.normalize p = .ok form) :
    w.circle? p = none ∧ form = w.canonical p := by
  unfold normalize at h
  split at h
  · cases h
  · cases h
    exact ⟨by assumption, rfl⟩

end World

end HotReload
