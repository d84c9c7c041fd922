/-!
# Kinds of file changes
-/
namespace HotReload

inductive ChangeKind where
  | created
  | deleted
  | modified
  deriving Repr, DecidableEq

namespace ChangeKind

def word : ChangeKind → String
  | .created => "created"
  | .deleted => "deleted"
  | .modified => "modified"

def ofWord? : String → Option ChangeKind
  | "created" => some .created
  | "deleted" => some .deleted
  | "modified" => some .modified
  | _ => none

/-- Two changes of one file in a row, as one: a file created and then modified is new, and
one deleted and created again, as editors save, is modified. -/
def coalesce : ChangeKind → ChangeKind → ChangeKind
  | .created, .modified => .created
  | .deleted, .created => .modified
  | _, current => current

theorem coalesce_eq_deleted_iff (a b : ChangeKind) : coalesce a b = .deleted ↔ b = .deleted := by
  cases a <;> cases b <;> simp [coalesce]

theorem ofWord?_word (k : ChangeKind) : ofWord? k.word = some k := by
  cases k <;> rfl

end ChangeKind

end HotReload
