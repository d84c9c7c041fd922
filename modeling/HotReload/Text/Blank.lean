import HotReload.Text.Ranges

/-!
# Blank characters

The characters of white space, and a wider class to which four separators of the ASCII
control block belong too. Stripping a text takes them off both its ends.
-/
namespace HotReload.Text

/-- White space. -/
def whiteSpace : Ranges :=
  [(0x9, 0xd), (0x20, 0x20), (0x85, 0x85), (0xa0, 0xa0), (0x1680, 0x1680), (0x2000, 0x200a),
    (0x2028, 0x2029), (0x202f, 0x202f), (0x205f, 0x205f), (0x3000, 0x3000)]

/-- White space, and the separators of files, groups, records and units. -/
def blanks : Ranges := (0x1c, 0x1f) :: whiteSpace

def isWhiteSpace (c : Char) : Bool := whiteSpace.contains c.toNat

def isBlank (c : Char) : Bool := blanks.contains c.toNat

/-- A text without the characters of a class at both its ends. -/
def stripClass (isIn : Char → Bool) (cs : List Char) : List Char :=
  ((cs.dropWhile isIn).reverse.dropWhile isIn).reverse

def strip (cs : List Char) : List Char := stripClass isBlank cs

end HotReload.Text
