/-!
# Classes of characters

A class is a list of ranges of code points in ascending order, so that looking a character up
ends at the first range that is not below it.

* `CharClass`: classes and their members;
* `isBlank`: the characters with the property of being white space, in all scripts.
-/

namespace ClusterClient

/-- Ranges of code points, ends included, in ascending order. -/
abbrev CharClass := List (Nat × Nat)

namespace CharClass

/-- Whether a code point lies in one of the ranges. -/
def hasCode : CharClass → Nat → Bool
  | [], _ => false
  | (first, last) :: rest, n => if n ≤ last then first ≤ n else hasCode rest n

/-- Whether a character belongs to the class. -/
def contains (k : CharClass) (c : Char) : Bool :=
  k.hasCode c.toNat

end CharClass

/-! ## Blank characters -/

def blankCharacters : CharClass :=
  [(0x09, 0x0d), (0x20, 0x20), (0x85, 0x85), (0xa0, 0xa0), (0x1680, 0x1680), (0x2000, 0x200a),
    (0x2028, 0x2029), (0x202f, 0x202f), (0x205f, 0x205f), (0x3000, 0x3000)]

/-- Whether a character is white space in any script. -/
def isBlank (c : Char) : Bool :=
  blankCharacters.contains c

end ClusterClient
