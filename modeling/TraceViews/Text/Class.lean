/-!
# Character classes

The classes of characters that the project's texts are cut by. White space and decimal digits are
the Unicode properties, given by their ranges; words and numbers of the filter language are ASCII.
-/

namespace TraceViews.Text

/-- Membership in a table of closed ranges of code points. -/
def inRanges (table : List (Nat × Nat)) (c : Char) : Bool :=
  table.any fun range => range.1 ≤ c.toNat && c.toNat ≤ range.2

/-- The 25 characters with the property `White_Space`, as ascending ranges. -/
def blankRanges : List (Nat × Nat) :=
  [(0x09, 0x0D), (0x20, 0x20), (0x85, 0x85), (0xA0, 0xA0), (0x1680, 0x1680), (0x2000, 0x200A),
    (0x2028, 0x2029), (0x202F, 0x202F), (0x205F, 0x205F), (0x3000, 0x3000)]

/-- A white-space character. -/
def isBlank (c : Char) : Bool := inRanges blankRanges c

/-- A character that a word may begin with: an ASCII letter or an underscore. -/
def isWordStart (c : Char) : Bool := c.isAlpha || c == '_'

/-- A character that a word may go on with: an ASCII letter, an ASCII digit or an underscore. -/
def isWordChar (c : Char) : Bool := c.isAlphanum || c == '_'

/-- The value of an ASCII digit. -/
def digit? (c : Char) : Option Nat := if c.isDigit then some (c.toNat - '0'.toNat) else none

theorem isWordChar_of_isWordStart {c : Char} (h : isWordStart c = true) : isWordChar c = true := by
  simp only [isWordStart, isWordChar, Char.isAlphanum, Bool.or_eq_true] at h ⊢
  grind

example : (blankRanges.map fun range => range.2 - range.1 + 1).sum = 25 := by decide

end TraceViews.Text
