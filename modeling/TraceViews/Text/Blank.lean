import TraceViews.Text.Class

/-!
# Cutting text at white space

Trimming, the first word of a line with what follows it, and the words of a line.
-/

namespace TraceViews.Text

/-- The text without white space at its end. -/
def trimEnd (cs : List Char) : List Char := (cs.reverse.dropWhile isBlank).reverse

/-- The text without white space at either end. -/
def trim (cs : List Char) : List Char := trimEnd (cs.dropWhile isBlank)

/-- Cuts a text at its first white-space character, which belongs to neither part. -/
def splitFirst (cs : List Char) : List Char × List Char :=
  (cs.takeWhile (!isBlank ·), (cs.dropWhile (!isBlank ·)).drop 1)

/-- The maximal runs of characters that are not white space, in order. -/
def words : List Char → List (List Char)
  | [] => []
  | c :: cs =>
    if isBlank c then words cs
    else
      match cs with
      | [] => [[c]]
      | d :: _ =>
        if isBlank d then [c] :: words cs
        else
          match words cs with
          | [] => [[c]]
          | w :: ws => (c :: w) :: ws

/-- A text of white space alone. -/
def allBlank (cs : List Char) : Bool := cs.all isBlank

end TraceViews.Text
