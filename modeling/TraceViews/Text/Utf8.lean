/-!
# Byte positions

Places in a text are counted in bytes of its UTF-8 form. A text is a list of characters here, so a
byte position is a measure on lists and a cut at a byte position is a function on them.
-/

namespace TraceViews.Text

/-- The number of bytes of a text in UTF-8. -/
def byteLength (cs : List Char) : Nat := cs.foldr (fun c n => c.utf8Size + n) 0

@[simp] theorem byteLength_nil : byteLength [] = 0 := rfl

@[simp] theorem byteLength_cons (c : Char) (cs : List Char) :
    byteLength (c :: cs) = c.utf8Size + byteLength cs := rfl

@[simp] theorem byteLength_append (xs ys : List Char) :
    byteLength (xs ++ ys) = byteLength xs + byteLength ys := by
  induction xs with
  | nil => simp
  | cons c xs ih => simp [ih, Nat.add_assoc]

/-- Cuts a text at a byte position; a character that the position falls into goes to the right. -/
def splitAtByte : Nat → List Char → List Char × List Char
  | _, [] => ([], [])
  | n, c :: cs =>
    if c.utf8Size ≤ n then
      let parts := splitAtByte (n - c.utf8Size) cs
      (c :: parts.1, parts.2)
    else ([], c :: cs)

/-- A cut at the byte length of a beginning gives that beginning back. -/
theorem splitAtByte_byteLength (xs ys : List Char) :
    splitAtByte (byteLength xs) (xs ++ ys) = (xs, ys) := by
  induction xs with
  | nil =>
    cases ys with
    | nil => rfl
    | cons c cs => simp [splitAtByte, Nat.pos_iff_ne_zero.1 c.utf8Size_pos]
  | cons c xs ih => simp [splitAtByte, ih]

/-- A text has one beginning of a byte length. -/
theorem append_inj_of_byteLength {xs ys xs' ys' : List Char} (h : xs ++ ys = xs' ++ ys')
    (hlength : byteLength xs = byteLength xs') : xs = xs' ∧ ys = ys' := by
  have hparts := congrArg (splitAtByte (byteLength xs)) h
  rw [splitAtByte_byteLength, hlength, splitAtByte_byteLength] at hparts
  exact Prod.mk.inj hparts

end TraceViews.Text
