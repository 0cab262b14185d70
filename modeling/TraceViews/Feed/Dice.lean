/-!
# Random draws

Chance enters as data: a stream of numbers, of which each draw uses the next one. What holds for
every stream holds whatever is drawn.
-/

namespace TraceViews

/-- A stream of numbers, and how many of them are used up. -/
structure Dice where
  numbers : Nat → Nat
  used : Nat

namespace Dice

/-- The output of a counter-based generator: the counter, spread over the range by an odd constant,
is mixed by multiplications and shifts. -/
def mix (seed : UInt64) (i : Nat) : Nat :=
  let z := seed + 0x9E3779B97F4A7C15 * (UInt64.ofNat i + 1)
  let z := (z ^^^ (z >>> 30)) * 0xBF58476D1CE4E5B9
  let z := (z ^^^ (z >>> 27)) * 0x94D049BB133111EB
  (z ^^^ (z >>> 31)).toNat

/-- The stream of a seed. -/
def seeded (seed : Nat) : Dice := ⟨mix (UInt64.ofNat seed), 0⟩

/-- A number below `bound`. -/
def below (bound : Nat) (d : Dice) : Nat × Dice :=
  (d.numbers d.used % bound, { d with used := d.used + 1 })

/-- A number from `low` to `high`. -/
def between (low high : Nat) (d : Dice) : Nat × Dice :=
  let (n, d) := d.below (high - low + 1)
  (low + n, d)

/-- One of the elements of a list, if there is one. -/
def pick {α : Type} (xs : List α) (d : Dice) : Option α × Dice :=
  let (i, d) := d.below xs.length
  (xs[i]?, d)

/-- As many elements of a list, at different positions, as asked for and there are. -/
def choose {α : Type} : Nat → List α → Dice → List α × Dice
  | 0, _, d => ([], d)
  | n + 1, xs, d =>
    let (i, d) := d.below xs.length
    match xs[i]? with
    | none => ([], d)
    | some x =>
      let (rest, d) := d.choose n (xs.eraseIdx i)
      (x :: rest, d)

end Dice

end TraceViews
