import TraceViews.Text.Class

/-!
# Integers in decimal

Writing integers in decimal, and reading them back within bounds. A reader takes the digits from
left to right and stops at the first character that is no digit or takes the value out of its
bounds, so the fault further left is the one it names.
-/

namespace TraceViews.Text

/-- Why a text is no integer of the wanted range. -/
inductive NumberFault where
  | empty
  | invalidDigit
  | tooLarge
  | tooSmall
  deriving DecidableEq, Repr

namespace NumberFault

/-- The wording of a fault. -/
def message : NumberFault → String
  | empty => "cannot parse integer from empty string"
  | invalidDigit => "invalid digit found in string"
  | tooLarge => "number too large to fit in target type"
  | tooSmall => "number too small to fit in target type"

end NumberFault

/-- The largest unsigned number of 64 bits, the bound of row numbers and counts. -/
def maxCount : Nat := UInt64.size - 1

/-- The largest signed number of 64 bits. -/
def maxInt64 : Nat := UInt64.size / 2 - 1

/-- Reads digits after those that gave `value`; `overflow` names a value above `limit`. -/
def readDigits (limit : Nat) (overflow : NumberFault) (value : Nat) :
    List Char → Except NumberFault Nat
  | [] => .ok value
  | c :: cs =>
    match digit? c with
    | none => .error .invalidDigit
    | some d =>
      if value * 10 + d ≤ limit then readDigits limit overflow (value * 10 + d) cs
      else .error overflow

/-- Reads the digits behind a sign, of which there is at least one. -/
def readMagnitude (limit : Nat) (overflow : NumberFault) (cs : List Char) :
    Except NumberFault Nat :=
  if cs.isEmpty then .error .invalidDigit else readDigits limit overflow 0 cs

/-- Reads a count: an optional plus sign and digits, at most `maxCount`. -/
def readCount : List Char → Except NumberFault Nat
  | [] => .error .empty
  | '+' :: cs => readMagnitude maxCount .tooLarge cs
  | cs => readMagnitude maxCount .tooLarge cs

/-- Reads a signed number of 64 bits: an optional sign and digits. -/
def readInt64 : List Char → Except NumberFault Int64
  | [] => .error .empty
  | '-' :: cs => (readMagnitude (maxInt64 + 1) .tooSmall cs).map fun n => Int64.ofInt (-n)
  | '+' :: cs => (readMagnitude maxInt64 .tooLarge cs).map fun n => Int64.ofInt n
  | cs => (readMagnitude maxInt64 .tooLarge cs).map fun n => Int64.ofInt n

/-- The decimal digits of a number. -/
def natDigits (n : Nat) : List Char := Nat.toDigits 10 n

/-- An integer in decimal, with a minus sign where it is negative. -/
def intDigits : Int → List Char
  | .ofNat n => natDigits n
  | .negSucc n => '-' :: natDigits (n + 1)

/-- A count in decimal, as text. -/
def showNat (n : Nat) : String := String.ofList (natDigits n)

/-- A signed number of 64 bits in decimal, as text. -/
def showInt64 (n : Int64) : String := String.ofList (intDigits n.toInt)

end TraceViews.Text
