import TraceViews.Proofs.Filter.Faults

/-!
# Where a syntax error points

A syntax error lies between two characters of its source, or at its end. Its column counts the
characters before it, and its excerpt shows the line around it, clipped on either side, with a caret
under the character that it lies before. Main statement: all of this holds of every source that is
refused (`pinpoints_of_parse`).
-/

namespace TraceViews.Filter

open Text

/-- Byte positions are those of the UTF-8 form. -/
theorem byteLength_eq_utf8ByteSize (cs : List Char) :
    byteLength cs = (String.ofList cs).utf8ByteSize := by
  induction cs with
  | nil => rfl
  | cons c cs ih => simp [ih, String.ofList_cons]

/-! ## Excerpts -/

/-- What an excerpt may show on one side of a place: a piece of a line, of at most 40 characters. -/
def Clipped (run : List Char) : Prop := '\n' ∉ run ∧ run.length ≤ 40

/-- The longest of the runs with a property. -/
structure Longest (p : List Char → Prop) (run : List Char) : Prop where
  holds : p run
  longest : ∀ other, p other → other.length ≤ run.length

theorem clipped_leadOut (after : List Char) : Clipped (leadOut after) := by
  constructor
  · intro hmem
    have hline := of_mem_takeWhile _ (List.mem_of_mem_take hmem)
    simp at hline
  · rw [leadOut, List.length_take]
    exact Nat.min_le_left ..

/-- An excerpt shows what it can behind a place, -/
theorem longest_leadOut (after : List Char) :
    Longest (fun run => run <+: after ∧ Clipped run) (leadOut after) where
  holds := by
    refine ⟨?_, clipped_leadOut after⟩
    exact (List.take_prefix ..).trans (List.takeWhile_prefix _)
  longest := by
    rintro run ⟨⟨rest, rfl⟩, hline, hlength⟩
    have hrun : ∀ c ∈ run, (c != '\n') = true := by
      intro c hc
      simp only [bne_iff_ne, ne_eq]
      rintro rfl
      exact hline hc
    rw [leadOut, List.takeWhile_append_of_pos hrun, List.length_take, List.length_append,
      excerptSpan]
    omega

theorem leadIn_eq_reverse (before : List Char) :
    leadIn before = (leadOut before.reverse).reverse := by
  rw [leadIn, leadOut, List.take_takeWhile]

/-- and what it can before it. -/
theorem longest_leadIn (before : List Char) :
    Longest (fun run => run <:+ before ∧ Clipped run) (leadIn before) where
  holds := by
    obtain ⟨hbegins, hline, hlength⟩ := (longest_leadOut before.reverse).holds
    rw [leadIn_eq_reverse]
    refine ⟨?_, ?_, ?_⟩
    · rw [← List.reverse_prefix, List.reverse_reverse]
      exact hbegins
    · rw [List.mem_reverse]
      exact hline
    · rw [List.length_reverse]
      exact hlength
  longest := by
    rintro run ⟨hends, hline, hlength⟩
    have hmirror := (longest_leadOut before.reverse).longest run.reverse
      ⟨List.reverse_prefix.2 hends, by rwa [List.mem_reverse], by rwa [List.length_reverse]⟩
    rw [leadIn_eq_reverse, List.length_reverse]
    rwa [List.length_reverse] at hmirror

theorem head?_leadOut {after : List Char} (h : after.head? ≠ some '\n') :
    (leadOut after).head? = after.head? := by
  cases after with
  | nil => rfl
  | cons c cs =>
    have hc : c ≠ '\n' := by simpa using h
    simp [leadOut, excerptSpan, hc]

/-! ## Syntax errors -/

/-- A syntax error lies between two parts of its source, of which its excerpt shows `left` and
`right`. -/
structure Pinpoints (source : String) (x : SyntaxError) (before after left right : List Char) :
    Prop where
  /-- Its position is within the source, where a character begins or the source ends. -/
  source_eq : source.toList = before ++ after
  position_eq : x.position = byteLength before
  position_le : x.position ≤ source.utf8ByteSize
  boundary : String.Pos.Raw.IsValid source ⟨x.position⟩
  /-- Its column counts the characters before it, from one on. -/
  column : x.column = 1 + before.length
  /-- It shows as much as it may of the line on either side, and a caret. -/
  left_longest : Longest (fun run => run <:+ before ∧ Clipped run) left
  right_longest : Longest (fun run => run <+: after ∧ Clipped run) right
  context : x.context.toList
    = left ++ right ++ ['\n'] ++ List.replicate left.length ' ' ++ ['^']
  line : '\n' ∉ left ++ right
  /-- Above the caret stands the character that it lies before, and nothing at the end. -/
  caret : (left ++ right)[left.length]? = after.head?

/-- **A syntax error points at its place** in every source. -/
theorem pinpoints_of_parse {source : String} {x : SyntaxError} (h : parse source = .error x) :
    ∃ before after left right, Pinpoints source x before after left right := by
  obtain ⟨l, before, after, -, hplace, rfl⟩ := exists_place_of_parse h
  have hstring : source = String.ofList before ++ String.ofList after := by
    rw [← String.ofList_append, ← hplace.source_eq, String.ofList_toList]
  have hsize : l.position = (String.ofList before).utf8ByteSize :=
    hplace.position_eq.trans (byteLength_eq_utf8ByteSize before)
  have hleft := longest_leadIn before
  have hright := longest_leadOut after
  refine ⟨before, after, leadIn before, leadOut after, hplace.source_eq, hplace.position_eq,
    ?position_le, ?boundary, Nat.add_comm .., hleft, hright, ?context, ?line, ?caret⟩
  case position_le =>
    show l.position ≤ _
    rw [hsize, hstring, String.utf8ByteSize_append]
    exact Nat.le_add_right ..
  case boundary =>
    rw [String.Pos.Raw.isValid_iff_exists_append]
    exact ⟨_, _, hstring, congrArg String.Pos.Raw.mk hsize⟩
  case context =>
    rw [String.toList_ofList, excerpt]
    simp
  case line =>
    rw [List.mem_append, not_or]
    exact ⟨hleft.holds.2.1, hright.holds.2.1⟩
  case caret =>
    rw [List.getElem?_append_right (Nat.le_refl _), Nat.sub_self, ← List.head?_eq_getElem?,
      head?_leadOut hplace.head]

/-- A line is cut out of its source, which has characters of two bytes before it. -/
theorem pinpoints_between_line_breaks :
    let source := "message eq \"é\nü\" or\n  module in [\"net\" 7]\nand"
    ∃ x, parse source = .error x ∧ x.position = 41 ∧ x.column = 40 ∧
      x.context = "  module in [\"net\" 7]\n                   ^" ∧
      ∃ before after left right, Pinpoints source x before after left right := by
  intro source
  have h : parse source = .error ⟨.unexpectedToken (.number 7) .separator, 41, 40,
      "  module in [\"net\" 7]\n                   ^"⟩ :=
    eq_error_of_match (by decide +kernel)
  exact ⟨_, h, rfl, rfl, rfl, pinpoints_of_parse h⟩

end TraceViews.Filter
