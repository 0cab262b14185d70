import TraceViews.Filter.Expr.Printer
import TraceViews.Filter.Expr.Reader
import TraceViews.Filter.Meaning

/-!
# Filters on trace records

A filter is an expression that was read from text and bound to the fields of trace records.
-/

namespace TraceViews

open TraceViews.Filter

/-- Why a text is no filter on trace records. -/
inductive FilterError where
  | malformed (e : SyntaxError)
  | unbound (e : EvalError)
  deriving DecidableEq, Repr

/-- An expression on the fields of trace records, with the text that it was read from. -/
structure RecordFilter where
  source : String
  expr : Expr
  deriving DecidableEq, Repr

namespace RecordFilter

/-- Reads and binds a filter. -/
def compile (source : String) : Except FilterError RecordFilter :=
  match parse source with
  | .error e => .error (.malformed e)
  | .ok expr =>
    match expr.bind fieldKind? with
    | .error e => .error (.unbound e)
    | .ok () => .ok { source, expr }

/-- Whether a record passes. -/
def accepts (f : RecordFilter) (r : Record) : Except EvalError Bool := f.expr.evaluate r.lookup

/-- Evaluates a filter on a sample for its failure alone. -/
def check (f : RecordFilter) (sample : Record) : Except EvalError Unit :=
  match f.accepts sample with
  | .ok _ => .ok ()
  | .error e => .error e

/-- One character of a text as logs quote it: a control character that has no name of its own stands
as its number in hexadecimal digits. -/
def inspectChar (c : Char) : List Char :=
  match c with
  | '\x00' => ['\\', '0']
  | '\n' | '\t' | '\r' => Text.Quoted.encodeChar c
  | c =>
    if c.toNat < 0x20 ∨ 0x7f ≤ c.toNat ∧ c.toNat ≤ 0xa0 then
      ['\\', 'u', '\x7b'] ++ Nat.toDigits 16 c.toNat ++ ['\x7d']
    else Text.Quoted.encodeChar c

/-- A filter in one line, for logs: its source and its expression, quoted. -/
def inspect (f : RecordFilter) : String :=
  let quote (s : String) : List Char := '"' :: s.toList.flatMap inspectChar ++ ['"']
  String.ofList ("CompiledFilter \x7b source: ".toList ++ quote f.source ++ ", expr: ".toList
    ++ quote f.expr.print ++ " \x7d".toList)

end RecordFilter

end TraceViews
