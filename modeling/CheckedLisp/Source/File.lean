import CheckedLisp.Text.Lines

/-! A source gives back its lines, numbered from one, to be quoted beside an error. -/
namespace CheckedLisp

structure Source where
  name : String
  text : String
  deriving DecidableEq, Repr

/-- A line without its newline and without the carriage returns before it. -/
def Source.line (s : Source) : Nat → Option String
  | 0 => none
  | n + 1 => (Text.lines s.text.toList)[n]?.map fun cs => String.ofList (Text.dropTrailing '\r' cs)

end CheckedLisp
