import CheckedLisp.Source.Span
import CheckedLisp.Source.File
import CheckedLisp.Diagnostic.Code

/-! A report is one error as it is shown: where it stands, its code, and its message. Reports about
the text of a source quote the line where they start. -/
namespace CheckedLisp

structure Report where
  file : String
  span : Span
  code : Code
  category : Category
  message : String
  quotedLine : String
  deriving DecidableEq, Repr

namespace Report

def text (r : Report) : String :=
  r.file ++ ":" ++ r.span.text ++ ": " ++ r.code.text ++ " [" ++ r.category.name ++ "] " ++ r.message

/-- A report whose category is that of its code. -/
def ofCode (file : String) (span : Span) (code : Code) (message quotedLine : String) : Report :=
  ⟨file, span, code, code.category, message, quotedLine⟩

end Report

/-- A report that quotes the line of the source where its span starts. -/
def Source.report (s : Source) (span : Span) (code : Code) (message : String) : Report :=
  Report.ofCode s.name span code message ((s.line span.start.line).getD "")

end CheckedLisp
