import CheckedLisp.Diagnostic.Code
import CheckedLisp.Text.Digits
import CheckedLisp.Token.Basic

/-! What a run of characters between delimiters is, and what may be wrong with a lexeme. -/
namespace CheckedLisp

namespace Token

inductive Fault where
  | unknownEscape (c : Char)
  | unterminatedString
  | unknownLiteral (text : String)
  | malformedNumber (text : String)
  deriving DecidableEq, Repr

namespace Fault

def code : Fault → Code
  | unterminatedString => .unterminatedString
  | _ => .invalidLiteral

def message : Fault → String
  | unknownEscape c => "unknown escape sequence '\\" ++ c.toString ++ "'"
  | unterminatedString => "unterminated string literal"
  | unknownLiteral text => "unknown literal '" ++ text ++ "', expected #t or #f"
  | malformedNumber text => "malformed number literal '" ++ text ++ "'"

end Fault

end Token

namespace Atom

/-- The characters after an optional minus sign. -/
def unsigned : List Char → List Char
  | '-' :: cs => cs
  | cs => cs

/-- What a run of non-delimiters is. A mark `#` announces a truth value, a digit or a
minus sign with a digit announces a number, and everything else is a symbol. -/
def classify (cs : List Char) : Except Token.Fault Atom :=
  let text := String.ofList cs
  if cs.head? = some '#' then
    if cs = ['#', 't'] then .ok (.bool true)
    else if cs = ['#', 'f'] then .ok (.bool false)
    else .error (.unknownLiteral text)
  else
    let digits := unsigned cs
    if digits.head?.any Char.isDigit then
      match digits.span (· ≠ '.') with
      | (whole, []) => if Text.isDigits whole then .ok (.int text) else .error (.malformedNumber text)
      | (whole, _ :: fraction) =>
        if Text.isDigits whole && Text.isDigits fraction then .ok (.float text)
        else .error (.malformedNumber text)
    else .ok (.symbol text)

end Atom

end CheckedLisp
