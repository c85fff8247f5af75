import CheckedLisp.Source.Span

/-! The surface has parentheses, a quote mark, and atoms: literals and symbols. Numbers keep their
written form; they are read as numbers only when they are evaluated. -/
namespace CheckedLisp

inductive Atom where
  | bool (value : Bool)
  | int (digits : String)
  | float (digits : String)
  | string (content : String)
  | symbol (name : String)
  deriving DecidableEq, Repr

inductive Token.Kind where
  | opening
  | closing
  | quote
  | atom (value : Atom)
  | finish
  deriving DecidableEq, Repr

structure Token where
  kind : Token.Kind
  span : Span
  deriving DecidableEq, Repr

/-- An atom as it is named in messages: strings are not escaped again. -/
def Atom.shown : Atom → String
  | bool true => "#t"
  | bool false => "#f"
  | int digits => digits
  | float digits => digits
  | string content => "\"" ++ content ++ "\""
  | symbol name => name

def Token.Kind.shown : Token.Kind → String
  | opening => "("
  | closing => ")"
  | quote => "'"
  | atom value => value.shown
  | finish => "end of file"

end CheckedLisp
