import CheckedLisp.Diagnostic.Code
import CheckedLisp.Tree

/-! The keywords that forms begin with, and what may be malformed about a form. -/
namespace CheckedLisp

inductive Keyword where
  | sequence
  | choice
  | cases
  | loop
  | define
  | assign
  | lambda
  | quote
  | ret
  deriving DecidableEq, Repr

namespace Keyword

def name : Keyword → String
  | sequence => "begin"
  | choice => "if"
  | cases => "cond"
  | loop => "while"
  | define => "define"
  | assign => "set!"
  | lambda => "lambda"
  | quote => "quote"
  | ret => "return!"

def all : List Keyword := [sequence, choice, cases, loop, define, assign, lambda, quote, ret]

def ofName? (text : String) : Option Keyword := all.find? (·.name = text)

end Keyword

namespace Form

inductive Fault where
  | unexpected (stop : Stop)
  | unclosed
  | ifParts (count : Nat)
  | elseNotLast
  | clauseExpected (found : Token.Kind)
  | emptyClause
  | predicateMissing
  | symbolExpected (keyword : Keyword) (found : Token.Kind)
  | valueMissing (keyword : Keyword) (name : String)
  | closeExpected (found : Token.Kind)
  | paramsExpected (found : Token.Kind)
  | paramExpected (found : Token.Kind)
  | duplicateParam (name : String)
  | returnOutside
  | returnParts (count : Nat)
  deriving DecidableEq, Repr

namespace Fault

def code : Fault → Code
  | unexpected _ => .unexpectedToken
  | unclosed => .unclosedList
  | returnOutside => .returnOutside
  | _ => .invalidForm

def message : Fault → String
  | unexpected (.closing _) => "unexpected ')'"
  | unexpected (.finish _) => "unexpected end of file"
  | unclosed => "unclosed '('"
  | ifParts count => "'if' takes 2 or 3 expressions, got " ++ toString count
  | elseNotLast => "'else' must be the last clause"
  | clauseExpected found => "expected a cond clause, got '" ++ found.shown ++ "'"
  | emptyClause => "empty cond clause"
  | predicateMissing => "'while' needs a predicate"
  | symbolExpected keyword found =>
    "expected a symbol after '" ++ keyword.name ++ "', got '" ++ found.shown ++ "'"
  | valueMissing keyword name => "'" ++ keyword.name ++ "' needs a value for '" ++ name ++ "'"
  | closeExpected found => "expected ')', got '" ++ found.shown ++ "'"
  | paramsExpected found => "expected parameter list, got '" ++ found.shown ++ "'"
  | paramExpected found => "expected a parameter name, got '" ++ found.shown ++ "'"
  | duplicateParam name => "duplicate parameter '" ++ name ++ "'"
  | returnOutside => "'return!' outside of a lambda body"
  | returnParts count => "'return!' takes one expression, got " ++ toString count

end Fault

structure Failure where
  span : Span
  fault : Fault
  deriving DecidableEq, Repr

end Form

end CheckedLisp
