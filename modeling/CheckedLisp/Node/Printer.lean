import CheckedLisp.Text.Parens
import CheckedLisp.Text.Quoted
import CheckedLisp.Node.Basic

/-! A node is written as a form that reads back as the same form. One case is written as `if` and
several as `cond`; the quote mark is written out. -/
namespace CheckedLisp

def Atom.text : Atom → String
  | string content => Text.quoted content
  | other => other.shown

open Text (parens)

namespace Node

def docTexts : Option String → List String
  | none => []
  | some doc => [Text.quoted doc]

mutual

def text : Node → String
  | unit _ => "()"
  | atom _ value => value.text
  | block _ forms => parens ("begin" :: texts forms)
  | call _ callee args => parens (text callee :: texts args)
  | conditional _ [(predicate, body)] otherwise =>
    parens ["if", text predicate, text body, text otherwise]
  | conditional _ cases otherwise =>
    parens ("cond" :: (caseTexts cases ++ [parens ["else", text otherwise]]))
  | loop _ predicate body => parens ["while", text predicate, text body]
  | define _ name value => parens ["define", name.text, text value]
  | assign _ name value => parens ["set!", name.text, text value]
  | lambda _ params doc body =>
    parens (["lambda", parens (params.map (·.text))] ++ docTexts doc ++ [text body])
  | quote _ inner => parens ["quote", text inner]
  | ret _ value => parens ["return!", text value]

def texts : List Node → List String
  | [] => []
  | form :: forms => text form :: texts forms

def caseTexts : List (Node × Node) → List String
  | [] => []
  | (predicate, body) :: cases => parens [text predicate, text body] :: caseTexts cases

end

end Node

end CheckedLisp
