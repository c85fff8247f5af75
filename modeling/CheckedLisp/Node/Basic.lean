import CheckedLisp.Token.Basic

/-! A node is an expression with the span it was read from. -/
namespace CheckedLisp

/-- A name at the place where it is bound. -/
structure Name where
  text : String
  span : Span
  deriving DecidableEq, Repr

inductive Node where
  | unit (span : Span)
  | atom (span : Span) (value : Atom)
  | block (span : Span) (forms : List Node)
  | call (span : Span) (callee : Node) (args : List Node)
  | conditional (span : Span) (cases : List (Node × Node)) (otherwise : Node)
  | loop (span : Span) (predicate body : Node)
  | define (span : Span) (name : Name) (value : Node)
  | assign (span : Span) (name : Name) (value : Node)
  | lambda (span : Span) (params : List Name) (doc : Option String) (body : Node)
  | quote (span : Span) (inner : Node)
  | ret (span : Span) (value : Node)

namespace Node

def span : Node → Span
  | unit s | atom s _ | block s _ | call s _ _ | conditional s _ _ | loop s _ _ | define s _ _
  | assign s _ _ | lambda s _ _ _ | quote s _ | ret s _ => s

/-- Several forms as one: nothing is `()`, a single form is itself. -/
def ofBody (span : Span) : List Node → Node
  | [] => unit span
  | [form] => form
  | forms => block span forms

end Node

end CheckedLisp
