/-! Every error has a number. The hundreds of the number give its category, and numbers outside the
four named hundreds belong to the grammar. -/
namespace CheckedLisp

inductive Category where
  | grammar
  | scope
  | runtime
  | typing
  | doc
  deriving DecidableEq, Repr

namespace Category

def name : Category → String
  | grammar => "syntax"
  | scope => "scope"
  | runtime => "runtime"
  | typing => "type"
  | doc => "annotation"

def all : List Category := [grammar, scope, runtime, typing, doc]

def ofName? (text : String) : Option Category := all.find? (·.name = text)

end Category

structure Code where
  number : Nat
  deriving DecidableEq, Repr

namespace Code

def text (c : Code) : String := "E" ++ toString c.number

def category (c : Code) : Category :=
  match c.number / 100 with
  | 2 => .scope
  | 3 => .runtime
  | 4 => .typing
  | 5 => .doc
  | _ => .grammar

def unexpectedToken : Code := ⟨100⟩
def unclosedList : Code := ⟨101⟩
def invalidLiteral : Code := ⟨102⟩
def invalidForm : Code := ⟨103⟩
def returnOutside : Code := ⟨104⟩
def unterminatedString : Code := ⟨105⟩

def undefinedName : Code := ⟨200⟩
def redefinedName : Code := ⟨201⟩
def reassignedFunction : Code := ⟨202⟩

def argumentCount : Code := ⟨300⟩
def notCallable : Code := ⟨301⟩
def nonBooleanPredicate : Code := ⟨302⟩
def improperList : Code := ⟨303⟩
def builtinFailure : Code := ⟨304⟩
def uncaughtReturn : Code := ⟨305⟩
def cancelled : Code := ⟨306⟩
def stepLimit : Code := ⟨307⟩
def malformedLiteral : Code := ⟨308⟩

def argumentType : Code := ⟨400⟩
def returnType : Code := ⟨401⟩
def noOverload : Code := ⟨402⟩
def misplacedVariadic : Code := ⟨403⟩
def notFunctionType : Code := ⟨404⟩
def conditionType : Code := ⟨405⟩
def signatureArity : Code := ⟨406⟩

def unknownType : Code := ⟨500⟩
def expectedToken : Code := ⟨501⟩
def severalAnnotations : Code := ⟨502⟩

end Code

end CheckedLisp
