import CheckedLisp.Diagnostic.Report
import CheckedLisp.Eval.Sink
import CheckedLisp.Value.Fault

/-! What evaluation changes: the frames, the output and the count of steps. An evaluation ends with
a value, or it exits: by a failure, or by a `return!` on its way to the function that it leaves.
What was changed before an exit stays changed. -/
namespace CheckedLisp

namespace Eval

inductive Fault where
  | cancelled
  | stepLimit (limit : Nat)
  | integerLiteral (digits : String)
  | floatLiteral (digits : String)
  | undefinedName (name : String)
  | undefinedTarget (name : String)
  | redefinedName (name : String)
  | predicate (value : Value)
  | returnOutside
  | uncaughtReturn (value : Value)
  | argumentCount (function : Value) (expected got : Nat)
  | notCallable (value : Value)
  | builtin (function : Builtin) (fault : Builtin.Fault)

namespace Fault

def code : Fault → Code
  | cancelled => .cancelled
  | stepLimit _ => .stepLimit
  | integerLiteral _ | floatLiteral _ => .malformedLiteral
  | undefinedName _ | undefinedTarget _ => .undefinedName
  | redefinedName _ => .redefinedName
  | predicate _ => .nonBooleanPredicate
  | returnOutside => .returnOutside
  | uncaughtReturn _ => .uncaughtReturn
  | argumentCount _ _ _ => .argumentCount
  | notCallable _ => .notCallable
  | builtin _ fault => fault.code

def message : Fault → String
  | cancelled => "evaluation cancelled"
  | stepLimit limit => "step limit of " ++ toString limit ++ " exceeded"
  | integerLiteral digits => "integer literal '" ++ digits ++ "' is out of range"
  | floatLiteral digits => "float literal '" ++ digits ++ "' is not representable"
  | undefinedName name => "undefined symbol '" ++ name ++ "'"
  | undefinedTarget name => "cannot set! undefined symbol '" ++ name ++ "'"
  | redefinedName name => "'" ++ name ++ "' is already defined in this scope"
  | predicate value => "predicate must be Bool, got " ++ value.described
  | returnOutside => "'return!' outside of a function"
  | uncaughtReturn value => "return! of " ++ value.text ++ " escaped every function"
  | argumentCount function expected got =>
    function.text ++ " expects " ++ toString expected ++ " argument(s), got " ++ toString got
  | notCallable value => value.described ++ " is not callable"
  | builtin function fault => function.name ++ ": " ++ fault.message

end Fault

structure Failure where
  span : Span
  fault : Fault

def Failure.report (file : String) (f : Failure) : Report :=
  Report.ofCode file f.span f.fault.code f.fault.message ""

inductive Exit where
  | failure (error : Failure)
  | ret (value : Value)

end Eval

structure Machine where
  heap : Heap Value Unit
  sink : Sink
  steps : Nat
  limit : Nat
  cancelled : Bool
  /-- The number of closures made so far. -/
  closures : Nat

/-- A computation on the machine. -/
abbrev Run (α : Type) := EStateM Eval.Exit Machine α

namespace Machine

def defaultLimit : Nat := 10000000

/-- The names that every program starts with. -/
def globals : List (String × Value) :=
  [("true", .bool true), ("false", .bool false)] ++ Builtin.all.map fun b => (b.name, .builtin b)

/-- A machine whose first scope, number zero, holds the global names. -/
def start (limit : Nat) (capacity : Option Nat) : Machine where
  heap := ⟨#[⟨none, none, globals⟩]⟩
  sink := .empty capacity
  steps := 0
  limit := limit
  cancelled := false
  closures := 0

def globalScope : Scope := 0

/-- More than the steps that are left, and so more than the depth of any evaluation. -/
def fuel (m : Machine) : Nat := m.limit - m.steps + 1

end Machine

end CheckedLisp
