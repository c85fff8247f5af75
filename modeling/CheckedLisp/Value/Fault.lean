import CheckedLisp.Diagnostic.Code
import CheckedLisp.Value.Basic

/-! A built-in function refuses arguments of the wrong number or kind, and results that it cannot
represent. -/
namespace CheckedLisp

/-- What gives an integer. -/
inductive Integral where
  | arith (op : Arith)
  | length

/-- The operands that a refusal names. That of a length names none. -/
abbrev Integral.Operand : Integral → Type
  | arith _ => Int64
  | length => Unit

instance : Coe Arith Integral := ⟨.arith⟩

/-- Why a built-in function refused its arguments. -/
inductive Builtin.Fault where
  | arity (expected got : Nat)
  | notNumbers (left right : Value)
  | notComparable (left right : Value)
  | wrongKind (expected : String) (got : Value)
  | improperList (value : Value)
  | overflow (op : Integral) (left right : op.Operand)
  | notFinite (op : Arith) (left right : Float)
  | divisionByZero
  | unordered (left right : Float)
  | outputFull

namespace Builtin.Fault

def code : Builtin.Fault → Code
  | arity _ _ => .argumentCount
  | improperList _ => .improperList
  | _ => .builtinFailure

/-- A float in the middle of a sentence. -/
def plain (x : Float) : String := (Decimal.Double.ofFloat x).text

def message : Builtin.Fault → String
  | arity expected got =>
    "expected " ++ toString expected ++ " argument(s), got " ++ toString got
  | notNumbers left right =>
    "expected two Int or two Float64 arguments, got " ++ left.kind ++ " and " ++ right.kind
  | notComparable left right =>
    "expected two Int, Float64 or String arguments, got " ++ left.kind ++ " and " ++ right.kind
  | wrongKind expected got => "expected " ++ expected ++ ", got " ++ got.described
  | improperList value => value.text ++ " is not a proper list"
  | overflow (.arith op) left right =>
    "integer overflow in " ++ toString left.toInt ++ " " ++ op.name ++ " " ++ toString right.toInt
  | overflow .length _ _ => "length overflow"
  | notFinite op left right => plain left ++ " " ++ op.name ++ " " ++ plain right ++ " is not finite"
  | divisionByZero => "division by zero"
  | unordered left right => "cannot order " ++ plain left ++ " and " ++ plain right
  | outputFull => "output error: sink is full"

end Builtin.Fault

end CheckedLisp
