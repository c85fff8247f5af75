import CheckedLisp.Diagnostic.Report
import CheckedLisp.Node.Printer
import CheckedLisp.Ty.Call
import CheckedLisp.Ty.Reader

/-! Checking stops at the first thing that it refuses, and says what it is. -/
namespace CheckedLisp

namespace Check

inductive Fault where
  | cancelled
  | undefinedName (name : String)
  | undefinedTarget (name : String)
  | reassigned (name : String) (ty : Ty)
  | redefinedName (name : String)
  | condition (ty : Ty)
  | returnOutside
  | call (callee : Node) (fault : CallFault)
  | notFunction (callee : Node) (ty : Ty)
  | doc (fault : TypeText.Fault)
  | paramCount (signature : Signature Ty) (got : Nat)
  | variadicParam (param : Ty) (signature : Signature Ty)
  | result (declared inferred : Ty)

namespace Fault

def code : Fault → Code
  | cancelled => .cancelled
  | undefinedName _ | undefinedTarget _ => .undefinedName
  | reassigned _ _ => .reassignedFunction
  | redefinedName _ => .redefinedName
  | condition _ => .conditionType
  | returnOutside => .returnOutside
  | call _ fault => fault.code
  | notFunction _ _ => .notFunctionType
  | doc fault => fault.code
  | paramCount _ _ => .signatureArity
  | variadicParam _ _ => .misplacedVariadic
  | result _ _ => .returnType

def message : Fault → String
  | cancelled => "type check cancelled"
  | undefinedName name => "undefined symbol '" ++ name ++ "'"
  | undefinedTarget name => "cannot set! undefined symbol '" ++ name ++ "'"
  | reassigned name ty => "cannot set! function '" ++ name ++ "' of type " ++ ty.text
  | redefinedName name => redefinedText name
  | condition ty => "condition must be Bool, got " ++ ty.text
  | returnOutside => "'return!' outside of a function"
  | call callee fault => callee.text ++ ": " ++ fault.message
  | notFunction callee ty => callee.text ++ " has type " ++ ty.text ++ ", which is not callable"
  | doc fault => fault.message
  | paramCount signature got =>
    "signature " ++ signature.text ++ " declares " ++ toString signature.params.length
      ++ " parameter(s), lambda has " ++ toString got
  | variadicParam param signature =>
    "lambda parameters cannot be " ++ param.text ++ " in signature " ++ signature.text
  | result declared inferred =>
    "lambda declared to return " ++ declared.text ++ " produces " ++ inferred.text

end Fault

structure Failure where
  span : Span
  fault : Fault

def Failure.report (file : String) (f : Failure) : Report :=
  Report.ofCode file f.span f.fault.code f.fault.message ""

end Check

end CheckedLisp
