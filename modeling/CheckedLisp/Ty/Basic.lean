import CheckedLisp.Text.Parens

/-! A function type is a chain of signatures, the newest first. A union is written with its members
in the order of their texts. `any` goes with every type. -/
namespace CheckedLisp

/-- How a call finds its result. -/
inductive Rule (τ : Type) where
  | constant (ty : τ)
  /-- The type of the first argument, or unit without arguments. -/
  | firstArgument
  | failing (name : String)

structure Signature (τ : Type) where
  params : List τ
  ret : τ
  rule : Rule τ

inductive Ty where
  | unit
  | bool
  | int
  | float
  | string
  | any
  | ellipsis
  | callable (newest : Signature Ty) (older : List (Signature Ty))
  | union (members : List Ty)
  | variadic (element : Ty)

/-- A signature whose calls have the type that it declares. -/
def Signature.declared (params : List Ty) (ret : Ty) : Signature Ty := ⟨params, ret, .constant ret⟩

namespace Ty

/-- A function with one signature. -/
def function (params : List Ty) (ret : Ty) : Ty := callable (.declared params ret) []

def isAny : Ty → Bool
  | any => true
  | _ => false

def isVariadic : Ty → Bool
  | variadic _ => true
  | _ => false

def isCallable : Ty → Bool
  | callable _ _ => true
  | _ => false

/-- The types that a condition may have. -/
def isCondition : Ty → Bool
  | bool | any => true
  | _ => false

def kind : Ty → String
  | unit => "Unit"
  | bool => "Bool"
  | int => "Int"
  | float => "Float64"
  | string => "String"
  | any => "Any"
  | ellipsis => "Ellipsis"
  | callable _ _ => "Callable"
  | union _ => "Union"
  | variadic _ => "Variadic"

mutual

def text : Ty → String
  | unit => "Unit"
  | bool => "Bool"
  | int => "Int"
  | float => "Float64"
  | string => "String"
  | any => "Any"
  | ellipsis => "..."
  | callable newest _ => signatureText newest
  | union members => Text.parens ("Union" :: texts members)
  | variadic element => Text.parens ["Variadic", text element]

def texts : List Ty → List String
  | [] => []
  | ty :: tys => text ty :: texts tys

def signatureText : Signature Ty → String
  | ⟨params, ret, _⟩ => Text.parens ["Callable", Text.parens (texts params), text ret]

end

mutual

/-- Equality of structure. Functions are compared by their newest signature alone, and
signatures by parameters and result. -/
def equal : Ty → Ty → Bool
  | unit, unit => true
  | bool, bool => true
  | int, int => true
  | float, float => true
  | string, string => true
  | any, any => true
  | ellipsis, ellipsis => true
  | callable a _, callable b _ => equalSignatures a b
  | union a, union b => equalLists a b
  | variadic a, variadic b => equal a b
  | _, _ => false

def equalLists : List Ty → List Ty → Bool
  | [], [] => true
  | a :: as, b :: bs => equal a b && equalLists as bs
  | _, _ => false

def equalSignatures : Signature Ty → Signature Ty → Bool
  | ⟨params, ret, _⟩, other => equalLists params other.params && equal ret other.ret

end

instance : BEq Ty := ⟨equal⟩

/-- Whether one type may stand for the other. -/
def same (a b : Ty) : Bool := a.isAny || b.isAny || a == b

end Ty

def Signature.text (s : Signature Ty) : String := Ty.signatureText s

/-- The signatures of an overloaded function, the newest first. -/
def overloadListing (signatures : List (Signature Ty)) : String :=
  " <- ".intercalate (signatures.map Signature.text)

end CheckedLisp
