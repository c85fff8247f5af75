import CheckedLisp.Diagnostic.Code
import CheckedLisp.Ty.Union

/-! A call is resolved against the signatures of a function, the newest first: the first that fits
the arguments decides, even when its result turns out wrong. -/
namespace CheckedLisp

/-- Why a signature does not fit. -/
inductive Mismatch where
  | arity (signature : Signature Ty) (got : Nat)
  /-- The argument with this number, counted from one. -/
  | argument (signature : Signature Ty) (index : Nat) (expected got : Ty)
  | misplacedVariadic (signature : Signature Ty)

inductive CallFault where
  | mismatch (reason : Mismatch)
  | result (signature : Signature Ty) (got : Ty)
  | noOverload (args : List Ty) (reasons : List Mismatch)
  | redefined (name : String)

def redefinedText (name : String) : String := "'" ++ name ++ "' is already defined in this scope"

namespace Mismatch

def code : Mismatch → Code
  | arity _ _ => .signatureArity
  | argument _ _ _ _ => .argumentType
  | misplacedVariadic _ => .misplacedVariadic

def expectedCount (params : List Ty) : String :=
  if params.getLast?.any Ty.isVariadic then "at least " ++ toString (params.length - 1)
  else toString params.length

def message : Mismatch → String
  | arity signature got =>
    signature.text ++ " expects " ++ expectedCount signature.params ++ " argument(s), got "
      ++ toString got
  | argument signature index expected got =>
    signature.text ++ " argument " ++ toString index ++ ": expected " ++ expected.text
      ++ ", got " ++ got.text
  | misplacedVariadic signature => signature.text ++ ": only the last parameter may be variadic"

end Mismatch

namespace CallFault

def code : CallFault → Code
  | mismatch reason => reason.code
  | result _ _ => .returnType
  | noOverload _ _ => .noOverload
  | redefined _ => .redefinedName

def message : CallFault → String
  | mismatch reason => reason.message
  | result signature got =>
    signature.text ++ " produced " ++ got.text ++ ", declared " ++ signature.ret.text
  | noOverload args reasons =>
    "no overload matches " ++ Text.parens (args.map Ty.text) ++ ": "
      ++ "; ".intercalate (reasons.map Mismatch.message)
  | redefined name => redefinedText name

end CallFault

namespace Signature

/-- The parameters for `count` arguments: a variadic at the end is repeated as needed. -/
def slots (s : Signature Ty) (count : Nat) : List Ty :=
  match s.params.getLast? with
  | some (.variadic element) =>
    let fixed := s.params.dropLast
    if fixed.length ≤ count then fixed ++ List.replicate (count - fixed.length) element
    else s.params
  | _ => s.params

/-- The first argument that does not go with its parameter, by number. -/
def wrongArgument? (index : Nat) : List Ty → List Ty → Option (Nat × Ty × Ty)
  | param :: params, arg :: args =>
    if param.same arg then wrongArgument? (index + 1) params args else some (index, param, arg)
  | _, _ => none

def mismatch? (s : Signature Ty) (args : List Ty) : Option Mismatch :=
  if s.params.dropLast.any Ty.isVariadic then some (.misplacedVariadic s)
  else
    let slots := s.slots args.length
    if slots.length ≠ args.length then some (.arity s args.length)
    else (wrongArgument? 1 slots args).map fun (index, expected, got) =>
      .argument s index expected got

def fits (s : Signature Ty) (args : List Ty) : Bool := (s.mismatch? args).isNone

def produce (args : List Ty) : Rule Ty → Except CallFault Ty
  | .constant ty => .ok ty
  | .firstArgument => .ok (args.head?.getD .unit)
  | .failing name => .error (.redefined name)

end Signature

/-- A signature with what finds the result of its calls. -/
structure Candidate where
  signature : Signature Ty
  body : List Ty → Except CallFault Ty

def Signature.candidate (s : Signature Ty) : Candidate := ⟨s, fun args => produce args s.rule⟩

namespace Candidate

/-- The result of a call that fits. -/
def invoke (c : Candidate) (args : List Ty) : Except CallFault Ty := do
  let result ← c.body args
  if result.same c.signature.ret then .ok result else .error (.result c.signature result)

/-- Calls the first candidate that fits. -/
def call (candidates : List Candidate) (args : List Ty) : Except CallFault Ty :=
  match candidates.find? (·.signature.fits args) with
  | some candidate => candidate.invoke args
  | none =>
    match candidates.filterMap (·.signature.mismatch? args) with
    | [reason] => .error (.mismatch reason)
    | reasons => .error (.noOverload args reasons)

end Candidate

/-- Calls a function with the given signatures, the newest first. -/
def callOverloads (signatures : List (Signature Ty)) (args : List Ty) : Except CallFault Ty :=
  Candidate.call (signatures.map Signature.candidate) args

end CheckedLisp
