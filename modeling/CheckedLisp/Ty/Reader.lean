import CheckedLisp.Diagnostic.Code
import CheckedLisp.Text.Blank
import CheckedLisp.Text.Lines
import CheckedLisp.Ty.Union

/-! Type annotations are read from text:

    type = Any | Bool | Float64 | Int | String | Unit
         | (Callable (type*) type)  |  (Union type*)  |  (Variadic type)

Tokens are read one by one. The state says what is open around the next token, so the token at which
reading fails is the first that no annotation can continue with. Positions count characters from
one. -/
namespace CheckedLisp.TypeText

inductive Lexeme where
  | opening
  | closing
  | word (text : String)
  | finish
  deriving DecidableEq, Repr

def Lexeme.shown : Lexeme → String
  | opening => "'('"
  | closing => "')'"
  | word text => "'" ++ text ++ "'"
  | finish => "end of annotation"

structure Token where
  lexeme : Lexeme
  position : Nat
  deriving DecidableEq, Repr

/-- The word with the characters `read`, the latest first, that ends before `position`. -/
def wordBefore (position : Nat) (read : List Char) : List Token :=
  if read.isEmpty then []
  else [⟨.word (String.ofList read.reverse), position - read.length⟩]

/-- The tokens from `position` on; `read` are the characters of an unfinished word. -/
def tokensFrom : Nat → List Char → List Char → List Token
  | position, read, [] => wordBefore position read
  | position, read, c :: cs =>
    if c = '(' then
      wordBefore position read ++ ⟨.opening, position⟩ :: tokensFrom (position + 1) [] cs
    else if c = ')' then
      wordBefore position read ++ ⟨.closing, position⟩ :: tokensFrom (position + 1) [] cs
    else if Text.isBlank c then wordBefore position read ++ tokensFrom (position + 1) [] cs
    else tokensFrom (position + 1) (c :: read) cs

inductive Fault where
  | unknownType (position : Nat) (name : String)
  | expected (position : Nat) (what : String) (found : Lexeme)
  | several (count : Nat)
  deriving DecidableEq, Repr

namespace Fault

def code : Fault → Code
  | unknownType _ _ => .unknownType
  | expected _ _ _ => .expectedToken
  | several _ => .severalAnnotations

def message : Fault → String
  | unknownType position name =>
    "position " ++ toString position ++ ": unknown type name '" ++ name ++ "'"
  | expected position what found =>
    "position " ++ toString position ++ ": expected " ++ what ++ ", found " ++ found.shown
  | several count =>
    "doc string has " ++ toString count ++ " type annotations, expected at most one"

end Fault

/-- What waits for a type. -/
inductive Context where
  | params (before : List Ty)
  | result (params : List Ty)
  | members (before : List Ty)
  | element

/-- The bracket that ends a compound type. -/
inductive Ending where
  | afterResult
  | afterElement
  deriving DecidableEq, Repr

def Ending.shown : Ending → String
  | afterResult => "')' after return type"
  | afterElement => "')' after variadic element type"

/-- What the next token may be; contexts are innermost first. -/
inductive State where
  /-- A type, or the end of the list of types around it. -/
  | type (contexts : List Context)
  /-- The word after a bracket. -/
  | head (contexts : List Context)
  /-- The bracket before the parameters. -/
  | params (contexts : List Context)
  /-- The bracket that completes `ty`. -/
  | close (ending : Ending) (ty : Ty) (contexts : List Context)
  | complete (ty : Ty)

/-- Hands a type to what waits for it. -/
def deliver (ty : Ty) : List Context → State
  | [] => .complete ty
  | .params before :: contexts => .type (.params (before ++ [ty]) :: contexts)
  | .result params :: contexts => .close .afterResult (.function params ty) contexts
  | .members before :: contexts => .type (.members (before ++ [ty]) :: contexts)
  | .element :: contexts => .close .afterElement (.variadic ty) contexts

def atom? : String → Option Ty
  | "Any" => some .any
  | "Bool" => some .bool
  | "Float64" => some .float
  | "Int" => some .int
  | "String" => some .string
  | "Unit" => some .unit
  | _ => none

def head? (contexts : List Context) : String → Option State
  | "Callable" => some (.params contexts)
  | "Union" => some (.type (.members [] :: contexts))
  | "Variadic" => some (.type (.element :: contexts))
  | _ => none

def State.what : State → String
  | type _ => "a type"
  | head _ => "'Callable', 'Union' or 'Variadic'"
  | params _ => "'(' before parameter types"
  | close ending _ _ => ending.shown
  | complete _ => "end of annotation"

def feed (state : State) (token : Token) : Except Fault State :=
  match state, token.lexeme with
  | .type contexts, .word name =>
    match atom? name with
    | some ty => .ok (deliver ty contexts)
    | none => .error (.unknownType token.position name)
  | .type contexts, .opening => .ok (.head contexts)
  | .type (.params before :: contexts), .closing => .ok (.type (.result before :: contexts))
  | .type (.members before :: contexts), .closing => .ok (deliver (.join before) contexts)
  | .head contexts, .word name =>
    match head? contexts name with
    | some state => .ok state
    | none => .error (.unknownType token.position name)
  | .params contexts, .opening => .ok (.type (.params [] :: contexts))
  | .close _ ty contexts, .closing => .ok (deliver ty contexts)
  | state, found => .error (.expected token.position state.what found)

/-- The type of a whole annotation. The end stands behind the last character. -/
def read (text : String) : Except Fault Ty := do
  match ← (tokensFrom 1 [] text.toList).foldlM feed (.type []) with
  | .complete ty => .ok ty
  | state => .error (.expected (text.length + 1) state.what .finish)

def isSignature (line : List Char) : Bool := "(Callable".toList.isPrefixOf line

/-- The signature that a doc string declares: its one line that begins like a function
type. -/
def ofDoc (doc : String) : Except Fault (Option Ty) :=
  match ((Text.lines doc.toList).map Text.trim).filter isSignature with
  | [] => .ok none
  | [line] => (read (String.ofList line)).map some
  | lines => .error (.several lines.length)

end CheckedLisp.TypeText
