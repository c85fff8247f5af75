import CheckedLisp.Decimal.Reader
import CheckedLisp.Eval.Machine

/-! The steps that an evaluation is made of. Those that evaluate nodes take the evaluation of a node
as the argument `eval`. -/
namespace CheckedLisp

namespace Eval

def fail {α : Type} (span : Span) (fault : Fault) : Run α := throw (.failure ⟨span, fault⟩)

/-- Pays for one node. A cancelled machine evaluates nothing and counts nothing. -/
def tick (span : Span) : Run Unit := fun m =>
  if m.cancelled then .error (.failure ⟨span, .cancelled⟩) m
  else if m.limit ≤ m.steps then
    .error (.failure ⟨span, .stepLimit m.limit⟩) { m with steps := m.steps + 1 }
  else .ok () { m with steps := m.steps + 1 }

def lookup (scope : Scope) (name : String) : Run (Option Value) := fun m =>
  .ok (m.heap.lookup scope name) m

/-- Opens a frame inside `scope`. -/
def enter (scope : Scope) (function : Option Unit) : Run Scope :=
  modifyGet fun m => (m.heap.next, { m with heap := m.heap.add (some scope) function })

def define (scope : Scope) (name : String) (value : Value) : Run Bool :=
  modifyGet fun m =>
    let (done, heap) := m.heap.define scope name value
    (done, { m with heap })

def assign (scope : Scope) (name : String) (value : Value) : Run Bool :=
  modifyGet fun m =>
    let (done, heap) := m.heap.assign scope name value
    (done, { m with heap })

/-- A closure unlike every other. -/
def close (scope : Scope) (params : List Name) (body : Node) : Run Value :=
  modifyGet fun m => (.lambda ⟨m.closures, params, body, scope⟩, { m with closures := m.closures + 1 })

/-- Ends the way of a `return!`: its value becomes the value of the computation. -/
def catchReturn (x : Run Value) : Run Value := fun m =>
  match x m with
  | .error (.ret value) m => .ok value m
  | result => result

def atom (scope : Scope) (span : Span) : Atom → Run Value
  | .bool b => return .bool b
  | .string s => return .string s
  | .int digits =>
    match (Decimal.integer? digits).bind word? with
    | some n => return .int n
    | none => fail span (.integerLiteral digits)
  | .float digits =>
    match (Decimal.float? digits).filter Float.isFinite with
    | some x => return .float x
    | none => fail span (.floatLiteral digits)
  | .symbol name => do
    match ← lookup scope name with
    | some value => return value
    | none => fail span (.undefinedName name)

def truth (span : Span) : Value → Run Bool
  | .bool b => return b
  | value => fail span (.predicate value)

/-- The value of the last of several forms; `last` is that of the one before. -/
def sequence (eval : Node → Run Value) (last : Value) : List Node → Run Value
  | [] => return last
  | form :: forms => do
    let value ← eval form
    sequence eval value forms

def collect (eval : Node → Run Value) : List Node → Run (List Value)
  | [] => return []
  | form :: forms => do
    let value ← eval form
    let values ← collect eval forms
    return value :: values

def choose (eval : Node → Run Value) (otherwise : Node) : List (Node × Node) → Run Value
  | [] => eval otherwise
  | (predicate, body) :: cases => do
    let value ← eval predicate
    if ← truth predicate.span value then eval body else choose eval otherwise cases

/-- At most `fuel` turns of a loop. -/
def turns (eval : Node → Run Value) (predicate body : Node) : Nat → Run Value
  | 0 => do fail predicate.span (.stepLimit (← get).limit)
  | fuel + 1 => do
    let value ← eval predicate
    if ← truth predicate.span value then do
      let _ ← eval body
      turns eval predicate body fuel
    else return .unit

/-- Binds parameters to arguments, in order. -/
def bindAll (frame : Scope) : List Name → List Value → Run Unit
  | param :: params, arg :: args => do
    let _ ← define frame param.text arg
    bindAll frame params args
  | _, _ => return ()

end Eval

end CheckedLisp
