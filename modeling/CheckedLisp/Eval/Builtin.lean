import CheckedLisp.Eval.Machine
import CheckedLisp.Value.Operation

/-! Most built-in functions only compute. Two write to the output, and one evaluates quoted code,
which may fail in its own way. -/
namespace CheckedLisp

namespace Builtin

inductive Exit where
  | fault (error : Fault)
  /-- Evaluating quoted code failed. -/
  | nested (error : Eval.Failure)

abbrev Call (α : Type) := EStateM Exit Machine α

def refuse {α : Type} (fault : Fault) : Call α := throw (.fault fault)

def give : Outcome → Call Value
  | .ok value => return value
  | .error fault => refuse fault

/-- The arguments as they are displayed, with a space between any two. -/
def pieces (args : List Value) : List String := (args.map Value.displayed).intersperse " "

def write (pieces : List String) : Call Value := do
  let done ← modifyGet fun m =>
    let (done, sink) := m.sink.writeEach pieces
    (done, { m with sink })
  if done then return .unit else refuse .outputFull

/-- Runs quoted code for its value, be it returned early or not. -/
def evaluated (x : Run Value) : Call Value := fun m =>
  match x m with
  | .ok value m => .ok value m
  | .error (.ret value) m => .ok value m
  | .error (.failure error) m => .error (.nested error) m

/-- Calls a function that owns the frame `frame`. Quoted code is evaluated in the scope
around that frame. -/
def call (eval : Scope → Node → Run Value) (frame : Scope) : Builtin → List Value → Call Value
  | arith op, args =>
    if zeroDivisor op args then refuse .divisionByZero else give (onTwo (calculate op) args)
  | compare op, args => give (onTwo (order op) args)
  | equal, args => give (onTwo (fun a b => .ok (.bool (a.same b))) args)
  | not, args => give (onOne negate args)
  | display, args => write (pieces args)
  | newline, [] => write ["\n"]
  | newline, args => refuse (.arity 0 args.length)
  | cons, args => give (onTwo (fun a b => .ok (.pair a b)) args)
  | car, args => give (onOne first args)
  | cdr, args => give (onOne rest args)
  | list, args => return .ofList args
  | length, args => give (onOne size args)
  | append, args => give ((concat args).map .ofList)
  | reverse, args => give (onOne backward args)
  | isNull, args => give (onOne (fun v => .ok (.bool (isUnit v))) args)
  | .eval, [.quoted node] => do
    let caller := ((← get).heap.parent? frame).getD frame
    evaluated (eval caller node)
  | .eval, [value] => return value
  | .eval, args => refuse (.arity 1 args.length)

end Builtin

end CheckedLisp
