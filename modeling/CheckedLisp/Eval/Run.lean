import CheckedLisp.Eval.Basic
import CheckedLisp.Node.Parse

/-! The entry points of evaluation. Each starts with fuel for all the steps that are left. -/
namespace CheckedLisp

namespace Eval

/-- How a node that does not fail ends. -/
inductive Flow where
  | normal (value : Value)
  | ret (value : Value)

/-- Runs an action to its end. A failure stays one, and `onReturn` says what an early return
that nothing caught becomes. -/
def liftFailure {α : Type} (x : Run α) (onReturn : Value → Except Failure α) :
    EStateM Failure Machine α := fun m =>
  match x m with
  | .ok a m => .ok a m
  | .error (.failure error) m => .error error m
  | .error (.ret value) m =>
    match onReturn value with
    | .ok a => .ok a m
    | .error error => .error error m

end Eval

namespace Machine

/-- What a machine does for its owner: it fails or gives a result, and `return!` goes no
further. -/
abbrev Action (α : Type) := EStateM Eval.Failure Machine α

/-- Evaluates a node; an early return is still visible. -/
def flow (scope : Scope) (node : Node) : Action Eval.Flow := fun m =>
  Eval.liftFailure (Eval.Flow.normal <$> Eval.node m.fuel scope node) (fun v => .ok (.ret v)) m

/-- Evaluates a node that no function encloses. -/
def eval (scope : Scope) (node : Node) : Action Value := fun m =>
  Eval.liftFailure (Eval.node m.fuel scope node)
    (fun v => .error ⟨node.span, .uncaughtReturn v⟩) m

def apply (scope : Scope) (span : Span) (function : Value) (args : List Value) : Action Value :=
  fun m =>
    Eval.liftFailure (Eval.apply (Eval.node m.fuel) scope span args function)
      (fun v => .error ⟨span, .uncaughtReturn v⟩) m

/-- Calls a built-in function with `frame` as the frame of the call. -/
def callBuiltin (frame : Scope) (function : Builtin) (args : List Value) : Builtin.Call Value :=
  fun m => function.call (Eval.node m.fuel) frame args m

/-- Evaluates nodes in order and stops at the first failure. -/
def evalAll (scope : Scope) : List Node → Action (List Value)
  | [] => return []
  | node :: nodes => do
    let value ← eval scope node
    let values ← evalAll scope nodes
    return value :: values

end Machine

/-- The values of the top-level forms of a source, or its errors; and the output. -/
def Source.run (src : Source) : Except Diagnostics (List Value) × String :=
  match src.parse with
  | .error errors => (.error errors, "")
  | .ok nodes =>
    match Machine.evalAll Machine.globalScope nodes (.start Machine.defaultLimit none) with
    | .ok values m => (.ok values, m.sink.text)
    | .error failure m => (.error (Collector.empty.push (failure.report src.name)), m.sink.text)

end CheckedLisp
