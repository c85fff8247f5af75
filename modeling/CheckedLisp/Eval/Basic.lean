import CheckedLisp.Eval.Action
import CheckedLisp.Eval.Builtin

/-! Every node that is evaluated costs one step, and the step limit is what ends every evaluation.
The fuel bounds the depth of nodes inside nodes and the turns of a loop; each of them costs a step
as well, so fuel that exceeds the steps left is never used up. -/
namespace CheckedLisp

namespace Eval

/-- A refusal becomes a failure of the call at `span`; a failure inside quoted code stays
where it is. -/
def calling (span : Span) (function : Builtin) (x : Builtin.Call Value) : Run Value := fun m =>
  match x m with
  | .ok value m => .ok value m
  | .error (.fault fault) m => .error (.failure ⟨span, .builtin function fault⟩) m
  | .error (.nested error) m => .error (.failure error) m

/-- Applies a function to arguments, from `scope` and for the call at `span`. -/
def apply (eval : Scope → Node → Run Value) (scope : Scope) (span : Span) (args : List Value) :
    Value → Run Value
  | .lambda closure =>
    if closure.params.length = args.length then do
      let frame ← enter closure.scope (some ())
      bindAll frame closure.params args
      catchReturn (eval frame closure.body)
    else fail span (.argumentCount (.lambda closure) closure.params.length args.length)
  | .builtin function => do
    let frame ← enter scope (some ())
    calling span function (function.call eval frame args)
  | value => fail span (.notCallable value)

/-- The work of a node after its step is paid. -/
def step (eval : Scope → Node → Run Value) (fuel : Nat) (scope : Scope) : Node → Run Value
  | .unit _ => return .unit
  | .atom span value => atom scope span value
  | .block _ forms => do
    let inner ← enter scope none
    sequence (eval inner) .unit forms
  | .call span callee args => do
    let function ← eval scope callee
    let values ← collect (eval scope) args
    apply eval scope span values function
  | .conditional _ cases otherwise => choose (eval scope) otherwise cases
  | .loop _ predicate body => turns (eval scope) predicate body fuel
  | .define _ name value => do
    let value ← eval scope value
    if ← define scope name.text value then return .unit
    else fail name.span (.redefinedName name.text)
  | .assign _ name value => do
    let value ← eval scope value
    if ← assign scope name.text value then return .unit
    else fail name.span (.undefinedTarget name.text)
  | .lambda _ params _ body => close scope params body
  | .quote _ inner => return .quoted inner
  | .ret span value => do
    if (← get).heap.inFunction scope then do
      let value ← eval scope value
      throw (.ret value)
    else fail span .returnOutside

/-- Evaluates a node whose depth is less than the fuel. -/
def node : Nat → Scope → Node → Run Value
  | 0, _, n => do fail n.span (.stepLimit (← get).limit)
  | fuel + 1, scope, n => do
    tick n.span
    step (node fuel) fuel scope n

end Eval

end CheckedLisp
