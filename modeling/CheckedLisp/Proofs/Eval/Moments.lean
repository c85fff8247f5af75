import CheckedLisp.Eval.Run
import CheckedLisp.Proofs.Eval.Budget

/-! An evaluation turns to nodes and applies functions, one inside the other. Each time it does is a
moment: there is a task, and a machine to start it on. The moments are listed in the order in which
they come, along the clauses of evaluation itself. -/
namespace CheckedLisp

namespace Eval

open Budget (Ending)

inductive Task where
  | node (scope : Scope) (n : Node)
  | apply (scope : Scope) (span : Span) (function : Value) (args : List Value)

def Task.isNode : Task → Bool
  | node _ _ => true
  | apply _ _ _ _ => false

structure Moment where
  fuel : Nat
  task : Task
  machine : Machine

/-- How the task of a moment ends. -/
def Moment.ending : Moment → Ending Exit Value
  | ⟨fuel, .node scope n, m⟩ => node fuel scope n m
  | ⟨fuel, .apply scope span function args, m⟩ => apply (node fuel) scope span args function m

/-- How often the moments turn to a node. -/
def visits (met : List Moment) : Nat := met.countP (·.task.isNode)

/-- What is met after `x`, if it succeeds. -/
def following {ε α β : Type} (x : EStateM ε Machine α) (m : Machine) (met : α → Machine → List β) : List β :=
  match x m with
  | .ok a m => met a m
  | .error _ _ => []

theorem following_nil {ε α β : Type} (x : EStateM ε Machine α) (m : Machine) :
    following x m (fun _ _ => ([] : List β)) = [] := by
  unfold following
  cases x m <;> rfl

section

variable {ε : Type} (eval : Node → EStateM ε Machine Value) (inside : Node → Machine → List Moment)

/-- The moments while nodes are evaluated one after the other. -/
def momentsAll : List Node → Machine → List Moment
  | [], _ => []
  | form :: forms, m => inside form m ++ following (eval form) m fun _ m => momentsAll forms m

end

section

variable (eval : Node → Run Value) (inside : Node → Machine → List Moment)

def momentsChoose (otherwise : Node) : List (Node × Node) → Machine → List Moment
  | [], m => inside otherwise m
  | (predicate, body) :: cases, m =>
    inside predicate m ++ following (eval predicate) m fun value m =>
      following (truth predicate.span value) m fun holds m =>
        if holds then inside body m else momentsChoose otherwise cases m

def momentsTurns (predicate body : Node) : Nat → Machine → List Moment
  | 0, _ => []
  | fuel + 1, m =>
    inside predicate m ++ following (eval predicate) m fun value m =>
      following (truth predicate.span value) m fun holds m =>
        if holds then
          inside body m ++ following (eval body) m fun _ m => momentsTurns predicate body fuel m
        else []

end

section

variable (eval : Scope → Node → Run Value) (inside : Scope → Node → Machine → List Moment)

/-- The moments inside of a call of a built-in function: those of the code that it evaluates. -/
def momentsCall (frame : Scope) (m : Machine) : Builtin → List Value → List Moment
  | .eval, [.quoted node] => inside ((m.heap.parent? frame).getD frame) node m
  | _, _ => []

def momentsApply (scope : Scope) (args : List Value) : Value → Machine → List Moment
  | .lambda closure, m =>
    if closure.params.length = args.length then
      following (enter closure.scope (some ())) m fun frame m =>
        following (bindAll frame closure.params args) m fun _ m => inside frame closure.body m
    else []
  | .builtin function, m =>
    following (enter scope (some ())) m fun frame m => momentsCall inside frame m function args
  | _, _ => []

/-- The moments inside of a node, once its step is paid. -/
def momentsStep (fuel : Nat) (scope : Scope) : Node → Machine → List Moment
  | .unit _, _ | .atom _ _, _ | .lambda _ _ _ _, _ | .quote _ _, _ => []
  | .block _ forms, m =>
    following (enter scope none) m fun inner m => momentsAll (eval inner) (inside inner) forms m
  | .call span callee args, m =>
    inside scope callee m ++ following (eval scope callee) m fun function m =>
      momentsAll (eval scope) (inside scope) args m ++
        following (collect (eval scope) args) m fun values m =>
          ⟨fuel, .apply scope span function values, m⟩ :: momentsApply inside scope values function m
  | .conditional _ cases otherwise, m => momentsChoose (eval scope) (inside scope) otherwise cases m
  | .loop _ predicate body, m => momentsTurns (eval scope) (inside scope) predicate body fuel m
  | .define _ _ value, m | .assign _ _ value, m => inside scope value m
  | .ret _ value, m => if m.heap.inFunction scope then inside scope value m else []

end

/-- The moments of the evaluation of a node, the node itself first. -/
def moments : Nat → Scope → Node → Machine → List Moment
  | 0, _, _, _ => []
  | fuel + 1, scope, n, m =>
    ⟨fuel + 1, .node scope n, m⟩ ::
      following (tick n.span) m fun _ m => momentsStep (node fuel) (moments fuel) fuel scope n m

end Eval

/-- The moments of a program's evaluation. -/
def Machine.moments (scope : Scope) (nodes : List Node) (m : Machine) : List Eval.Moment :=
  Eval.momentsAll (Machine.eval scope) (fun n m => Eval.moments m.fuel scope n m) nodes m

/-- The moments of a run. There are none when the source does not parse. -/
def Source.moments (src : Source) : List Eval.Moment :=
  match src.parse with
  | .error _ => []
  | .ok nodes => Machine.moments Machine.globalScope nodes (.start Machine.defaultLimit none)

end CheckedLisp
