import CheckedLisp.Check.Class
import CheckedLisp.Check.Fault
import CheckedLisp.Node.Parse

/-! Checking walks every branch once. It finds a type for each node, adds the definitions it meets
to the frames, and widens what is assigned to. What was changed before a failure stays changed. -/
namespace CheckedLisp

structure Checker where
  heap : TypeHeap
  cancelled : Bool

def Checker.start : Checker := ⟨.start, false⟩

namespace Check

/-- A computation of the checker. -/
abbrev Action (α : Type) := EStateM Failure Checker α

def fail {α : Type} (span : Span) (fault : Fault) : Action α := throw ⟨span, fault⟩

def lookup (scope : Scope) (name : String) : Action (Option Ty) := fun c =>
  .ok (c.heap.lookup scope name) c

def enter (scope : Scope) (function : Option (List Ty)) : Action Scope :=
  modifyGet fun c => (c.heap.next, { c with heap := c.heap.add (some scope) function })

/-- Changes the heap and says whether the change was accepted. -/
def change (f : TypeHeap → Bool × TypeHeap) : Action Bool :=
  modifyGet fun c =>
    let (done, heap) := f c.heap
    (done, { c with heap })

def define (scope : Scope) (name : String) (ty : Ty) : Action Bool := change (·.define scope name ty)

def takeReturns (scope : Scope) : Action (List Ty) :=
  modifyGet fun c =>
    let found := c.heap.returns scope
    (found, { c with heap := c.heap.clearReturns scope })

def atom (scope : Scope) (span : Span) : Atom → Action Ty
  | .bool _ => return .bool
  | .int _ => return .int
  | .float _ => return .float
  | .string _ => return .string
  | .symbol name => do
    match ← lookup scope name with
    | some ty => return ty
    | none => fail span (.undefinedName name)

def condition (span : Span) (ty : Ty) : Action Unit :=
  if ty.isCondition then return () else fail span (.condition ty)

def call (span : Span) (callee : Node) (args : List Ty) : Ty → Action Ty
  | .callable newest older =>
    match callOverloads (newest :: older) args with
    | .ok ty => return ty
    | .error fault => fail span (.call callee fault)
  | .any => return .any
  | ty => fail span (.notFunction callee ty)

/-- The target of an assignment must be bound, and not to a function. -/
def target (scope : Scope) (name : Name) : Action Unit := do
  match ← lookup scope name.text with
  | none => fail name.span (.undefinedTarget name.text)
  | some ty => if ty.isCallable then fail name.span (.reassigned name.text ty) else return ()

/-- The parameter types of a lambda and the result that its doc string declares. Without
a declaration every parameter is `any`. -/
def signature (span : Span) (params : List Name) (doc : Option String) :
    Action (List Ty × Option Ty) := do
  let undeclared := (params.map fun _ => Ty.any, none)
  match doc.map TypeText.ofDoc with
  | none => return undeclared
  | some (.error fault) => fail span (.doc fault)
  | some (.ok (some (.callable declared _))) =>
    if declared.params.length ≠ params.length then
      fail span (.paramCount declared params.length)
    else
      match declared.params.find? Ty.isVariadic with
      | some param => fail span (.variadicParam param declared)
      | none => return (declared.params, some declared.ret)
  | some (.ok _) => return undeclared

/-- The scope in which a lambda's frame opens. A lambda that is being defined sees its own
name, for as long as its body is checked. -/
def around (scope : Scope) (self : Option String) (ty : Ty) : Action Scope :=
  match self with
  | none => return scope
  | some name => do
    let outer ← enter scope none
    let _ ← define outer name ty
    return outer

def bindAll (frame : Scope) : List Name → List Ty → Action Unit
  | param :: params, ty :: tys => do
    let _ ← define frame param.text ty
    bindAll frame params tys
  | _, _ => return ()

/-- The type of a lambda; `body` checks its body in a given scope. -/
def lambda (scope : Scope) (self : Option String) (span : Span) (params : List Name)
    (doc : Option String) (body : Scope → Action Ty) : Action Ty := do
  let (tys, declared) ← signature span params doc
  let outer ← around scope self (.function tys (declared.getD .any))
  let frame ← enter outer (some [])
  bindAll frame params tys
  let last ← body frame
  let returned ← takeReturns frame
  let inferred := Ty.join (returned ++ [last])
  match declared with
  | none => return .function tys inferred
  | some ret =>
    if inferred.same ret then return .function tys ret else fail span (.result ret inferred)

/-- Binds the type of a definition. -/
def bind (scope : Scope) (name : Name) (ty : Ty) : Action Ty := do
  if ← define scope name.text ty then return .unit
  else fail name.span (.redefinedName name.text)

/-- A cancelled checker looks at nothing. -/
def tick (span : Span) : Action Unit := fun c =>
  if c.cancelled then .error ⟨span, .cancelled⟩ c else .ok () c

mutual

def node (scope : Scope) : Node → Action Ty
  | .unit span => do
    tick span
    return .unit
  | .atom span value => do
    tick span
    atom scope span value
  | .block span forms => do
    tick span
    let inner ← enter scope none
    sequence inner .unit forms
  | .call span callee args => do
    tick span
    let function ← node scope callee
    let tys ← nodes scope args
    call span callee tys function
  | .conditional span branches otherwise => do
    tick span
    let bodies ← cases scope branches
    let last ← node scope otherwise
    return .join (bodies ++ [last])
  | .loop span predicate body => do
    tick span
    let ty ← node scope predicate
    condition predicate.span ty
    let _ ← node scope body
    return .unit
  | .define span name (.lambda lambdaSpan params doc body) => do
    tick span
    let ty ← lambda scope (some name.text) lambdaSpan params doc fun frame => node frame body
    bind scope name ty
  | .define span name value => do
    tick span
    let ty ← node scope value
    bind scope name ty
  | .assign span name value => do
    tick span
    target scope name
    let ty ← node scope value
    let _ ← change (·.widen scope name.text ty)
    return .unit
  | .lambda span params doc body => do
    tick span
    lambda scope none span params doc fun frame => node frame body
  | .quote span _ => do
    tick span
    return .any
  | .ret span value => do
    tick span
    let ty ← node scope value
    if ← change (·.recordReturn scope ty) then return ty else fail span .returnOutside

def sequence (scope : Scope) (last : Ty) : List Node → Action Ty
  | [] => return last
  | form :: forms => do
    let ty ← node scope form
    sequence scope ty forms

def nodes (scope : Scope) : List Node → Action (List Ty)
  | [] => return []
  | form :: forms => do
    let ty ← node scope form
    let tys ← nodes scope forms
    return ty :: tys

/-- The types of the bodies of a conditional. -/
def cases (scope : Scope) : List (Node × Node) → Action (List Ty)
  | [] => return []
  | (predicate, body) :: rest => do
    let test ← node scope predicate
    condition predicate.span test
    let ty ← node scope body
    let tys ← cases scope rest
    return ty :: tys

end

end Check

/-- The types of the top-level forms of a source, or its errors. -/
def Source.check (src : Source) : Except Diagnostics (List Ty) := do
  let nodes ← src.parse
  match Check.nodes TypeHeap.globalScope nodes .start with
  | .ok tys _ => .ok tys
  | .error failure _ => .error (Collector.empty.push (failure.report src.name))

end CheckedLisp
