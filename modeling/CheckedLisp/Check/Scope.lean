import CheckedLisp.Scope.Heap
import CheckedLisp.Ty.Union

/-! Frames bind names to types, and a function frame gathers the types of the `return!` forms that
were met inside it. A function defined twice in one frame gains overloads; an assignment widens the
type of its target. -/
namespace CheckedLisp

abbrev TypeHeap := Heap Ty (List Ty)

namespace TypeHeap

/-- Binds a name in the frame of `s` itself. Over a function only a function can be
defined, and its signatures come before the older ones. -/
def define (h : TypeHeap) (s : Scope) (name : String) (ty : Ty) : Bool × TypeHeap :=
  match (h.frame? s).bind (·.lookup name), ty with
  | none, ty => (true, h.modify s (·.bind name ty))
  | some (.callable newest older), .callable newer others =>
    (true, h.modify s (·.rebind name (.callable newer (others ++ newest :: older))))
  | some _, _ => (false, h)

/-- Widens the innermost binding of `name`; refused if there is none. -/
def widen (h : TypeHeap) (s : Scope) (name : String) (ty : Ty) : Bool × TypeHeap :=
  match h.binder? s name with
  | none => (false, h)
  | some t =>
    match (h.frame? t).bind (·.lookup name) with
    | none => (false, h)
    | some old => (true, h.modify t (·.rebind name (.join [old, ty])))

/-- Adds to what the innermost function around `s` returns; refused outside of functions. -/
def recordReturn (h : TypeHeap) (s : Scope) (ty : Ty) : Bool × TypeHeap :=
  match h.function? s with
  | none => (false, h)
  | some t => (true, h.modify t fun f => { f with function := f.function.map (· ++ [ty]) })

def returns (h : TypeHeap) (s : Scope) : List Ty := ((h.frame? s).bind (·.function)).getD []

/-- Forgets what the frame of `s` gathered. -/
def clearReturns (h : TypeHeap) (s : Scope) : TypeHeap :=
  h.modify s fun f => { f with function := f.function.map fun _ => [] }

end TypeHeap

end CheckedLisp
