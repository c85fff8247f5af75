import CheckedLisp.Check.Scope

/-! A class is a family of operators over one carrier type. Instances for several carriers in one
frame overload the operators, the newest carrier first. -/
namespace CheckedLisp

inductive TypeClass where
  | num
  | ord
  | seq
  deriving DecidableEq, Repr

namespace TypeClass

def name : TypeClass → String
  | num => "Num"
  | ord => "Ord"
  | seq => "Seq"

def all : List TypeClass := [num, ord, seq]

def signatures (carrier : Ty) : TypeClass → List (String × Ty)
  | num => ["+", "-", "*", "/"].map (·, .function [carrier, carrier] carrier)
  | ord => ["<", ">", "<=", ">="].map (·, .function [carrier, carrier] .bool)
  | seq => [("length", .function [carrier] .int)]

/-- Defines operators in order and stops at the first that is refused, which it names. -/
def defineAll (h : TypeHeap) (s : Scope) : List (String × Ty) → Option String × TypeHeap
  | [] => (none, h)
  | (name, ty) :: rest =>
    match h.define s name ty with
    | (true, h) => defineAll h s rest
    | (false, h) => (some name, h)

def instantiate (h : TypeHeap) (s : Scope) (cls : TypeClass) (carrier : Ty) :
    Option String × TypeHeap :=
  defineAll h s (cls.signatures carrier)

end TypeClass

namespace TypeHeap

def constants : List (String × Ty) := [("true", .bool), ("false", .bool)]

/-- The doc strings of the functions that belong to no class, or not only to one. -/
def docs : List (String × String) := [
  ("=", "Structural equality.\n(Callable (Any Any) Bool)"),
  ("not", "Boolean negation.\n(Callable (Bool) Bool)"),
  ("display", "Write the arguments to the output, separated by spaces.\n(Callable ((Variadic Any)) Unit)"),
  ("newline", "Write a line break.\n(Callable () Unit)"),
  ("cons", "Build a pair.\n(Callable (Any Any) Any)"),
  ("car", "First element of a pair.\n(Callable (Any) Any)"),
  ("cdr", "Rest of a pair.\n(Callable (Any) Any)"),
  ("list", "Build a proper list.\n(Callable ((Variadic Any)) Any)"),
  ("length", "Number of elements in a list.\n(Callable (Any) Int)"),
  ("append", "Concatenate lists.\n(Callable ((Variadic Any)) Any)"),
  ("reverse", "Reverse a list.\n(Callable (Any) Any)"),
  ("null?", "True for the empty list.\n(Callable (Any) Bool)"),
  ("eval", "Evaluate a quoted expression in the caller's scope.\n(Callable (Any) Any)")]

/-- The types that the doc strings declare. -/
def documented : List (String × Ty) := [
  ("=", .function [.any, .any] .bool),
  ("not", .function [.bool] .bool),
  ("display", .function [.variadic .any] .unit),
  ("newline", .function [] .unit),
  ("cons", .function [.any, .any] .any),
  ("car", .function [.any] .any),
  ("cdr", .function [.any] .any),
  ("list", .function [.variadic .any] .any),
  ("length", .function [.any] .int),
  ("append", .function [.variadic .any] .any),
  ("reverse", .function [.any] .any),
  ("null?", .function [.any] .bool),
  ("eval", .function [.any] .any)]

def instances : List (TypeClass × Ty) := [
  (.num, .int), (.num, .float), (.ord, .int), (.ord, .float), (.ord, .string), (.seq, .string)]

/-- The first scope, number zero, holds the global names. Instances come after the
documented names, so their overloads are tried first. -/
def start : TypeHeap :=
  let h : TypeHeap := ⟨#[⟨none, none, constants ++ documented⟩]⟩
  instances.foldl (fun h (cls, carrier) => (cls.instantiate h 0 carrier).2) h

def globalScope : Scope := 0

end TypeHeap

end CheckedLisp
