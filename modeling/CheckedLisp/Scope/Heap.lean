/-! Names are bound in frames. A frame has an enclosing frame, which is older, and a scope is the
number of a frame: it sees the names along its chain of enclosing frames. The same frames serve
values at run time and types during checking; `α` is what a name is bound to and `ρ` what a function
frame gathers while its function is at work. -/
namespace CheckedLisp

abbrev Scope := Nat

structure Frame (α ρ : Type) where
  parent : Option Scope
  /-- Present on the frames that belong to a function. -/
  function : Option ρ
  /-- No name stands twice. -/
  bindings : List (String × α)

/-- All frames, each under its number. -/
structure Heap (α ρ : Type) where
  frames : Array (Frame α ρ)

namespace Frame

variable {α ρ : Type}

def lookup (f : Frame α ρ) (name : String) : Option α := f.bindings.lookup name

def binds (f : Frame α ρ) (name : String) : Bool := (f.lookup name).isSome

def names (f : Frame α ρ) : List String := f.bindings.map (·.1)

/-- Replaces what `name` is bound to, if it is bound. -/
def replace (name : String) (value : α) : List (String × α) → List (String × α)
  | [] => []
  | (bound, old) :: rest =>
    if bound = name then (bound, value) :: rest else (bound, old) :: replace name value rest

def bind (f : Frame α ρ) (name : String) (value : α) : Frame α ρ :=
  { f with bindings := (name, value) :: f.bindings }

def rebind (f : Frame α ρ) (name : String) (value : α) : Frame α ρ :=
  { f with bindings := replace name value f.bindings }

end Frame

namespace Heap

variable {α ρ : Type}

def frame? (h : Heap α ρ) (s : Scope) : Option (Frame α ρ) := h.frames[s]?

def parent? (h : Heap α ρ) (s : Scope) : Option Scope := (h.frame? s).bind (·.parent)

/-- The scope that `add` gives to the next frame. -/
def next (h : Heap α ρ) : Scope := h.frames.size

def add (h : Heap α ρ) (parent : Option Scope) (function : Option ρ) : Heap α ρ :=
  ⟨h.frames.push ⟨parent, function, []⟩⟩

def modify (h : Heap α ρ) (s : Scope) (change : Frame α ρ → Frame α ρ) : Heap α ρ :=
  ⟨h.frames.modify s change⟩

@[simp] theorem frame?_add_next (h : Heap α ρ) (parent : Option Scope) (function : Option ρ) :
    (h.add parent function).frame? h.next = some ⟨parent, function, []⟩ := by
  simp [add, frame?, next]

theorem frame?_add_of_lt (h : Heap α ρ) (parent : Option Scope) (function : Option ρ) {s : Scope}
    (old : s < h.next) : (h.add parent function).frame? s = h.frame? s := by
  have other : s ≠ h.frames.size := Nat.ne_of_lt old
  simp [add, frame?, Array.getElem?_push, other]

@[simp] theorem next_modify (h : Heap α ρ) (s : Scope) (change : Frame α ρ → Frame α ρ) :
    (h.modify s change).next = h.next := by
  simp [modify, next]

theorem frame?_modify (h : Heap α ρ) (s t : Scope) (change : Frame α ρ → Frame α ρ) :
    (h.modify s change).frame? t = if s = t then (h.frame? t).map change else h.frame? t := by
  simp [modify, frame?, Array.getElem?_modify]

/-- At most `count` scopes from `s` outward. -/
def chainUpTo (h : Heap α ρ) : Nat → Scope → List Scope
  | 0, _ => []
  | count + 1, s =>
    match h.frame? s with
    | none => []
    | some frame =>
      match frame.parent with
      | none => [s]
      | some parent => s :: h.chainUpTo count parent

/-- The scopes that `s` sees, innermost first. Parents are older, so no chain from `s` is
longer than `s + 1`. -/
def chain (h : Heap α ρ) (s : Scope) : List Scope := h.chainUpTo (s + 1) s

def bindsIn (h : Heap α ρ) (s : Scope) (name : String) : Bool := (h.frame? s).any (·.binds name)

/-- The innermost scope seen from `s` that binds `name`. -/
def binder? (h : Heap α ρ) (s : Scope) (name : String) : Option Scope :=
  (h.chain s).find? (h.bindsIn · name)

def lookup (h : Heap α ρ) (s : Scope) (name : String) : Option α :=
  (h.chain s).findSome? fun t => (h.frame? t).bind (·.lookup name)

/-- Binds a new name in the frame of `s` itself; refused if it is bound there. -/
def define (h : Heap α ρ) (s : Scope) (name : String) (value : α) : Bool × Heap α ρ :=
  if h.bindsIn s name then (false, h) else (true, h.modify s (·.bind name value))

/-- Changes the innermost binding of `name`; refused if there is none. -/
def assign (h : Heap α ρ) (s : Scope) (name : String) (value : α) : Bool × Heap α ρ :=
  match h.binder? s name with
  | none => (false, h)
  | some t => (true, h.modify t (·.rebind name value))

/-- The innermost function frame that `s` lies in. -/
def function? (h : Heap α ρ) (s : Scope) : Option Scope :=
  (h.chain s).find? fun t => (h.frame? t).any (·.function.isSome)

def inFunction (h : Heap α ρ) (s : Scope) : Bool := (h.function? s).isSome

end Heap

end CheckedLisp
