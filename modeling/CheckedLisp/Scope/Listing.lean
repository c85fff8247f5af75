import CheckedLisp.Check.Scope
import CheckedLisp.Text.Visible
import CheckedLisp.Value.Basic

/-! A listing shows one frame: whether it belongs to a function, and its names in order. -/
namespace CheckedLisp

def listed (items : List String) : String := "[" ++ ", ".intercalate items ++ "]"

namespace Frame

def sortedBindings {α ρ : Type} (f : Frame α ρ) : List (String × α) :=
  f.bindings.mergeSort fun a b => a.1 ≤ b.1

def flag {α ρ : Type} (f : Frame α ρ) : String := if f.function.isSome then "true" else "false"

/-- The names of a frame of values. -/
def listing (f : Frame Value Unit) : String :=
  "Scope \x7b function: " ++ f.flag ++ ", names: "
    ++ listed (f.sortedBindings.map fun (name, _) => Text.visible name) ++ " \x7d"

/-- The names of a frame of types, each with the text of its type. -/
def typeListing (f : Frame Ty (List Ty)) : String :=
  "TypeScope \x7b function: " ++ f.flag ++ ", bindings: "
    ++ listed (f.sortedBindings.map fun (name, ty) =>
      "(" ++ Text.visible name ++ ", " ++ Text.visible ty.text ++ ")") ++ " \x7d"

end Frame

end CheckedLisp
