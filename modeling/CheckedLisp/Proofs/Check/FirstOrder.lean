import CheckedLisp.Check.Basic
import CheckedLisp.Value.Builtin

/-! Programs without loops and functions of their own: every callee is the name of a built-in
function, these names stand nowhere else, and a definition stands only among the forms of a block or
of the program. -/
namespace CheckedLisp

/-- The built-in function that a name stands for. -/
def Builtin.named? (name : String) : Option Builtin := Builtin.all.find? (·.name = name)

namespace Node

mutual

/-- A first-order expression. -/
def isFirstOrder : Node → Bool
  | .unit _ => true
  | .atom _ (.symbol name) => (Builtin.named? name).isNone
  | .atom _ _ => true
  | .block _ forms => areForms forms
  | .call _ (.atom _ (.symbol name)) args => (Builtin.named? name).isSome && areFirstOrder args
  | .conditional _ branches otherwise => areBranches branches && isFirstOrder otherwise
  | .assign _ name value => (Builtin.named? name.text).isNone && isFirstOrder value
  | _ => false

def areFirstOrder : List Node → Bool
  | [] => true
  | node :: nodes => isFirstOrder node && areFirstOrder nodes

def areBranches : List (Node × Node) → Bool
  | [] => true
  | (predicate, body) :: rest => isFirstOrder predicate && isFirstOrder body && areBranches rest

/-- Forms are first-order expressions and definitions of their values. -/
def areForms : List Node → Bool
  | [] => true
  | .define _ name value :: forms =>
    (Builtin.named? name.text).isNone && isFirstOrder value && areForms forms
  | form :: forms => isFirstOrder form && areForms forms

end

theorem callee_of_isFirstOrder {span : Span} {callee : Node} {args : List Node}
    (plain : (Node.call span callee args).isFirstOrder) :
    ∃ symbolSpan name b, callee = .atom symbolSpan (.symbol name) ∧ Builtin.named? name = some b ∧
      areFirstOrder args := by
  match callee, plain with
  | .atom symbolSpan (.symbol name), plain =>
    simp only [isFirstOrder, Bool.and_eq_true, Option.isSome_iff_exists] at plain
    obtain ⟨⟨b, named⟩, rest⟩ := plain
    exact ⟨symbolSpan, name, b, rfl, named, rest⟩

theorem forms_cons {form : Node} {forms : List Node} (plain : areForms (form :: forms)) :
    areForms forms ∧ (form.isFirstOrder ∨ ∃ span name value, form = .define span name value ∧
      Builtin.named? name.text = none ∧ value.isFirstOrder) := by
  cases form with
  | define span name value =>
    simp only [areForms, Bool.and_eq_true, Option.isNone_iff_eq_none] at plain
    exact ⟨plain.2, .inr ⟨span, name, value, rfl, plain.1⟩⟩
  | _ =>
    simp only [areForms, Bool.and_eq_true] at plain
    exact ⟨plain.2, .inl plain.1⟩

end Node

namespace Check

/-- What is met after `action`, if it succeeds. -/
def after {α : Type} (action : Action α) (c : Checker) (met : α → Checker → List Ty) : List Ty :=
  match action c with
  | .ok a c => met a c
  | .error _ _ => []

mutual

/-- The types of the call arguments and of the predicates that checking a node meets. What
first-order programs do not contain is not looked into. -/
def judged (scope : Scope) : Node → Checker → List Ty
  | .block _ forms, c => after (enter scope none) c fun inner c => judgedAll inner forms c
  | .call _ callee args, c =>
    judged scope callee c ++ after (node scope callee) c fun _ c =>
      judgedAll scope args c ++ after (nodes scope args) c fun tys _ => tys
  | .conditional _ branches otherwise, c =>
    judgedCases scope branches c ++ after (cases scope branches) c fun _ c =>
      judged scope otherwise c
  | .define _ _ value, c => judged scope value c
  | .assign _ _ value, c => judged scope value c
  | _, _ => []

def judgedAll (scope : Scope) : List Node → Checker → List Ty
  | [], _ => []
  | form :: forms, c =>
    judged scope form c ++ after (node scope form) c fun _ c => judgedAll scope forms c

def judgedCases (scope : Scope) : List (Node × Node) → Checker → List Ty
  | [], _ => []
  | (predicate, body) :: rest, c =>
    judged scope predicate c ++ after (node scope predicate) c fun ty c =>
      ty :: judged scope body c ++ after (node scope body) c fun _ c => judgedCases scope rest c

end

end Check

end CheckedLisp
