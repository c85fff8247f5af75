import CheckedLisp.Proofs.Check.NormalForm

/-! The nodes that a check turns to, with the scope and the checker that each of them meets. A node
is listed behind the nodes inside it. What stands in the body of a lambda belongs to another
function than the lambda itself, and is listed only on request. -/
namespace CheckedLisp.Check

structure Visit where
  scope : Scope
  node : Node
  checker : Checker

/-- The type that the check gave to the node, if it succeeded there. -/
def Visit.ty? (v : Visit) : Option Ty :=
  match Check.node v.scope v.node v.checker with
  | .ok ty _ => some ty
  | .error _ _ => none

/-- The checker as it leaves the node. -/
def Visit.ending (v : Visit) : Checker := Ending.checker (Check.node v.scope v.node v.checker)

theorem Visit.exists_ok {v : Visit} (typed : v.ty?.isSome = true) :
    ∃ ty, Check.node v.scope v.node v.checker = .ok ty v.ending := by
  rw [Visit.ty?] at typed
  rw [Visit.ending]
  cases done : Check.node v.scope v.node v.checker with
  | ok ty c => exact ⟨ty, rfl⟩
  | error failure c =>
    rw [done] at typed
    cases typed

/-- A node behind what was visited inside it, which is nothing if checking is cancelled. -/
def leave (scope : Scope) (n : Node) (c : Checker) (inside : List Visit) : List Visit :=
  (if c.cancelled then [] else inside) ++ [⟨scope, n, c⟩]

mutual

/-- The visits inside a node; `deep` asks for those in the bodies of lambdas as well. -/
def visitsInside (deep : Bool) (scope : Scope) : Node → Checker → List Visit
  | .unit _, _ | .atom _ _, _ | .quote _ _, _ => []
  | .block _ forms, c => following (enter scope none) c fun inner c => visitsAll deep inner forms c
  | .call _ callee args, c =>
    leave scope callee c (visitsInside deep scope callee c) ++
      following (node scope callee) c fun _ c => visitsAll deep scope args c
  | .conditional _ branches otherwise, c =>
    visitsCases deep scope branches c ++ following (cases scope branches) c fun _ c =>
      leave scope otherwise c (visitsInside deep scope otherwise c)
  | .loop _ predicate body, c =>
    leave scope predicate c (visitsInside deep scope predicate c) ++
      following (node scope predicate) c fun ty c =>
        following (condition predicate.span ty) c fun _ c => leave scope body c (visitsInside deep scope body c)
  | .define _ name (.lambda span params doc body), c =>
    if deep then
      following (openLambda scope (some name.text) span params doc) c fun opening c =>
        leave opening.frame body c (visitsInside deep opening.frame body c)
    else []
  | .define _ _ value, c => leave scope value c (visitsInside deep scope value c)
  | .assign _ name value, c =>
    following (target scope name) c fun _ c => leave scope value c (visitsInside deep scope value c)
  | .lambda span params doc body, c =>
    if deep then
      following (openLambda scope none span params doc) c fun opening c =>
        leave opening.frame body c (visitsInside deep opening.frame body c)
    else []
  | .ret _ value, c => leave scope value c (visitsInside deep scope value c)

def visitsAll (deep : Bool) (scope : Scope) : List Node → Checker → List Visit
  | [], _ => []
  | n :: ns, c =>
    leave scope n c (visitsInside deep scope n c) ++
      following (node scope n) c fun _ c => visitsAll deep scope ns c

def visitsCases (deep : Bool) (scope : Scope) : List (Node × Node) → Checker → List Visit
  | [], _ => []
  | (predicate, body) :: rest, c =>
    leave scope predicate c (visitsInside deep scope predicate c) ++
      following (node scope predicate) c fun ty c =>
        following (condition predicate.span ty) c fun _ c =>
          leave scope body c (visitsInside deep scope body c) ++
            following (node scope body) c fun _ c => visitsCases deep scope rest c

end

/-- The visits of the check of a node, the node itself last. -/
def visits (deep : Bool) (scope : Scope) (n : Node) (c : Checker) : List Visit :=
  leave scope n c (visitsInside deep scope n c)

theorem leave_running {s : Scope} {n : Node} {c : Checker} (running : c.cancelled = false) (inside : List Visit) :
    leave s n c inside = inside ++ [⟨s, n, c⟩] := by
  simp [leave, running]

theorem following_ok {α β : Type} {action : Action α} {c c' : Checker} {a : α} (done : action c = .ok a c')
    (met : α → Checker → List β) : following action c met = met a c' := by
  rw [following, done]

end CheckedLisp.Check
