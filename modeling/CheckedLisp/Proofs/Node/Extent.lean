import CheckedLisp.Proofs.Node.RoundTrip

/-! Kinds of tokens that make up one expression say themselves where they end: no expression is the
beginning of a longer one. So two rows of expressions of the same kinds agree expression by
expression. -/
namespace CheckedLisp.Grammar

open Scan Node

/-- What is left behind one expression, inside `depth` brackets of it that are still open. -/
def afterOne : Nat → List Token.Kind → Option (List Token.Kind)
  | _, [] => none
  | depth, .opening :: rest => afterOne (depth + 1) rest
  | 0, .closing :: _ => none
  | 1, .closing :: rest => some rest
  | depth + 2, .closing :: rest => afterOne (depth + 1) rest
  | depth, .quote :: rest => afterOne depth rest
  | 0, .atom _ :: rest => some rest
  | depth + 1, .atom _ :: rest => afterOne (depth + 1) rest
  | _, .finish :: _ => none

/-- The kinds of one expression, whatever stands behind it. -/
structure Single (kinds : List Token.Kind) : Prop where
  top : ∀ rest, afterOne 0 (kinds ++ rest) = some rest
  inner : ∀ depth rest, afterOne (depth + 1) (kinds ++ rest) = afterOne (depth + 1) rest

section

variable {kinds kinds' rest rest' : List Token.Kind}

theorem Single.cancel (single : Single kinds) (single' : Single kinds')
    (same : kinds ++ rest = kinds' ++ rest') : kinds = kinds' ∧ rest = rest' := by
  have left : rest = rest' := by
    have found := single.top rest
    rw [same, single'.top rest'] at found
    exact (Option.some.inj found).symm
  subst left
  exact ⟨List.append_cancel_right same, rfl⟩

/-- An expression does not start with a bracket that closes. -/
theorem Single.append_ne_closing (single : Single kinds) : kinds ++ rest ≠ .closing :: rest' := by
  intro same
  have found := single.top rest
  rw [same] at found
  cases found

theorem single_atom (value : Atom) : Single [.atom value] := ⟨fun _ => rfl, fun _ _ => rfl⟩

theorem Single.quote (single : Single kinds) : Single (.quote :: kinds) := ⟨single.top, single.inner⟩

theorem afterOne_flatten {parts : List (List Token.Kind)} (each : ∀ part ∈ parts, Single part) (depth : Nat)
    (rest : List Token.Kind) : afterOne (depth + 1) (parts.flatten ++ rest) = afterOne (depth + 1) rest := by
  induction parts with
  | nil => rfl
  | cons part parts ih =>
    obtain ⟨first, others⟩ := List.forall_mem_cons.1 each
    rw [List.flatten_cons, List.append_assoc, first.inner, ih others]

theorem single_bracketed {parts : List (List Token.Kind)} (each : ∀ part ∈ parts, Single part) :
    Single (bracketed parts) := by
  constructor
  · intro rest
    have inside := afterOne_flatten each 0 (.closing :: rest)
    simpa [bracketed, afterOne] using inside
  · intro depth rest
    have inside := afterOne_flatten each (depth + 1) (.closing :: rest)
    simpa [bracketed, afterOne] using inside

end

@[simp] theorem single_word (text : String) : Single [word text] := single_atom _

mutual

/-- The text of a node is one expression. -/
theorem single_kinds : ∀ node : Node, Single node.kinds
  | .unit _ => by
    rw [kinds]
    exact single_bracketed (by simp)
  | .atom _ value => by
    rw [kinds]
    exact single_atom value
  | .block _ forms => by
    rw [kinds]
    exact single_bracketed (by simpa using single_kindsEach forms)
  | .call _ callee args => by
    rw [kinds]
    exact single_bracketed (by simpa [single_kinds callee] using single_kindsEach args)
  | .conditional _ [] otherwise => by
    have clause : Single (bracketed [[word "else"], kinds otherwise]) :=
      single_bracketed (by simp [single_kinds otherwise])
    rw [kinds]
    · exact single_bracketed (by simpa [caseKinds] using clause)
    · rintro _ _ ⟨⟩
  | .conditional _ [(predicate, body)] otherwise => by
    rw [kinds]
    exact single_bracketed (by simp [single_kinds predicate, single_kinds body, single_kinds otherwise])
  | .conditional _ (first :: second :: cases) otherwise => by
    have clause : Single (bracketed [[word "else"], kinds otherwise]) :=
      single_bracketed (by simp [single_kinds otherwise])
    have each := single_caseKinds (first :: second :: cases)
    rw [kinds]
    · refine single_bracketed ?_
      simp only [List.forall_mem_cons, List.forall_mem_append, single_word]
      exact ⟨trivial, each, clause, List.forall_mem_nil _⟩
    · rintro _ _ ⟨⟩
  | .loop _ predicate body => by
    rw [kinds]
    exact single_bracketed (by simp [single_kinds predicate, single_kinds body])
  | .define _ name value | .assign _ name value => by
    rw [kinds]
    exact single_bracketed (by simp [single_kinds value])
  | .lambda _ params doc body => by
    have names : Single (bracketed (params.map fun name => [word name.text])) := single_bracketed (by simp)
    have docs : ∀ part ∈ docKinds doc, Single part := by
      cases doc with
      | none => simp [docKinds]
      | some text => simpa [docKinds] using single_atom (.string text)
    rw [kinds]
    refine single_bracketed ?_
    simp only [List.forall_mem_cons, List.forall_mem_append, single_word]
    exact ⟨⟨⟨trivial, names, List.forall_mem_nil _⟩, docs⟩, single_kinds body, List.forall_mem_nil _⟩
  | .quote _ inner => by
    rw [kinds]
    exact single_bracketed (by simp [single_kinds inner])
  | .ret _ value => by
    rw [kinds]
    exact single_bracketed (by simp [single_kinds value])

theorem single_kindsEach : ∀ nodes : List Node, ∀ part ∈ kindsEach nodes, Single part
  | [] => by simp [kindsEach]
  | node :: nodes => by
    rw [kindsEach]
    exact List.forall_mem_cons.2 ⟨single_kinds node, single_kindsEach nodes⟩

theorem single_caseKinds : ∀ cases : List (Node × Node), ∀ part ∈ caseKinds cases, Single part
  | [] => by simp [caseKinds]
  | (predicate, body) :: cases => by
    rw [caseKinds]
    refine List.forall_mem_cons.2 ⟨single_bracketed ?_, single_caseKinds cases⟩
    simp [single_kinds predicate, single_kinds body]

end

mutual

/-- So are the tokens of a tree that is whole. -/
theorem single_flatten : ∀ tree : Tree, tree.isWhole → Single (tree.flatten.map (·.kind))
  | .atom _ value, _ => single_atom value
  | .quote _ inner, whole => (single_flatten inner whole).quote
  | .list _ items (.closing _), whole => by
    obtain ⟨parts, flat, each⟩ := exists_parts items whole
    have inside := single_bracketed each
    simpa [bracketed, Tree.flatten, Stop.kind, ← flat] using inside

theorem exists_parts : ∀ trees : List Tree, Tree.areWhole trees →
    ∃ parts : List (List Token.Kind), parts.flatten = (Tree.flattenAll trees).map (·.kind) ∧
      ∀ part ∈ parts, Single part
  | [], _ => ⟨[], rfl, by simp⟩
  | tree :: trees, whole => by
    simp only [Tree.areWhole, Bool.and_eq_true] at whole
    obtain ⟨parts, flat, each⟩ := exists_parts trees whole.2
    refine ⟨tree.flatten.map (·.kind) :: parts, by simp [Tree.flattenAll, flat], ?_⟩
    exact List.forall_mem_cons.2 ⟨single_flatten tree whole.1, each⟩

end

theorem single_of_expr {inLambda : Bool} {tokens : List Token} {node : Node}
    (derived : Expr inLambda tokens node) : Single (tokens.map (·.kind)) := by
  obtain ⟨tree, rfl, read⟩ := node_of_expr derived
  exact single_flatten tree (expr_of_node inLambda tree read).1

end CheckedLisp.Grammar
