import CheckedLisp.Proofs.Node.Binding
import CheckedLisp.Proofs.Node.Nesting
import CheckedLisp.Proofs.Node.Parsed

/-! A `return!` stands in the body of a lambda, the parameters of a lambda differ from each other
and a conditional has at least one case. This holds of every node that is read, also of those that
stand next to errors: a form that fails leaves nothing behind that its neighbours see. -/
namespace CheckedLisp

namespace Node

/-- What is asked of a node itself; `inLambda` says whether it stands in the body of a lambda. -/
def Fair (inLambda : Bool) : Node → Prop
  | ret _ _ => inLambda = true
  | lambda _ params _ _ => (params.map (·.text)).Nodup
  | conditional _ cases _ => cases ≠ []
  | _ => True

/-- What is asked of nodes holds of the node and everywhere below it. -/
inductive Proper : Bool → Node → Prop
  | intro {inLambda node} (own : node.Fair inLambda)
    (each : ∀ child ∈ node.children, Proper (node.isLambda || inLambda) child) : Proper inLambda node

theorem Proper.own {inLambda : Bool} {node : Node} (proper : node.Proper inLambda) : node.Fair inLambda := by
  cases proper with
  | intro own _ => exact own

theorem Proper.each {inLambda : Bool} {node : Node} (proper : node.Proper inLambda) :
    ∀ child ∈ node.children, child.Proper (node.isLambda || inLambda) := by
  cases proper with
  | intro _ each => exact each

/-- Somewhere in `top` there is a lambda with `node` in its body. -/
def Encloses (top node : Node) : Prop :=
  ∃ span params doc body, top.Descends (.lambda span params doc body) ∧ body.Descends node

theorem Descends.trans {a b c : Node} (first : a.Descends b) (second : b.Descends c) : a.Descends c := by
  induction second with
  | here => exact first
  | child _ below ih => exact ih.child below

theorem eq_lambda_of_isLambda {node : Node} (isLambda : node.isLambda = true) :
    ∃ span params doc body, node = .lambda span params doc body := by
  cases node with
  | lambda span params doc body => exact ⟨span, params, doc, body, rfl⟩
  | _ => cases isLambda

/-- A node below a proper one is proper, and if it is taken to stand in a lambda then there is
one that encloses it. -/
theorem Proper.descends {inLambda : Bool} {top node : Node} (proper : top.Proper inLambda)
    (descends : top.Descends node) :
    ∃ inner, node.Proper inner ∧ (inner = true → inLambda = true ∨ top.Encloses node) := by
  induction descends with
  | here => exact ⟨inLambda, proper, .inl⟩
  | @child outer inner above below ih =>
    obtain ⟨around, proper, enclosed⟩ := ih
    refine ⟨outer.isLambda || around, proper.each inner below, ?_⟩
    intro inside
    rcases Bool.or_eq_true_iff.1 inside with isLambda | isAround
    · obtain ⟨span, params, doc, body, rfl⟩ := eq_lambda_of_isLambda isLambda
      rw [List.mem_singleton.1 below]
      exact .inr ⟨span, params, doc, body, above, .here⟩
    · rcases enclosed isAround with top | ⟨span, params, doc, body, isBelow, inBody⟩
      · exact .inl top
      · exact .inr ⟨span, params, doc, body, isBelow, inBody.child below⟩

theorem proper_unit (inLambda : Bool) (span : Span) : Proper inLambda (.unit span) :=
  .intro trivial (List.forall_mem_nil _)

/-- No two parameters of a lambda in the node have the same name. -/
def Distinct (node : Node) : Prop :=
  ∀ span params doc body, node.Descends (.lambda span params doc body) → (params.map (·.text)).Nodup

theorem Proper.distinct {inLambda : Bool} {top : Node} (proper : top.Proper inLambda) : top.Distinct := by
  intro span params doc body descends
  obtain ⟨_, proper, _⟩ := proper.descends descends
  exact proper.own

end Node

namespace Grammar

open Node

theorem proper_of_body {inLambda : Bool} {span : Span} {forms : List Node} {body : Node}
    (whole : Body span forms body) (each : ∀ form ∈ forms, form.Proper inLambda) : body.Proper inLambda := by
  cases whole with
  | none => exact proper_unit inLambda span
  | one => exact each _ List.mem_cons_self
  | several => exact .intro trivial each

mutual

theorem proper_of_expr {inLambda : Bool} {tokens : List Token} {node : Node} :
    Expr inLambda tokens node → node.Proper inLambda
  | .atom span value => .intro trivial (List.forall_mem_nil _)
  | .quoted mark derived => .intro trivial (List.forall_mem_singleton.2 (proper_of_expr derived))
  | .unit opener close => proper_unit inLambda _
  | .keyed opener close derived => proper_of_keyed derived
  | .call opener close _ derived derivedArgs =>
    .intro trivial (List.forall_mem_cons.2 ⟨proper_of_expr derived, proper_of_exprs derivedArgs⟩)

theorem proper_of_keyed {inLambda : Bool} {tokens : List Token} {opener close : Span} {node : Node} :
    Keyed inLambda opener close tokens node → node.Proper inLambda
  | .sequence span derived => .intro trivial (proper_of_exprs derived)
  | .ifThen span derived => by
    refine .intro (List.cons_ne_nil _ _) (List.forall_mem_append.2 ⟨proper_of_exprs derived, ?_⟩)
    exact List.forall_mem_singleton.2 (proper_unit inLambda close)
  | .ifThenElse span derived => .intro (List.cons_ne_nil _ _) (proper_of_exprs derived)
  | @Keyed.cond _ _ close span _ _ _ otherwise derived => by
    obtain ⟨each, last⟩ := List.forall_mem_append.1 (proper_of_clauses derived)
    refine .intro (List.cons_ne_nil _ _) (List.forall_mem_append.2 ⟨each, List.forall_mem_singleton.2 ?_⟩)
    cases otherwise with
    | none => exact proper_unit inLambda close
    | some body => exact last body List.mem_cons_self
  | .condElse span derived => proper_of_clauses derived _ List.mem_cons_self
  | .condEmpty span => proper_unit inLambda _
  | .loop span derived whole => by
    obtain ⟨predicate, forms⟩ := List.forall_mem_cons.1 (proper_of_exprs derived)
    have body := proper_of_body whole forms
    exact .intro trivial (List.forall_mem_cons.2 ⟨predicate, List.forall_mem_singleton.2 body⟩)
  | .define span name derived | .assign span name derived =>
    .intro trivial (List.forall_mem_singleton.2 (proper_of_expr derived))
  | .lambda span paramsOpener paramsClose distinct derived documented whole => by
    have forms := forall_mem_documented documented (proper_of_exprs derived)
    exact .intro distinct (List.forall_mem_singleton.2 (proper_of_body whole forms))
  | .quote span derived => .intro trivial (List.forall_mem_singleton.2 (proper_of_expr derived))
  | .ret span => .intro rfl (List.forall_mem_singleton.2 (proper_unit true _))
  | .retValue span derived => .intro rfl (List.forall_mem_singleton.2 (proper_of_expr derived))

theorem proper_of_exprs {inLambda : Bool} {tokens : List Token} {nodes : List Node} :
    Exprs inLambda tokens nodes → ∀ node ∈ nodes, node.Proper inLambda
  | .nil => List.forall_mem_nil _
  | .cons first others => List.forall_mem_cons.2 ⟨proper_of_expr first, proper_of_exprs others⟩

theorem proper_of_clauses {inLambda : Bool} {tokens : List Token} {cases : List (Node × Node)}
    {otherwise : Option Node} : Clauses inLambda tokens cases otherwise →
      ∀ node ∈ caseNodes cases ++ otherwise.toList, node.Proper inLambda
  | .nil => List.forall_mem_nil _
  | .otherwise opener close span derived whole =>
    List.forall_mem_singleton.2 (proper_of_body whole (proper_of_exprs derived))
  | .case opener close _ derived derivedForms whole others => by
    have body := proper_of_body whole (proper_of_exprs derivedForms)
    exact List.forall_mem_cons.2
      ⟨proper_of_expr derived, List.forall_mem_cons.2 ⟨body, proper_of_clauses others⟩⟩

end

end Grammar

namespace Source

theorem proper_of_tokens (src : Source) (tokens : List Token) :
    ∀ top ∈ (src.nodesOfTokens tokens).1, top.Proper false := by
  obtain ⟨used, -, derived⟩ := Grammar.exists_sublist_exprs src tokens
  exact Grammar.proper_of_exprs derived

theorem proper_of_parse {src : Source} {nodes : List Node} (parsed : src.parse = .ok nodes) :
    ∀ top ∈ nodes, top.Proper false := by
  obtain ⟨_, derived⟩ := Grammar.parse_eq_ok.1 parsed
  exact Grammar.proper_of_exprs derived

end Source

end CheckedLisp
