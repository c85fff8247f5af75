import CheckedLisp.Proofs.Node.Ambiguity
import CheckedLisp.Proofs.Node.Parsed
import CheckedLisp.Value.Basic

/-! The text of a node that was read is a program again, and the same one, exactly when the node is
unambiguous. A `cond` with nothing but an `else` clause stands for the body of that clause, so a
keyword can come to stand where a function is called and `else` where a case is tested, and such a
node is written like another form. -/
namespace CheckedLisp

namespace Node

theorem symbol?_bare (node : Node) : node.bare.symbol? = node.symbol? := by
  cases node with
  | atom span value => cases value <;> rfl
  | _ => rfl

mutual

/-- Where a node stands does not show in its text. -/
theorem kinds_bare : ∀ node : Node, node.bare.kinds = node.kinds
  | .unit _ | .atom _ _ => rfl
  | .block _ forms => by simp [bare, kinds, kindsEach_bare forms]
  | .call _ callee args => by simp [bare, kinds, kinds_bare callee, kindsEach_bare args]
  | .conditional _ [] otherwise => by simp [bare, bareCases, kinds, caseKinds, kinds_bare otherwise]
  | .conditional _ [(predicate, body)] otherwise => by
    simp [bare, bareCases, kinds, kinds_bare predicate, kinds_bare body, kinds_bare otherwise]
  | .conditional _ (first :: second :: cases) otherwise => by
    have each := caseKinds_bare (first :: second :: cases)
    simp [bareCases] at each
    simp [bare, bareCases, kinds, each, kinds_bare otherwise]
  | .loop _ predicate body => by simp [bare, kinds, kinds_bare predicate, kinds_bare body]
  | .define _ name value | .assign _ name value => by simp [bare, kinds, kinds_bare value, Name.bare]
  | .lambda _ params doc body => by simp [bare, kinds, kinds_bare body, Name.bare, Function.comp_def]
  | .quote _ inner => by simp [bare, kinds, kinds_bare inner]
  | .ret _ value => by simp [bare, kinds, kinds_bare value]

theorem kindsEach_bare : ∀ nodes : List Node, kindsEach (bareEach nodes) = kindsEach nodes
  | [] => rfl
  | node :: nodes => by simp [bareEach, kindsEach, kinds_bare node, kindsEach_bare nodes]

theorem caseKinds_bare : ∀ cases : List (Node × Node), caseKinds (bareCases cases) = caseKinds cases
  | [] => rfl
  | (predicate, body) :: cases => by
    simp [bareCases, caseKinds, kinds_bare predicate, kinds_bare body, caseKinds_bare cases]

end

theorem bareCases_eq_map (cases : List (Node × Node)) :
    bareCases cases = cases.map fun case => (case.1.bare, case.2.bare) := by
  induction cases with
  | nil => rfl
  | cons case cases ih => rw [bareCases, ih, List.map_cons]

mutual

theorem unambiguous_bare : ∀ node : Node, node.bare.Unambiguous ↔ node.Unambiguous
  | .unit _ | .atom _ _ => Iff.rfl
  | .block _ forms => by simp [bare, Unambiguous, allUnambiguous_bare forms]
  | .call _ callee args => by
    simp [bare, Unambiguous, symbol?_bare, unambiguous_bare callee, allUnambiguous_bare args]
  | .conditional _ cases otherwise => by
    have plain : (2 ≤ (bareCases cases).length → ∀ case ∈ bareCases cases, case.1.symbol? ≠ some "else") ↔
        (2 ≤ cases.length → ∀ case ∈ cases, case.1.symbol? ≠ some "else") := by
      simp only [bareCases_eq_map, List.length_map, List.forall_mem_map, symbol?_bare]
    simp only [bare, Unambiguous, plain, casesUnambiguous_bare cases, unambiguous_bare otherwise]
  | .loop _ predicate body => by simp [bare, Unambiguous, unambiguous_bare predicate, unambiguous_bare body]
  | .define _ name value | .assign _ name value => by simp [bare, Unambiguous, unambiguous_bare value]
  | .lambda _ params doc body => by simp [bare, Unambiguous, unambiguous_bare body]
  | .quote _ inner => by simp [bare, Unambiguous, unambiguous_bare inner]
  | .ret _ value => by simp [bare, Unambiguous, unambiguous_bare value]

theorem allUnambiguous_bare : ∀ nodes : List Node, AllUnambiguous (bareEach nodes) ↔ AllUnambiguous nodes
  | [] => Iff.rfl
  | node :: nodes => by simp [bareEach, AllUnambiguous, unambiguous_bare node, allUnambiguous_bare nodes]

theorem casesUnambiguous_bare : ∀ cases : List (Node × Node),
    CasesUnambiguous (bareCases cases) ↔ CasesUnambiguous cases
  | [] => Iff.rfl
  | (predicate, body) :: cases => by
    simp [bareCases, CasesUnambiguous, unambiguous_bare predicate, unambiguous_bare body,
      casesUnambiguous_bare cases]

end

end Node

open Grammar

section

variable {node : Node} (wellFormed : node.WellFormed false)

include wellFormed

/-- What the text of a well-formed node reads as comes from tokens of the node's kinds. -/
theorem expr_of_parse_text {name : String} {node' : Node}
    (parsed : (⟨name, node.text⟩ : Source).parse = .ok [node']) :
    ∃ tokens, OfKinds tokens node.kinds ∧ Expr false tokens node' := by
  obtain ⟨tokens, finish, same, _, scanned⟩ := tokens_of_lexes name (Node.lexes_of_wellFormed wellFormed)
  obtain ⟨_, derived⟩ := parse_eq_ok.1 parsed
  rw [scanned] at derived
  refine ⟨_, ?_, derived.singleton⟩
  obtain ⟨rest, split⟩ : (tokens ++ [finish]).takeWhile (·.kind ≠ .finish) <+: tokens ++ [finish] :=
    List.takeWhile_prefix _
  have kinds := congrArg (List.map (·.kind)) split
  rw [List.map_append, List.map_append, same] at kinds
  exact ((single_of_expr derived.singleton).cancel (single_kinds node) kinds).1

theorem parse_text_of_derivable (derivable : Derivable false node) (name : String) :
    ∃ node', (⟨name, node.text⟩ : Source).parse = .ok [node'] ∧ node'.bare = node.bare := by
  obtain ⟨tokens, finish, same, isFinish, scanned⟩ := tokens_of_lexes name (Node.lexes_of_wellFormed wellFormed)
  obtain ⟨node', derived, bare⟩ := derivable tokens same
  refine ⟨node', parse_eq_ok.2 ?_, bare⟩
  rw [scanned, takeWhile_of_expr derived isFinish]
  exact ⟨rfl, by simpa using Exprs.cons derived .nil⟩

theorem parse_text_iff_unambiguous (name : String) :
    (∃ node', (⟨name, node.text⟩ : Source).parse = .ok [node'] ∧ node'.bare = node.bare) ↔
      node.Unambiguous := by
  constructor
  · rintro ⟨node', parsed, bare⟩
    obtain ⟨tokens, same, derived⟩ := expr_of_parse_text wellFormed parsed
    have kinds : node'.kinds = node.kinds := by rw [← Node.kinds_bare node', bare, Node.kinds_bare]
    have unambiguous := unambiguous_of_expr derived (kinds ▸ same)
    rwa [← Node.unambiguous_bare, bare, Node.unambiguous_bare] at unambiguous
  · intro unambiguous
    have canonical := (Node.canonical_iff false node).2 ⟨wellFormed, unambiguous⟩
    exact parse_text_of_derivable wellFormed (derivable_of_canonical false node canonical) name

end

/-- The text of a node that was read gives the node back, up to places, exactly when the node
is unambiguous. So unambiguous quoted nodes that compare as equal are equal up to places. -/
theorem parse_text_of_parsed {src : Source} {nodes : List Node} (parsed : src.parse = .ok nodes) {node : Node}
    (member : node ∈ nodes) :
    (∀ name, (∃ node', (⟨name, node.text⟩ : Source).parse = .ok [node'] ∧ node'.bare = node.bare) ↔
      node.Unambiguous) ∧
    ∀ {src' : Source} {nodes' : List Node}, src'.parse = .ok nodes' → ∀ other ∈ nodes',
      node.Unambiguous → other.Unambiguous → (Value.quoted node).same (.quoted other) →
        node.bare = other.bare := by
  have wellFormed := wellFormed_of_parse parsed member
  refine ⟨parse_text_iff_unambiguous wellFormed, ?_⟩
  intro src' nodes' parsed' other member' unambiguous unambiguous' same
  have text : node.text = other.text := eq_of_beq same
  have wellFormed' := wellFormed_of_parse parsed' member'
  obtain ⟨first, read, bare⟩ := (parse_text_iff_unambiguous wellFormed src.name).2 unambiguous
  obtain ⟨second, read', bare'⟩ := (parse_text_iff_unambiguous wellFormed' src.name).2 unambiguous'
  rw [text, read'] at read
  cases read
  exact bare.symm.trans bare'

/-- A case with two forms, which are one block in the node and in its text. -/
theorem parse_text_of_parsed_case :
    let span (first last : Nat) : Span := ⟨⟨1, first⟩, ⟨1, last⟩⟩
    let node : Node := .conditional (span 1 14)
      [(.atom (span 8 8) (.symbol "p"),
        .block (span 7 13) [.atom (span 10 10) (.int "1"), .atom (span 12 12) (.int "2")])] (.unit (span 14 14))
    (⟨"s", "(cond (p 1 2))"⟩ : Source).parse = .ok [node] ∧ node.Unambiguous ∧
      ∃ node', (⟨"s", node.text⟩ : Source).parse = .ok [node'] ∧ node'.bare = node.bare := by
  intro span node
  have parsed : (⟨"s", "(cond (p 1 2))"⟩ : Source).parse = .ok [node] := rfl
  have unambiguous : node.Unambiguous := by
    simp [node, Node.Unambiguous, Node.CasesUnambiguous, Node.AllUnambiguous]
  have ⟨readsBack, _⟩ := parse_text_of_parsed parsed (List.mem_singleton_self node)
  exact ⟨parsed, unambiguous, (readsBack "s").2 unambiguous⟩

/-- A call of `begin`, which is written like a block. The two are equal as quoted values. -/
theorem parse_text_of_keyword_call :
    ∃ node node', (⟨"s", "((cond (else begin)) 1)"⟩ : Source).parse = .ok [node] ∧
      (⟨"s", node.text⟩ : Source).parse = .ok [node'] ∧ node'.bare ≠ node.bare ∧
      (Value.quoted node).same (.quoted node') = true :=
  ⟨_, _, rfl, rfl, by rintro ⟨⟩, rfl⟩

end CheckedLisp
