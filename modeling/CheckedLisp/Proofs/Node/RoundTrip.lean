import CheckedLisp.Proofs.Node.Canonical
import CheckedLisp.Proofs.Node.Derivation

/-! The text of a canonical node is a program of one node, which differs from it only in where it
stands. The text is scanned as tokens of known kinds, and whatever the places of these tokens are,
the grammar derives the node from them. -/
namespace CheckedLisp

def Name.bare (name : Name) : Name := ⟨name.text, .point .first⟩

namespace Node

mutual

/-- The node without its places. -/
def bare : Node → Node
  | unit _ => unit (.point .first)
  | atom _ value => atom (.point .first) value
  | block _ forms => block (.point .first) (bareEach forms)
  | call _ callee args => call (.point .first) (bare callee) (bareEach args)
  | conditional _ cases otherwise => conditional (.point .first) (bareCases cases) (bare otherwise)
  | loop _ predicate body => loop (.point .first) (bare predicate) (bare body)
  | define _ name value => define (.point .first) name.bare (bare value)
  | assign _ name value => assign (.point .first) name.bare (bare value)
  | lambda _ params doc body => lambda (.point .first) (params.map Name.bare) doc (bare body)
  | quote _ inner => quote (.point .first) (bare inner)
  | ret _ value => ret (.point .first) (bare value)

def bareEach : List Node → List Node
  | [] => []
  | node :: nodes => bare node :: bareEach nodes

def bareCases : List (Node × Node) → List (Node × Node)
  | [] => []
  | (predicate, body) :: cases => (bare predicate, bare body) :: bareCases cases

end

end Node

namespace Grammar

open Scan Node

def OfKinds (tokens : List Token) (kinds : List Token.Kind) : Prop := tokens.map (·.kind) = kinds

theorem exists_of_single {tokens : List Token} {kind : Token.Kind} (same : OfKinds tokens [kind]) :
    ∃ span, tokens = [⟨kind, span⟩] := by
  obtain ⟨⟨_, span⟩, rfl, rfl⟩ := List.map_eq_singleton_iff.1 same
  exact ⟨span, rfl⟩

theorem exists_chunks {tokens : List Token} {parts : List (List Token.Kind)}
    (same : OfKinds tokens parts.flatten) :
    ∃ chunks : List (List Token), tokens = chunks.flatten ∧ List.Forall₂ OfKinds chunks parts := by
  induction parts generalizing tokens with
  | nil => exact ⟨[], List.map_eq_nil_iff.1 same, .nil⟩
  | cons part parts ih =>
    obtain ⟨first, rest, rfl, here, there⟩ := List.map_eq_append_iff.1 same
    obtain ⟨chunks, rfl, each⟩ := ih there
    exact ⟨first :: chunks, rfl, .cons here each⟩

theorem exists_of_bracketed {tokens : List Token} {parts : List (List Token.Kind)}
    (same : OfKinds tokens (bracketed parts)) :
    ∃ (opener close : Span) (chunks : List (List Token)),
      tokens = ⟨.opening, opener⟩ :: (chunks.flatten ++ [⟨.closing, close⟩]) ∧
      List.Forall₂ OfKinds chunks parts := by
  obtain ⟨⟨_, opener⟩, rest, rfl, rfl, inner⟩ := List.map_eq_cons_iff.1 same
  obtain ⟨middle, last, rfl, here, there⟩ := List.map_eq_append_iff.1 inner
  obtain ⟨close, rfl⟩ := exists_of_single there
  obtain ⟨chunks, rfl, each⟩ := exists_chunks here
  exact ⟨opener, close, chunks, rfl, each⟩

/-- Only a symbol starts with a symbol. -/
theorem not_leads {node : Node} {tokens : List Token} {text : String} (same : OfKinds tokens node.kinds)
    (other : ∀ span, node ≠ .atom span (.symbol text)) : ¬ Leads text tokens := by
  rintro ⟨span, first⟩
  have head : node.kinds.head? = some (word text) := by
    rw [← same, List.head?_map, first]
    rfl
  cases node with
  | atom place value =>
    cases head
    exact other place rfl
  | conditional _ cases _ =>
    match cases with
    | [] | [_] | _ :: _ :: _ => cases head
  | _ => cases head

theorem exists_symbol {tokens : List Token} {text : String} (same : OfKinds tokens [word text]) :
    ∃ span, tokens = [symbol text span] := exists_of_single same

/-- Tokens of the kinds of a node derive it, up to places. -/
def Derivable (inLambda : Bool) (node : Node) : Prop :=
  ∀ tokens, OfKinds tokens node.kinds → ∃ node', Expr inLambda tokens node' ∧ node'.bare = node.bare

theorem exists_params {params : List Name} {chunks : List (List Token)}
    (each : List.Forall₂ OfKinds chunks (params.map fun name => [word name.text])) :
    ∃ params' : List Name, chunks.flatten = params'.map (fun name => symbol name.text name.span) ∧
      params'.map Name.bare = params.map Name.bare := by
  induction params generalizing chunks with
  | nil =>
    cases each
    exact ⟨[], rfl, rfl⟩
  | cons name params ih =>
    rcases each with _ | ⟨here, each⟩
    obtain ⟨span, rfl⟩ := exists_symbol here
    obtain ⟨params', flat, same⟩ := ih each
    exact ⟨⟨name.text, span⟩ :: params', by simp [flat], by simp [same, Name.bare]⟩

theorem map_text_of_bare {params params' : List Name} (same : params'.map Name.bare = params.map Name.bare) :
    params'.map (·.text) = params.map (·.text) := by
  have texts := congrArg (List.map Name.text) same
  simpa [Name.bare, Function.comp_def] using texts

theorem exists_clauses {inLambda : Bool} {cases : List (Node × Node)} {otherwise : Node}
    {chunks : List (List Token)}
    (derivable : ∀ case ∈ cases, Derivable inLambda case.1 ∧ Derivable inLambda case.2)
    (last : Derivable inLambda otherwise)
    (plain : ∀ case ∈ cases, ∀ span, case.1 ≠ .atom span (.symbol "else"))
    (each : List.Forall₂ OfKinds chunks
      (caseKinds cases ++ [bracketed [[word "else"], otherwise.kinds]])) :
    ∃ cases' otherwise', Clauses inLambda chunks.flatten cases' (some otherwise') ∧
      bareCases cases' = bareCases cases ∧ otherwise'.bare = otherwise.bare := by
  induction cases generalizing chunks with
  | nil =>
    rcases each with _ | ⟨here, _ | _⟩
    obtain ⟨opener, close, inner, rfl, parts⟩ := exists_of_bracketed here
    rcases parts with _ | ⟨keyword, _ | ⟨value, _ | _⟩⟩
    obtain ⟨span, rfl⟩ := exists_symbol keyword
    obtain ⟨otherwise', derived, same⟩ := last _ value
    refine ⟨[], otherwise', ?_, rfl, same⟩
    have clause := Clauses.otherwise opener close span (Exprs.cons derived .nil) (.one otherwise')
    simpa using clause
  | cons case cases ih =>
    obtain ⟨⟨here, body⟩, others⟩ := List.forall_mem_cons.1 derivable
    obtain ⟨notElse, plain⟩ := List.forall_mem_cons.1 plain
    rcases each with _ | ⟨first, each⟩
    obtain ⟨cases', otherwise', derivedRest, sameCases, sameOtherwise⟩ := ih others plain each
    obtain ⟨opener, close, inner, rfl, parts⟩ := exists_of_bracketed first
    rcases parts with _ | ⟨predicateKinds, _ | ⟨bodyKinds, _ | _⟩⟩
    obtain ⟨predicate', derivedPredicate, samePredicate⟩ := here _ predicateKinds
    obtain ⟨body', derivedBody, sameBody⟩ := body _ bodyKinds
    refine ⟨(predicate', body') :: cases', otherwise', ?_, ?_, sameOtherwise⟩
    · have clause := Clauses.case opener close (not_leads predicateKinds notElse) derivedPredicate
        (Exprs.cons derivedBody .nil) (.one body') derivedRest
      simpa using clause
    · simp [bareCases, samePredicate, sameBody, sameCases]

mutual

theorem derivable_of_canonical (inLambda : Bool) : ∀ node : Node, node.Canonical inLambda →
    Derivable inLambda node
  | .unit _, _, tokens, same => by
    obtain ⟨opener, close, chunks, rfl, each⟩ := exists_of_bracketed same
    cases each
    exact ⟨_, .unit opener close, rfl⟩
  | .atom _ value, _, tokens, same => by
    obtain ⟨span, rfl⟩ := exists_of_single same
    exact ⟨_, .atom span value, rfl⟩
  | .block _ forms, canonical, tokens, same => by
    obtain ⟨opener, close, chunks, rfl, each⟩ := exists_of_bracketed same
    rcases each with _ | ⟨keyword, each⟩
    obtain ⟨span, rfl⟩ := exists_symbol keyword
    obtain ⟨forms', derived, bare⟩ := exists_exprs inLambda forms canonical each
    exact ⟨_, .keyed opener close (.sequence span derived), by simp [Node.bare, bare]⟩
  | .call _ callee args, ⟨other, head, rest⟩, tokens, same => by
    obtain ⟨opener, close, chunks, rfl, each⟩ := exists_of_bracketed same
    rcases each with _ | ⟨calleeKinds, each⟩
    obtain ⟨callee', derivedCallee, bareCallee⟩ := derivable_of_canonical inLambda callee head _ calleeKinds
    obtain ⟨args', derivedArgs, bareArgs⟩ := exists_exprs inLambda args rest each
    have plain (keyword : Keyword) := not_leads calleeKinds fun span => other span keyword
    exact ⟨_, .call opener close plain derivedCallee derivedArgs, by simp [Node.bare, bareCallee, bareArgs]⟩
  | .conditional _ [] _, ⟨nonempty, _⟩, _, _ => absurd rfl nonempty
  | .conditional _ [(predicate, body)] otherwise, ⟨_, _, ⟨first, second, _⟩, third⟩, tokens, same => by
    obtain ⟨opener, close, chunks, rfl, each⟩ := exists_of_bracketed same
    rcases each with _ | ⟨keyword, _ | ⟨predicateKinds, _ | ⟨bodyKinds, _ | ⟨otherwiseKinds, _ | _⟩⟩⟩⟩
    obtain ⟨span, rfl⟩ := exists_symbol keyword
    obtain ⟨predicate', derived₁, bare₁⟩ := derivable_of_canonical inLambda predicate first _ predicateKinds
    obtain ⟨body', derived₂, bare₂⟩ := derivable_of_canonical inLambda body second _ bodyKinds
    obtain ⟨otherwise', derived₃, bare₃⟩ := derivable_of_canonical inLambda otherwise third _ otherwiseKinds
    have derived := Exprs.cons derived₁ (.cons derived₂ (.cons derived₃ .nil))
    exact ⟨_, .keyed opener close (.ifThenElse span derived), by simp [Node.bare, bareCases, bare₁, bare₂, bare₃]⟩
  | .conditional _ (first :: second :: cases) otherwise, ⟨_, plain, each, last⟩, tokens, same => by
    obtain ⟨opener, close, chunks, rfl, parts⟩ := exists_of_bracketed same
    rcases parts with _ | ⟨keyword, parts⟩
    obtain ⟨span, rfl⟩ := exists_symbol keyword
    obtain ⟨cases', otherwise', derived, bareAll, bareLast⟩ :=
      exists_clauses (derivable_of_cases inLambda (first :: second :: cases) each)
        (derivable_of_canonical inLambda otherwise last) (plain (Nat.le_add_left 2 _)) parts
    cases cases' with
    | nil => cases bareAll
    | cons first' cases' =>
      exact ⟨_, .keyed opener close (.cond span derived), by simp [Node.bare, bareAll, bareLast]⟩
  | .loop _ predicate body, ⟨first, second⟩, tokens, same => by
    obtain ⟨opener, close, chunks, rfl, each⟩ := exists_of_bracketed same
    rcases each with _ | ⟨keyword, _ | ⟨predicateKinds, _ | ⟨bodyKinds, _ | _⟩⟩⟩
    obtain ⟨span, rfl⟩ := exists_symbol keyword
    obtain ⟨predicate', derived₁, bare₁⟩ := derivable_of_canonical inLambda predicate first _ predicateKinds
    obtain ⟨body', derived₂, bare₂⟩ := derivable_of_canonical inLambda body second _ bodyKinds
    have derived := Exprs.cons derived₁ (.cons derived₂ .nil)
    exact ⟨_, .keyed opener close (.loop span derived (.one body')), by simp [Node.bare, bare₁, bare₂]⟩
  | .define _ name value, ⟨_, canonical⟩, tokens, same => by
    obtain ⟨opener, close, chunks, rfl, each⟩ := exists_of_bracketed same
    rcases each with _ | ⟨keyword, _ | ⟨nameKinds, _ | ⟨valueKinds, _ | _⟩⟩⟩
    obtain ⟨span, rfl⟩ := exists_symbol keyword
    obtain ⟨nameSpan, rfl⟩ := exists_symbol nameKinds
    obtain ⟨value', derived, bare⟩ := derivable_of_canonical inLambda value canonical _ valueKinds
    have keyed := Expr.keyed opener close (.define span ⟨name.text, nameSpan⟩ derived)
    exact ⟨_, by simpa using keyed, by simp [Node.bare, Name.bare, bare]⟩
  | .assign _ name value, ⟨_, canonical⟩, tokens, same => by
    obtain ⟨opener, close, chunks, rfl, each⟩ := exists_of_bracketed same
    rcases each with _ | ⟨keyword, _ | ⟨nameKinds, _ | ⟨valueKinds, _ | _⟩⟩⟩
    obtain ⟨span, rfl⟩ := exists_symbol keyword
    obtain ⟨nameSpan, rfl⟩ := exists_symbol nameKinds
    obtain ⟨value', derived, bare⟩ := derivable_of_canonical inLambda value canonical _ valueKinds
    have keyed := Expr.keyed opener close (.assign span ⟨name.text, nameSpan⟩ derived)
    exact ⟨_, by simpa using keyed, by simp [Node.bare, Name.bare, bare]⟩
  | .lambda _ params doc body, ⟨_, distinct, canonical⟩, tokens, same => by
    obtain ⟨opener, close, chunks, rfl, each⟩ := exists_of_bracketed same
    rcases each with _ | ⟨keyword, _ | ⟨paramKinds, each⟩⟩
    obtain ⟨span, rfl⟩ := exists_symbol keyword
    obtain ⟨paramsOpener, paramsClose, names, rfl, eachName⟩ := exists_of_bracketed paramKinds
    obtain ⟨params', flat, bareParams⟩ := exists_params eachName
    have distinct' : (params'.map (·.text)).Nodup := by rwa [map_text_of_bare bareParams]
    cases doc with
    | none =>
      rcases each with _ | ⟨bodyKinds, _ | _⟩
      obtain ⟨body', derived, bare⟩ := derivable_of_canonical true body canonical _ bodyKinds
      have undocumented : Documented [body'] none [body'] := .plain (by rintro _ _ _ _ ⟨⟩)
      have keyed : Expr inLambda _ _ := .keyed opener close (.lambda span paramsOpener paramsClose distinct'
        (.cons derived .nil) undocumented (.one body'))
      exact ⟨_, by simpa [flat] using keyed, by simp [Node.bare, bareParams, bare]⟩
    | some text =>
      rcases each with _ | ⟨docKinds, _ | ⟨bodyKinds, _ | _⟩⟩
      obtain ⟨docSpan, rfl⟩ := exists_of_single docKinds
      obtain ⟨body', derived, bare⟩ := derivable_of_canonical true body canonical _ bodyKinds
      have keyed : Expr inLambda _ _ := .keyed opener close (.lambda span paramsOpener paramsClose distinct'
        (.cons (.atom docSpan (.string text)) (.cons derived .nil)) (.doc docSpan text body' []) (.one body'))
      exact ⟨_, by simpa [flat] using keyed, by simp [Node.bare, bareParams, bare]⟩
  | .quote _ inner, canonical, tokens, same => by
    obtain ⟨opener, close, chunks, rfl, each⟩ := exists_of_bracketed same
    rcases each with _ | ⟨keyword, _ | ⟨innerKinds, _ | _⟩⟩
    obtain ⟨span, rfl⟩ := exists_symbol keyword
    obtain ⟨inner', derived, bare⟩ := derivable_of_canonical inLambda inner canonical _ innerKinds
    have keyed := Expr.keyed opener close (.quote span derived)
    exact ⟨_, by simpa using keyed, by simp [Node.bare, bare]⟩
  | .ret _ value, ⟨inside, canonical⟩, tokens, same => by
    subst inside
    obtain ⟨opener, close, chunks, rfl, each⟩ := exists_of_bracketed same
    rcases each with _ | ⟨keyword, _ | ⟨valueKinds, _ | _⟩⟩
    obtain ⟨span, rfl⟩ := exists_symbol keyword
    obtain ⟨value', derived, bare⟩ := derivable_of_canonical true value canonical _ valueKinds
    have keyed := Expr.keyed opener close (.retValue span derived)
    exact ⟨_, by simpa using keyed, by simp [Node.bare, bare]⟩

theorem derivable_of_cases (inLambda : Bool) : ∀ (cases : List (Node × Node)), CasesCanonical inLambda cases →
    ∀ case ∈ cases, Derivable inLambda case.1 ∧ Derivable inLambda case.2
  | [], _ => by simp
  | (predicate, body) :: cases, ⟨first, second, others⟩ => by
    refine List.forall_mem_cons.2 ⟨⟨?_, ?_⟩, derivable_of_cases inLambda cases others⟩
    · exact derivable_of_canonical inLambda predicate first
    · exact derivable_of_canonical inLambda body second

theorem exists_exprs (inLambda : Bool) : ∀ (nodes : List Node), AllCanonical inLambda nodes →
    ∀ {chunks : List (List Token)}, List.Forall₂ OfKinds chunks (kindsEach nodes) →
    ∃ nodes', Exprs inLambda chunks.flatten nodes' ∧ bareEach nodes' = bareEach nodes
  | [], _, _, each => by
    cases each
    exact ⟨[], .nil, rfl⟩
  | node :: nodes, ⟨first, others⟩, _, each => by
    rcases each with _ | ⟨here, each⟩
    obtain ⟨node', derived, bare⟩ := derivable_of_canonical inLambda node first _ here
    obtain ⟨nodes', derivedOthers, bareOthers⟩ := exists_exprs inLambda nodes others each
    exact ⟨node' :: nodes', .cons derived derivedOthers, by simp [bareEach, bare, bareOthers]⟩

end

theorem kind_ne_finish_of_expr {inLambda : Bool} {tokens : List Token} {node : Node}
    (derived : Expr inLambda tokens node) : ∀ token ∈ tokens, token.kind ≠ .finish := by
  obtain ⟨tree, rfl, read⟩ := node_of_expr derived
  exact Tree.kind_ne_finish_of_isWhole tree (expr_of_node inLambda tree read).1

theorem takeWhile_of_expr {inLambda : Bool} {tokens : List Token} {node : Node} {finish : Token}
    (derived : Expr inLambda tokens node) (isFinish : finish.kind = .finish) :
    (tokens ++ [finish]).takeWhile (·.kind ≠ .finish) = tokens := by
  rw [List.takeWhile_append_of_pos (by simpa using kind_ne_finish_of_expr derived)]
  simp [isFinish]

end Grammar

open Grammar

/-- A text that lexes is scanned without an error, and its end comes last. -/
theorem tokens_of_lexes (name : String) {text : String} {kinds : List Token.Kind}
    (lexes : Scan.Lexes text kinds) :
    ∃ tokens finish, OfKinds tokens kinds ∧ finish.kind = .finish ∧
      (⟨name, text⟩ : Source).tokens = (tokens ++ [finish], .empty) := by
  obtain ⟨p, tokens, same, scanned⟩ := lexes ⟨name, text⟩ .first [] [] (by rintro c ⟨⟩)
  refine ⟨tokens, ⟨.finish, .point p⟩, same, rfl, ?_⟩
  rw [List.append_nil] at scanned
  simp [Source.tokens, scanned, Scan.run, Scan.Result.close, Scan.Result.finish, Scan.Result.push]

/-- Reading the text of a canonical node gives back the node, up to places. -/
theorem parse_text {node : Node} (canonical : node.Canonical false) (name : String) :
    ∃ node', (⟨name, node.text⟩ : Source).parse = .ok [node'] ∧ node'.bare = node.bare := by
  obtain ⟨tokens, finish, same, isFinish, scanned⟩ := tokens_of_lexes name (Node.lexes_text canonical)
  obtain ⟨node', derived, bare⟩ := derivable_of_canonical false node canonical tokens same
  have derivedAll : Exprs false ((tokens ++ [finish]).takeWhile (·.kind ≠ .finish)) [node'] := by
    rw [takeWhile_of_expr derived isFinish]
    simpa using Exprs.cons derived .nil
  refine ⟨node', ?_, bare⟩
  simp only [Source.parse, scanned, nodesOfTokens_of_exprs _ derivedAll]
  rfl

/-- A function with a doc string that returns early. -/
theorem parse_text_documented :
    let node : Node := .lambda (.point .first) [⟨"x", .point .first⟩] (some "say \"hi\"\n")
      (.ret (.point .first) (.atom (.point .first) (.symbol "x")))
    ∃ node', (⟨"documented", node.text⟩ : Source).parse = .ok [node'] ∧ node'.bare = node.bare := by
  intro node
  have symbol : isSymbol "x" := rfl
  have canonical : node.Canonical false := ⟨by simpa using symbol, by simp, rfl, symbol⟩
  exact parse_text canonical "documented"

end CheckedLisp
