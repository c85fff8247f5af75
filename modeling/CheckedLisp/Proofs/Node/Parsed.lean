import CheckedLisp.Proofs.Node.RoundTrip
import CheckedLisp.Proofs.Token.Recognition

/-! Every node of a program is well formed: its names and literals are spelled as the tokens they
come from, and a token is spelled as the lexical grammar says. -/
namespace CheckedLisp

namespace Collector

variable {α : Type}

theorem hasErrors_eq_false {c : Collector α} : c.hasErrors = false ↔ c.total = 0 := by
  rw [hasErrors, decide_eq_false_iff_not, Nat.not_lt, Nat.le_zero]

theorem total_foldl_push (c : Collector α) (errors : List α) :
    (errors.foldl push c).total = c.total + errors.length := by
  induction errors generalizing c with
  | nil => rfl
  | cons error errors ih =>
    rw [List.foldl_cons, ih, List.length_cons]
    simp only [push]
    omega

theorem hasErrors_extend {c other : Collector α} :
    (c.extend other).hasErrors = false ↔
      c.hasErrors = false ∧ other.hasErrors = false ∧ other.kept = [] := by
  simp only [hasErrors_eq_false, extend, total_foldl_push, ← List.length_eq_zero_iff]
  omega

end Collector

namespace Lexical

open Scan

theorem head_run (src : Source) (mode : Mode) (p : Position) (cs : List Char) (r : Result) :
    (run src mode p cs r).tokens.head?.map (·.kind) = some .finish := by
  fun_induction run src mode p cs r with
  | case1 | case2 | case5 => rfl
  | _ => assumption

theorem canonical_of_lexeme {text : List Char} {value : Atom} (spelled : Lexeme text (.atom value)) :
    value.Canonical := by
  cases spelled with
  | string => trivial
  | word spelled => exact Atom.canonical_of_spells spelled

theorem canonical_of_spelling {after : Bool} {text : List Char} {kinds : List Token.Kind}
    (spelling : Spelling after text kinds) (value : Atom) (member : .atom value ∈ kinds) :
    value.Canonical := by
  induction spelling with
  | finish => cases member
  | lexeme _ spelled _ _ ih =>
    rcases List.mem_cons.1 member with rfl | later
    · exact canonical_of_lexeme spelled
    · exact ih later

end Lexical

namespace Grammar

open Node

/-- The atoms among the tokens are spelled as atoms are read. -/
def Spelled (tokens : List Token) : Prop :=
  ∀ token ∈ tokens, ∀ value, token.kind = .atom value → value.Canonical

theorem spelled_cons {token : Token} {tokens : List Token} :
    Spelled (token :: tokens) ↔ (∀ value, token.kind = .atom value → value.Canonical) ∧ Spelled tokens :=
  List.forall_mem_cons

theorem spelled_append {first second : List Token} :
    Spelled (first ++ second) ↔ Spelled first ∧ Spelled second :=
  List.forall_mem_append

/-- A source that is scanned without an error gives such tokens. -/
theorem spelled_tokens {src : Source} (clean : src.tokens.2.hasErrors = false) : Spelled src.tokens.1 := by
  have scanned := Lexical.head_run src .gap .first src.text.toList ⟨[], .empty⟩
  obtain ⟨finish, last, isFinish⟩ := Option.map_eq_some_iff.1 scanned
  obtain ⟨others, split⟩ := List.head?_eq_some_iff.1 last
  have gives : Lexical.Gives (Scan.run src .gap .first src.text.toList ⟨[], .empty⟩) []
      (others.reverse.map (·.kind)) := by
    constructor
    · exact Collector.hasErrors_eq_false.1 clean
    · simp [split, isFinish]
  have spelling := (Lexical.gives_run src _ .gap .first [] _ trivial).1 gives
  intro token member value isAtom
  have found : token ∈ others ∨ token = finish := by simpa [Source.tokens, split] using member
  rcases found with among | rfl
  · refine Lexical.canonical_of_spelling spelling value ?_
    rw [← isAtom]
    exact List.mem_map_of_mem (List.mem_reverse.2 among)
  · rw [isFinish] at isAtom
    cases isAtom

/-- A source is a program when it is scanned without an error and the grammar derives the
program from its tokens. -/
theorem parse_eq_ok {src : Source} {nodes : List Node} :
    src.parse = .ok nodes ↔ src.tokens.2.hasErrors = false ∧
      Exprs false (src.tokens.1.takeWhile (·.kind ≠ .finish)) nodes := by
  simp only [Source.parse]
  constructor
  · intro parsed
    split at parsed
    · cases parsed
    · next clean =>
      rw [Bool.not_eq_true, Collector.hasErrors_extend] at clean
      obtain ⟨scanned, read, _⟩ := clean
      obtain ⟨nodes', found⟩ := nodes_of_nodesOfTrees src read
      obtain ⟨whole, derived⟩ := exprs_of_nodes false _ found
      rw [Tree.flattenAll_ofTokens whole] at derived
      have same := nodesOfTokens_of_exprs src derived
      rw [same] at parsed
      cases parsed
      exact ⟨scanned, derived⟩
  · rintro ⟨scanned, derived⟩
    have clean : (src.tokens.2.extend .empty).hasErrors = false :=
      Collector.hasErrors_extend.2 ⟨scanned, rfl, rfl⟩
    rw [nodesOfTokens_of_exprs src derived]
    simp [clean]

theorem wellFormed_of_body {inLambda : Bool} {span : Span} {forms : List Node} {body : Node}
    (whole : Body span forms body) (each : AllWellFormed inLambda forms) : body.WellFormed inLambda := by
  cases whole with
  | none => trivial
  | one => exact each.1
  | several => exact each

theorem wellFormed_getD {inLambda : Bool} {otherwise : Option Node}
    (last : ∀ body ∈ otherwise, body.WellFormed inLambda) (span : Span) :
    (otherwise.getD (.unit span)).WellFormed inLambda := by
  cases otherwise with
  | none => trivial
  | some body => exact last body rfl

theorem allWellFormed_of_documented {inLambda : Bool} {forms rest : List Node} {doc : Option String}
    (documented : Documented forms doc rest) (each : AllWellFormed inLambda forms) :
    AllWellFormed inLambda rest := by
  cases documented with
  | doc => exact each.2
  | plain => exact each

mutual

theorem wellFormed_of_expr {inLambda : Bool} {tokens : List Token} {node : Node} :
    Expr inLambda tokens node → Spelled tokens → node.WellFormed inLambda
  | .atom span value, spelled => (spelled_cons.1 spelled).1 value rfl
  | .quoted mark derived, spelled => by
    rw [WellFormed]
    exact wellFormed_of_expr derived (spelled_cons.1 spelled).2
  | .unit opener close, _ => trivial
  | .keyed opener close derived, spelled =>
    wellFormed_of_keyed derived (spelled_append.1 (spelled_cons.1 spelled).2).1
  | .call opener close _ derived derivedArgs, spelled => by
    obtain ⟨parts, _⟩ := spelled_append.1 (spelled_cons.1 spelled).2
    obtain ⟨head, rest⟩ := spelled_append.1 parts
    exact ⟨wellFormed_of_expr derived head, allWellFormed_of_exprs derivedArgs rest⟩

theorem wellFormed_of_keyed {inLambda : Bool} {tokens : List Token} {opener close : Span} {node : Node} :
    Keyed inLambda opener close tokens node → Spelled tokens → node.WellFormed inLambda
  | .sequence span derived, spelled => allWellFormed_of_exprs derived (spelled_cons.1 spelled).2
  | .ifThen span derived, spelled => by
    obtain ⟨predicate, body, _⟩ := allWellFormed_of_exprs derived (spelled_cons.1 spelled).2
    exact ⟨by simp, ⟨predicate, body, trivial⟩, trivial⟩
  | .ifThenElse span derived, spelled => by
    obtain ⟨predicate, body, otherwise, _⟩ := allWellFormed_of_exprs derived (spelled_cons.1 spelled).2
    exact ⟨by simp, ⟨predicate, body, trivial⟩, otherwise⟩
  | .cond span derived, spelled => by
    obtain ⟨each, last⟩ := wellFormed_of_clauses derived (spelled_cons.1 spelled).2
    exact ⟨by simp, each, wellFormed_getD last _⟩
  | .condElse span derived, spelled =>
    (wellFormed_of_clauses derived (spelled_cons.1 spelled).2).2 _ rfl
  | .condEmpty span, _ => trivial
  | .loop span derived whole, spelled => by
    obtain ⟨predicate, forms⟩ := allWellFormed_of_exprs derived (spelled_cons.1 spelled).2
    exact ⟨predicate, wellFormed_of_body whole forms⟩
  | .define span name derived, spelled | .assign span name derived, spelled => by
    obtain ⟨symbol, value⟩ := spelled_cons.1 (spelled_cons.1 spelled).2
    exact ⟨symbol _ rfl, wellFormed_of_expr derived value⟩
  | .lambda span paramsOpener paramsClose distinct derived documented whole, spelled => by
    obtain ⟨names, rest⟩ := spelled_append.1 (spelled_cons.1 (spelled_cons.1 spelled).2).2
    have forms := allWellFormed_of_exprs derived (spelled_cons.1 rest).2
    refine ⟨?_, distinct, wellFormed_of_body whole (allWellFormed_of_documented documented forms)⟩
    intro name member
    exact names _ (List.mem_map_of_mem member) _ rfl
  | .quote span derived, spelled => by
    rw [WellFormed]
    exact wellFormed_of_expr derived (spelled_cons.1 spelled).2
  | .ret span, _ => ⟨rfl, trivial⟩
  | .retValue span derived, spelled => ⟨rfl, wellFormed_of_expr derived (spelled_cons.1 spelled).2⟩

theorem allWellFormed_of_exprs {inLambda : Bool} {tokens : List Token} {nodes : List Node} :
    Exprs inLambda tokens nodes → Spelled tokens → AllWellFormed inLambda nodes
  | .nil, _ => trivial
  | .cons first others, spelled => by
    obtain ⟨here, there⟩ := spelled_append.1 spelled
    exact ⟨wellFormed_of_expr first here, allWellFormed_of_exprs others there⟩

theorem wellFormed_of_clauses {inLambda : Bool} {tokens : List Token} {cases : List (Node × Node)}
    {otherwise : Option Node} :
    Clauses inLambda tokens cases otherwise → Spelled tokens →
      CasesWellFormed inLambda cases ∧ ∀ body ∈ otherwise, body.WellFormed inLambda
  | .nil, _ => ⟨trivial, by simp⟩
  | .otherwise opener close span derived whole, spelled => by
    obtain ⟨forms, _⟩ := spelled_append.1 (spelled_cons.1 (spelled_cons.1 spelled).2).2
    refine ⟨trivial, ?_⟩
    rintro _ ⟨⟩
    exact wellFormed_of_body whole (allWellFormed_of_exprs derived forms)
  | .case opener close _ derived derivedForms whole others, spelled => by
    obtain ⟨clause, rest⟩ := spelled_append.1 (spelled_cons.1 spelled).2
    obtain ⟨head, forms⟩ := spelled_append.1 clause
    obtain ⟨each, last⟩ := wellFormed_of_clauses others (spelled_cons.1 rest).2
    have body := wellFormed_of_body whole (allWellFormed_of_exprs derivedForms forms)
    exact ⟨⟨wellFormed_of_expr derived head, body, each⟩, last⟩

end

theorem wellFormed_of_mem {inLambda : Bool} {node : Node} {nodes : List Node}
    (each : AllWellFormed inLambda nodes) (member : node ∈ nodes) : node.WellFormed inLambda := by
  induction member with
  | head => exact each.1
  | tail _ _ ih => exact ih each.2

theorem wellFormed_of_parse {src : Source} {nodes : List Node} (parsed : src.parse = .ok nodes) {node : Node}
    (member : node ∈ nodes) : node.WellFormed false := by
  obtain ⟨clean, derived⟩ := parse_eq_ok.1 parsed
  have spelled : Spelled (src.tokens.1.takeWhile (·.kind ≠ .finish)) := by
    intro token among
    exact spelled_tokens clean token ((List.takeWhile_prefix _).subset among)
  exact wellFormed_of_mem (allWellFormed_of_exprs derived spelled) member

end Grammar

end CheckedLisp
