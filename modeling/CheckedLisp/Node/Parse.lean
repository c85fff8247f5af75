import CheckedLisp.Diagnostic.Collector
import CheckedLisp.Node.Form
import CheckedLisp.Token.Scan

/-! A source is scanned into tokens, the tokens are grouped into trees, and each top-level tree
gives a node or an error. A program has no errors at all. -/
namespace CheckedLisp

/-- The nodes of top-level trees and their errors. Reading stops when the collector is full. -/
def Source.nodesOfTrees (src : Source) : List Tree → Diagnostics → List Node × Diagnostics
  | [], errors => ([], errors)
  | tree :: rest, errors =>
    if errors.isFull then ([], errors)
    else
      match Form.node false tree with
      | .ok node =>
        let (nodes, errors) := src.nodesOfTrees rest errors
        (node :: nodes, errors)
      | .error failure =>
        src.nodesOfTrees rest
          (errors.push (src.report failure.span failure.fault.code failure.fault.message))

def Source.nodesOfTokens (src : Source) (tokens : List Token) : List Node × Diagnostics :=
  src.nodesOfTrees (Tree.ofTokens tokens) .empty

/-- The program of a source, or all errors of its tokens and then of its forms. -/
def Source.parse (src : Source) : Except Diagnostics (List Node) :=
  let (tokens, scanErrors) := src.tokens
  let (nodes, formErrors) := src.nodesOfTokens tokens
  let errors := scanErrors.extend formErrors
  if errors.hasErrors then .error errors else .ok nodes

end CheckedLisp
