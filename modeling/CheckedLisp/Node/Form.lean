import CheckedLisp.Node.Basic
import CheckedLisp.Node.Fault

/-! A tree becomes a node by the form that its brackets spell:

    begin e*  ·  if e e e?  ·  cond (e e*)* (else e*)?  ·  while e e*
    define x e  ·  set! x e  ·  lambda (x*) doc? e*  ·  quote e  ·  return! e?

and any other non-empty list is a call. A tree gives a node or its first error in reading order, so
each top-level tree reports at most one error and spoils no other. -/
namespace CheckedLisp

namespace Form

/-- The span of the bracket that closes the list opened at `opener`. -/
def closed (opener : Span) : Stop → Except Failure Span
  | .closing span => .ok span
  | .finish _ => .error ⟨opener, .unclosed⟩

def strayed (stop : Stop) : Failure := ⟨stop.span, .unexpected stop⟩

/-- A fault at the first token of `rest`, or at `stop` when nothing is left. -/
def atNext (rest : List Tree) (stop : Stop) (fault : Token.Kind → Fault) : Failure :=
  match rest with
  | [] => ⟨stop.span, fault stop.kind⟩
  | tree :: _ => ⟨tree.lead.span, fault tree.lead.kind⟩

/-- The span of a list of which `rest` must be empty. -/
def closedAfter (opener : Span) (rest : List Tree) (stop : Stop) : Except Failure Span :=
  if rest.isEmpty then closed opener stop else .error (atNext rest stop .closeExpected)

/-- Distinct names; `seen` are those before. -/
def params (seen : List String) : List Tree → Except Failure (List Name)
  | [] => .ok []
  | .atom span (.symbol text) :: rest =>
    if text ∈ seen then .error ⟨span, .duplicateParam text⟩
    else do
      let names ← params (text :: seen) rest
      .ok (⟨text, span⟩ :: names)
  | tree :: _ => .error ⟨tree.lead.span, .paramExpected tree.lead.kind⟩

/-- A leading string is a doc string only when a form follows it. -/
def splitDoc : List Node → Option String × List Node
  | .atom _ (.string doc) :: form :: forms => (some doc, form :: forms)
  | forms => (none, forms)

def ifNode (span close : Span) : List Node → Except Failure Node
  | [predicate, body] => .ok (.conditional span [(predicate, body)] (.unit close))
  | [predicate, body, otherwise] => .ok (.conditional span [(predicate, body)] otherwise)
  | parts => .error ⟨span, .ifParts parts.length⟩

def condNode (span close : Span) : List (Node × Node) → Option Node → Node
  | [], otherwise => otherwise.getD (.unit span)
  | cases, otherwise => .conditional span cases (otherwise.getD (.unit close))

def loopNode (span : Span) : List Node → Except Failure Node
  | [] => .error ⟨span, .predicateMissing⟩
  | predicate :: body => .ok (.loop span predicate (.ofBody span body))

def lambdaNode (span : Span) (names : List Name) (forms : List Node) : Node :=
  let (doc, body) := splitDoc forms
  .lambda span names doc (.ofBody span body)

def retNode (span : Span) : List Node → Except Failure Node
  | [] => .ok (.ret span (.unit span))
  | [value] => .ok (.ret span value)
  | forms => .error ⟨span, .returnParts forms.length⟩

def isElse : Tree → Bool
  | .atom _ (.symbol name) => name = "else"
  | _ => false

/-- The keyword that a tree is, and where it stands. -/
def keyword? : Tree → Option (Keyword × Span)
  | .atom span (.symbol name) => (Keyword.ofName? name).map (·, span)
  | _ => none

mutual

/-- `inLambda` says whether the tree lies in the body of some lambda, as `return!` must. -/
def node (inLambda : Bool) : Tree → Except Failure Node
  | .stray stop => .error (strayed stop)
  | .atom span value => .ok (.atom span value)
  | .quote mark inner => do
    let inner ← node inLambda inner
    .ok (.quote (mark.merge inner.span) inner)
  | .list opener [] (.closing close) => .ok (.unit (opener.merge close))
  | .list _ [] (.finish span) => .error (strayed (.finish span))
  | .list opener (head :: rest) stop =>
    match keyword? head with
    | none => do
      let callee ← node inLambda head
      let args ← nodes inLambda rest
      let close ← closed opener stop
      .ok (.call (opener.merge close) callee args)
    | some (.sequence, _) => do
      let forms ← nodes inLambda rest
      let close ← closed opener stop
      .ok (.block (opener.merge close) forms)
    | some (.choice, _) => do
      let parts ← nodes inLambda rest
      let close ← closed opener stop
      ifNode (opener.merge close) close parts
    | some (.cases, _) => do
      let (cases, otherwise) ← clauses inLambda rest
      let close ← closed opener stop
      .ok (condNode (opener.merge close) close cases otherwise)
    | some (.loop, _) => do
      let forms ← nodes inLambda rest
      let close ← closed opener stop
      loopNode (opener.merge close) forms
    | some (.define, _) => do
      let (name, value, close) ← binding inLambda .define opener stop rest
      .ok (.define (opener.merge close) name value)
    | some (.assign, _) => do
      let (name, value, close) ← binding inLambda .assign opener stop rest
      .ok (.assign (opener.merge close) name value)
    | some (.lambda, _) =>
      match rest with
      | .list paramsOpener names paramsStop :: body => do
        let names ← params [] names
        let _ ← closed paramsOpener paramsStop
        let forms ← nodes true body
        let close ← closed opener stop
        .ok (lambdaNode (opener.merge close) names forms)
      | rest => .error (atNext rest stop .paramsExpected)
    | some (.quote, _) =>
      match rest with
      | [] => .error (strayed stop)
      | tree :: others => do
        let inner ← node inLambda tree
        let close ← closedAfter opener others stop
        .ok (.quote (opener.merge close) inner)
    | some (.ret, span) =>
      if inLambda then do
        let forms ← nodes inLambda rest
        let close ← closed opener stop
        retNode (opener.merge close) forms
      else .error ⟨span, .returnOutside⟩

def nodes (inLambda : Bool) : List Tree → Except Failure (List Node)
  | [] => .ok []
  | tree :: rest => do
    let first ← node inLambda tree
    let others ← nodes inLambda rest
    .ok (first :: others)

/-- The name and value of `define` and `set!`, and the bracket that closes them. -/
def binding (inLambda : Bool) (keyword : Keyword) (opener : Span) (stop : Stop) :
    List Tree → Except Failure (Name × Node × Span)
  | [.atom _ (.symbol text)] =>
    match stop with
    | .closing close => .error ⟨close, .valueMissing keyword text⟩
    | .finish _ => .error (strayed stop)
  | .atom span (.symbol text) :: tree :: rest => do
    let value ← node inLambda tree
    let close ← closedAfter opener rest stop
    .ok (⟨text, span⟩, value, close)
  | rest => .error (atNext rest stop (.symbolExpected keyword))

/-- The cases of a `cond` and the body of its `else` clause. -/
def clauses (inLambda : Bool) : List Tree → Except Failure (List (Node × Node) × Option Node)
  | [] => .ok ([], none)
  | .list opener items stop :: rest =>
    match items with
    | head :: body =>
      if isElse head then do
        let forms ← nodes inLambda body
        let close ← closed opener stop
        match rest with
        | [] => .ok ([], some (.ofBody (opener.merge close) forms))
        | tree :: _ => .error ⟨tree.lead.span, .elseNotLast⟩
      else do
        let predicate ← node inLambda head
        let forms ← nodes inLambda body
        let close ← closed opener stop
        let (cases, otherwise) ← clauses inLambda rest
        .ok ((predicate, .ofBody (opener.merge close) forms) :: cases, otherwise)
    | [] => do
      let close ← closed opener stop
      .error ⟨opener.merge close, .emptyClause⟩
  | tree :: _ => .error ⟨tree.lead.span, .clauseExpected tree.lead.kind⟩

end

end Form

end CheckedLisp
