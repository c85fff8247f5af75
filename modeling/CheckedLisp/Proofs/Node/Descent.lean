import CheckedLisp.Node.Parse

/-! Forms can also be read with a cursor on the tokens, one function for each form. The cursor goes
from one expression to the next, and back to the start of a list when something in the list is
wrong, to skip the whole of it. Since it moves both ways, nothing in the functions themselves says
that they end: they are the least solution of their equations, and `none` is what a reading that
goes on for ever gives. -/
namespace CheckedLisp

/-- The tokens that are read by descent. -/
abbrev Descent := List Token

namespace Descent

structure Cursor where
  position : Nat
  /-- The number of lambdas whose bodies are being read. -/
  depth : Nat
  errors : Diagnostics

namespace Cursor

def start : Cursor := ⟨0, 0, .empty⟩

def move (c : Cursor) (position : Nat) : Cursor := { c with position }

def deeper (c : Cursor) : Cursor := { c with depth := c.depth + 1 }

def shallower (c : Cursor) : Cursor := { c with depth := c.depth - 1 }

def report (c : Cursor) (src : Source) (failure : Form.Failure) : Cursor :=
  { c with errors := c.errors.push (src.report failure.span failure.fault.code failure.fault.message) }

end Cursor

/-- What is done with a cursor, if it ever ends. An attempt at something is `Work (Option α)`:
it gives a result, or none when it has reported an error. -/
abbrev Work (α : Type) := StateT Cursor Option α

variable {α : Type} (src : Source)

/-- The token at a position. Behind the last token, that is the last token. -/
def tokenAt (tokens : Descent) (position : Nat) : Token :=
  (tokens[position]?.or tokens.getLast?).getD ⟨.finish, .point .first⟩

def peek (tokens : Descent) : Work Token := do
  return tokenAt tokens (← get).position

/-- Goes one token further, and gives the span of the token gone over. -/
def advance (tokens : Descent) : Work Span := do
  let c ← get
  set (c.move (if c.position < tokens.length then c.position + 1 else c.position))
  return (tokenAt tokens c.position).span

/-- Reports an error and gives nothing. -/
def fail (failure : Form.Failure) : Work (Option α) := do
  modify (·.report src failure)
  return none

def give : Except Form.Failure α → Work (Option α)
  | .ok a => return some a
  | .error failure => fail src failure

/-- Goes on behind the `)` of a list in which `openBrackets` more brackets are open, or to the end. -/
def skip (tokens : Descent) (openBrackets : Nat) : Work Unit := do
  let token ← peek tokens
  match token.kind with
  | .finish => return ()
  | .opening =>
    let _ ← advance tokens
    tokens |>.skip (openBrackets + 1)
  | .closing =>
    let _ ← advance tokens
    if openBrackets = 0 then return () else tokens |>.skip (openBrackets - 1)
  | _ =>
    let _ ← advance tokens
    tokens |>.skip openBrackets
partial_fixpoint

/-- Skips the list whose `(` is at `start`, wherever the cursor is. -/
def skipList (tokens : Descent) (start : Nat) : Work Unit := do
  modify (·.move (start + 1))
  skip tokens 0

/-- Expects the `)` of the list opened at `opener`. -/
def expectClose (tokens : Descent) (opener : Span) : Work (Option Span) := do
  let token ← peek tokens
  match token.kind with
  | .closing => return some (← advance tokens)
  | .finish => fail src ⟨opener, .unclosed⟩
  | found => fail src ⟨token.span, .closeExpected found⟩

def expectSymbol (tokens : Descent) (fault : Token.Kind → Form.Fault) : Work (Option Name) := do
  let token ← peek tokens
  match token.kind with
  | .atom (.symbol text) =>
    let span ← advance tokens
    return some ⟨text, span⟩
  | found => fail src ⟨token.span, fault found⟩

/-- Distinct names up to the `)` of the list opened at `opener`; `seen` are those before. -/
def parameters (tokens : Descent) (opener : Span) (seen : List String) : Work (Option (List Name)) := do
  let token ← peek tokens
  match token.kind with
  | .closing =>
    let _ ← advance tokens
    return some []
  | .finish => fail src ⟨opener, .unclosed⟩
  | _ =>
    let some name ← expectSymbol src tokens .paramExpected | return none
    if name.text ∈ seen then fail src ⟨name.span, .duplicateParam name.text⟩
    else
      let some others ← tokens |>.parameters opener (name.text :: seen) | return none
      return some (name :: others)
partial_fixpoint

/-- The keyword that a token is. -/
def keyword? : Token.Kind → Option Keyword
  | .atom (.symbol name) => Keyword.ofName? name
  | _ => none

mutual

def expression (tokens : Descent) : Work (Option Node) := do
  let token ← peek tokens
  match token.kind with
  | .opening =>
    let start := (← get).position
    let opener ← advance tokens
    match ← tokens |>.list opener with
    | some node => return some node
    | none =>
      skipList tokens start
      return none
  | .quote =>
    let mark ← advance tokens
    let some inner ← tokens |>.expression | return none
    return some (.quote (mark.merge inner.span) inner)
  | .atom value =>
    let span ← advance tokens
    return some (.atom span value)
  | .closing => fail src ⟨token.span, .unexpected (.closing token.span)⟩
  | .finish => fail src ⟨token.span, .unexpected (.finish token.span)⟩
partial_fixpoint

/-- The list opened at `opener`, behind its `(`. -/
def list (tokens : Descent) (opener : Span) : Work (Option Node) := do
  let token ← peek tokens
  if token.kind = .closing then
    let close ← advance tokens
    return some (.unit (opener.merge close))
  else
    match keyword? token.kind with
    | some keyword =>
      let span ← advance tokens
      tokens |>.keyed opener span keyword
    | none =>
      let some callee ← tokens |>.expression | return none
      let some (args, close) ← tokens |>.forms opener | return none
      return some (.call (opener.merge close) callee args)
partial_fixpoint

/-- Expressions up to the `)` of the list opened at `opener`. -/
def forms (tokens : Descent) (opener : Span) : Work (Option (List Node × Span)) := do
  let token ← peek tokens
  match token.kind with
  | .closing =>
    let close ← advance tokens
    return some ([], close)
  | .finish => fail src ⟨opener, .unclosed⟩
  | _ =>
    let some first ← tokens |>.expression | return none
    let some (others, close) ← tokens |>.forms opener | return none
    return some (first :: others, close)
partial_fixpoint

/-- A form behind its keyword, which is at `span`. -/
def keyed (tokens : Descent) (opener span : Span) : Keyword → Work (Option Node)
  | .sequence => do
    let some (forms, close) ← tokens |>.forms opener | return none
    return some (.block (opener.merge close) forms)
  | .choice => do
    let some (parts, close) ← tokens |>.forms opener | return none
    give src (Form.ifNode (opener.merge close) close parts)
  | .cases => tokens |>.clauses opener [] none
  | .loop => do
    let some (forms, close) ← tokens |>.forms opener | return none
    give src (Form.loopNode (opener.merge close) forms)
  | .define => do
    let some (name, value, close) ← tokens |>.binding opener .define | return none
    return some (.define (opener.merge close) name value)
  | .assign => do
    let some (name, value, close) ← tokens |>.binding opener .assign | return none
    return some (.assign (opener.merge close) name value)
  | .lambda => do
    let token ← peek tokens
    if token.kind = .opening then
      let paramsOpener ← advance tokens
      let some names ← parameters src tokens paramsOpener [] | return none
      modify (·.deeper)
      let body ← tokens |>.forms opener
      modify (·.shallower)
      let some (forms, close) := body | return none
      return some (Form.lambdaNode (opener.merge close) names forms)
    else fail src ⟨token.span, .paramsExpected token.kind⟩
  | .quote => do
    let some inner ← tokens |>.expression | return none
    let some close ← expectClose src tokens opener | return none
    return some (.quote (opener.merge close) inner)
  | .ret => do
    if (← get).depth = 0 then fail src ⟨span, .returnOutside⟩
    else
      let some (forms, close) ← tokens |>.forms opener | return none
      give src (Form.retNode (opener.merge close) forms)
partial_fixpoint

/-- The name and value of `define` and `set!`, and the bracket that closes them. -/
def binding (tokens : Descent) (opener : Span) (keyword : Keyword) : Work (Option (Name × Node × Span)) := do
  let some name ← expectSymbol src tokens (.symbolExpected keyword) | return none
  let token ← peek tokens
  if token.kind = .closing then fail src ⟨token.span, .valueMissing keyword name.text⟩
  else
    let some value ← tokens |>.expression | return none
    let some close ← expectClose src tokens opener | return none
    return some (name, value, close)
partial_fixpoint

/-- The rest of a `cond`; `cases` and `otherwise` are those of the clauses before. -/
def clauses (tokens : Descent) (opener : Span) (cases : List (Node × Node)) (otherwise : Option Node) :
    Work (Option Node) := do
  let token ← peek tokens
  match token.kind with
  | .closing =>
    let close ← advance tokens
    return some (Form.condNode (opener.merge close) close cases otherwise)
  | .finish => fail src ⟨opener, .unclosed⟩
  | found =>
    if otherwise.isSome then fail src ⟨token.span, .elseNotLast⟩
    else if found = .opening then
      let clauseOpener ← advance tokens
      let head ← peek tokens
      if head.kind = .atom (.symbol "else") then
        let _ ← advance tokens
        let some (forms, close) ← tokens |>.forms clauseOpener | return none
        tokens |>.clauses opener cases (some (.ofBody (clauseOpener.merge close) forms))
      else
        let some (forms, close) ← tokens |>.forms clauseOpener | return none
        match forms with
        | [] => fail src ⟨clauseOpener.merge close, .emptyClause⟩
        | predicate :: body =>
          tokens |>.clauses opener (cases ++ [(predicate, .ofBody (clauseOpener.merge close) body)]) none
    else fail src ⟨token.span, .clauseExpected found⟩
partial_fixpoint

end

/-- All top-level expressions up to the end, or until the collector is full. -/
def program (tokens : Descent) : Work (List Node) := do
  let token ← peek tokens
  if token.kind = .finish ∨ (← get).errors.isFull = true then return []
  else if token.kind = .closing then
    modify (·.report src ⟨token.span, .unexpected (.closing token.span)⟩)
    let _ ← advance tokens
    tokens |>.program
  else
    match ← expression src tokens with
    | some node => return node :: (← tokens |>.program)
    | none => tokens |>.program
partial_fixpoint

end Descent

end CheckedLisp
