import CheckedLisp.Proofs.Node.Attempt
import CheckedLisp.Proofs.Node.Derivation

/-! Each function of the descent gives what is made of the trees in front of its cursor: the
parameters of a lambda, the expressions of a row, the clauses of a `cond`, and each form. -/
namespace CheckedLisp.Descent

variable {α : Type} {src : Source} {tokens : List Token} {c : Cursor}

theorem lead_ne_closing {tree : Tree} (expr : tree.isStray = false) : tree.lead.kind ≠ .closing := by
  cases tree with
  | stray stop => cases expr
  | _ => simp [Tree.lead]

section Next

/-- The first token of a row of trees and their stop. -/
def next (stop : Stop) : List Tree → Token
  | [] => ⟨stop.kind, stop.span⟩
  | tree :: _ => tree.lead

variable {stop : Stop} {trees : List Tree}

theorem exists_next {last : List Token} (reads : Tree.ReadsAll trees tokens last) (leads : stop.Leads last) :
    ∃ behind, tokens = next stop trees :: behind := by
  cases trees with
  | nil =>
    obtain rfl : last = tokens := reads
    exact leads
  | cons tree trees =>
    obtain ⟨_, _, reads, _⟩ := reads
    exact Tree.head_of_reads reads

theorem atNext_eq (trees : List Tree) (stop : Stop) (fault : Token.Kind → Form.Fault) :
    Form.atNext trees stop fault = ⟨(next stop trees).span, fault (next stop trees).kind⟩ := by
  cases trees <;> rfl

theorem eq_symbol_of_lead {tree : Tree} {text : String} (same : tree.lead.kind = .atom (.symbol text)) :
    ∃ span, tree = .atom span (.symbol text) := by
  cases tree with
  | atom span value =>
    cases same
    exact ⟨span, rfl⟩
  | stray stop => cases stop <;> cases same
  | _ => cases same

theorem eq_symbol_of_next {text : String} (same : (next stop trees).kind = .atom (.symbol text)) :
    ∃ span others, trees = .atom span (.symbol text) :: others := by
  cases trees with
  | nil => cases stop <;> cases same
  | cons tree others =>
    obtain ⟨span, rfl⟩ := eq_symbol_of_lead same
    exact ⟨span, others, rfl⟩

theorem isElse_eq (tree : Tree) : Form.isElse tree = decide (tree.lead.kind = .atom (.symbol "else")) := by
  cases tree with
  | atom span value => cases value <;> simp [Form.isElse, Tree.lead]
  | stray stop => cases stop <;> rfl
  | _ => rfl

theorem keyword?_lead (tree : Tree) : keyword? tree.lead.kind = (Form.keyword? tree).map Prod.fst := by
  cases tree with
  | atom span value =>
    cases value with
    | symbol name => cases found : Keyword.ofName? name <;> simp [keyword?, Form.keyword?, Tree.lead, found]
    | _ => rfl
  | stray stop => cases stop <;> rfl
  | _ => rfl

end Next

section Simple

variable {stop : Stop} {last rest : List Token}

theorem expression_stop (leads : stop.Leads (tokens.drop c.position)) :
    expression src tokens c = some (none, c.report src (Form.strayed stop)) := by
  obtain ⟨behind, here⟩ := leads
  rw [expression, peek_bind, tokenAt_eq here]
  cases stop <;> rfl

theorem expectClose_gives (opener : Span) {trees : List Tree}
    (reads : Tree.ReadsAll trees (tokens.drop c.position) last) (ends : stop.Ends last rest) :
    Gives src tokens c rest (Form.closedAfter opener trees stop) (expectClose src tokens opener c) := by
  obtain ⟨_, here⟩ := exists_next reads ends.leads
  rw [expectClose, peek_bind, tokenAt_eq here]
  cases trees with
  | nil =>
    obtain rfl : last = tokens.drop c.position := reads
    cases stop with
    | closing span => exact .close ends _
    | finish span => exact .fail _
  | cons tree trees =>
    cases tree with
    | stray stop => cases reads.1
    | _ => exact .fail _

theorem expectSymbol_symbol {text : String} {span : Span} {behind : List Token}
    (here : tokens.drop c.position = ⟨.atom (.symbol text), span⟩ :: behind) (fault : Token.Kind → Form.Fault) :
    expectSymbol src tokens fault c = some (some ⟨text, span⟩, c.move (c.position + 1)) := by
  rw [expectSymbol, peek_bind, tokenAt_eq here]
  exact advance_bind here _

theorem expectSymbol_other {token : Token} {behind : List Token} (here : tokens.drop c.position = token :: behind)
    (other : ∀ text, token.kind ≠ .atom (.symbol text)) (fault : Token.Kind → Form.Fault) :
    expectSymbol src tokens fault c = some (none, c.report src ⟨token.span, fault token.kind⟩) := by
  rw [expectSymbol, peek_bind, tokenAt_eq here]
  obtain ⟨kind, span⟩ := token
  cases kind with
  | atom value =>
    cases value with
    | symbol text => exact absurd rfl (other text)
    | _ => rfl
  | _ => rfl

end Simple

section Parameters

variable {stop : Stop} {trees : List Tree}

/-- Distinct names and the bracket behind them. -/
def paramList (opener : Span) (stop : Stop) (seen : List String) (trees : List Tree) :
    Except Form.Failure (List Name) := do
  let names ← Form.params seen trees
  let _ ← Form.closed opener stop
  .ok names

theorem paramList_bind (opener : Span) (stop : Stop) (seen : List String) (trees : List Tree)
    (follow : List Name → Except Form.Failure α) :
    paramList opener stop seen trees >>= follow =
      Form.params seen trees >>= fun names => Form.closed opener stop >>= fun _ => follow names := by
  unfold paramList
  cases Form.params seen trees with
  | ok names => cases stop <;> rfl
  | error failure => rfl

theorem paramList_symbol (opener : Span) {seen : List String} {text : String} (new : text ∉ seen) (span : Span) :
    paramList opener stop seen (.atom span (.symbol text) :: trees) =
      paramList opener stop (text :: seen) trees >>= fun others => .ok (⟨text, span⟩ :: others) := by
  rw [paramList_bind]
  simp only [paramList, Form.params, if_neg new]
  cases Form.params (text :: seen) trees <;> rfl

theorem paramList_other (opener : Span) {tree : Tree} (other : ∀ text, tree.lead.kind ≠ .atom (.symbol text))
    (seen : List String) :
    paramList opener stop seen (tree :: trees) = .error ⟨tree.lead.span, .paramExpected tree.lead.kind⟩ := by
  unfold paramList Form.params
  split
  · contradiction
  · next same =>
    cases same
    exact absurd rfl (other _)
  · next same =>
    cases same
    rfl

theorem parameters_gives (opener : Span) {seen : List String} {c : Cursor} {last rest : List Token}
    (reads : Tree.ReadsAll trees (tokens.drop c.position) last) (ends : stop.Ends last rest) :
    Gives src tokens c rest (paramList opener stop seen trees) (parameters src tokens opener seen c) := by
  induction trees generalizing seen c with
  | nil =>
    obtain rfl : last = tokens.drop c.position := reads
    rw [parameters]
    exact .closed opener ends (fun _ => rfl) fun _ => rfl
  | cons tree trees ih =>
    obtain ⟨_, lead⟩ := exists_next reads ends.leads
    obtain ⟨expr, behind, here, others⟩ := reads
    rw [parameters, peek_bind, tokenAt_eq lead]
    by_cases symbol : ∃ text, tree.lead.kind = .atom (.symbol text)
    · obtain ⟨text, same⟩ := symbol
      obtain ⟨span, rfl⟩ := eq_symbol_of_lead same
      obtain rfl : tokens.drop (c.position + 1) = behind := drop_succ here
      dsimp only [next, Tree.lead]
      rw [bind_eq (expectSymbol_symbol here _)]
      dsimp only
      by_cases old : text ∈ seen
      · rw [if_pos old, paramList, Form.params, if_pos old]
        exact .fail _
      · rw [if_neg old, paramList_symbol opener old]
        exact Gives.bind (ih others) rfl fun _ _ reached => .done reached _
    · have other : ∀ text, tree.lead.kind ≠ .atom (.symbol text) := fun text same => symbol ⟨text, same⟩
      rw [paramList_other opener other]
      cases tree with
      | stray stop => cases expr
      | _ =>
        dsimp only [next, Tree.lead]
        rw [bind_eq (expectSymbol_other lead other _)]
        exact .fail _

/-- The parameters, and then what is made of them. -/
theorem parameters_bind_gives (opener : Span) {follow : List Name → Except Form.Failure α}
    {goOn : Option (List Name) → Work (Option α)} {last rest behind : List Token}
    (reads : Tree.ReadsAll trees (tokens.drop c.position) last) (ends : stop.Ends last behind)
    (stops : goOn none = pure none)
    (later : ∀ names position, tokens.drop position = behind →
      Gives src tokens (c.move position) rest (follow names) (goOn (some names) (c.move position))) :
    Gives src tokens c rest
      (Form.params [] trees >>= fun names => Form.closed opener stop >>= fun _ => follow names)
      ((parameters src tokens opener [] >>= goOn) c) := by
  rw [← paramList_bind]
  exact (parameters_gives opener reads ends).bind stops later

end Parameters

/-- The descent reads the tree wherever the tokens have it. -/
def Tracks (src : Source) (tokens : List Token) (tree : Tree) : Prop :=
  ∀ (c : Cursor) (rest : List Token), tree.Reads (tokens.drop c.position) rest →
    Settles src tokens c rest (Form.node c.inLambda tree) (expression src tokens c)

/-- The descent reads the tree, and so it does the trees directly inside it. -/
def TracksInside (src : Source) (tokens : List Token) (tree : Tree) : Prop :=
  Tracks src tokens tree ∧ ∀ item ∈ tree.items, Tracks src tokens item

section Forms

/-- A row of expressions and the bracket behind them. -/
def row (inLambda : Bool) (opener : Span) (stop : Stop) (trees : List Tree) :
    Except Form.Failure (List Node × Span) := do
  let nodes ← Form.nodes inLambda trees
  let close ← Form.closed opener stop
  .ok (nodes, close)

theorem row_bind (inLambda : Bool) (opener : Span) (stop : Stop) (trees : List Tree)
    (follow : List Node × Span → Except Form.Failure α) :
    row inLambda opener stop trees >>= follow =
      Form.nodes inLambda trees >>= fun nodes => Form.closed opener stop >>= fun close => follow (nodes, close) := by
  unfold row
  cases Form.nodes inLambda trees with
  | ok nodes => cases stop <;> rfl
  | error failure => rfl

theorem row_cons (inLambda : Bool) (opener : Span) (stop : Stop) (tree : Tree) (trees : List Tree) :
    row inLambda opener stop (tree :: trees) =
      Form.node inLambda tree >>= fun first =>
        row inLambda opener stop trees >>= fun (others, close) => .ok (first :: others, close) := by
  simp only [row_bind]
  unfold row
  rw [Form.nodes]
  cases Form.node inLambda tree with
  | ok first => cases Form.nodes inLambda trees <;> rfl
  | error failure => rfl

variable {stop : Stop} {trees : List Tree} {c : Cursor} {last rest : List Token}

theorem forms_gives (opener : Span) (tracks : ∀ tree ∈ trees, Tracks src tokens tree)
    (reads : Tree.ReadsAll trees (tokens.drop c.position) last) (ends : stop.Ends last rest) :
    Gives src tokens c rest (row c.inLambda opener stop trees) (forms src tokens opener c) := by
  induction trees generalizing c with
  | nil =>
    obtain rfl : last = tokens.drop c.position := reads
    rw [forms]
    exact .closed opener ends (fun _ => rfl) fun _ => rfl
  | cons tree trees ih =>
    obtain ⟨_, lead⟩ := exists_next reads ends.leads
    obtain ⟨here, there⟩ := List.forall_mem_cons.1 tracks
    obtain ⟨expr, behind, first, others⟩ := reads
    rw [forms, peek_bind, tokenAt_eq lead, row_cons]
    cases tree with
    | stray stop => cases expr
    | _ =>
      refine (here c behind first).gives.bind rfl ?_
      intro node position reached
      refine (ih there (c := c.move position) (reached ▸ others)).bind rfl ?_
      intro (nodes, close) position' reached'
      exact .done reached' _

/-- A row of expressions, and then what is made of them. -/
theorem forms_bind_gives (opener : Span) {follow : List Node → Span → Except Form.Failure α}
    {goOn : Option (List Node × Span) → Work (Option α)} (tracks : ∀ tree ∈ trees, Tracks src tokens tree)
    (reads : Tree.ReadsAll trees (tokens.drop c.position) last) (ends : stop.Ends last rest)
    (stops : goOn none = pure none)
    (later : ∀ nodes close position, tokens.drop position = rest →
      Gives src tokens (c.move position) rest (follow nodes close) (goOn (some (nodes, close)) (c.move position))) :
    Gives src tokens c rest
      (Form.nodes c.inLambda trees >>= fun nodes => Form.closed opener stop >>= fun close => follow nodes close)
      ((forms src tokens opener >>= goOn) c) := by
  have whole := row_bind c.inLambda opener stop trees fun (nodes, close) => follow nodes close
  rw [← whole]
  exact (forms_gives opener tracks reads ends).bind stops fun (nodes, close) => later nodes close

/-- The same for the body of a lambda. -/
theorem body_bind_gives (opener : Span) {follow : List Node → Span → Except Form.Failure α}
    {goOn : Option (List Node × Span) → Work (Option α)} (tracks : ∀ tree ∈ trees, Tracks src tokens tree)
    (reads : Tree.ReadsAll trees (tokens.drop c.position) last) (ends : stop.Ends last rest)
    (stops : goOn none = pure none)
    (later : ∀ nodes close position, tokens.drop position = rest →
      Gives src tokens (c.move position) rest (follow nodes close) (goOn (some (nodes, close)) (c.move position))) :
    Gives src tokens c rest
      (Form.nodes true trees >>= fun nodes => Form.closed opener stop >>= fun close => follow nodes close)
      ((do
          modify (·.deeper)
          let body ← forms src tokens opener
          modify (·.shallower)
          goOn body : Work (Option α)) c) := by
  have whole := row_bind true opener stop trees fun (nodes, close) => follow nodes close
  have forms := forms_gives opener (c := c.deeper) tracks reads ends
  rw [Cursor.inLambda_deeper] at forms
  rw [← whole, ← inBody_bind]
  exact forms.inBody.bind stops fun (nodes, close) => later nodes close

end Forms

section Clauses

/-- What is left of a `cond` behind its `else` clause: the bracket, and no other clause. -/
def afterElse (opener : Span) (stop : Stop) (cases : List (Node × Node)) (otherwise : Node) :
    List Tree → Except Form.Failure Node
  | [] => do
    let close ← Form.closed opener stop
    .ok (Form.condNode (opener.merge close) close cases (some otherwise))
  | tree :: _ => .error ⟨tree.lead.span, .elseNotLast⟩

/-- What is left of a `cond` behind the clauses of `cases`. -/
def afterCases (inLambda : Bool) (opener : Span) (stop : Stop) (cases : List (Node × Node)) (trees : List Tree) :
    Except Form.Failure Node := do
  let (more, otherwise) ← Form.clauses inLambda trees
  let close ← Form.closed opener stop
  .ok (Form.condNode (opener.merge close) close (cases ++ more) otherwise)

variable {inLambda : Bool} {opener clauseOpener span : Span} {stop clauseStop : Stop} {cases : List (Node × Node)}
  {items trees : List Tree}

theorem afterCases_nil :
    afterCases inLambda opener stop cases [] =
      Form.closed opener stop >>= fun close => .ok (Form.condNode (opener.merge close) close cases none) := by
  change (Form.closed opener stop >>= fun close =>
    .ok (Form.condNode (opener.merge close) close (cases ++ []) none)) = _
  rw [List.append_nil]

theorem afterCases_else :
    afterCases inLambda opener stop cases
        (.list clauseOpener (.atom span (.symbol "else") :: items) clauseStop :: trees) =
      row inLambda clauseOpener clauseStop items >>= fun (forms, close) =>
        afterElse opener stop cases (.ofBody (clauseOpener.merge close) forms) trees := by
  have isElse : Form.isElse (.atom span (.symbol "else")) = true := rfl
  simp only [afterCases, Form.clauses, if_pos isElse, row_bind]
  cases Form.nodes inLambda items with
  | error failure => rfl
  | ok forms =>
    cases clauseStop with
    | finish span => rfl
    | closing span =>
      cases trees with
      | nil =>
        change (Form.closed opener stop >>= fun close =>
          .ok (Form.condNode (opener.merge close) close (cases ++ []) _)) = _
        rw [List.append_nil]
        rfl
      | cons tree trees => rfl

theorem afterCases_case (other : (next clauseStop items).kind ≠ .atom (.symbol "else")) :
    afterCases inLambda opener stop cases (.list clauseOpener items clauseStop :: trees) =
      row inLambda clauseOpener clauseStop items >>= fun (forms, close) =>
        match forms with
        | [] => .error ⟨clauseOpener.merge close, .emptyClause⟩
        | predicate :: body =>
          let body := Node.ofBody (clauseOpener.merge close) body
          afterCases inLambda opener stop (cases ++ [(predicate, body)]) trees := by
  cases items with
  | nil => cases clauseStop <;> rfl
  | cons head body =>
    have notElse : ¬Form.isElse head = true := by
      rw [isElse_eq, decide_eq_true_eq]
      exact other
    simp only [row_cons, afterCases, Form.clauses, if_neg notElse, List.append_assoc, List.singleton_append]
    cases Form.node inLambda head with
    | error failure => rfl
    | ok predicate =>
      unfold row
      cases Form.nodes inLambda body with
      | error failure => rfl
      | ok forms =>
        cases clauseStop with
        | finish span => rfl
        | closing span => cases Form.clauses inLambda trees <;> rfl

variable {c : Cursor} {last rest : List Token}

theorem clauses_some_gives (otherwise : Node) (reads : Tree.ReadsAll trees (tokens.drop c.position) last)
    (ends : stop.Ends last rest) :
    Gives src tokens c rest (afterElse opener stop cases otherwise trees)
      (clauses src tokens opener cases (some otherwise) c) := by
  rw [clauses]
  cases trees with
  | nil =>
    obtain rfl : last = tokens.drop c.position := reads
    exact .closed opener ends (fun _ => rfl) fun _ => rfl
  | cons tree trees =>
    obtain ⟨_, here⟩ := exists_next reads ends.leads
    rw [peek_bind, tokenAt_eq here]
    cases tree with
    | stray stop => cases reads.1
    | _ => exact .fail _

/-- The token behind the bracket of a clause decides: an `else` is gone over first, and any other
clause is read as a row whose first expression is the predicate. -/
theorem clauses_none_gives (opener : Span) (cases : List (Node × Node))
    (tracks : ∀ tree ∈ trees, ∀ item ∈ tree.items, Tracks src tokens item)
    (reads : Tree.ReadsAll trees (tokens.drop c.position) last) (ends : stop.Ends last rest) :
    Gives src tokens c rest (afterCases c.inLambda opener stop cases trees)
      (clauses src tokens opener cases none c) := by
  induction trees generalizing c cases with
  | nil =>
    obtain rfl : last = tokens.drop c.position := reads
    rw [clauses, afterCases_nil]
    exact .closed opener ends (fun _ => rfl) fun _ => rfl
  | cons tree trees ih =>
    obtain ⟨_, lead⟩ := exists_next reads ends.leads
    obtain ⟨here, there⟩ := List.forall_mem_cons.1 tracks
    obtain ⟨expr, behind, first, others⟩ := reads
    rw [clauses, peek_bind, tokenAt_eq lead]
    cases tree with
    | stray stop => cases expr
    | atom span value => exact .fail _
    | quote mark inner => exact .fail _
    | list clauseOpener items clauseStop =>
      obtain ⟨inside, last', same, row, ends'⟩ := first
      obtain rfl : tokens.drop (c.position + 1) = inside := drop_succ same
      obtain ⟨_, lead'⟩ := exists_next row ends'.leads
      dsimp only [next, Tree.lead]
      simp only [Option.isSome_none, Bool.false_eq_true, if_false, if_true]
      rw [advance_bind same, peek_bind, Cursor.position_move, tokenAt_eq lead']
      by_cases isElse : (next clauseStop items).kind = .atom (.symbol "else")
      · rw [if_pos isElse]
        obtain ⟨span, body, rfl⟩ := eq_symbol_of_next isElse
        obtain ⟨_, behind', same', row⟩ := row
        obtain rfl : tokens.drop (c.position + 1 + 1) = behind' := drop_succ same'
        rw [afterCases_else, advance_bind (c := c.move (c.position + 1)) same']
        have forms := forms_gives clauseOpener (c := c.move (c.position + 1 + 1))
          (List.forall_mem_cons.1 here).2 row ends'
        refine Gives.bind forms rfl ?_
        rintro ⟨forms, close⟩ position reached
        exact clauses_some_gives (c := c.move position) _ (reached ▸ others) ends
      · rw [if_neg isElse, afterCases_case isElse]
        have forms := forms_gives clauseOpener (c := c.move (c.position + 1)) here row ends'
        refine Gives.bind forms rfl ?_
        rintro ⟨forms, close⟩ position reached
        cases forms with
        | nil => exact .fail _
        | cons predicate body => exact ih _ there (c := c.move position) (reached ▸ others)

end Clauses

section Lists

variable {opener : Span} {stop : Stop} {trees : List Tree} {last rest : List Token}

theorem binding_other {inLambda : Bool} {keyword : Keyword}
    (other : ∀ text, (next stop trees).kind ≠ .atom (.symbol text)) :
    Form.binding inLambda keyword opener stop trees = .error (Form.atNext trees stop (.symbolExpected keyword)) := by
  unfold Form.binding
  split
  · exact absurd rfl (other _)
  · exact absurd rfl (other _)
  · rfl

theorem binding_gives (keyword : Keyword) (tracks : ∀ tree ∈ trees, Tracks src tokens tree)
    (reads : Tree.ReadsAll trees (tokens.drop c.position) last) (ends : stop.Ends last rest) :
    Gives src tokens c rest (Form.binding c.inLambda keyword opener stop trees)
      (binding src tokens opener keyword c) := by
  obtain ⟨_, here⟩ := exists_next reads ends.leads
  rw [binding]
  by_cases symbol : ∃ text, (next stop trees).kind = .atom (.symbol text)
  · obtain ⟨text, same⟩ := symbol
    obtain ⟨span, others, rfl⟩ := eq_symbol_of_next same
    obtain ⟨_, behind, first, row⟩ := reads
    obtain rfl : tokens.drop (c.position + 1) = behind := drop_succ first
    obtain ⟨_, lead⟩ := exists_next row ends.leads
    rw [bind_eq (expectSymbol_symbol here _)]
    dsimp only
    rw [peek_bind, Cursor.position_move, tokenAt_eq lead]
    cases others with
    | nil =>
      obtain rfl : last = tokens.drop (c.position + 1) := row
      cases stop with
      | closing span => exact .fail _
      | finish span =>
        rw [if_neg (by simp [next, Stop.kind]), bind_eq (expression_stop (c := c.move _) ends.leads)]
        exact .fail _
    | cons tree others =>
      obtain ⟨expr, behind, value, row⟩ := row
      have notClosing : (next stop (tree :: others)).kind ≠ .closing := lead_ne_closing expr
      rw [if_neg notClosing, Form.binding]
      have read := tracks tree (by simp) (c.move (c.position + 1)) behind value
      refine Gives.bind read.gives rfl ?_
      intro node position reached
      refine (expectClose_gives opener (c := c.move position) (reached ▸ row) ends).bind rfl ?_
      intro close position' reached'
      exact .done reached' _
  · have other : ∀ text, (next stop trees).kind ≠ .atom (.symbol text) := fun text same => symbol ⟨text, same⟩
    rw [binding_other other, atNext_eq, bind_eq (expectSymbol_other here other _)]
    exact .fail _

/-- Each keyword has its own form. The parameters of a lambda are a list of their own, and only the
body behind them is deeper. -/
theorem keyed_gives {head : Tree} {keyword : Keyword} {span : Span} (key : Form.keyword? head = some (keyword, span))
    (tracks : ∀ tree ∈ trees, TracksInside src tokens tree)
    (reads : Tree.ReadsAll trees (tokens.drop c.position) last) (ends : stop.Ends last rest) :
    Gives src tokens c rest (Form.node c.inLambda (.list opener (head :: trees) stop))
      (keyed src tokens opener span keyword c) := by
  have tracked : ∀ tree ∈ trees, Tracks src tokens tree := fun tree member => (tracks tree member).1
  obtain ⟨_, here⟩ := exists_next reads ends.leads
  rw [keyed.eq_def, Form.node.eq_def]
  dsimp only
  rw [key]
  cases keyword with
  | sequence =>
    refine forms_bind_gives opener tracked reads ends rfl ?_
    intro forms close position reached
    exact .done reached _
  | choice =>
    refine forms_bind_gives opener tracked reads ends rfl ?_
    intro parts close position reached
    exact .give reached _
  | cases => exact clauses_none_gives opener [] (fun tree member => (tracks tree member).2) reads ends
  | loop =>
    refine forms_bind_gives opener tracked reads ends rfl ?_
    intro forms close position reached
    exact .give reached _
  | define =>
    refine (binding_gives .define tracked reads ends).bind rfl ?_
    intro (name, value, close) position reached
    exact .done reached _
  | assign =>
    refine (binding_gives .assign tracked reads ends).bind rfl ?_
    intro (name, value, close) position reached
    exact .done reached _
  | lambda =>
    dsimp only
    rw [peek_bind, tokenAt_eq here]
    match trees with
    | [] =>
      cases stop <;> exact .fail _
    | .list paramsOpener names paramsStop :: body =>
      obtain ⟨_, behind, ⟨inside, last', same, row, ends'⟩, others⟩ := reads
      obtain rfl : tokens.drop (c.position + 1) = inside := drop_succ same
      rw [if_pos (by rfl), advance_bind same]
      refine parameters_bind_gives paramsOpener (c := c.move (c.position + 1)) row ends' rfl ?_
      intro names position reached
      refine body_bind_gives opener (c := c.move position) (List.forall_mem_cons.1 tracked).2 (reached ▸ others)
        ends rfl ?_
      intro forms close position' reached'
      exact .done reached' _
    | .atom span value :: body => exact .fail _
    | .quote mark inner :: body => exact .fail _
    | .stray _ :: body => cases reads.1
  | quote =>
    cases trees with
    | nil =>
      obtain rfl : last = tokens.drop c.position := reads
      dsimp only
      rw [bind_eq (expression_stop ends.leads)]
      exact .fail _
    | cons tree others =>
      obtain ⟨_, behind, first, row⟩ := reads
      refine (tracked tree (by simp) c behind first).gives.bind rfl ?_
      intro inner position reached
      refine (expectClose_gives opener (c := c.move position) (reached ▸ row) ends).bind rfl ?_
      intro close position' reached'
      exact .done reached' _
  | ret =>
    change Gives src tokens c rest _ ((if c.depth = 0 then _ else _ : Work (Option Node)) c)
    dsimp only
    by_cases outside : c.depth = 0
    · have flat : ¬c.inLambda = true := by simp [Cursor.inLambda, outside]
      rw [if_pos outside, if_neg flat]
      exact .fail _
    · have deep : c.inLambda = true := decide_eq_true (Nat.pos_of_ne_zero outside)
      rw [if_neg outside, if_pos deep]
      refine forms_bind_gives opener tracked reads ends rfl ?_
      intro forms close position reached
      exact .give reached _

theorem list_gives (opener : Span) (tracks : ∀ tree ∈ trees, TracksInside src tokens tree)
    (reads : Tree.ReadsAll trees (tokens.drop c.position) last) (ends : stop.Ends last rest) :
    Gives src tokens c rest (Form.node c.inLambda (.list opener trees stop)) (list src tokens opener c) := by
  obtain ⟨_, here⟩ := exists_next reads ends.leads
  rw [list, peek_bind, tokenAt_eq here]
  cases trees with
  | nil =>
    obtain rfl : last = tokens.drop c.position := reads
    cases stop with
    | closing span => exact .close ends _
    | finish span =>
      have missing : keyword? (next (.finish span) []).kind = none := rfl
      rw [if_neg (by simp [next, Stop.kind]), missing]
      dsimp only
      rw [bind_eq (expression_stop ends.leads)]
      exact .fail _
  | cons head others =>
    obtain ⟨expr, behind, first, row⟩ := reads
    have notClosing : (next stop (head :: others)).kind ≠ .closing := lead_ne_closing expr
    have found : keyword? (next stop (head :: others)).kind = (Form.keyword? head).map Prod.fst := keyword?_lead head
    rw [if_neg notClosing, found]
    cases key : Form.keyword? head with
    | none =>
      rw [Form.node.eq_def]
      dsimp only
      rw [key]
      refine (tracks head (by simp)).1 c behind first |>.gives.bind rfl ?_
      intro callee position reached
      refine forms_bind_gives opener (c := c.move position) ?_ (reached ▸ row) ends rfl ?_
      · intro tree member
        exact (tracks tree (List.mem_cons_of_mem _ member)).1
      · intro args close position' reached'
        exact .done reached' _
    | some found =>
      obtain ⟨keyword, span⟩ := found
      obtain rfl := Grammar.keyword?_eq_some key
      obtain rfl : tokens.drop (c.position + 1) = behind := drop_succ first
      dsimp only [Option.map_some]
      rw [advance_bind first]
      exact keyed_gives (c := c.move (c.position + 1)) key (List.forall_mem_cons.1 tracks).2 row ends

end Lists

end CheckedLisp.Descent
