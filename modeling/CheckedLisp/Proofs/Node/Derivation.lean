import CheckedLisp.Proofs.Sequencing
import CheckedLisp.Proofs.Node.Grammar

/-! Every node that reading makes of a tree is derived from the tokens of the tree, and every
derivation comes from a tree that reading makes its node of. -/
namespace CheckedLisp.Grammar

open Sequencing

section Parts

variable {opener close : Span} {stop : Stop} {rest : List Tree}

theorem closed_eq_ok : Form.closed opener stop = .ok close ↔ stop = .closing close := by
  cases stop with
  | closing span => simp [Form.closed]
  | finish span => simp [Form.closed]

theorem closedAfter_eq_ok :
    Form.closedAfter opener rest stop = .ok close ↔ rest = [] ∧ stop = .closing close := by
  unfold Form.closedAfter
  cases rest with
  | nil => simp [closed_eq_ok]
  | cons tree rest => simp

theorem body_ofBody (span : Span) (forms : List Node) : Body span forms (.ofBody span forms) := by
  match forms with
  | [] => exact .none
  | [form] => exact .one form
  | first :: second :: others => exact .several first second others

theorem Body.eq_ofBody {span : Span} {forms : List Node} {body : Node} (whole : Body span forms body) :
    body = .ofBody span forms := by
  cases whole <;> rfl

theorem documented_splitDoc (forms : List Node) :
    Documented forms (Form.splitDoc forms).1 (Form.splitDoc forms).2 := by
  unfold Form.splitDoc
  split
  · exact .doc _ _ _ _
  · next other => exact .plain fun span text form rest same => other span text form rest same

theorem Documented.eq_splitDoc {forms rest : List Node} {doc : Option String}
    (documented : Documented forms doc rest) : Form.splitDoc forms = (doc, rest) := by
  cases documented with
  | doc => rfl
  | plain other =>
    unfold Form.splitDoc
    split
    · exact absurd rfl (other _ _ _ _)
    · rfl

theorem lambdaNode_eq {span : Span} {params : List Name} {forms rest : List Node} {doc : Option String}
    {body : Node} (documented : Documented forms doc rest) (whole : Body span rest body) :
    Form.lambdaNode span params forms = .lambda span params doc body := by
  rw [Form.lambdaNode, documented.eq_splitDoc, whole.eq_ofBody]

theorem keyword?_eq_some {head : Tree} {keyword : Keyword} {span : Span}
    (found : Form.keyword? head = some (keyword, span)) : head = .atom span (.symbol keyword.name) := by
  unfold Form.keyword? at found
  split at found
  · next place name =>
    obtain ⟨known, named, same⟩ := Option.map_eq_some_iff.1 found
    cases same
    have spelled := List.find?_some named
    simp only [decide_eq_true_eq] at spelled
    rw [spelled]
  · cases found

theorem ofName?_name (keyword : Keyword) : Keyword.ofName? keyword.name = some keyword := by
  cases keyword <;> rfl

theorem lead_of_flatten {tree : Tree} : tree.flatten.head? = some tree.lead := by
  cases tree <;> rfl

theorem leads_flatten {text : String} {tree : Tree} :
    Leads text tree.flatten ↔ ∃ span, tree = .atom span (.symbol text) := by
  simp only [Leads, lead_of_flatten, Option.some.injEq]
  constructor
  · rintro ⟨span, same⟩
    cases tree with
    | atom place value =>
      cases same
      exact ⟨span, rfl⟩
    | quote mark inner => cases same
    | list opener items stop => cases same
    | stray stop => cases stop <;> cases same
  · rintro ⟨span, rfl⟩
    exact ⟨span, rfl⟩

theorem keyword?_eq_none {head : Tree} :
    Form.keyword? head = none ↔ ∀ keyword : Keyword, ¬ Leads keyword.name head.flatten := by
  simp only [leads_flatten]
  constructor
  · rintro none keyword ⟨span, rfl⟩
    simp [Form.keyword?, ofName?_name] at none
  · intro other
    cases found : Form.keyword? head with
    | none => rfl
    | some key => exact absurd ⟨key.2, keyword?_eq_some found⟩ (other key.1)

theorem isElse_iff {head : Tree} : Form.isElse head = true ↔ Leads "else" head.flatten := by
  rw [leads_flatten]
  unfold Form.isElse
  split
  · next span name => simp
  · next other =>
    constructor
    · intro wrong
      cases wrong
    · rintro ⟨span, rfl⟩
      exact absurd rfl (other span "else")

/-- A parameter list is read when it holds symbols, none of them twice. -/
theorem params_eq_ok {seen : List String} {trees : List Tree} {names : List Name} :
    Form.params seen trees = .ok names ↔
      trees = names.map (fun name => .atom name.span (.symbol name.text)) ∧
      (names.map (·.text)).Nodup ∧ ∀ name ∈ names, name.text ∉ seen := by
  induction trees generalizing seen names with
  | nil => cases names <;> simp [Form.params]
  | cons tree trees ih =>
    unfold Form.params
    split
    · contradiction
    · next span text rest same =>
      cases same
      by_cases repeated : text ∈ seen
      · cases names with
        | nil => simp [repeated]
        | cons name names => simp [repeated]; grind
      · simp only [repeated, if_false, except_bind_eq_ok, ih]
        cases names with
        | nil => simp
        | cons name names => obtain ⟨text', span'⟩ := name; simp; grind
    · next other =>
      cases names with
      | nil => simp
      | cons name names => simp; grind

end Parts

theorem flattenAll_params (names : List Name) :
    Tree.flattenAll (names.map fun name => .atom name.span (.symbol name.text)) =
      names.map fun name => symbol name.text name.span := by
  induction names with
  | nil => rfl
  | cons name names ih => simp [Tree.flattenAll, Tree.flatten, ih, symbol]

theorem Exprs.singleton {inLambda : Bool} {tokens : List Token} {node : Node}
    (derived : Exprs inLambda tokens [node]) : Expr inLambda tokens node := by
  cases derived with
  | cons first others =>
    cases others
    rwa [List.append_nil]

theorem keyed_ifNode {inLambda : Bool} {opener close span : Span} {tokens : List Token}
    {parts : List Node} {node : Node} (derived : Exprs inLambda tokens parts)
    (made : Form.ifNode (opener.merge close) close parts = .ok node) :
    Keyed inLambda opener close (symbol "if" span :: tokens) node := by
  match parts with
  | [predicate, body] =>
    cases made
    exact .ifThen span derived
  | [predicate, body, otherwise] =>
    cases made
    exact .ifThenElse span derived
  | [] | [_] | _ :: _ :: _ :: _ :: _ => cases made

theorem keyed_condNode {inLambda : Bool} {opener close span : Span} {tokens : List Token}
    {cases : List (Node × Node)} {otherwise : Option Node}
    (derived : Clauses inLambda tokens cases otherwise) :
    Keyed inLambda opener close (symbol "cond" span :: tokens)
      (Form.condNode (opener.merge close) close cases otherwise) := by
  match cases, otherwise with
  | first :: cases, otherwise => exact .cond span derived
  | [], some body => exact .condElse span derived
  | [], none =>
    cases derived
    exact .condEmpty span

theorem keyed_loopNode {inLambda : Bool} {opener close span : Span} {tokens : List Token}
    {forms : List Node} {node : Node} (derived : Exprs inLambda tokens forms)
    (made : Form.loopNode (opener.merge close) forms = .ok node) :
    Keyed inLambda opener close (symbol "while" span :: tokens) node := by
  cases forms with
  | nil => cases made
  | cons predicate body =>
    cases made
    exact .loop span derived (body_ofBody _ body)

theorem keyed_retNode {opener close span : Span} {tokens : List Token} {forms : List Node} {node : Node}
    (derived : Exprs true tokens forms) (made : Form.retNode (opener.merge close) forms = .ok node) :
    Keyed true opener close (symbol "return!" span :: tokens) node := by
  match forms with
  | [] =>
    cases made
    cases derived
    exact .ret span
  | [value] =>
    cases made
    exact .retValue span derived.singleton
  | _ :: _ :: _ => cases made

/-- What `define` and `set!` take: a name, one tree, and the closing bracket. -/
theorem binding_eq_ok {inLambda : Bool} {keyword : Keyword} {opener close : Span} {stop : Stop}
    {trees : List Tree} {name : Name} {value : Node}
    (bound : Form.binding inLambda keyword opener stop trees = .ok (name, value, close)) :
    ∃ tree, trees = [.atom name.span (.symbol name.text), tree] ∧ stop = .closing close ∧
      Form.node inLambda tree = .ok value := by
  match trees with
  | [.atom _ (.symbol text)] => cases stop <;> simp [Form.binding] at bound
  | .atom span (.symbol text) :: tree :: rest =>
    simp only [Form.binding, except_bind_eq_ok, closedAfter_eq_ok] at bound
    obtain ⟨_, here, _, ⟨rfl, rfl⟩, made⟩ := bound
    cases made
    exact ⟨tree, rfl, rfl, here⟩
  | [] => simp [Form.binding] at bound
  | .atom _ (.bool _) :: _ => simp [Form.binding] at bound
  | .atom _ (.int _) :: _ => simp [Form.binding] at bound
  | .atom _ (.float _) :: _ => simp [Form.binding] at bound
  | .atom _ (.string _) :: _ => simp [Form.binding] at bound
  | .quote _ _ :: _ => simp [Form.binding] at bound
  | .list _ _ _ :: _ => simp [Form.binding] at bound
  | .stray _ :: _ => simp [Form.binding] at bound

/-- A keyword form between its brackets. -/
theorem expr_list {inLambda : Bool} {opener close span : Span} {keyword : Keyword} {rest : List Tree}
    {node : Node} (whole : Tree.areWhole rest)
    (keyed : Keyed inLambda opener close (symbol keyword.name span :: Tree.flattenAll rest) node) :
    (Tree.list opener (.atom span (.symbol keyword.name) :: rest) (.closing close)).isWhole ∧
      Expr inLambda
        (Tree.list opener (.atom span (.symbol keyword.name) :: rest) (.closing close)).flatten node :=
  ⟨by simpa [Tree.isWhole, Tree.areWhole] using whole, .keyed opener close keyed⟩

theorem areWhole_params (names : List Name) :
    Tree.areWhole (names.map fun name => .atom name.span (.symbol name.text)) := by
  induction names with
  | nil => rfl
  | cons name names ih => simpa [Tree.areWhole, Tree.isWhole] using ih

mutual

theorem expr_of_node (inLambda : Bool) : ∀ (tree : Tree) {node : Node},
    Form.node inLambda tree = .ok node → tree.isWhole ∧ Expr inLambda tree.flatten node
  | .stray _, _, read => by cases read
  | .atom span value, _, read => by
    cases read
    exact ⟨rfl, .atom span value⟩
  | .quote mark inner, _, read => by
    rw [Form.node, except_bind_eq_ok] at read
    obtain ⟨innerNode, here, made⟩ := read
    cases made
    obtain ⟨whole, derived⟩ := expr_of_node inLambda inner here
    exact ⟨whole, .quoted mark derived⟩
  | .list opener [] (.closing close), _, read => by
    cases read
    exact ⟨rfl, .unit opener close⟩
  | .list _ [] (.finish _), _, read => by cases read
  | .list opener (head :: rest) stop, node, read => by
    rw [Form.node.eq_def] at read
    cases key : Form.keyword? head with
    | none =>
      simp only [key, except_bind_eq_ok, closed_eq_ok] at read
      obtain ⟨callee, here, args, there, close, rfl, made⟩ := read
      cases made
      obtain ⟨headWhole, derivedHead⟩ := expr_of_node inLambda head here
      obtain ⟨restWhole, derivedRest⟩ := exprs_of_nodes inLambda rest there
      have derived := Expr.call opener close (keyword?_eq_none.1 key) derivedHead derivedRest
      refine ⟨by simp [Tree.isWhole, Tree.areWhole, headWhole, restWhole], ?_⟩
      simpa [Tree.flatten, Tree.flattenAll, Stop.kind, Stop.span] using derived
    | some found =>
      obtain ⟨keyword, span⟩ := found
      obtain rfl := keyword?_eq_some key
      cases keyword with
      | sequence =>
        simp only [key, except_bind_eq_ok, closed_eq_ok] at read
        obtain ⟨forms, there, close, rfl, made⟩ := read
        cases made
        obtain ⟨whole, derived⟩ := exprs_of_nodes inLambda rest there
        exact expr_list whole (.sequence span derived)
      | choice =>
        simp only [key, except_bind_eq_ok, closed_eq_ok] at read
        obtain ⟨parts, there, close, rfl, made⟩ := read
        obtain ⟨whole, derived⟩ := exprs_of_nodes inLambda rest there
        exact expr_list whole (keyed_ifNode derived made)
      | cases =>
        simp only [key, except_bind_eq_ok, closed_eq_ok] at read
        obtain ⟨found, there, close, rfl, made⟩ := read
        cases made
        obtain ⟨whole, derived⟩ := clauses_of_clauses inLambda rest there
        exact expr_list whole (keyed_condNode derived)
      | loop =>
        simp only [key, except_bind_eq_ok, closed_eq_ok] at read
        obtain ⟨forms, there, close, rfl, made⟩ := read
        obtain ⟨whole, derived⟩ := exprs_of_nodes inLambda rest there
        exact expr_list whole (keyed_loopNode derived made)
      | define =>
        simp only [key, except_bind_eq_ok] at read
        obtain ⟨⟨name, value, close⟩, bound, made⟩ := read
        cases made
        obtain ⟨tree, rfl, rfl, here⟩ := binding_eq_ok bound
        obtain ⟨whole, derived⟩ := expr_of_node inLambda tree here
        refine expr_list ?_ (.define span name ?_)
        · simp [Tree.areWhole, Tree.isWhole, whole]
        · simpa [Tree.flattenAll] using derived
      | assign =>
        simp only [key, except_bind_eq_ok] at read
        obtain ⟨⟨name, value, close⟩, bound, made⟩ := read
        cases made
        obtain ⟨tree, rfl, rfl, here⟩ := binding_eq_ok bound
        obtain ⟨whole, derived⟩ := expr_of_node inLambda tree here
        refine expr_list ?_ (.assign span name ?_)
        · simp [Tree.areWhole, Tree.isWhole, whole]
        · simpa [Tree.flattenAll] using derived
      | lambda =>
        cases rest with
        | nil => simp [key] at read
        | cons tree body =>
          cases tree with
          | list paramsOpener names paramsStop =>
            simp only [key, except_bind_eq_ok, closed_eq_ok, params_eq_ok] at read
            obtain ⟨params, ⟨rfl, distinct, -⟩, paramsClose, rfl, forms, there, close, rfl, made⟩ := read
            cases made
            obtain ⟨whole, derivedBody⟩ := exprs_of_nodes true body there
            have derived : Keyed inLambda opener close _ _ :=
              .lambda span paramsOpener paramsClose distinct derivedBody (documented_splitDoc forms)
                (body_ofBody _ _)
            refine expr_list ?_ ?_
            · simp [Tree.areWhole, Tree.isWhole, areWhole_params, whole]
            · simpa [Tree.flattenAll, Tree.flatten, flattenAll_params, Stop.kind, Stop.span, Keyword.name,
                Form.lambdaNode] using derived
          | _ => simp [key] at read
      | quote =>
        cases rest with
        | nil => simp [key] at read
        | cons tree others =>
          simp only [key, except_bind_eq_ok, closedAfter_eq_ok] at read
          obtain ⟨inner, here, close, ⟨rfl, rfl⟩, made⟩ := read
          cases made
          obtain ⟨whole, derived⟩ := expr_of_node inLambda tree here
          refine expr_list ?_ (.quote span ?_)
          · simp [Tree.areWhole, whole]
          · simpa [Tree.flattenAll] using derived
      | ret =>
        cases inLambda with
        | false => simp [key] at read
        | true =>
          simp only [key, if_true, except_bind_eq_ok, closed_eq_ok] at read
          obtain ⟨forms, there, close, rfl, made⟩ := read
          obtain ⟨whole, derived⟩ := exprs_of_nodes true rest there
          exact expr_list whole (keyed_retNode derived made)
termination_by tree => sizeOf tree

theorem exprs_of_nodes (inLambda : Bool) : ∀ (trees : List Tree) {nodes : List Node},
    Form.nodes inLambda trees = .ok nodes →
      Tree.areWhole trees ∧ Exprs inLambda (Tree.flattenAll trees) nodes
  | [], _, read => by
    cases read
    exact ⟨rfl, .nil⟩
  | tree :: rest, _, read => by
    simp only [Form.nodes, except_bind_eq_ok] at read
    obtain ⟨first, here, others, there, made⟩ := read
    cases made
    obtain ⟨wholeFirst, derivedFirst⟩ := expr_of_node inLambda tree here
    obtain ⟨wholeOthers, derivedOthers⟩ := exprs_of_nodes inLambda rest there
    exact ⟨by simp [Tree.areWhole, wholeFirst, wholeOthers], .cons derivedFirst derivedOthers⟩
termination_by trees => sizeOf trees

theorem clauses_of_clauses (inLambda : Bool) : ∀ (trees : List Tree)
    {found : List (Node × Node) × Option Node}, Form.clauses inLambda trees = .ok found →
      Tree.areWhole trees ∧ Clauses inLambda (Tree.flattenAll trees) found.1 found.2
  | [], _, read => by
    cases read
    exact ⟨rfl, .nil⟩
  | .list opener [] stop :: rest, found, read => by simp [Form.clauses, except_bind_eq_ok] at read
  | .list opener (head :: body) stop :: rest, found, read => by
    rw [Form.clauses.eq_def] at read
    cases isElse : Form.isElse head with
    | true =>
      simp only [isElse, if_true, except_bind_eq_ok, closed_eq_ok] at read
      obtain ⟨forms, there, close, rfl, made⟩ := read
      cases rest with
      | cons => cases made
      | nil =>
        cases made
        obtain ⟨span, rfl⟩ := leads_flatten.1 (isElse_iff.1 isElse)
        obtain ⟨whole, derivedBody⟩ := exprs_of_nodes inLambda body there
        have derived := Clauses.otherwise opener close span derivedBody (body_ofBody _ _)
        refine ⟨by simp [Tree.areWhole, Tree.isWhole, whole], ?_⟩
        simpa [Tree.flattenAll, Tree.flatten, Stop.kind, Stop.span, symbol] using derived
    | false =>
      have other : ¬ Leads "else" head.flatten := by simp [← isElse_iff, isElse]
      simp only [isElse, Bool.false_eq_true, if_false, except_bind_eq_ok, closed_eq_ok] at read
      obtain ⟨predicate, here, forms, there, close, rfl, others, later, made⟩ := read
      cases made
      obtain ⟨wholeHead, derivedHead⟩ := expr_of_node inLambda head here
      obtain ⟨wholeBody, derivedBody⟩ := exprs_of_nodes inLambda body there
      obtain ⟨wholeRest, derivedRest⟩ := clauses_of_clauses inLambda rest later
      have derived := Clauses.case opener close other derivedHead derivedBody (body_ofBody _ _) derivedRest
      refine ⟨by simp [Tree.areWhole, Tree.isWhole, wholeHead, wholeBody, wholeRest], ?_⟩
      simpa [Tree.flattenAll, Tree.flatten, Stop.kind, Stop.span] using derived
  | .atom _ _ :: _, _, read => by simp [Form.clauses] at read
  | .quote _ _ :: _, _, read => by simp [Form.clauses] at read
  | .stray _ :: _, _, read => by simp [Form.clauses] at read
termination_by trees => sizeOf trees

end

mutual

theorem node_of_expr {inLambda : Bool} {tokens : List Token} {node : Node} :
    Expr inLambda tokens node → ∃ tree, tree.flatten = tokens ∧ Form.node inLambda tree = .ok node
  | .atom span value => ⟨.atom span value, rfl, rfl⟩
  | .quoted mark derived => by
    obtain ⟨inner, rfl, read⟩ := node_of_expr derived
    refine ⟨.quote mark inner, rfl, ?_⟩
    rw [Form.node, read]
    rfl
  | .unit opener close => ⟨.list opener [] (.closing close), rfl, rfl⟩
  | .keyed opener close derived => by
    obtain ⟨items, rfl, read⟩ := node_of_keyed derived
    exact ⟨.list opener items (.closing close), rfl, read⟩
  | .call opener close other derived derivedArgs => by
    obtain ⟨head, rfl, read⟩ := node_of_expr derived
    obtain ⟨rest, rfl, readArgs⟩ := nodes_of_exprs derivedArgs
    refine ⟨.list opener (head :: rest) (.closing close), rfl, ?_⟩
    rw [Form.node.eq_def]
    simp only [keyword?_eq_none.2 other, read, readArgs]
    rfl

theorem node_of_keyed {inLambda : Bool} {opener close : Span} {tokens : List Token} {node : Node} :
    Keyed inLambda opener close tokens node → ∃ items, Tree.flattenAll items = tokens ∧
      Form.node inLambda (.list opener items (.closing close)) = .ok node
  | .sequence span derived => by
    obtain ⟨rest, rfl, read⟩ := nodes_of_exprs derived
    refine ⟨.atom span (.symbol "begin") :: rest, rfl, ?_⟩
    rw [Form.node.eq_def]
    simp only [read]
    rfl
  | .ifThen span derived => by
    obtain ⟨rest, rfl, read⟩ := nodes_of_exprs derived
    refine ⟨.atom span (.symbol "if") :: rest, rfl, ?_⟩
    rw [Form.node.eq_def]
    simp only [read]
    rfl
  | .ifThenElse span derived => by
    obtain ⟨rest, rfl, read⟩ := nodes_of_exprs derived
    refine ⟨.atom span (.symbol "if") :: rest, rfl, ?_⟩
    rw [Form.node.eq_def]
    simp only [read]
    rfl
  | .cond span derived => by
    obtain ⟨rest, rfl, read⟩ := clauses_of_derived derived
    refine ⟨.atom span (.symbol "cond") :: rest, rfl, ?_⟩
    rw [Form.node.eq_def]
    simp only [read]
    rfl
  | .condElse span derived => by
    obtain ⟨rest, rfl, read⟩ := clauses_of_derived derived
    refine ⟨.atom span (.symbol "cond") :: rest, rfl, ?_⟩
    rw [Form.node.eq_def]
    simp only [read]
    rfl
  | .condEmpty span => ⟨[.atom span (.symbol "cond")], rfl, rfl⟩
  | .loop span derived whole => by
    obtain ⟨rest, rfl, read⟩ := nodes_of_exprs derived
    obtain rfl := whole.eq_ofBody
    refine ⟨.atom span (.symbol "while") :: rest, rfl, ?_⟩
    rw [Form.node.eq_def]
    simp only [read]
    rfl
  | .define span name derived => by
    obtain ⟨tree, rfl, read⟩ := node_of_expr derived
    refine ⟨[.atom span (.symbol "define"), .atom name.span (.symbol name.text), tree],
      by simp [Tree.flattenAll, Tree.flatten, symbol], ?_⟩
    rw [Form.node.eq_def]
    simp only [Form.binding, read]
    rfl
  | .assign span name derived => by
    obtain ⟨tree, rfl, read⟩ := node_of_expr derived
    refine ⟨[.atom span (.symbol "set!"), .atom name.span (.symbol name.text), tree],
      by simp [Tree.flattenAll, Tree.flatten, symbol], ?_⟩
    rw [Form.node.eq_def]
    simp only [Form.binding, read]
    rfl
  | @Keyed.lambda _ _ _ span paramsOpener paramsClose params _ _ _ _ _ distinct derived documented whole => by
    obtain ⟨body, rfl, read⟩ := nodes_of_exprs derived
    let names : List Tree := params.map fun name => .atom name.span (.symbol name.text)
    refine ⟨.atom span (.symbol "lambda") :: .list paramsOpener names (.closing paramsClose) :: body, ?_, ?_⟩
    · simp [names, Tree.flattenAll, Tree.flatten, flattenAll_params, symbol, Stop.kind, Stop.span]
    · have readParams : Form.params [] names = .ok params := params_eq_ok.2 ⟨rfl, distinct, by simp⟩
      rw [← lambdaNode_eq documented whole, Form.node.eq_def]
      simp only [readParams, read]
      rfl
  | .quote span derived => by
    obtain ⟨tree, rfl, read⟩ := node_of_expr derived
    refine ⟨[.atom span (.symbol "quote"), tree], by simp [Tree.flattenAll, Tree.flatten, symbol], ?_⟩
    rw [Form.node.eq_def]
    simp only [read]
    rfl
  | .ret span => ⟨[.atom span (.symbol "return!")], rfl, rfl⟩
  | .retValue span derived => by
    obtain ⟨tree, rfl, read⟩ := node_of_expr derived
    refine ⟨[.atom span (.symbol "return!"), tree], by simp [Tree.flattenAll, Tree.flatten, symbol], ?_⟩
    rw [Form.node.eq_def]
    simp only [Form.nodes, read]
    rfl

theorem nodes_of_exprs {inLambda : Bool} {tokens : List Token} {nodes : List Node} :
    Exprs inLambda tokens nodes →
      ∃ trees, Tree.flattenAll trees = tokens ∧ Form.nodes inLambda trees = .ok nodes
  | .nil => ⟨[], rfl, rfl⟩
  | .cons first others => by
    obtain ⟨tree, rfl, read⟩ := node_of_expr first
    obtain ⟨trees, rfl, readOthers⟩ := nodes_of_exprs others
    refine ⟨tree :: trees, rfl, ?_⟩
    rw [Form.nodes, read, readOthers]
    rfl

theorem clauses_of_derived {inLambda : Bool} {tokens : List Token} {cases : List (Node × Node)}
    {otherwise : Option Node} : Clauses inLambda tokens cases otherwise →
      ∃ trees, Tree.flattenAll trees = tokens ∧ Form.clauses inLambda trees = .ok (cases, otherwise)
  | .nil => ⟨[], rfl, rfl⟩
  | .otherwise opener close span derived whole => by
    obtain ⟨body, rfl, read⟩ := nodes_of_exprs derived
    obtain rfl := whole.eq_ofBody
    refine ⟨[.list opener (.atom span (.symbol "else") :: body) (.closing close)], ?_, ?_⟩
    · simp [Tree.flattenAll, Tree.flatten, symbol, Stop.kind, Stop.span]
    · rw [Form.clauses.eq_def]
      simp only [Form.isElse, decide_true, if_true, read]
      rfl
  | .case opener close other derived derivedForms whole others => by
    obtain ⟨head, rfl, read⟩ := node_of_expr derived
    obtain ⟨body, rfl, readForms⟩ := nodes_of_exprs derivedForms
    obtain ⟨rest, rfl, readOthers⟩ := clauses_of_derived others
    obtain rfl := whole.eq_ofBody
    have notElse : Form.isElse head = false := by simpa [← isElse_iff] using other
    refine ⟨.list opener (head :: body) (.closing close) :: rest, ?_, ?_⟩
    · simp [Tree.flattenAll, Tree.flatten, Stop.kind, Stop.span]
    · rw [Form.clauses.eq_def]
      simp only [notElse, read, readForms, readOthers]
      rfl

end

theorem total_le_nodesOfTrees (src : Source) (trees : List Tree) (errors : Diagnostics) :
    errors.total ≤ (src.nodesOfTrees trees errors).2.total := by
  induction trees generalizing errors with
  | nil => exact Nat.le_refl _
  | cons tree rest ih =>
    unfold Source.nodesOfTrees
    split
    · exact Nat.le_refl _
    · split
      · exact ih errors
      · refine Nat.le_trans ?_ (ih _)
        exact Nat.le_succ _

theorem nodesOfTrees_of_nodes (src : Source) {trees : List Tree} {nodes : List Node}
    (read : Form.nodes false trees = .ok nodes) : src.nodesOfTrees trees .empty = (nodes, .empty) := by
  induction trees generalizing nodes with
  | nil =>
    cases read
    rfl
  | cons tree rest ih =>
    simp only [Form.nodes, except_bind_eq_ok] at read
    obtain ⟨first, here, others, there, made⟩ := read
    cases made
    have room : (Collector.empty : Diagnostics).isFull = false := rfl
    simp [Source.nodesOfTrees, room, here, ih there]

theorem nodes_of_nodesOfTrees (src : Source) {trees : List Tree}
    (clean : (src.nodesOfTrees trees .empty).2.hasErrors = false) :
    ∃ nodes, Form.nodes false trees = .ok nodes := by
  induction trees with
  | nil => exact ⟨[], rfl⟩
  | cons tree rest ih =>
    have room : (Collector.empty : Diagnostics).isFull = false := rfl
    cases read : Form.node false tree with
    | ok node =>
      simp only [Source.nodesOfTrees, room, read, Bool.false_eq_true, if_false] at clean
      obtain ⟨nodes, readRest⟩ := ih clean
      exact ⟨node :: nodes, by rw [Form.nodes, read, readRest]; rfl⟩
    | error failure =>
      simp only [Source.nodesOfTrees, room, read, Bool.false_eq_true, if_false] at clean
      have counted := total_le_nodesOfTrees src rest (Collector.empty.push
        (src.report failure.span failure.fault.code failure.fault.message))
      simp only [Collector.hasErrors, decide_eq_false_iff_not] at clean
      exact absurd (Nat.lt_of_lt_of_le (Nat.succ_pos _) counted) clean

/-- Reading finds what the grammar derives. -/
theorem nodesOfTokens_of_exprs (src : Source) {tokens : List Token} {nodes : List Node}
    (derived : Exprs false (tokens.takeWhile (·.kind ≠ .finish)) nodes) :
    src.nodesOfTokens tokens = (nodes, .empty) := by
  obtain ⟨trees, same, read⟩ := nodes_of_exprs derived
  have whole := (exprs_of_nodes false trees read).1
  rw [Source.nodesOfTokens, Tree.ofTokens_of_takeWhile whole same.symm]
  exact nodesOfTrees_of_nodes src read

/-- Reading accepts exactly the grammar: it reports no error if and only if the tokens before
the first end derive expressions, and these are then the nodes that it returns. -/
theorem nodesOfTokens_exact (src : Source) (tokens : List Token) :
    ((src.nodesOfTokens tokens).2.hasErrors = false ↔
      ∃ nodes, Exprs false (tokens.takeWhile (·.kind ≠ .finish)) nodes) ∧
    ∀ nodes, Exprs false (tokens.takeWhile (·.kind ≠ .finish)) nodes →
      src.nodesOfTokens tokens = (nodes, .empty) := by
  refine ⟨⟨?_, ?_⟩, fun nodes derived => nodesOfTokens_of_exprs src derived⟩
  · intro clean
    obtain ⟨nodes, read⟩ := nodes_of_nodesOfTrees src clean
    obtain ⟨whole, derived⟩ := exprs_of_nodes false _ read
    rw [Tree.flattenAll_ofTokens whole] at derived
    exact ⟨nodes, derived⟩
  · rintro ⟨nodes, derived⟩
    rw [nodesOfTokens_of_exprs src derived]
    rfl

end CheckedLisp.Grammar
