import CheckedLisp.Proofs.Node.Salvage
import CheckedLisp.Proofs.Token.Placement

/-! A node is read from tokens that stand one behind the other. Its span does not leave them, and it
takes in the spans of all that was read between the same brackets: of the nodes below it, of the
names that it binds and of the nodes that no token stands for. -/
namespace CheckedLisp

namespace Span

/-- The inner span does not leave the outer one. -/
def Contains (outer inner : Span) : Prop := outer.start ≤ inner.start ∧ inner.stop ≤ outer.stop

theorem Contains.trans {a b c : Span} (first : a.Contains b) (second : b.Contains c) : a.Contains c :=
  ⟨Position.le_trans first.1 second.1, Position.le_trans second.2 first.2⟩

theorem Contains.refl (span : Span) : span.Contains span := ⟨Position.le_refl _, Position.le_refl _⟩

theorem merge_eq {a b : Span} (start : a.start ≤ b.start) (stop : a.stop ≤ b.stop) :
    a.merge b = ⟨a.start, b.stop⟩ := by
  simp only [merge, min, max, if_pos start, if_pos stop]

end Span

namespace Node

def caseNodes (cases : List (Node × Node)) : List Node :=
  cases.flatMap fun (predicate, body) => [predicate, body]

/-- The nodes directly below a node. -/
def children : Node → List Node
  | unit _ | atom _ _ => []
  | block _ forms => forms
  | call _ callee args => callee :: args
  | conditional _ cases otherwise => caseNodes cases ++ [otherwise]
  | loop _ predicate body => [predicate, body]
  | define _ _ inner | assign _ _ inner | lambda _ _ _ inner | quote _ inner | ret _ inner => [inner]

/-- The names that a node binds or sets. -/
def names : Node → List Name
  | define _ name _ | assign _ name _ => [name]
  | lambda _ params _ _ => params
  | _ => []

/-- `Descends node inner`: `inner` is the node or stands somewhere below it. -/
inductive Descends (node : Node) : Node → Prop
  | here : Descends node node
  | child {outer inner} (above : Descends node outer) (below : inner ∈ outer.children) : Descends node inner

/-- Everywhere below the node, spans contain what stands directly below them. -/
inductive Nested : Node → Prop
  | intro {node} (forward : node.span.start ≤ node.span.stop)
    (binds : ∀ name ∈ node.names, node.span.Contains name.span)
    (covers : ∀ child ∈ node.children, node.span.Contains child.span)
    (each : ∀ child ∈ node.children, Nested child) : Nested node

theorem Nested.descends {node inner : Node} (nested : Nested node) (descends : Descends node inner) :
    Nested inner ∧ node.span.Contains inner.span := by
  induction descends with
  | here => exact ⟨nested, .refl _⟩
  | child _ below ih =>
    obtain ⟨⟨_, _, covers, each⟩, contains⟩ := ih
    exact ⟨each _ below, contains.trans (covers _ below)⟩

end Node

namespace Grammar

open Lexical Node

/-- The span starts and ends among the tokens. -/
def Among (tokens : List Token) (span : Span) : Prop :=
  ∃ first ∈ tokens, ∃ last ∈ tokens, first.span.start ≤ span.start ∧ span.stop ≤ last.span.stop

/-- The node was read from the tokens, as far as spans can say. -/
def Placed (tokens : List Token) (node : Node) : Prop := Nested node ∧ Among tokens node.span

/-- Tokens between brackets. -/
def enclosed (opener close : Span) (tokens : List Token) : List Token :=
  (⟨.opening, opener⟩ :: tokens) ++ [⟨.closing, close⟩]

section Tokens

variable {tokens more : List Token} {node : Node}

theorem among_of_mem {token : Token} (inside : token ∈ tokens) : Among tokens token.span :=
  ⟨token, inside, token, inside, Position.le_refl _, Position.le_refl _⟩

theorem among_name {name : Name} (inside : symbol name.text name.span ∈ tokens) : Among tokens name.span :=
  among_of_mem inside

theorem Placed.mono (placed : Placed tokens node) (subset : tokens ⊆ more) : Placed more node := by
  obtain ⟨nested, first, inside, last, inside', start, stop⟩ := placed
  exact ⟨nested, first, subset inside, last, subset inside', start, stop⟩

/-- What is placed among some of the tokens is placed among all of them. -/
theorem placed_of_sublist (ordered : Ordered more) (sublist : tokens.Sublist more)
    (placed : Ordered tokens → Placed tokens node) : Placed more node :=
  (placed (ordered.sublist sublist)).mono sublist.subset

theorem all_placed_of_sublist {nodes : List Node} (ordered : Ordered more) (sublist : tokens.Sublist more)
    (placed : Ordered tokens → ∀ node ∈ nodes, Placed tokens node) : ∀ node ∈ nodes, Placed more node :=
  fun node inside => placed_of_sublist ordered sublist fun ordered => placed ordered node inside

/-- A node with the span of one token and nothing below it. -/
theorem placed_of_mem {token : Token} (ordered : Ordered tokens) (inside : token ∈ tokens)
    (same : node.span = token.span) (names : node.names = []) (children : node.children = []) :
    Placed tokens node := by
  rw [Placed, same]
  refine ⟨.intro ?_ (by simp [names]) (by simp [children]) (by simp [children]), among_of_mem inside⟩
  rw [same]
  exact ordered.forward token inside

theorem placed_unit {token : Token} (ordered : Ordered tokens) (inside : token ∈ tokens) :
    Placed tokens (.unit token.span) :=
  placed_of_mem ordered inside rfl rfl rfl

theorem sublist_enclosed (opener close : Span) (tokens : List Token) :
    tokens.Sublist (enclosed opener close tokens) :=
  (List.sublist_append_left tokens _).cons _

theorem sublist_enclosed_cons (opener close : Span) (token : Token) (tokens : List Token) :
    tokens.Sublist (enclosed opener close (token :: tokens)) :=
  (List.sublist_cons_self token tokens).trans (sublist_enclosed opener close _)

end Tokens

section Brackets

variable {tokens : List Token} {opener close : Span} {node : Node}

theorem opening_mem_enclosed : ⟨.opening, opener⟩ ∈ enclosed opener close tokens := by simp [enclosed]

theorem closing_mem_enclosed : ⟨.closing, close⟩ ∈ enclosed opener close tokens := by simp [enclosed]

theorem merge_enclosed (ordered : Ordered (enclosed opener close tokens)) :
    opener.merge close = ⟨opener.start, close.stop⟩ :=
  Span.merge_eq (ordered.start_le closing_mem_enclosed) (ordered.stop_le opening_mem_enclosed)

theorem contains_enclosed (ordered : Ordered (enclosed opener close tokens)) {span : Span}
    (among : Among (enclosed opener close tokens) span) : (opener.merge close).Contains span := by
  obtain ⟨first, inside, last, inside', start, stop⟩ := among
  rw [merge_enclosed ordered]
  exact ⟨Position.le_trans (ordered.start_le inside) start, Position.le_trans stop (ordered.stop_le inside')⟩

/-- A node with the span of its brackets is placed if what stands between them is. -/
theorem placed_enclosed (ordered : Ordered (enclosed opener close tokens)) (same : node.span = opener.merge close)
    (names : ∀ name ∈ node.names, Among (enclosed opener close tokens) name.span)
    (children : ∀ child ∈ node.children, Placed (enclosed opener close tokens) child) :
    Placed (enclosed opener close tokens) node := by
  have whole := merge_enclosed ordered
  refine ⟨.intro ?_ ?_ ?_ ?_, ⟨_, opening_mem_enclosed, _, closing_mem_enclosed, ?_⟩⟩
  · rw [same, whole]
    exact Position.le_trans (ordered.start_le closing_mem_enclosed) (ordered.forward _ closing_mem_enclosed)
  · intro name inside
    rw [same]
    exact contains_enclosed ordered (names name inside)
  · intro child inside
    rw [same]
    exact contains_enclosed ordered (children child inside).2
  · exact fun child inside => (children child inside).1
  · rw [same, whole]
    exact ⟨Position.le_refl _, Position.le_refl _⟩

theorem placed_body (ordered : Ordered (enclosed opener close tokens)) {forms : List Node} {body : Node}
    (each : ∀ form ∈ forms, Placed (enclosed opener close tokens) form)
    (whole : Body (opener.merge close) forms body) : Placed (enclosed opener close tokens) body := by
  cases whole with
  | none => exact placed_enclosed ordered rfl (by simp [Node.names]) (by simp [Node.children])
  | one => exact each _ (by simp)
  | several => exact placed_enclosed ordered rfl (by simp [Node.names]) each

/-- A quote mark widens the span of what it quotes. -/
theorem placed_quoted {mark : Span} (ordered : Ordered (⟨.quote, mark⟩ :: tokens)) (placed : Placed tokens node) :
    Placed (⟨.quote, mark⟩ :: tokens) (.quote (mark.merge node.span) node) := by
  obtain ⟨nested, first, inside, last, inside', start, stop⟩ := placed
  have forward : node.span.start ≤ node.span.stop := by
    cases nested with
    | intro forward => exact forward
  have behind : mark.start ≤ node.span.start :=
    Position.le_trans (ordered.start_le (List.mem_cons_of_mem _ inside)) start
  have apart := (List.pairwise_cons.1 ordered.apart).1 first inside
  have ends : mark.stop ≤ node.span.stop :=
    Position.le_trans (Position.le_trans (Position.le_of_lt apart) start) forward
  rw [Span.merge_eq behind ends]
  refine ⟨.intro ?_ (by simp [Node.names]) ?_ ?_,
    _, List.mem_cons_self, last, List.mem_cons_of_mem _ inside', Position.le_refl _, stop⟩
  · exact Position.le_trans behind forward
  · simp only [Node.children, List.mem_singleton, forall_eq]
    exact ⟨behind, Position.le_refl _⟩
  · simpa only [Node.children, List.mem_singleton, forall_eq] using nested

end Brackets

theorem forall_mem_documented {forms rest : List Node} {doc : Option String} {P : Node → Prop}
    (documented : Documented forms doc rest) (each : ∀ form ∈ forms, P form) : ∀ form ∈ rest, P form := by
  cases documented with
  | doc => exact fun form inside => each form (List.mem_cons_of_mem _ inside)
  | plain => exact each

mutual

theorem placed_of_expr {inLambda : Bool} {tokens : List Token} {node : Node} :
    Expr inLambda tokens node → Ordered tokens → Placed tokens node
  | .atom span value, ordered => placed_of_mem ordered List.mem_cons_self rfl rfl rfl
  | .quoted mark derived, ordered =>
    placed_quoted ordered (placed_of_expr derived (ordered.sublist (List.sublist_cons_self _ _)))
  | .unit opener close, ordered => by
    have ordered : Ordered (enclosed opener close []) := ordered
    exact placed_enclosed ordered rfl (by simp [names]) (by simp [children])
  | .keyed opener close derived, ordered => placed_of_keyed derived ordered
  | @Expr.call _ opener close head rest callee args _ derived derivedArgs, ordered => by
    have ordered : Ordered (enclosed opener close (head ++ rest)) := ordered
    have inside := sublist_enclosed opener close (head ++ rest)
    refine placed_enclosed ordered rfl (by simp [names]) (List.forall_mem_cons.2 ⟨?_, ?_⟩)
    · exact placed_of_sublist ordered ((List.sublist_append_left _ _).trans inside) (placed_of_expr derived)
    · exact all_placed_of_sublist ordered ((List.sublist_append_right _ _).trans inside)
        (placed_of_exprs derivedArgs)

/-- A `cond` with nothing but an `else` clause is the body of that clause: its span may be shorter
than the form, never longer. -/
theorem placed_of_keyed {inLambda : Bool} {tokens : List Token} {opener close : Span} {node : Node} :
    Keyed inLambda opener close tokens node → Ordered (enclosed opener close tokens) →
      Placed (enclosed opener close tokens) node
  | .sequence span derived, ordered =>
    placed_enclosed ordered rfl (by simp [names])
      (all_placed_of_sublist ordered (sublist_enclosed_cons _ _ _ _) (placed_of_exprs derived))
  | .ifThen span derived, ordered => by
    have each := all_placed_of_sublist ordered (sublist_enclosed_cons _ _ _ _) (placed_of_exprs derived)
    have otherwise := placed_unit ordered closing_mem_enclosed
    exact placed_enclosed ordered rfl (by simp [names])
      (List.forall_mem_append.2 ⟨each, List.forall_mem_singleton.2 otherwise⟩)
  | .ifThenElse span derived, ordered =>
    placed_enclosed ordered rfl (by simp [names])
      (all_placed_of_sublist ordered (sublist_enclosed_cons _ _ _ _) (placed_of_exprs derived))
  | @Keyed.cond _ _ _ span _ _ _ otherwise derived, ordered => by
    have each := all_placed_of_sublist ordered (sublist_enclosed_cons _ _ _ _) (placed_of_clauses derived)
    obtain ⟨cases, last⟩ := List.forall_mem_append.1 each
    refine placed_enclosed ordered rfl (by simp [names])
      (List.forall_mem_append.2 ⟨cases, List.forall_mem_singleton.2 ?_⟩)
    cases otherwise with
    | none => exact placed_unit ordered closing_mem_enclosed
    | some body => exact last body (by simp)
  | .condElse span derived, ordered => by
    have each := all_placed_of_sublist ordered (sublist_enclosed_cons _ _ _ _) (placed_of_clauses derived)
    exact each _ (by simp)
  | .condEmpty span, ordered => placed_enclosed ordered rfl (by simp [names]) (by simp [children])
  | .loop span derived whole, ordered => by
    have each := all_placed_of_sublist ordered (sublist_enclosed_cons _ _ _ _) (placed_of_exprs derived)
    obtain ⟨predicate, forms⟩ := List.forall_mem_cons.1 each
    have body := placed_body ordered forms whole
    exact placed_enclosed ordered rfl (by simp [names])
      (List.forall_mem_cons.2 ⟨predicate, List.forall_mem_singleton.2 body⟩)
  | .define span name derived, ordered | .assign span name derived, ordered => by
    have value := placed_of_sublist ordered ((List.sublist_cons_self _ _).trans (sublist_enclosed_cons _ _ _ _))
      (placed_of_expr derived)
    refine placed_enclosed ordered rfl (List.forall_mem_singleton.2 ?_) (List.forall_mem_singleton.2 value)
    exact among_name (by simp [enclosed])
  | @Keyed.lambda _ opener close span paramsOpener paramsClose params tokens _ _ _ _ _ derived documented whole,
      ordered => by
    have behind := (List.sublist_cons_self ⟨.closing, paramsClose⟩ tokens).trans
      (List.sublist_append_right (params.map fun name => symbol name.text name.span) _)
    have each := all_placed_of_sublist ordered ((behind.cons _).trans (sublist_enclosed_cons _ _ _ _))
      (placed_of_exprs derived)
    have body := placed_body ordered (forall_mem_documented documented each) whole
    refine placed_enclosed ordered rfl ?_ (List.forall_mem_singleton.2 body)
    intro name (inside : name ∈ params)
    have token : symbol name.text name.span ∈ params.map fun name => symbol name.text name.span :=
      List.mem_map_of_mem inside
    exact among_name (by simp only [enclosed, List.mem_cons, List.mem_append, token, true_or, or_true])
  | .quote span derived, ordered =>
    placed_enclosed ordered rfl (by simp [names]) (List.forall_mem_singleton.2
      (placed_of_sublist ordered (sublist_enclosed_cons _ _ _ _) (placed_of_expr derived)))
  | .ret span, ordered => by
    have value := placed_body ordered (by simp) .none
    exact placed_enclosed ordered rfl (by simp [names]) (List.forall_mem_singleton.2 value)
  | .retValue span derived, ordered =>
    placed_enclosed ordered rfl (by simp [names]) (List.forall_mem_singleton.2
      (placed_of_sublist ordered (sublist_enclosed_cons _ _ _ _) (placed_of_expr derived)))

theorem placed_of_exprs {inLambda : Bool} {tokens : List Token} {nodes : List Node} :
    Exprs inLambda tokens nodes → Ordered tokens → ∀ node ∈ nodes, Placed tokens node
  | .nil, _ => by simp
  | .cons first others, ordered =>
    List.forall_mem_cons.2
      ⟨placed_of_sublist ordered (List.sublist_append_left _ _) (placed_of_expr first),
        all_placed_of_sublist ordered (List.sublist_append_right _ _) (placed_of_exprs others)⟩

/-- The cases of a `cond` and the body of its `else` clause are among its clauses. A body that
stands for several forms has the span of its own clause, not of the `cond`. -/
theorem placed_of_clauses {inLambda : Bool} {tokens : List Token} {cases : List (Node × Node)}
    {otherwise : Option Node} : Clauses inLambda tokens cases otherwise → Ordered tokens →
      ∀ node ∈ caseNodes cases ++ otherwise.toList, Placed tokens node
  | .nil, _ => by simp [caseNodes]
  | @Clauses.otherwise _ opener close span tokens forms body derived whole, ordered => by
    have ordered : Ordered (enclosed opener close (symbol "else" span :: tokens)) := ordered
    have each := all_placed_of_sublist ordered (sublist_enclosed_cons _ _ _ _) (placed_of_exprs derived)
    exact List.forall_mem_singleton.2 (placed_body ordered each whole)
  | @Clauses.case _ opener close head tokens rest _ _ _ _ _ _ derived derivedForms whole others, ordered => by
    have clause : (enclosed opener close (head ++ tokens)).Sublist
        (⟨.opening, opener⟩ :: (head ++ tokens ++ ⟨.closing, close⟩ :: rest)) := by
      simp [enclosed]
    have behind : rest.Sublist (⟨.opening, opener⟩ :: (head ++ tokens ++ ⟨.closing, close⟩ :: rest)) :=
      ((List.sublist_cons_self _ _).trans (List.sublist_append_right _ _)).cons _
    have inside := sublist_enclosed opener close (head ++ tokens)
    have within := ordered.sublist clause
    have first := placed_of_sublist within ((List.sublist_append_left _ _).trans inside) (placed_of_expr derived)
    have each := all_placed_of_sublist within ((List.sublist_append_right _ _).trans inside)
      (placed_of_exprs derivedForms)
    have second := placed_body within each whole
    exact List.forall_mem_cons.2 ⟨first.mono clause.subset, List.forall_mem_cons.2 ⟨second.mono clause.subset,
      all_placed_of_sublist ordered behind (placed_of_clauses others)⟩⟩

end

theorem lt_of_among {front back : List Token} {first second : Span} (ordered : Ordered (front ++ back))
    (among : Among front first) (among' : Among back second) : first.stop < second.start := by
  obtain ⟨_, _, last, inside, _, stop⟩ := among
  obtain ⟨lead, inside', _, _, start, _⟩ := among'
  have apart := (List.pairwise_append.1 ordered.apart).2.2 last inside lead inside'
  exact Position.lt_of_lt_of_le (Position.lt_of_le_of_lt stop apart) start

theorem pairwise_of_exprs {inLambda : Bool} {tokens : List Token} {nodes : List Node} :
    Exprs inLambda tokens nodes → Ordered tokens →
      nodes.Pairwise fun first second => first.span.stop < second.span.start
  | .nil, _ => .nil
  | .cons first others, ordered => by
    have behind := ordered.sublist (List.sublist_append_right _ _)
    have here := placed_of_expr first (ordered.sublist (List.sublist_append_left _ _))
    have there := placed_of_exprs others behind
    refine .cons ?_ (pairwise_of_exprs others behind)
    exact fun later inside => lt_of_among ordered here.2 (there later inside).2

end Grammar

/-- With or without errors, the span of every node of a source contains the spans of all nodes
below it and of the names that it binds, and top-level nodes stand one behind the other. -/
theorem Source.spans_nest (src : Source) :
    (∀ top ∈ (src.nodesOfTokens src.tokens.1).1, ∀ node, top.Descends node →
      node.span.start ≤ node.span.stop ∧ (∀ inner, node.Descends inner → node.span.Contains inner.span) ∧
        ∀ name ∈ node.names, node.span.Contains name.span) ∧
    (src.nodesOfTokens src.tokens.1).1.Pairwise fun first second => first.span.stop < second.span.start := by
  obtain ⟨used, sublist, derived⟩ := Grammar.exists_sublist_exprs src src.tokens.1
  have ordered := (Lexical.ordered_tokens src).sublist sublist
  refine ⟨?_, Grammar.pairwise_of_exprs derived ordered⟩
  intro top member node descends
  obtain ⟨nested, -⟩ := (Grammar.placed_of_exprs derived ordered top member).1.descends descends
  have below : ∀ inner, node.Descends inner → node.span.Contains inner.span :=
    fun inner descends => (nested.descends descends).2
  obtain ⟨forward, binds, -, -⟩ := nested
  exact ⟨forward, below, binds⟩

end CheckedLisp
