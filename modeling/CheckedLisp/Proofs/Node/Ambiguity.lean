import CheckedLisp.Proofs.Node.Extent

/-! A node that was read from tokens of its own kinds is unambiguous. The tokens and the kinds are
compared expression by expression: a callee that is a keyword, or a predicate that is `else`, would
stand where reading takes it for the start of a form. -/
namespace CheckedLisp

namespace Grammar

open Scan Node

section Counting

/-- How often the keyword `cond` stands among the kinds. -/
def conds (kinds : List Token.Kind) : Nat := kinds.count (word "cond")

@[simp] theorem conds_nil : conds [] = 0 := rfl

@[simp] theorem conds_append (first second : List Token.Kind) :
    conds (first ++ second) = conds first + conds second :=
  List.count_append

@[simp] theorem conds_cons (kind : Token.Kind) (kinds : List Token.Kind) :
    conds (kind :: kinds) = conds kinds + if kind = word "cond" then 1 else 0 := by
  simp [conds, List.count_cons]

@[simp] theorem conds_bracketed (parts : List (List Token.Kind)) :
    conds (bracketed parts) = conds parts.flatten := by
  simp [bracketed, word]

theorem map_kind_params (params : List Name) :
    (params.map fun name => symbol name.text name.span).map (·.kind) =
      (params.map fun name => [word name.text]).flatten := by
  induction params with
  | nil => rfl
  | cons name params ih => simpa [symbol, word] using ih

theorem conds_conditional (span : Span) (first : Node × Node) (cases : List (Node × Node)) (otherwise : Node) :
    conds (kinds (.conditional span (first :: cases) otherwise)) ≤
      1 + conds (caseKinds (first :: cases)).flatten + conds otherwise.kinds := by
  obtain ⟨predicate, body⟩ := first
  cases cases with
  | nil =>
    simp [kinds, caseKinds, word]
    omega
  | cons second cases =>
    rw [kinds]
    · simp only [conds_bracketed, List.flatten_cons, List.flatten_append, List.flatten_nil, conds_append,
        conds_cons, conds_nil, word, if_true, Token.Kind.atom.injEq, Atom.symbol.injEq, String.reduceEq, if_false]
      omega
    · rintro _ _ ⟨⟩

theorem conds_of_body {span : Span} {forms : List Node} {body : Node} (whole : Body span forms body) :
    conds body.kinds ≤ conds (kindsEach forms).flatten := by
  cases whole with
  | none => simp [kinds]
  | one => simp [kindsEach]
  | several => simp [kinds, word]

theorem conds_of_documented {forms rest : List Node} {doc : Option String}
    (documented : Documented forms doc rest) :
    conds (docKinds doc).flatten + conds (kindsEach rest).flatten ≤ conds (kindsEach forms).flatten := by
  cases documented with
  | doc => simp [docKinds, kindsEach, kinds, word]
  | plain => simp [docKinds]

mutual

/-- Writing out what was read adds no `cond`. -/
theorem conds_of_expr {inLambda : Bool} {tokens : List Token} {node : Node} :
    Expr inLambda tokens node → conds node.kinds ≤ conds (tokens.map (·.kind))
  | .atom span value => by simp [kinds]
  | .quoted mark derived => by
    have inner := conds_of_expr derived
    simpa [kinds, word] using inner
  | .unit opener close => by simp [kinds]
  | .keyed opener close derived => by
    have inner := conds_of_keyed derived
    simpa [word] using inner
  | .call opener close _ derived derivedArgs => by
    have head := conds_of_expr derived
    have rest := conds_of_exprs derivedArgs
    simp [kinds, word]
    omega

theorem conds_of_keyed {inLambda : Bool} {opener close : Span} {tokens : List Token} {node : Node} :
    Keyed inLambda opener close tokens node → conds node.kinds ≤ conds (tokens.map (·.kind))
  | .sequence span derived => by
    have forms := conds_of_exprs derived
    simpa [kinds, word, symbol] using forms
  | .ifThen span derived => by
    have parts := conds_of_exprs derived
    simpa [kinds, kindsEach, word, symbol] using parts
  | .ifThenElse span derived => by
    have parts := conds_of_exprs derived
    simpa [kinds, kindsEach, word, symbol] using parts
  | .cond span derived => by
    have parts := conds_of_clauses derived close
    refine Nat.le_trans (conds_conditional _ _ _ _) ?_
    simp [word, symbol]
    omega
  | .condElse span derived => by
    have body := conds_of_clauses derived close
    simp [caseKinds, word, symbol] at body ⊢
    omega
  | .condEmpty span => by simp [kinds]
  | .loop span derived whole => by
    have forms := conds_of_exprs derived
    have body := conds_of_body whole
    simp [kinds, kindsEach, word, symbol] at forms ⊢
    omega
  | .define span name derived | .assign span name derived => by
    have value := conds_of_expr derived
    simp [kinds, word, symbol]
    omega
  | .lambda span paramsOpener paramsClose _ derived documented whole => by
    have forms := conds_of_exprs derived
    have rest := conds_of_documented documented
    have body := conds_of_body whole
    simp only [kinds, List.map_cons, List.map_append, map_kind_params]
    simp [word, symbol]
    omega
  | .quote span derived => by
    have inner := conds_of_expr derived
    simpa [kinds, word, symbol] using inner
  | .ret span => by simp [kinds, word]
  | .retValue span derived => by
    have value := conds_of_expr derived
    simpa [kinds, word, symbol] using value

theorem conds_of_exprs {inLambda : Bool} {tokens : List Token} {nodes : List Node} :
    Exprs inLambda tokens nodes → conds (kindsEach nodes).flatten ≤ conds (tokens.map (·.kind))
  | .nil => by simp [kindsEach]
  | .cons first others => by
    have here := conds_of_expr first
    have there := conds_of_exprs others
    simp [kindsEach]
    omega

theorem conds_of_clauses {inLambda : Bool} {tokens : List Token} {cases : List (Node × Node)}
    {otherwise : Option Node} : Clauses inLambda tokens cases otherwise → ∀ close,
      conds (caseKinds cases).flatten + conds (otherwise.getD (.unit close)).kinds ≤ conds (tokens.map (·.kind))
  | .nil, _ => by simp [caseKinds, kinds]
  | .otherwise opener close span derived whole, _ => by
    have forms := conds_of_exprs derived
    have body := conds_of_body whole
    simp [caseKinds, word, symbol]
    omega
  | .case opener close _ derived derivedForms whole others, span => by
    have head := conds_of_expr derived
    have forms := conds_of_exprs derivedForms
    have body := conds_of_body whole
    have rest := conds_of_clauses others span
    simp [caseKinds, word]
    omega

end

end Counting

section Extent

variable {inLambda : Bool} {tokens : List Token} {rest rest' : List Token.Kind}

/-- Tokens of a row of nodes are of the kinds of these nodes only if the nodes are
unambiguous, and what stands behind does not matter. -/
def Row (tokens : List Token) (nodes : List Node) : Prop :=
  ∀ rest rest', tokens.map (·.kind) ++ rest = (kindsEach nodes).flatten ++ rest' →
    AllUnambiguous nodes ∧ rest = rest'

/-- The forms of a body are written as one form, so there was only one. -/
theorem unambiguous_of_body {span : Span} {forms : List Node} {body : Node} (whole : Body span forms body)
    (derived : Exprs inLambda tokens forms) (row : Row tokens forms)
    (same : tokens.map (·.kind) ++ .closing :: rest = body.kinds ++ .closing :: rest') :
    body.Unambiguous ∧ rest = rest' := by
  cases whole with
  | none =>
    cases derived
    cases same
  | one =>
    have ⟨unambiguous, left⟩ := row (.closing :: rest) (.closing :: rest') (by simpa [kindsEach] using same)
    exact ⟨unambiguous.1, List.tail_eq_of_cons_eq left⟩
  | several first second others =>
    rcases derived with _ | ⟨derivedFirst, _ | ⟨derivedSecond, _⟩⟩
    simp only [List.map_append, List.append_assoc] at same
    have ⟨_, left⟩ := (single_of_expr derivedFirst).cancel (single_kinds _) same
    exact absurd left (single_of_expr derivedSecond).append_ne_closing

theorem Row.tail {rest : List Token} {node : Node} {nodes : List Node}
    (row : Row (tokens ++ rest) (node :: nodes)) (here : OfKinds tokens node.kinds) : Row rest nodes := by
  intro more more' same
  have whole : (tokens ++ rest).map (·.kind) ++ more = (kindsEach (node :: nodes)).flatten ++ more' := by
    rw [List.map_append, List.append_assoc, here, same, kindsEach, List.flatten_cons, List.append_assoc]
  obtain ⟨unambiguous, left⟩ := row more more' whole
  exact ⟨unambiguous.2, left⟩

theorem unambiguous_of_documented {span : Span} {forms others : List Node} {doc : Option String} {body : Node}
    (documented : Documented forms doc others) (whole : Body span others body)
    (derived : Exprs inLambda tokens forms) (row : Row tokens forms)
    (same : tokens.map (·.kind) ++ [.closing] = (docKinds doc).flatten ++ (body.kinds ++ [.closing])) :
    body.Unambiguous := by
  cases documented with
  | plain => exact (unambiguous_of_body whole derived row same).1
  | doc place text form forms =>
    rcases derived with _ | ⟨first, derivedForms⟩
    simp only [List.map_append, List.append_assoc] at same
    have ⟨here, there⟩ := (single_of_expr first).cancel (single_atom (.string text)) same
    exact (unambiguous_of_body whole derivedForms (row.tail here) there).1

/-- What stands behind a keyword, up to the closing bracket. -/
theorem behind_keyword {text : String} {span : Span} {parts : List (List Token.Kind)}
    (same : .opening :: ((symbol text span :: tokens).map (·.kind) ++ [.closing]) =
      bracketed ([word text] :: parts)) :
    OfKinds tokens parts.flatten :=
  List.append_cancel_right (List.tail_eq_of_cons_eq (List.tail_eq_of_cons_eq same))

theorem behind_cond {span place : Span} {first : Node × Node} {cases : List (Node × Node)} {otherwise : Node}
    (same : .opening :: ((symbol "cond" span :: tokens).map (·.kind) ++ [.closing]) =
      kinds (.conditional place (first :: cases) otherwise)) :
    tokens.map (·.kind) =
      (caseKinds (first :: cases)).flatten ++ bracketed [[word "else"], otherwise.kinds] := by
  cases cases with
  | nil => simp [kinds, bracketed, symbol, word] at same
  | cons second cases => simpa [OfKinds] using behind_keyword same

theorem behind_params {span paramsOpener paramsClose place : Span} {params : List Name} {doc : Option String}
    {body : Node}
    (same : .opening :: ((symbol "lambda" span :: ⟨.opening, paramsOpener⟩ ::
        (params.map (fun name => symbol name.text name.span) ++
          ⟨.closing, paramsClose⟩ :: tokens)).map (·.kind) ++ [.closing]) =
      kinds (.lambda place params doc body)) :
    tokens.map (·.kind) = (docKinds doc).flatten ++ body.kinds := by
  have inside := behind_keyword same
  simp only [OfKinds, List.map_cons, List.map_append, map_kind_params] at inside
  simpa [bracketed] using inside

end Extent

mutual

/-- A node is unambiguous when it was read from tokens of its own kinds. -/
theorem unambiguous_of_expr {inLambda : Bool} {tokens : List Token} {node : Node} :
    Expr inLambda tokens node → OfKinds tokens node.kinds → node.Unambiguous
  | .atom span value, _ => trivial
  | .quoted mark derived, same => by
    simp [OfKinds, kinds, bracketed] at same
  | .unit opener close, _ => trivial
  | .keyed opener close derived, same => unambiguous_of_keyed derived (by simpa [OfKinds] using same)
  | .call opener close other derived derivedArgs, same => by
    simp only [OfKinds, kinds, bracketed, List.map_cons, List.map_append, List.map_nil, List.flatten_cons,
      List.append_assoc, List.cons.injEq, true_and] at same
    obtain ⟨head, args⟩ := (single_of_expr derived).cancel (single_kinds _) same
    refine ⟨?_, unambiguous_of_expr derived head, (row_of_exprs derivedArgs _ _ args).1⟩
    intro keyword named
    obtain ⟨span, rfl⟩ := symbol?_eq_some.1 named
    obtain ⟨place, rfl⟩ := exists_symbol head
    exact other keyword ⟨place, rfl⟩

/-- The body of an `else` clause alone would be written with the `cond` that it was read without. -/
theorem unambiguous_of_keyed {inLambda : Bool} {opener close : Span} {tokens : List Token} {node : Node} :
    Keyed inLambda opener close tokens node → .opening :: (tokens.map (·.kind) ++ [.closing]) = node.kinds →
      node.Unambiguous
  | .sequence span derived, same => by
    have inside := behind_keyword same
    exact (row_of_exprs derived [] [] (by simpa [OfKinds] using inside)).1
  | .ifThen span derived, same => by
    have inside := behind_keyword same
    obtain ⟨⟨predicate, body, _⟩, _⟩ := row_of_exprs derived [] (kinds (.unit close))
      (by simpa [OfKinds, kindsEach] using inside)
    exact ⟨by simp, ⟨predicate, body, trivial⟩, trivial⟩
  | .ifThenElse span derived, same => by
    have inside := behind_keyword same
    obtain ⟨⟨predicate, body, otherwise, _⟩, _⟩ := row_of_exprs derived [] []
      (by simpa [OfKinds, kindsEach] using inside)
    exact ⟨by simp, ⟨predicate, body, trivial⟩, otherwise⟩
  | .cond span derived, same => by
    have inside := congrArg (· ++ [Token.Kind.closing]) (behind_cond same)
    have ⟨each, plain, last⟩ := unambiguous_of_clauses derived close (by simpa using inside)
    exact ⟨fun _ => plain, each, last⟩
  | .condElse span derived, same => by
    have fewer := conds_of_clauses derived close
    have equal := congrArg conds same
    simp [caseKinds, symbol, word] at fewer equal
    omega
  | .condEmpty span, _ => trivial
  | .loop span (.cons derivedPredicate derivedForms) whole, same => by
    have inside := behind_keyword same
    simp only [OfKinds, List.map_append, List.flatten_cons, List.flatten_nil, List.append_nil] at inside
    obtain ⟨predicate, body⟩ := (single_of_expr derivedPredicate).cancel (single_kinds _) inside
    have closed := congrArg (· ++ [Token.Kind.closing]) body
    exact ⟨unambiguous_of_expr derivedPredicate predicate,
      (unambiguous_of_body whole derivedForms (row_of_exprs derivedForms) closed).1⟩
  | .define span name derived, same | .assign span name derived, same => by
    have inside := List.tail_eq_of_cons_eq (behind_keyword same)
    rw [Unambiguous]
    exact unambiguous_of_expr derived (by simpa [OfKinds] using inside)
  | .lambda span paramsOpener paramsClose _ derived documented whole, same => by
    have inside := behind_params same
    rw [Unambiguous]
    refine unambiguous_of_documented documented whole derived (row_of_exprs derived) ?_
    rw [inside, List.append_assoc]
  | .quote span derived, same => by
    have inside := behind_keyword same
    rw [Unambiguous]
    exact unambiguous_of_expr derived (by simpa using inside)
  | .ret span, _ => trivial
  | .retValue span derived, same => by
    have inside := behind_keyword same
    rw [Unambiguous]
    exact unambiguous_of_expr derived (by simpa using inside)

theorem row_of_exprs {inLambda : Bool} {tokens : List Token} {nodes : List Node} :
    Exprs inLambda tokens nodes → Row tokens nodes
  | .nil, rest, rest', same => ⟨trivial, same⟩
  | .cons first others, rest, rest', same => by
    simp only [kindsEach, List.map_append, List.flatten_cons, List.append_assoc] at same
    obtain ⟨here, there⟩ := (single_of_expr first).cancel (single_kinds _) same
    obtain ⟨unambiguous, left⟩ := row_of_exprs others rest rest' there
    exact ⟨⟨unambiguous_of_expr first here, unambiguous⟩, left⟩

theorem unambiguous_of_clauses {inLambda : Bool} {tokens : List Token} {cases : List (Node × Node)}
    {otherwise : Option Node} : Clauses inLambda tokens cases otherwise → ∀ close,
      tokens.map (·.kind) ++ [.closing] = (caseKinds cases).flatten ++
        (bracketed [[word "else"], (otherwise.getD (.unit close)).kinds] ++ [.closing]) →
      CasesUnambiguous cases ∧ (∀ case ∈ cases, case.1.symbol? ≠ some "else") ∧
        (otherwise.getD (.unit close)).Unambiguous
  | .nil, close, same => by cases same
  | .otherwise opener close span derived whole, _, same => by
    simp only [caseKinds, bracketed, symbol, List.map_cons, List.map_append, List.map_nil, List.flatten_nil,
      List.flatten_cons, List.append_nil, List.nil_append, List.append_assoc, List.cons_append] at same
    have inside := List.tail_eq_of_cons_eq (List.tail_eq_of_cons_eq same)
    have body := (unambiguous_of_body whole derived (row_of_exprs derived) inside).1
    exact ⟨trivial, by simp, body⟩
  | .case opener close other derived derivedForms whole others, span, same => by
    simp only [caseKinds, bracketed, List.map_cons, List.map_append, List.flatten_nil, List.flatten_cons,
      List.append_nil, List.append_assoc, List.cons_append, List.nil_append] at same
    have ⟨head, behind⟩ := (single_of_expr derived).cancel (single_kinds _) (List.tail_eq_of_cons_eq same)
    have ⟨body, left⟩ := unambiguous_of_body whole derivedForms (row_of_exprs derivedForms) behind
    have ⟨cases, plain, last⟩ := unambiguous_of_clauses others span (by simpa [bracketed] using left)
    refine ⟨⟨unambiguous_of_expr derived head, body, cases⟩, List.forall_mem_cons.2 ⟨?_, plain⟩, last⟩
    intro named
    obtain ⟨place, rfl⟩ := symbol?_eq_some.1 named
    obtain ⟨span, rfl⟩ := exists_symbol head
    exact other ⟨span, rfl⟩

end

end Grammar

end CheckedLisp
