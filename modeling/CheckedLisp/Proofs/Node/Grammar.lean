import CheckedLisp.Node.Parse
import CheckedLisp.Proofs.Node.Bracketing

/-! The grammar of programs,

    Expr   = atom | ' Expr | ( ) | ( Keyed ) | ( Expr Expr* )
    Keyed  = begin Expr* | if Expr Expr Expr? | cond Clauses | while Expr Expr*
           | define symbol Expr | set! symbol Expr | lambda ( symbol* ) string? Expr*
           | quote Expr | return! Expr?

as relations between the tokens of an expression and its node. Reading tokens gives a node exactly
when the grammar derives it from them. -/
namespace CheckedLisp.Grammar

def symbol (text : String) (span : Span) : Token := ⟨.atom (.symbol text), span⟩

/-- The first token is the symbol `text`. -/
def Leads (text : String) (tokens : List Token) : Prop :=
  ∃ span, tokens.head? = some (symbol text span)

/-- Several forms as one node. -/
inductive Body (span : Span) : List Node → Node → Prop
  | none : Body span [] (.unit span)
  | one (form : Node) : Body span [form] form
  | several (first second : Node) (others : List Node) :
    Body span (first :: second :: others) (.block span (first :: second :: others))

/-- The doc string of the forms of a function, and the forms without it. -/
inductive Documented : List Node → Option String → List Node → Prop
  | doc (span : Span) (text : String) (form : Node) (forms : List Node) :
    Documented (.atom span (.string text) :: form :: forms) (some text) (form :: forms)
  | plain {forms : List Node} (other : ∀ span text form rest,
      forms ≠ .atom span (.string text) :: form :: rest) :
    Documented forms none forms

mutual

/-- `Expr inLambda tokens node`: inside a lambda body or not, the tokens derive the node. -/
inductive Expr : Bool → List Token → Node → Prop
  | atom {inLambda} (span value) : Expr inLambda [⟨.atom value, span⟩] (.atom span value)
  | quoted {inLambda} (mark) {tokens inner} (derived : Expr inLambda tokens inner) :
    Expr inLambda (⟨.quote, mark⟩ :: tokens) (.quote (mark.merge inner.span) inner)
  | unit {inLambda} (opener close) :
    Expr inLambda [⟨.opening, opener⟩, ⟨.closing, close⟩] (.unit (opener.merge close))
  | keyed {inLambda} (opener close) {tokens node} (derived : Keyed inLambda opener close tokens node) :
    Expr inLambda (⟨.opening, opener⟩ :: (tokens ++ [⟨.closing, close⟩])) node
  | call {inLambda} (opener close) {head rest callee args}
    (other : ∀ keyword : Keyword, ¬ Leads keyword.name head) (derived : Expr inLambda head callee)
    (derivedArgs : Exprs inLambda rest args) :
    Expr inLambda (⟨.opening, opener⟩ :: (head ++ rest ++ [⟨.closing, close⟩]))
      (.call (opener.merge close) callee args)

/-- What stands between the brackets of a form that starts with a keyword. -/
inductive Keyed : Bool → Span → Span → List Token → Node → Prop
  | sequence {inLambda opener close} (span) {tokens forms} (derived : Exprs inLambda tokens forms) :
    Keyed inLambda opener close (symbol "begin" span :: tokens) (.block (opener.merge close) forms)
  | ifThen {inLambda opener close} (span) {tokens predicate body}
    (derived : Exprs inLambda tokens [predicate, body]) :
    Keyed inLambda opener close (symbol "if" span :: tokens)
      (.conditional (opener.merge close) [(predicate, body)] (.unit close))
  | ifThenElse {inLambda opener close} (span) {tokens predicate body otherwise}
    (derived : Exprs inLambda tokens [predicate, body, otherwise]) :
    Keyed inLambda opener close (symbol "if" span :: tokens)
      (.conditional (opener.merge close) [(predicate, body)] otherwise)
  | cond {inLambda opener close} (span) {tokens first cases otherwise}
    (derived : Clauses inLambda tokens (first :: cases) otherwise) :
    Keyed inLambda opener close (symbol "cond" span :: tokens)
      (.conditional (opener.merge close) (first :: cases) (otherwise.getD (.unit close)))
  | condElse {inLambda opener close} (span) {tokens body} (derived : Clauses inLambda tokens [] (some body)) :
    Keyed inLambda opener close (symbol "cond" span :: tokens) body
  | condEmpty {inLambda opener close} (span) :
    Keyed inLambda opener close [symbol "cond" span] (.unit (opener.merge close))
  | loop {inLambda opener close} (span) {tokens predicate forms body}
    (derived : Exprs inLambda tokens (predicate :: forms)) (whole : Body (opener.merge close) forms body) :
    Keyed inLambda opener close (symbol "while" span :: tokens) (.loop (opener.merge close) predicate body)
  | define {inLambda opener close} (span) (name : Name) {tokens value} (derived : Expr inLambda tokens value) :
    Keyed inLambda opener close (symbol "define" span :: symbol name.text name.span :: tokens)
      (.define (opener.merge close) name value)
  | assign {inLambda opener close} (span) (name : Name) {tokens value} (derived : Expr inLambda tokens value) :
    Keyed inLambda opener close (symbol "set!" span :: symbol name.text name.span :: tokens)
      (.assign (opener.merge close) name value)
  | lambda {inLambda opener close} (span paramsOpener paramsClose) {params : List Name}
    {tokens forms doc rest body} (distinct : (params.map (·.text)).Nodup)
    (derived : Exprs true tokens forms) (documented : Documented forms doc rest)
    (whole : Body (opener.merge close) rest body) :
    Keyed inLambda opener close
      (symbol "lambda" span :: ⟨.opening, paramsOpener⟩ ::
        (params.map (fun name => symbol name.text name.span) ++ ⟨.closing, paramsClose⟩ :: tokens))
      (.lambda (opener.merge close) params doc body)
  | quote {inLambda opener close} (span) {tokens inner} (derived : Expr inLambda tokens inner) :
    Keyed inLambda opener close (symbol "quote" span :: tokens) (.quote (opener.merge close) inner)
  | ret {opener close} (span) :
    Keyed true opener close [symbol "return!" span] (.ret (opener.merge close) (.unit (opener.merge close)))
  | retValue {opener close} (span) {tokens value} (derived : Expr true tokens value) :
    Keyed true opener close (symbol "return!" span :: tokens) (.ret (opener.merge close) value)

inductive Exprs : Bool → List Token → List Node → Prop
  | nil {inLambda} : Exprs inLambda [] []
  | cons {inLambda tokens rest node nodes} (first : Expr inLambda tokens node)
    (others : Exprs inLambda rest nodes) : Exprs inLambda (tokens ++ rest) (node :: nodes)

/-- The clauses of a `cond`, its cases and the body of its `else` clause. -/
inductive Clauses : Bool → List Token → List (Node × Node) → Option Node → Prop
  | nil {inLambda} : Clauses inLambda [] [] none
  | otherwise {inLambda} (opener close span) {tokens forms body} (derived : Exprs inLambda tokens forms)
    (whole : Body (opener.merge close) forms body) :
    Clauses inLambda (⟨.opening, opener⟩ :: symbol "else" span :: (tokens ++ [⟨.closing, close⟩])) []
      (some body)
  | case {inLambda} (opener close) {head tokens rest predicate forms body cases otherwise}
    (other : ¬ Leads "else" head) (derived : Expr inLambda head predicate)
    (derivedForms : Exprs inLambda tokens forms) (whole : Body (opener.merge close) forms body)
    (others : Clauses inLambda rest cases otherwise) :
    Clauses inLambda (⟨.opening, opener⟩ :: (head ++ tokens ++ ⟨.closing, close⟩ :: rest))
      ((predicate, body) :: cases) otherwise

end

end CheckedLisp.Grammar
