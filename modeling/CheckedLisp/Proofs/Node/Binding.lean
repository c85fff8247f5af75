import CheckedLisp.Node.Basic

/-! Conditionals and loops have no frame of their own: a definition in one of their branches belongs
to the frame around them, and is made only if control gets there. What follows are the names that a
node may bind, those that it binds on every way to its end, and whether every use of a name lies
behind a definition of it. -/
namespace CheckedLisp.Node

mutual

/-- A definition of `name` in the node belongs to the frame that the node is in. -/
def binds (name : String) : Node → Bool
  | .unit _ | .atom _ _ | .block _ _ | .lambda _ _ _ _ | .quote _ _ => false
  | .call _ callee args => binds name callee || bindsAny name args
  | .conditional _ branches otherwise => bindsCases name branches || binds name otherwise
  | .loop _ predicate body => binds name predicate || binds name body
  | .define _ defined value => defined.text == name || binds name value
  | .assign _ _ value => binds name value
  | .ret _ value => binds name value

def bindsAny (name : String) : List Node → Bool
  | [] => false
  | node :: nodes => binds name node || bindsAny name nodes

def bindsCases (name : String) : List (Node × Node) → Bool
  | [] => false
  | (predicate, body) :: rest => binds name predicate || binds name body || bindsCases name rest

end

mutual

/-- Every way to the end of the node makes a definition of `name` in the frame of the node.
Without a name: there is no way to the end, since control returns on all of them. -/
def surelyBinds (name : Option String) : Node → Bool
  | .unit _ | .atom _ _ | .lambda _ _ _ _ | .quote _ _ => false
  | .block _ forms => surelyBindsAny none forms
  | .call _ callee args => surelyBinds name callee || surelyBindsAny name args
  | .conditional _ branches otherwise => surelyBindsCases name (surelyBinds name otherwise) branches
  | .loop _ predicate _ => surelyBinds name predicate
  | .define _ defined value => some defined.text == name || surelyBinds name value
  | .assign _ _ value => surelyBinds name value
  | .ret _ _ => true

def surelyBindsAny (name : Option String) : List Node → Bool
  | [] => false
  | node :: nodes => surelyBinds name node || surelyBindsAny name nodes

/-- The ways through the cases of a conditional; `last` is the answer for its last branch. -/
def surelyBindsCases (name : Option String) (last : Bool) : List (Node × Node) → Bool
  | [] => last
  | (predicate, body) :: rest =>
    surelyBinds name predicate || surelyBinds name body && surelyBindsCases name last rest

end

def isLambda : Node → Bool
  | .lambda _ _ _ _ => true
  | _ => false

mutual

/-- Control meets no use of `name` in the node without a definition before it; `bound` says
that there is one before the node. A lambda that is defined is called only when it has its
name. Quoted code may be used anywhere and resolves nothing. -/
def resolves (name : String) : Node → Bool → Bool
  | .unit _, _ => true
  | .atom _ (.symbol used), bound => bound || used != name
  | .atom _ _, _ => true
  | .block _ forms, bound => resolvesAll name forms bound
  | .call _ callee args, bound =>
    resolves name callee bound && resolvesAll name args (bound || surelyBinds (some name) callee)
  | .conditional _ branches otherwise, bound =>
    resolvesCases name (resolves name otherwise) branches bound
  | .loop _ predicate body, bound =>
    resolves name predicate bound && resolves name body (bound || surelyBinds (some name) predicate)
  | .define _ defined value, bound =>
    resolves name value (bound || value.isLambda && defined.text == name)
  | .assign _ target value, bound => (bound || target.text != name) && resolves name value bound
  | .lambda _ params _ body, bound => resolves name body (bound || params.any (·.text == name))
  | .quote _ _, _ => false
  | .ret _ value, bound => resolves name value bound

def resolvesAll (name : String) : List Node → Bool → Bool
  | [], _ => true
  | node :: nodes, bound =>
    resolves name node bound && resolvesAll name nodes (bound || surelyBinds (some name) node)

def resolvesCases (name : String) (last : Bool → Bool) : List (Node × Node) → Bool → Bool
  | [], bound => last bound
  | (predicate, body) :: rest, bound =>
    resolves name predicate bound &&
      resolves name body (bound || surelyBinds (some name) predicate) &&
      resolvesCases name last rest (bound || surelyBinds (some name) predicate)

end

/-- The node defines `name` on every way to its end, and on each before the first use. -/
def settles (name : String) (n : Node) : Bool := surelyBinds (some name) n && resolves name n false

mutual

/-- Some conditional or loop in the node binds `name` without settling it, at a place that
no definition of the name surely comes before; `bound` says that one comes before the node. -/
def unsettles (name : String) : Node → Bool → Bool
  | .unit _, _ | .atom _ _, _ | .quote _ _, _ => false
  | .block _ forms, bound => anyUnsettles name forms bound
  | .call _ callee args, bound =>
    unsettles name callee bound || anyUnsettles name args (bound || surelyBinds (some name) callee)
  | .conditional span branches otherwise, bound =>
    (!bound && binds name (.conditional span branches otherwise) &&
        !settles name (.conditional span branches otherwise)) ||
      casesUnsettle name (unsettles name otherwise) branches bound
  | .loop span predicate body, bound =>
    (!bound && binds name (.loop span predicate body) && !settles name (.loop span predicate body)) ||
      (unsettles name predicate bound || unsettles name body (bound || surelyBinds (some name) predicate))
  | .define _ defined value, bound =>
    unsettles name value (bound || value.isLambda && defined.text == name)
  | .assign _ _ value, bound => unsettles name value bound
  | .lambda _ params _ body, bound => unsettles name body (bound || params.any (·.text == name))
  | .ret _ value, bound => unsettles name value bound

def anyUnsettles (name : String) : List Node → Bool → Bool
  | [], _ => false
  | node :: nodes, bound =>
    unsettles name node bound || anyUnsettles name nodes (bound || surelyBinds (some name) node)

def casesUnsettle (name : String) (last : Bool → Bool) : List (Node × Node) → Bool → Bool
  | [], bound => last bound
  | (predicate, body) :: rest, bound =>
    unsettles name predicate bound ||
      unsettles name body (bound || surelyBinds (some name) predicate) ||
      casesUnsettle name last rest (bound || surelyBinds (some name) predicate)

end

mutual

/-- The node has no quoted part. -/
def isUnquoted : Node → Bool
  | .unit _ | .atom _ _ => true
  | .block _ forms => areUnquoted forms
  | .call _ callee args => isUnquoted callee && areUnquoted args
  | .conditional _ branches otherwise => casesUnquoted branches && isUnquoted otherwise
  | .loop _ predicate body => isUnquoted predicate && isUnquoted body
  | .define _ _ value => isUnquoted value
  | .assign _ _ value => isUnquoted value
  | .lambda _ _ _ body => isUnquoted body
  | .quote _ _ => false
  | .ret _ value => isUnquoted value

def areUnquoted : List Node → Bool
  | [] => true
  | node :: nodes => isUnquoted node && areUnquoted nodes

def casesUnquoted : List (Node × Node) → Bool
  | [] => true
  | (predicate, body) :: rest => isUnquoted predicate && isUnquoted body && casesUnquoted rest

end

variable {name : String}

mutual

/-- Behind a definition of the name all code resolves it, unless it is quoted. -/
theorem resolves_bound (n : Node) (unquoted : isUnquoted n = true) : resolves name n true = true := by
  match n with
  | .unit _ | .atom _ (.bool _) | .atom _ (.int _) | .atom _ (.float _) | .atom _ (.string _) => rfl
  | .atom _ (.symbol used) => rfl
  | .block _ forms => exact resolvesAll_bound forms unquoted
  | .call _ callee args =>
    simp only [isUnquoted, Bool.and_eq_true] at unquoted
    simp only [resolves, Bool.and_eq_true, Bool.true_or]
    exact ⟨resolves_bound callee unquoted.1, resolvesAll_bound args unquoted.2⟩
  | .conditional _ branches otherwise =>
    simp only [isUnquoted, Bool.and_eq_true] at unquoted
    exact resolvesCases_bound branches unquoted.1 (resolves_bound otherwise unquoted.2)
  | .loop _ predicate body =>
    simp only [isUnquoted, Bool.and_eq_true] at unquoted
    simp only [resolves, Bool.and_eq_true, Bool.true_or]
    exact ⟨resolves_bound predicate unquoted.1, resolves_bound body unquoted.2⟩
  | .define _ _ value => exact resolves_bound value unquoted
  | .assign _ _ value => exact resolves_bound value unquoted
  | .lambda _ _ _ body => exact resolves_bound body unquoted
  | .quote _ _ => cases unquoted
  | .ret _ value => exact resolves_bound value unquoted

theorem resolvesAll_bound (ns : List Node) (unquoted : areUnquoted ns = true) :
    resolvesAll name ns true = true := by
  match ns with
  | [] => rfl
  | n :: ns =>
    simp only [areUnquoted, Bool.and_eq_true] at unquoted
    simp only [resolvesAll, Bool.and_eq_true, Bool.true_or]
    exact ⟨resolves_bound n unquoted.1, resolvesAll_bound ns unquoted.2⟩

theorem resolvesCases_bound (branches : List (Node × Node)) {last : Bool → Bool}
    (unquoted : casesUnquoted branches = true) (lastResolves : last true = true) :
    resolvesCases name last branches true = true := by
  match branches with
  | [] => exact lastResolves
  | (predicate, body) :: rest =>
    simp only [casesUnquoted, Bool.and_eq_true] at unquoted
    simp only [resolvesCases, Bool.and_eq_true, Bool.true_or]
    exact ⟨⟨resolves_bound predicate unquoted.1.1, resolves_bound body unquoted.1.2⟩,
      resolvesCases_bound rest unquoted.2 lastResolves⟩

end

/-- A conditional or loop that does not unsettle a name settles it, if it binds it. -/
theorem settled_of_binds {binding settled more : Bool}
    (straight : ((!false && binding && !settled) || more) = false) (isBinding : binding = true) :
    settled = true := by
  simp only [isBinding, Bool.not_false, Bool.true_and, Bool.or_eq_false_iff, Bool.not_eq_false'] at straight
  exact straight.1

mutual

/-- Where all is settled, what is bound is surely bound. -/
theorem surelyBinds_of_binds (n : Node) (straight : unsettles name n false = false)
    (binding : binds name n = true) : surelyBinds (some name) n = true := by
  match n with
  | .unit _ | .atom _ _ | .block _ _ | .lambda _ _ _ _ | .quote _ _ => cases binding
  | .call _ callee args =>
    simp only [unsettles, Bool.or_eq_false_iff, Bool.false_or] at straight
    simp only [binds, Bool.or_eq_true] at binding
    simp only [surelyBinds, Bool.or_eq_true]
    cases surely : surelyBinds (some name) callee with
    | true => exact .inl rfl
    | false =>
      rcases binding with inCallee | inArgs
      · cases surely.symm.trans (surelyBinds_of_binds callee straight.1 inCallee)
      · rw [surely] at straight
        exact .inr (surelyBindsAny_of_bindsAny args straight.2 inArgs)
  | .conditional span branches otherwise =>
    have settled := settled_of_binds straight binding
    simp only [settles, Bool.and_eq_true] at settled
    exact settled.1
  | .loop span predicate body =>
    have settled := settled_of_binds straight binding
    simp only [settles, Bool.and_eq_true] at settled
    exact settled.1
  | .define _ defined value =>
    simp only [binds, Bool.or_eq_true, beq_iff_eq] at binding
    simp only [surelyBinds, Bool.or_eq_true, beq_iff_eq, Option.some.injEq]
    by_cases here : defined.text = name
    · exact .inl here
    · rcases binding with same | inside
      · exact .inl same
      · simp only [unsettles, beq_eq_false_iff_ne.2 here, Bool.and_false, Bool.or_false] at straight
        exact .inr (surelyBinds_of_binds value straight inside)
  | .assign _ _ value => exact surelyBinds_of_binds value straight binding
  | .ret _ _ => rfl

theorem surelyBindsAny_of_bindsAny (ns : List Node) (straight : anyUnsettles name ns false = false)
    (binding : bindsAny name ns = true) : surelyBindsAny (some name) ns = true := by
  match ns with
  | [] => cases binding
  | n :: ns =>
    simp only [anyUnsettles, Bool.or_eq_false_iff, Bool.false_or] at straight
    simp only [bindsAny, Bool.or_eq_true] at binding
    simp only [surelyBindsAny, Bool.or_eq_true]
    cases surely : surelyBinds (some name) n with
    | true => exact .inl rfl
    | false =>
      rcases binding with here | later
      · cases surely.symm.trans (surelyBinds_of_binds n straight.1 here)
      · rw [surely] at straight
        exact .inr (surelyBindsAny_of_bindsAny ns straight.2 later)

end

end CheckedLisp.Node
