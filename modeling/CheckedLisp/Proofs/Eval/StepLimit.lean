import CheckedLisp.Proofs.Eval.Budget
import CheckedLisp.Proofs.Eval.Writing

/-! Every part of evaluation keeps two runs under two limits in step, so a limit only decides how
far a run gets. What a run does before it is cut off is what it does under any greater limit. -/
namespace CheckedLisp.Budget

open Machine Eval

variable {ε α : Type} [Coded ε] {fuel fuel' : Nat}

theorem plain_fail {span : Span} {fault : Fault} (other : fault.code ≠ .stepLimit) :
    Plain (fail span fault : Run α) :=
  plain_throw fun same => other (Option.some.inj same)

/-- What `define` and `set!` do at the end. -/
theorem plain_done (done : Bool) {span : Span} {fault : Fault} (other : fault.code ≠ .stepLimit) :
    Plain (if done then return .unit else fail span fault : Run Value) := by
  cases done with
  | true => exact plain_pure _
  | false => exact plain_fail other

theorem plain_lookup (scope : Scope) (name : String) : Plain (lookup scope name) :=
  ⟨Later.refl, fun _ => rfl, fun _ => id, fun _ _ => rfl⟩

/-- Changing frames takes no step and shows nothing. -/
theorem plain_modify_heap (change : Heap Value Unit → α × Heap Value Unit) :
    Plain (modifyGet fun m => ((change m.heap).1, { m with heap := (change m.heap).2 }) :
      EStateM ε Machine α) :=
  ⟨fun _ => ⟨rfl, Nat.le_refl _, .empty, ByteArray.append_empty.symm⟩, fun _ => rfl, fun _ => id,
    fun _ _ => rfl⟩

theorem plain_enter (scope : Scope) (function : Option Unit) : Plain (enter scope function) :=
  plain_modify_heap fun h => (h.next, h.add (some scope) function)

theorem plain_define (scope : Scope) (name : String) (value : Value) : Plain (define scope name value) :=
  plain_modify_heap fun h => h.define scope name value

theorem plain_assign (scope : Scope) (name : String) (value : Value) : Plain (assign scope name value) :=
  plain_modify_heap fun h => h.assign scope name value

theorem plain_close (scope : Scope) (params : List Name) (body : Node) : Plain (close scope params body) :=
  ⟨fun _ => ⟨rfl, Nat.le_refl _, .empty, ByteArray.append_empty.symm⟩, fun _ => rfl, fun _ => id,
    fun _ _ => rfl⟩

section

variable {m : Machine} {span : Span}

theorem tick_cancelled (stopped : m.cancelled = true) :
    tick span m = .error (.failure ⟨span, .cancelled⟩) m := by
  simp [tick, stopped]

theorem tick_spent (running : m.cancelled = false) (spent : m.limit ≤ m.steps) :
    tick span m = .error (.failure ⟨span, .stepLimit m.limit⟩) { m with steps := m.steps + 1 } := by
  simp [tick, running, spent]

theorem tick_paid (running : m.cancelled = false) (left : m.steps < m.limit) :
    tick span m = .ok () { m with steps := m.steps + 1 } := by
  simp [tick, running, left]

/-- Once its step is paid, a node is left with its work. -/
theorem node_paid (running : m.cancelled = false) (left : m.steps < m.limit) (fuel : Nat) (scope : Scope)
    (n : Node) :
    node (fuel + 1) scope n m = step (node fuel) fuel scope n { m with steps := m.steps + 1 } := by
  rw [node, Sequencing.bind_apply, tick_paid running left]

end

theorem later_tick (span : Span) (m : Machine) : Later m (Ending.machine (tick span m)) := by
  have counted : Later m { m with steps := m.steps + 1 } :=
    ⟨rfl, Nat.le_succ _, .empty, ByteArray.append_empty.symm⟩
  cases running : m.cancelled with
  | true =>
    rw [tick_cancelled running]
    exact .refl m
  | false =>
    rcases Nat.lt_or_ge m.steps m.limit with left | spent
    · rw [tick_paid running left]
      exact counted
    · rw [tick_spent running spent]
      exact counted

theorem paced_tick (span : Span) : Paced 1 fuel fuel' (tick span) (tick span) := by
  refine ⟨later_tick span, later_tick span, ?_, ?_⟩
  · intro m a m' ran
    unfold tick at ran
    split at ran
    · cases ran
    · split at ran <;> cases ran
      exact Nat.le_refl _
  · intro m limit' below within covers covers'
    cases running : m.cancelled with
    | true =>
      rw [tick_cancelled running, tick_cancelled (m := m.withLimit limit') running]
      exact .same (by rintro ⟨⟩) within
    | false =>
      rcases Nat.lt_or_ge m.steps m.limit with left | spent
      · rw [tick_paid running left, tick_paid (m := m.withLimit limit') running (Nat.lt_of_lt_of_le left below)]
        exact .same (r := .ok () { m with steps := m.steps + 1 }) id left
      · rw [tick_spent running spent]
        refine .cut rfl (congrArg (· + 1) (Nat.le_antisymm within spent)) ?_ ?_
        · intro equal
          rw [withLimit_eq_self equal, tick_spent running spent]
        · intro smaller
          have left : (m.withLimit limit').steps < (m.withLimit limit').limit :=
            Nat.lt_of_le_of_lt within smaller
          rw [tick_paid (m := m.withLimit limit') running left]
          exact ⟨Nat.lt_succ_of_le spent, .empty, ByteArray.append_empty.symm⟩

theorem paced_atom (scope : Scope) (span : Span) (a : Atom) :
    Paced 0 fuel fuel' (atom scope span a) (atom scope span a) := by
  cases a with
  | bool b => exact (plain_pure _).paced
  | string s => exact (plain_pure _).paced
  | int digits =>
    simp only [atom]
    split
    · exact (plain_pure _).paced
    · exact (plain_fail (by rintro ⟨⟩)).paced
  | float digits =>
    simp only [atom]
    split
    · exact (plain_pure _).paced
    · exact (plain_fail (by rintro ⟨⟩)).paced
  | symbol name =>
    refine (plain_lookup scope name).paced.bind ?_
    intro found
    cases found with
    | some value => exact (plain_pure value).paced
    | none => exact (plain_fail (by rintro ⟨⟩)).paced

theorem paced_truth (span : Span) (value : Value) :
    Paced 0 fuel fuel' (truth span value) (truth span value) := by
  cases value with
  | bool b => exact (plain_pure b).paced
  | _ => exact (plain_fail (by rintro ⟨⟩)).paced

section Parts

variable {eval eval' : Node → Run Value} (paced : ∀ n, Paced 1 fuel fuel' (eval n) (eval' n))

include paced

theorem paced_sequence (last : Value) (forms : List Node) :
    Paced 0 fuel fuel' (sequence eval last forms) (sequence eval' last forms) := by
  induction forms generalizing last with
  | nil => exact (plain_pure last).paced
  | cons form forms ih => exact (paced form).bind ih

theorem paced_collect (forms : List Node) :
    Paced 0 fuel fuel' (collect eval forms) (collect eval' forms) := by
  induction forms with
  | nil => exact (plain_pure []).paced
  | cons form forms ih =>
    refine (paced form).bind ?_
    intro value
    refine ih.bind ?_
    intro values
    exact (plain_pure (value :: values)).paced

theorem paced_choose (otherwise : Node) (cases : List (Node × Node)) :
    Paced 0 fuel fuel' (choose eval otherwise cases) (choose eval' otherwise cases) := by
  induction cases with
  | nil => exact (paced otherwise).free
  | cons first rest ih =>
    refine (paced first.1).bind ?_
    intro value
    refine (paced_truth first.1.span value).bind ?_
    intro holds
    cases holds with
    | true => exact (paced first.2).free
    | false => exact ih

/-- Each turn pays for its predicate, so the turns that are left cover the steps that are. -/
theorem paced_turns (predicate body : Node) (count count' : Nat) :
    Paced 0 (min fuel count) (min fuel' count') (turns eval predicate body count)
      (turns eval' predicate body count') := by
  refine paced_of_succ (min fuel ·) (min fuel' ·) (fun k (_ : Unit) => turns eval predicate body k)
    (fun k _ => turns eval' predicate body k) (Nat.min_zero _) (Nat.min_zero _) ?_ ?_ count count' ()
  · intro _
    exact .starved Later.refl Later.refl (fun _ _ _ ran => by cases ran) (.inl rfl)
  · intro k k' rest _
    have onward (value : Value) : Paced 0 (min fuel k) (min fuel' k')
        (do if ← truth predicate.span value then do let _ ← eval body; turns eval predicate body k
            else return .unit)
        (do if ← truth predicate.span value then do let _ ← eval' body; turns eval' predicate body k'
            else return .unit) := by
      refine (paced_truth predicate.span value).bind ?_
      intro holds
      cases holds with
      | true =>
        refine ((paced body).weaken (Nat.min_le_left _ _) (Nat.min_le_left _ _)).bind ?_
        intro _
        exact rest ()
      | false => exact (plain_pure _).paced
    exact ((paced predicate).bind_paying onward (by omega) (by omega)).free

end Parts

/-- The frame of a call is filled without taking a step. -/
theorem paced_bindAll (frame : Scope) (params : List Name) (args : List Value) :
    Paced 0 fuel fuel' (bindAll frame params args) (bindAll frame params args) := by
  induction params generalizing args with
  | nil => exact (plain_pure ()).paced
  | cons param params ih =>
    cases args with
    | nil => exact (plain_pure ()).paced
    | cons arg args =>
      refine (plain_define frame param.text arg).paced.bind ?_
      intro _
      exact ih args

theorem Paced.catchReturn {cost : Nat} {x x' : Run Value} (paced : Paced cost fuel fuel' x x') :
    Paced 0 fuel fuel' (catchReturn x) (catchReturn x') := by
  refine paced.handled Eval.catchReturn caught catchReturn_eq_handled ?_
  rintro (failure | value)
  · exact Iff.rfl
  · rintro ⟨⟩

theorem Paced.evaluated {cost : Nat} {x x' : Run Value} (paced : Paced cost fuel fuel' x x') :
    Paced 0 fuel fuel' (Builtin.evaluated x) (Builtin.evaluated x') := by
  refine paced.handled Builtin.evaluated nested evaluated_eq_handled ?_
  rintro (failure | value)
  · exact Iff.rfl
  · rintro ⟨⟩

theorem Paced.calling {cost : Nat} {span : Span} {function : Builtin} {x x' : Builtin.Call Value}
    (paced : Paced cost fuel fuel' x x') :
    Paced 0 fuel fuel' (calling span function x) (calling span function x') := by
  refine paced.handled (Eval.calling span function)
    (fun | .nested failure => .error (.failure failure)
         | .fault fault => .error (.failure ⟨span, .builtin function fault⟩)) ?_ ?_
  · intro x m
    unfold Eval.calling Ending.handled
    rcases x m with _ | ⟨_ | _, _⟩ <;> rfl
  · rintro (fault | failure) <;> exact Iff.rfl

theorem code_ne_stepLimit (fault : Builtin.Fault) : fault.code ≠ .stepLimit := by
  cases fault <;> rintro ⟨⟩

theorem plain_refuse (fault : Builtin.Fault) : Plain (Builtin.refuse fault : Builtin.Call α) :=
  plain_throw fun same => code_ne_stepLimit fault (Option.some.inj same)

theorem plain_give (outcome : Builtin.Outcome) : Plain (Builtin.give outcome) := by
  cases outcome with
  | ok value => exact plain_pure value
  | error fault => exact plain_refuse fault

theorem later_writeEach (sink : Sink) (pieces : List String) :
    ∃ more, (sink.writeEach pieces).2.written = sink.written ++ more := by
  rw [Sink.writeEach_eq_write]
  unfold Sink.write
  dsimp only
  split
  · exact ⟨_, rfl⟩
  · split <;> exact ⟨_, rfl⟩

theorem paced_write (pieces : List String) :
    Paced 0 fuel fuel' (Builtin.write pieces) (Builtin.write pieces) := by
  have shown : Plain (modifyGet fun m =>
      ((m.sink.writeEach pieces).1, { m with sink := (m.sink.writeEach pieces).2 }) : Builtin.Call Bool) :=
    ⟨fun m => ⟨rfl, Nat.le_refl _, later_writeEach m.sink pieces⟩, fun _ => rfl, fun _ => id, fun _ _ => rfl⟩
  refine shown.paced.bind ?_
  intro done
  cases done with
  | true => exact (plain_pure _).paced
  | false => exact (plain_refuse _).paced

section Evaluator

variable {eval eval' : Scope → Node → Run Value}
  (paced : ∀ scope n, Paced 1 fuel fuel' (eval scope n) (eval' scope n))

include paced

/-- Quoted code runs on the steps of the program that evaluates it. -/
theorem paced_call (frame : Scope) (function : Builtin) (args : List Value) :
    Paced 0 fuel fuel' (function.call eval frame args) (function.call eval' frame args) := by
  cases function with
  | arith op =>
    simp only [Builtin.call]
    split
    · exact (plain_refuse _).paced
    · exact (plain_give _).paced
  | display => exact paced_write _
  | newline =>
    cases args with
    | nil => exact paced_write ["\n"]
    | cons => exact (plain_refuse _).paced
  | list => exact (plain_pure _).paced
  | eval =>
    match args with
    | [.quoted node] =>
      refine Paced.reading (fun m => (m.heap.parent? frame).getD frame)
        (fun caller => Builtin.evaluated (eval caller node))
        (fun caller => Builtin.evaluated (eval' caller node)) (fun _ _ => rfl) ?_
      intro caller
      exact (paced caller node).evaluated
    | [.unit] | [.bool _] | [.int _] | [.float _] | [.string _] | [.pair _ _] | [.lambda _] | [.builtin _] =>
      exact (plain_pure _).paced
    | [] => exact (plain_refuse _).paced
    | _ :: _ :: _ =>
      simp only [Builtin.call]
      exact (plain_refuse _).paced
  | _ => exact (plain_give _).paced

theorem paced_apply (scope : Scope) (span : Span) (args : List Value) (function : Value) :
    Paced 0 fuel fuel' (Eval.apply eval scope span args function)
      (Eval.apply eval' scope span args function) := by
  cases function with
  | lambda closure =>
    simp only [Eval.apply]
    split
    · refine (plain_enter closure.scope (some ())).paced.bind ?_
      intro frame
      refine (paced_bindAll frame closure.params args).bind ?_
      intro _
      exact (paced frame closure.body).catchReturn
    · exact (plain_fail (by rintro ⟨⟩)).paced
  | builtin function =>
    refine (plain_enter scope (some ())).paced.bind ?_
    intro frame
    exact (paced_call paced frame function args).calling
  | _ => exact (plain_fail (by rintro ⟨⟩)).paced

theorem paced_step (scope : Scope) (n : Node) :
    Paced 0 fuel fuel' (step eval fuel scope n) (step eval' fuel' scope n) := by
  cases n with
  | unit span => exact (plain_pure _).paced
  | atom span a => exact paced_atom scope span a
  | block span forms =>
    refine (plain_enter scope none).paced.bind ?_
    intro inner
    exact paced_sequence (paced inner) .unit forms
  | call span callee args =>
    refine (paced scope callee).bind ?_
    intro function
    refine (paced_collect (paced scope) args).bind ?_
    intro values
    exact paced_apply paced scope span values function
  | conditional span cases otherwise => exact paced_choose (paced scope) otherwise cases
  | loop span predicate body =>
    have turned := paced_turns (paced scope) predicate body fuel fuel'
    rwa [Nat.min_self, Nat.min_self] at turned
  | define span name value =>
    refine (paced scope value).bind ?_
    intro v
    refine (plain_define scope name.text v).paced.bind ?_
    intro done
    exact (plain_done done (by rintro ⟨⟩)).paced
  | assign span name value =>
    refine (paced scope value).bind ?_
    intro v
    refine (plain_assign scope name.text v).paced.bind ?_
    intro done
    exact (plain_done done (by rintro ⟨⟩)).paced
  | lambda span params doc body => exact (plain_close scope params body).paced
  | quote span inner => exact (plain_pure _).paced
  | ret span value =>
    refine Paced.reading (·.heap.inFunction scope)
      (fun inside => if inside then do throw (.ret (← eval scope value)) else fail span .returnOutside)
      (fun inside => if inside then do throw (.ret (← eval' scope value)) else fail span .returnOutside)
      (fun _ _ => rfl) ?_
    intro inside
    cases inside with
    | true =>
      refine (paced scope value).bind ?_
      intro v
      exact (plain_throw (by rintro ⟨⟩)).paced
    | false => exact (plain_fail (by rintro ⟨⟩)).paced

end Evaluator

/-- Fuel and limits may differ: whoever has fuel for the steps left keeps in step. -/
theorem paced_node (fuel fuel' : Nat) (scope : Scope) (n : Node) :
    Paced 1 fuel fuel' (node fuel scope n) (node fuel' scope n) := by
  let at' (k : Nat) (place : Scope × Node) : Run Value := node k place.1 place.2
  refine paced_of_succ id id at' at' rfl rfl ?_ ?_ fuel fuel' (scope, n)
  · intro place
    exact .starved Later.refl Later.refl (fun _ _ _ ran => by cases ran) (.inl rfl)
  · intro k k' ih place
    have stepped := paced_step (fun scope n => ih (scope, n)) place.1 place.2
    have ticked : Paced 1 (k + 1) (k' + 1) (tick place.2.span) (tick place.2.span) :=
      paced_tick place.2.span
    exact ticked.bind_paying (fun _ => stepped) ⟨Nat.le_refl _, Nat.le_refl _⟩
      ⟨Nat.le_refl _, Nat.le_refl _⟩

/-- Fuel beyond the steps left changes nothing. -/
theorem node_eq_of_covers {m : Machine} (within : m.steps ≤ m.limit) (covers : m.limit < fuel + m.steps)
    (covers' : m.limit < fuel' + m.steps) (scope : Scope) (n : Node) :
    node fuel scope n m = node fuel' scope n m := by
  have paced := paced_node fuel' fuel scope n
  have matched := paced.related m m.limit (Nat.le_refl _) within covers' covers
  exact matched.eq_of_limit (paced.grows m).limit

theorem Paced.liftFailure {cost : Nat} {x x' : Run α} {fault : Value → Fault} {span : Span}
    (paced : Paced cost fuel fuel' x x') (other : ∀ v, (fault v).code ≠ .stepLimit) :
    Paced 0 fuel fuel' (liftFailure x fun v => .error ⟨span, fault v⟩)
      (liftFailure x' fun v => .error ⟨span, fault v⟩) := by
  refine paced.handled (Eval.liftFailure · fun v => .error ⟨span, fault v⟩) (lifted fun v => .error ⟨span, fault v⟩)
    (fun x m => liftFailure_eq_handled x _ m) ?_
  rintro (failure | value)
  · exact Iff.rfl
  · exact ⟨fun code => absurd (Option.some.inj code) (other value), by rintro ⟨⟩⟩

/-- Evaluates a node that no function encloses, with any fuel. -/
def evalWith (fuel : Nat) (scope : Scope) (n : Node) : Machine.Action Value :=
  liftFailure (node fuel scope n) fun v => .error ⟨n.span, .uncaughtReturn v⟩

theorem paced_evalWith (fuel fuel' : Nat) (scope : Scope) (n : Node) :
    Paced 0 fuel fuel' (evalWith fuel scope n) (evalWith fuel' scope n) :=
  (paced_node fuel fuel' scope n).liftFailure fun _ => by rintro ⟨⟩

theorem later_eval (scope : Scope) (n : Node) (m : Machine) :
    Later m (Ending.machine (Machine.eval scope n m)) :=
  (paced_evalWith m.fuel m.fuel scope n).grows m

/-- The fuel that a machine gives covers the steps that it has left. -/
theorem paced_eval (scope : Scope) (n : Node) :
    Paced 0 fuel fuel' (Machine.eval scope n) (Machine.eval scope n) := by
  refine ⟨later_eval scope n, later_eval scope n, steps_le_of_ok (later_eval scope n), ?_⟩
  intro m limit' below within _ _
  refine (paced_evalWith m.fuel (m.withLimit limit').fuel scope n).related m limit' below within ?_ ?_
  · unfold Machine.fuel
    omega
  · simp only [Machine.fuel, withLimit_limit, withLimit_steps]
    omega

theorem paced_eval_evalWith (scope : Scope) (n : Node) :
    Paced 0 fuel fuel' (Machine.eval scope n) (evalWith fuel' scope n) := by
  refine ⟨later_eval scope n, (paced_evalWith fuel fuel' scope n).grows',
    steps_le_of_ok (later_eval scope n), ?_⟩
  intro m limit' below within _ covers'
  refine (paced_evalWith m.fuel fuel' scope n).related m limit' below within ?_ covers'
  unfold Machine.fuel
  omega

theorem paced_mapM {eval eval' : Node → Machine.Action Value}
    (paced : ∀ n, Paced 0 fuel fuel' (eval n) (eval' n)) (nodes : List Node) :
    Paced 0 fuel fuel' (nodes.mapM eval) (nodes.mapM eval') := by
  induction nodes with
  | nil => exact (plain_pure []).paced
  | cons n nodes ih =>
    rw [List.mapM_cons, List.mapM_cons]
    refine (paced n).bind ?_
    intro value
    refine ih.bind ?_
    intro values
    exact (plain_pure (value :: values)).paced

theorem evalAll_eq_mapM (scope : Scope) (nodes : List Node) :
    Machine.evalAll scope nodes = nodes.mapM (Machine.eval scope) := by
  induction nodes with
  | nil => rfl
  | cons n nodes ih => rw [List.mapM_cons, Machine.evalAll, ih]

theorem paced_evalAll (scope : Scope) (nodes : List Node) :
    Paced 0 fuel fuel' (Machine.evalAll scope nodes) (Machine.evalAll scope nodes) := by
  rw [evalAll_eq_mapM]
  exact paced_mapM (paced_eval scope) nodes

/-- A whole program on a fresh machine. -/
def session (nodes : List Node) (capacity : Option Nat) (limit : Nat) : Ending Failure (List Value) :=
  Machine.evalAll Machine.globalScope nodes (.start limit capacity)

theorem limit_session (nodes : List Node) (capacity : Option Nat) (limit : Nat) :
    (session nodes capacity limit).machine.limit = limit := by
  have paced : Paced 0 0 0 _ _ := paced_evalAll Machine.globalScope nodes
  exact (paced.grows (.start limit capacity)).limit

theorem matches_session (nodes : List Node) (capacity : Option Nat) {limit limit' : Nat}
    (le : limit ≤ limit') :
    Matches limit limit' (session nodes capacity limit) (session nodes capacity limit') := by
  have paced : Paced 0 (limit + 1) (limit' + 1) _ _ := paced_evalAll Machine.globalScope nodes
  exact paced.related (.start limit capacity) limit' le (Nat.zero_le _) (Nat.lt_succ_self _)
    (Nat.lt_succ_self _)

/-- Recursion that may go deeper than the limit never does. -/
theorem session_eq_of_lt_fuel (nodes : List Node) (capacity : Option Nat) {limit fuel : Nat}
    (covers : limit < fuel) :
    nodes.mapM (evalWith fuel Machine.globalScope) (.start limit capacity) =
      session nodes capacity limit := by
  have paced : Paced 0 (limit + 1) fuel (Machine.evalAll Machine.globalScope nodes)
      (nodes.mapM (evalWith fuel Machine.globalScope)) := by
    rw [evalAll_eq_mapM]
    exact paced_mapM (paced_eval_evalWith Machine.globalScope) nodes
  have matched := paced.related (.start limit capacity) limit (Nat.le_refl _) (Nat.zero_le _)
    (Nat.lt_succ_self _) covers
  exact matched.eq_of_limit (limit_session nodes capacity limit)

theorem steps_of_spent {nodes : List Node} {capacity : Option Nat} {limit : Nat}
    (spent : (session nodes capacity limit).Spent) :
    (session nodes capacity limit).machine.steps = limit + 1 :=
  (matches_session nodes capacity (Nat.le_refl limit)).counted_of_spent spent

theorem session_eq_of_steps_le {nodes : List Node} {capacity : Option Nat} {limit limit' : Nat}
    (finished : ¬ (session nodes capacity limit).Spent)
    (enough : (session nodes capacity limit).machine.steps ≤ limit') :
    session nodes capacity limit' = (session nodes capacity limit).withLimit limit' := by
  rcases Nat.lt_or_ge limit' limit with smaller | le
  · have matched := matches_session nodes capacity (Nat.le_of_lt smaller)
    have limited := limit_session nodes capacity limit'
    generalize session nodes capacity limit' = r at matched limited
    generalize session nodes capacity limit = full at matched finished enough
    cases matched with
    | same =>
      rw [Ending.withLimit_withLimit, Ending.withLimit_eq_self limited]
    | cut _ _ _ beyond => exact absurd enough (Nat.not_le_of_lt (beyond smaller).1)
  · have matched := matches_session nodes capacity le
    generalize session nodes capacity limit' = r at matched
    generalize session nodes capacity limit = full at matched finished
    cases matched with
    | same => rfl
    | cut spent => exact absurd spent finished

theorem cut_of_lt_steps {nodes : List Node} {capacity : Option Nat} {limit limit' : Nat}
    (finished : ¬ (session nodes capacity limit).Spent)
    (short : limit' < (session nodes capacity limit).machine.steps) :
    (session nodes capacity limit').Spent ∧
      ∃ more, (session nodes capacity limit).machine.sink.written =
        (session nodes capacity limit').machine.sink.written ++ more := by
  have within := (matches_session nodes capacity (Nat.le_refl limit)).within_of_unspent finished
  have smaller : limit' < limit := Nat.lt_of_lt_of_le short within
  have matched := matches_session nodes capacity (Nat.le_of_lt smaller)
  generalize session nodes capacity limit' = r at matched
  generalize session nodes capacity limit = full at matched short
  cases matched with
  | same _ inside =>
    rw [Ending.machine_withLimit] at short
    exact absurd inside (Nat.not_le_of_lt short)
  | cut spent _ _ beyond => exact ⟨spent, (beyond smaller).2⟩

/-- The step limit is an exact cutoff. Every program ends, however deep it may recurse. A
program that finishes does so under every limit that its steps allow, and under any other
limit it is cut off one step beyond it, with a part of its output written. -/
theorem step_limit_exact (nodes : List Node) (capacity : Option Nat) (limit : Nat) :
    (∀ fuel, limit < fuel →
      nodes.mapM (evalWith fuel Machine.globalScope) (.start limit capacity) =
        session nodes capacity limit) ∧
    ((session nodes capacity limit).Spent →
      (session nodes capacity limit).machine.steps = limit + 1) ∧
    (¬ (session nodes capacity limit).Spent → ∀ limit',
      ((session nodes capacity limit).machine.steps ≤ limit' →
        session nodes capacity limit' = (session nodes capacity limit).withLimit limit') ∧
      (limit' < (session nodes capacity limit).machine.steps →
        (session nodes capacity limit').Spent ∧
        (session nodes capacity limit').machine.steps = limit' + 1 ∧
        ∃ more, (session nodes capacity limit).machine.sink.written =
          (session nodes capacity limit').machine.sink.written ++ more)) := by
  refine ⟨fun fuel covers => session_eq_of_lt_fuel nodes capacity covers, steps_of_spent, ?_⟩
  intro finished limit'
  refine ⟨session_eq_of_steps_le finished, ?_⟩
  intro short
  obtain ⟨spent, written⟩ := cut_of_lt_steps finished short
  exact ⟨spent, steps_of_spent spent, written⟩

end CheckedLisp.Budget
