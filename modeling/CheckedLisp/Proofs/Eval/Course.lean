import CheckedLisp.Proofs.Eval.Moments
import CheckedLisp.Proofs.Eval.WellScoped
import CheckedLisp.Proofs.Node.Nesting

/-! Values come from data, from code and from other values. A property that each of these ways keeps
holds of every value that an evaluation ever binds, passes or gives, and a property of code that
goes with it holds of all code that is ever evaluated. That no moment is missed is shown along with
it: each step that is paid belongs to a moment. -/
namespace CheckedLisp

namespace Eval

open Budget (Ending)
open Sequencing

/-- A property of values and one of code that every way to make a value keeps. -/
structure Invariant where
  values : Value → Prop
  code : Node → Prop
  hereditary : Value.Hereditary values
  builtin : ∀ function, values (.builtin function)
  quoted : ∀ n, values (.quoted n) ↔ code n
  close : ∀ span params doc body serial scope, code (.lambda span params doc body) →
    values (.lambda ⟨serial, params, body, scope⟩)
  body : ∀ closure, values (.lambda closure) → code closure.body
  child : ∀ n, code n → ∀ inner ∈ n.children, code inner

variable {inv : Invariant}

def Invariant.exits (inv : Invariant) : Exit → Prop
  | .failure _ => True
  | .ret value => inv.values value

/-- What the task of a moment is about. -/
def Invariant.tasks (inv : Invariant) : Task → Prop
  | .node _ n => inv.code n
  | .apply _ _ function args => inv.values function ∧ ∀ arg ∈ args, inv.values arg

/-- What is given, be it a result or an exit. -/
def Given {ε α : Type} (R : α → Prop) (E : ε → Prop) : Ending ε α → Prop
  | .ok a _ => R a
  | .error e _ => E e

/-- At the moment, and when its task ends, the invariant holds of all there is. -/
structure Moment.Kept (inv : Invariant) (moment : Moment) : Prop where
  before : moment.machine.heap.Holds inv.values
  task : inv.tasks moment.task
  after : moment.ending.machine.heap.Holds inv.values
  given : Given inv.values inv.exits moment.ending

/-- How a computation on `m` comes to the moments `met` and ends. -/
structure Course {ε α : Type} (inv : Invariant) (R : α → Prop) (E : ε → Prop) (m : Machine) (met : List Moment)
    (r : Ending ε α) : Prop where
  heap : r.machine.heap.Holds inv.values
  given : Given R E r
  each : ∀ moment ∈ met, moment.Kept inv
  /-- A machine that is not cancelled pays one step for each node that it turns to. -/
  steps : m.cancelled = false → r.machine.cancelled = false ∧ r.machine.steps = m.steps + visits met

variable {ε α β : Type} {R : α → Prop} {S : β → Prop} {E : ε → Prop} {m : Machine}

theorem course_ok {a : α} (heap : m.heap.Holds inv.values) (holds : R a) :
    Course inv R E m [] (.ok a m : Ending ε α) :=
  ⟨heap, holds, List.forall_mem_nil _, fun live => ⟨live, rfl⟩⟩

theorem course_error {e : ε} (heap : m.heap.Holds inv.values) (holds : E e) :
    Course inv R E m [] (.error e m : Ending ε α) :=
  ⟨heap, holds, List.forall_mem_nil _, fun live => ⟨live, rfl⟩⟩

theorem course_fail (heap : m.heap.Holds inv.values) (span : Span) (fault : Fault) :
    Course inv R inv.exits m [] ((fail span fault : Run α) m) :=
  course_error heap trivial

section

variable {x : EStateM ε Machine α} {next : α → EStateM ε Machine β} {met : List Moment}

theorem Course.bind {met' : α → Machine → List Moment} (first : Course inv R E m met (x m))
    (second : ∀ a m', m'.heap.Holds inv.values → R a → Course inv S E m' (met' a m') (next a m')) :
    Course inv S E m (met ++ following x m met') ((x >>= next) m) := by
  rw [bind_apply, following]
  cases run : x m with
  | ok a m' =>
    rw [run] at first
    have rest := second a m' first.heap first.given
    refine ⟨rest.heap, rest.given, List.forall_mem_append.2 ⟨first.each, rest.each⟩, ?_⟩
    intro live
    obtain ⟨live', steps⟩ := first.steps live
    obtain ⟨live'', steps'⟩ := rest.steps live'
    refine ⟨live'', ?_⟩
    rw [visits, List.countP_append, ← Nat.add_assoc]
    exact steps'.trans (congrArg (· + visits (met' a m')) steps)
  | error e m' =>
    rw [run] at first
    rw [List.append_nil]
    exact ⟨first.heap, first.given, first.each, first.steps⟩

/-- What meets nothing is no part of the list. -/
theorem Course.bind_of_nil {met' : α → Machine → List Moment} (first : Course inv R E m [] (x m))
    (second : ∀ a m', m'.heap.Holds inv.values → R a → Course inv S E m' (met' a m') (next a m')) :
    Course inv S E m (following x m met') ((x >>= next) m) :=
  first.bind second

theorem Course.bind_nil (first : Course inv R E m met (x m))
    (second : ∀ a m', m'.heap.Holds inv.values → R a → Course inv S E m' [] (next a m')) :
    Course inv S E m met ((x >>= next) m) := by
  have course := first.bind second
  rwa [following_nil, List.append_nil] at course

end

/-- A moment comes before what is met while its task is done on `m'`, where it may have paid. -/
theorem Course.turn {moment : Moment} {met : List Moment} {m' : Machine}
    (course : Course inv inv.values inv.exits m' met moment.ending)
    (before : moment.machine.heap.Holds inv.values) (task : inv.tasks moment.task)
    (paid : moment.machine.cancelled = false →
      m'.cancelled = false ∧ m'.steps = moment.machine.steps + visits [moment]) :
    Course inv inv.values inv.exits moment.machine (moment :: met) moment.ending := by
  refine ⟨course.heap, course.given, ?_, ?_⟩
  · exact List.forall_mem_cons.2 ⟨⟨before, task, course.heap, course.given⟩, course.each⟩
  · intro live
    obtain ⟨live', steps⟩ := paid live
    obtain ⟨live'', steps'⟩ := course.steps live'
    refine ⟨live'', ?_⟩
    rw [← List.singleton_append, visits, List.countP_append, ← Nat.add_assoc]
    exact steps'.trans (congrArg (· + visits met) steps)

theorem course_enter (heap : m.heap.Holds inv.values) (parent : Scope) (function : Option Unit) :
    Course inv (fun _ => True) inv.exits m [] (enter parent function m) :=
  ⟨heap.add _ _, trivial, List.forall_mem_nil _, fun live => ⟨live, rfl⟩⟩

theorem course_define (heap : m.heap.Holds inv.values) (s : Scope) (name : String) {value : Value}
    (given : inv.values value) : Course inv (fun _ => True) inv.exits m [] (define s name value m) :=
  ⟨heap.define s name given, trivial, List.forall_mem_nil _, fun live => ⟨live, rfl⟩⟩

theorem course_assign (heap : m.heap.Holds inv.values) (s : Scope) (name : String) {value : Value}
    (given : inv.values value) : Course inv (fun _ => True) inv.exits m [] (assign s name value m) :=
  ⟨heap.assign s name given, trivial, List.forall_mem_nil _, fun live => ⟨live, rfl⟩⟩

theorem course_truth (heap : m.heap.Holds inv.values) (span : Span) (value : Value) :
    Course inv (fun _ => True) inv.exits m [] (truth span value m) := by
  cases value with
  | bool b => exact course_ok heap trivial
  | _ => exact course_fail heap span _

theorem course_atom (heap : m.heap.Holds inv.values) (s : Scope) (span : Span) (a : Atom) :
    Course inv inv.values inv.exits m [] (atom s span a m) := by
  cases a with
  | bool b => exact course_ok heap (inv.hereditary.bool b)
  | string text => exact course_ok heap (inv.hereditary.string text)
  | int digits =>
    simp only [atom]
    cases (Decimal.integer? digits).bind word? with
    | some n => exact course_ok heap (inv.hereditary.int n)
    | none => exact course_fail heap span _
  | float digits =>
    simp only [atom]
    cases read : (Decimal.float? digits).filter Float.isFinite with
    | some x => exact course_ok heap (inv.hereditary.float x (Option.filter_eq_some_iff.1 read).2)
    | none => exact course_fail heap span _
  | symbol name =>
    simp only [atom, Eval.lookup, bind_apply]
    cases found : m.heap.lookup s name with
    | some value => exact course_ok heap (heap.lookup found)
    | none => exact course_fail heap span _

theorem course_bindAll (heap : m.heap.Holds inv.values) (frame : Scope) (params : List Name) {args : List Value}
    (given : ∀ arg ∈ args, inv.values arg) :
    Course inv (fun _ => True) inv.exits m [] (bindAll frame params args m) := by
  induction params generalizing args m with
  | nil => exact course_ok heap trivial
  | cons param params ih =>
    cases args with
    | nil => exact course_ok heap trivial
    | cons arg args =>
      obtain ⟨givenArg, givenArgs⟩ := List.forall_mem_cons.1 given
      apply (course_define heap frame param.text givenArg).bind_nil
      intro _ m' heap' _
      exact ih heap' givenArgs

/-- Evaluation, and the moments that it comes to in code that has the property. -/
def Runs (inv : Invariant) (eval : Node → Run Value) (inside : Node → Machine → List Moment) : Prop :=
  ∀ n m, m.heap.Holds inv.values → inv.code n → Course inv inv.values inv.exits m (inside n m) (eval n m)

section Parts

variable {eval : Node → Run Value} {inside : Node → Machine → List Moment} (runs : Runs inv eval inside)

include runs

theorem course_sequence (heap : m.heap.Holds inv.values) (forms : List Node) (code : ∀ form ∈ forms, inv.code form)
    {last : Value} (known : inv.values last) :
    Course inv inv.values inv.exits m (momentsAll eval inside forms m) (sequence eval last forms m) := by
  induction forms generalizing last m with
  | nil => exact course_ok heap known
  | cons form forms ih =>
    obtain ⟨codeForm, codeForms⟩ := List.forall_mem_cons.1 code
    apply (runs form m heap codeForm).bind
    intro value m' heap' known'
    exact ih heap' codeForms known'

theorem course_collect (heap : m.heap.Holds inv.values) (forms : List Node) (code : ∀ form ∈ forms, inv.code form) :
    Course inv (∀ value ∈ ·, inv.values value) inv.exits m (momentsAll eval inside forms m)
      (collect eval forms m) := by
  induction forms generalizing m with
  | nil => exact course_ok heap (List.forall_mem_nil _)
  | cons form forms ih =>
    obtain ⟨codeForm, codeForms⟩ := List.forall_mem_cons.1 code
    apply (runs form m heap codeForm).bind
    intro value m₁ heap₁ known
    apply (ih heap₁ codeForms).bind_nil
    intro values m₂ heap₂ knownAll
    exact course_ok heap₂ (List.forall_mem_cons.2 ⟨known, knownAll⟩)

theorem course_choose (heap : m.heap.Holds inv.values) (otherwise : Node) (branches : List (Node × Node))
    (code : ∀ n ∈ Node.caseNodes branches ++ [otherwise], inv.code n) :
    Course inv inv.values inv.exits m (momentsChoose eval inside otherwise branches m)
      (choose eval otherwise branches m) := by
  induction branches generalizing m with
  | nil => exact runs otherwise m heap (List.forall_mem_singleton.1 code)
  | cons first rest ih =>
    obtain ⟨predicate, body⟩ := first
    obtain ⟨codeTest, code⟩ := List.forall_mem_cons.1 code
    obtain ⟨codeBody, codeRest⟩ := List.forall_mem_cons.1 code
    apply (runs predicate m heap codeTest).bind
    intro value m₁ heap₁ _
    apply (course_truth heap₁ predicate.span value).bind_of_nil
    intro holds m₂ heap₂ _
    cases holds with
    | true => exact runs body m₂ heap₂ codeBody
    | false => exact ih heap₂ codeRest

theorem course_turns (heap : m.heap.Holds inv.values) (predicate body : Node) (count : Nat)
    (codeTest : inv.code predicate) (codeBody : inv.code body) :
    Course inv inv.values inv.exits m (momentsTurns eval inside predicate body count m)
      (turns eval predicate body count m) := by
  induction count generalizing m with
  | zero => exact course_fail heap predicate.span _
  | succ count ih =>
    apply (runs predicate m heap codeTest).bind
    intro value m₁ heap₁ _
    apply (course_truth heap₁ predicate.span value).bind_of_nil
    intro holds m₂ heap₂ _
    cases holds with
    | true =>
      apply (runs body m₂ heap₂ codeBody).bind
      intro _ m₃ heap₃ _
      exact ih heap₃
    | false => exact course_ok heap₂ inv.hereditary.unit

end Parts

section

variable {met : List Moment} {y : Run Value} {call : Builtin.Call Value}

theorem Course.catchReturn (course : Course inv inv.values inv.exits m met (y m)) :
    Course inv inv.values inv.exits m met (catchReturn y m) := by
  unfold Eval.catchReturn
  match run : y m with
  | .ok value m' | .error (.failure failure) m' =>
    rw [run] at course
    exact course
  | .error (.ret value) m' =>
    rw [run] at course
    exact ⟨course.heap, course.given, course.each, course.steps⟩

theorem Course.evaluated (course : Course inv inv.values inv.exits m met (y m)) :
    Course inv inv.values (fun _ => True) m met (Builtin.evaluated y m) := by
  unfold Builtin.evaluated
  match run : y m with
  | .ok value m' | .error (.ret value) m' =>
    rw [run] at course
    exact ⟨course.heap, course.given, course.each, course.steps⟩
  | .error (.failure failure) m' =>
    rw [run] at course
    exact ⟨course.heap, trivial, course.each, course.steps⟩

theorem Course.calling (course : Course inv inv.values (fun _ => True) m met (call m)) (span : Span)
    (function : Builtin) : Course inv inv.values inv.exits m met (calling span function call m) := by
  unfold Eval.calling
  match run : call m with
  | .ok value m' =>
    rw [run] at course
    exact ⟨course.heap, course.given, course.each, course.steps⟩
  | .error (.fault fault) m' | .error (.nested failure) m' =>
    rw [run] at course
    exact ⟨course.heap, trivial, course.each, course.steps⟩

end

section Evaluator

variable {eval : Scope → Node → Run Value} {inside : Scope → Node → Machine → List Moment}
  (runs : ∀ s, Runs inv (eval s) (inside s))

include runs

theorem course_call (heap : m.heap.Holds inv.values) (frame : Scope) (function : Builtin) {args : List Value}
    (given : ∀ arg ∈ args, inv.values arg) :
    Course inv inv.values (fun _ => True) m (momentsCall inside frame m function args)
      (function.call eval frame args m) := by
  by_cases asks : function = .eval ∧ ∃ node, args = [.quoted node]
  · obtain ⟨rfl, node, rfl⟩ := asks
    have code := (inv.quoted node).1 (given _ List.mem_cons_self)
    exact (runs _ node m heap code).evaluated
  · have nothing : momentsCall inside frame m function args = [] := by
      unfold momentsCall
      split
      · exact absurd ⟨rfl, _, rfl⟩ asks
      · rfl
    rw [nothing]
    have settled : Builtin.Settled args m (function.call eval frame args m) := Builtin.settled asks
    generalize function.call eval frame args m = r at settled
    cases settled with
    | given sink made =>
      exact ⟨heap, made inv.values inv.hereditary given, List.forall_mem_nil _, fun live => ⟨live, rfl⟩⟩
    | refused sink => exact ⟨heap, trivial, List.forall_mem_nil _, fun live => ⟨live, rfl⟩⟩

theorem course_apply (heap : m.heap.Holds inv.values) (s : Scope) (span : Span) {args : List Value}
    (given : ∀ arg ∈ args, inv.values arg) {function : Value} (known : inv.values function) :
    Course inv inv.values inv.exits m (momentsApply inside s args function m)
      (Eval.apply eval s span args function m) := by
  cases function with
  | lambda closure =>
    simp only [Eval.apply, momentsApply]
    split
    · apply (course_enter heap closure.scope (some ())).bind_of_nil
      intro frame m₁ heap₁ _
      apply (course_bindAll heap₁ frame closure.params given).bind_of_nil
      intro _ m₂ heap₂ _
      exact (runs frame closure.body m₂ heap₂ (inv.body closure known)).catchReturn
    · exact course_fail heap span _
  | builtin function =>
    simp only [Eval.apply, momentsApply]
    apply (course_enter heap s (some ())).bind_of_nil
    intro frame m₁ heap₁ _
    exact (course_call runs heap₁ frame function given).calling span function
  | _ => exact course_fail heap span _

end Evaluator

section

variable {fuel : Nat} (runs : ∀ s, Runs inv (node fuel s) (moments fuel s))

include runs

/-- Along the clauses of evaluation, what each kind of node meets. -/
theorem course_step (heap : m.heap.Holds inv.values) (s : Scope) {n : Node} (code : inv.code n) :
    Course inv inv.values inv.exits m (momentsStep (node fuel) (moments fuel) fuel s n m)
      (step (node fuel) fuel s n m) := by
  have below := inv.child n code
  cases n with
  | unit span => exact course_ok heap inv.hereditary.unit
  | atom span a => exact course_atom heap s span a
  | block span forms =>
    simp only [step, momentsStep]
    apply (course_enter heap s none).bind_of_nil
    intro inner m₁ heap₁ _
    exact course_sequence (runs inner) heap₁ forms below inv.hereditary.unit
  | call span callee args =>
    obtain ⟨codeCallee, codeArgs⟩ := List.forall_mem_cons.1 below
    apply (runs s callee m heap codeCallee).bind
    intro function m₁ heap₁ known
    apply (course_collect (runs s) heap₁ args codeArgs).bind
    intro values m₂ heap₂ given
    let moment : Moment := ⟨fuel, .apply s span function values, m₂⟩
    have course : Course inv inv.values inv.exits m₂ _ moment.ending := course_apply runs heap₂ s span given known
    exact course.turn heap₂ ⟨known, given⟩ fun live => ⟨live, rfl⟩
  | conditional span branches otherwise => exact course_choose (runs s) heap otherwise branches below
  | loop span predicate body =>
    obtain ⟨codeTest, codeBody⟩ := List.forall_mem_cons.1 below
    exact course_turns (runs s) heap predicate body fuel codeTest (List.forall_mem_singleton.1 codeBody)
  | define span name value =>
    apply (runs s value m heap (List.forall_mem_singleton.1 below)).bind_nil
    intro v m₁ heap₁ known
    apply (course_define heap₁ s name.text known).bind_nil
    intro done m₂ heap₂ _
    cases done with
    | true => exact course_ok heap₂ inv.hereditary.unit
    | false => exact course_fail heap₂ _ _
  | assign span name value =>
    apply (runs s value m heap (List.forall_mem_singleton.1 below)).bind_nil
    intro v m₁ heap₁ known
    apply (course_assign heap₁ s name.text known).bind_nil
    intro done m₂ heap₂ _
    cases done with
    | true => exact course_ok heap₂ inv.hereditary.unit
    | false => exact course_fail heap₂ _ _
  | lambda span params doc body =>
    exact ⟨heap, inv.close span params doc body _ s code, List.forall_mem_nil _, fun live => ⟨live, rfl⟩⟩
  | quote span inner => exact course_ok heap ((inv.quoted inner).2 (List.forall_mem_singleton.1 below))
  | ret span value =>
    change Course inv inv.values inv.exits m (if m.heap.inFunction s then moments fuel s value m else [])
      ((if m.heap.inFunction s then node fuel s value >>= fun v => throw (.ret v)
        else fail span .returnOutside : Run Value) m)
    split
    · apply (runs s value m heap (List.forall_mem_singleton.1 below)).bind_nil
      intro v m₁ heap₁ known
      exact course_error heap₁ known
    · exact course_fail heap _ _

end

/-- A step is paid unless the machine is cancelled, also when it was one too many. -/
theorem tick_cases (span : Span) (m : Machine) :
    ∃ m', m'.heap = m.heap ∧ (m.cancelled = false → m'.cancelled = false ∧ m'.steps = m.steps + 1) ∧
      (tick span m = .ok () m' ∨ ∃ failure, tick span m = .error (.failure failure) m') := by
  unfold tick
  split
  · next cancelled =>
    refine ⟨m, rfl, ?_, .inr ⟨_, rfl⟩⟩
    intro live
    cases live.symm.trans cancelled
  · refine ⟨{ m with steps := m.steps + 1 }, rfl, fun live => ⟨live, rfl⟩, ?_⟩
    split
    · exact .inr ⟨_, rfl⟩
    · exact .inl rfl

/-- The evaluation of code that has the property comes to moments at which everything has it. -/
theorem runs_node (inv : Invariant) (fuel : Nat) (s : Scope) : Runs inv (node fuel s) (moments fuel s) := by
  induction fuel generalizing s with
  | zero =>
    intro n m heap _
    exact course_fail heap n.span _
  | succ fuel ih =>
    intro n m heap code
    obtain ⟨m', same, paid, ticked⟩ := tick_cases n.span m
    have heap' : m'.heap.Holds inv.values := same ▸ heap
    let moment : Moment := ⟨fuel + 1, .node s n, m⟩
    have ending : moment.ending = (tick n.span >>= fun _ => step (node fuel) fuel s n) m := rfl
    have rest : Course inv inv.values inv.exits m'
        (following (tick n.span) m fun _ m => momentsStep (node fuel) (moments fuel) fuel s n m) moment.ending := by
      rw [ending, bind_apply, following]
      rcases ticked with done | ⟨failure, failed⟩
      · rw [done]
        exact course_step ih heap' s code
      · rw [failed]
        exact course_error heap' trivial
    exact rest.turn heap code paid

theorem course_eval (heap : m.heap.Holds inv.values) (s : Scope) {n : Node} (code : inv.code n) :
    Course inv inv.values (fun _ => True) m (moments m.fuel s n m) (Machine.eval s n m) := by
  have course := runs_node inv m.fuel s n m heap code
  unfold Machine.eval liftFailure
  match run : node m.fuel s n m with
  | .ok value m' =>
    rw [run] at course
    exact ⟨course.heap, course.given, course.each, course.steps⟩
  | .error (.failure failure) m' | .error (.ret value) m' =>
    rw [run] at course
    exact ⟨course.heap, trivial, course.each, course.steps⟩

theorem course_evalAll (heap : m.heap.Holds inv.values) (s : Scope) (nodes : List Node)
    (code : ∀ n ∈ nodes, inv.code n) :
    Course inv (∀ value ∈ ·, inv.values value) (fun _ => True) m (Machine.moments s nodes m)
      (Machine.evalAll s nodes m) := by
  induction nodes generalizing m with
  | nil => exact course_ok heap (List.forall_mem_nil _)
  | cons n nodes ih =>
    obtain ⟨codeFirst, codeRest⟩ := List.forall_mem_cons.1 code
    apply (course_eval heap s codeFirst).bind
    intro value m₁ heap₁ known
    apply (ih heap₁ codeRest).bind_nil
    intro values m₂ heap₂ knownAll
    exact course_ok heap₂ (List.forall_mem_cons.2 ⟨known, knownAll⟩)

/-- What holds of everything. -/
def Invariant.trivial : Invariant where
  values _ := True
  code _ := True
  hereditary := ⟨⟨⟩, fun _ => ⟨⟩, fun _ => ⟨⟩, fun _ _ => ⟨⟩, fun _ => ⟨⟩, fun _ _ => (and_self_iff).symm⟩
  builtin _ := ⟨⟩
  quoted _ := .rfl
  close _ _ _ _ _ _ _ := ⟨⟩
  body _ _ := ⟨⟩
  child _ _ _ _ := ⟨⟩

/-- No moment is missed: the steps that are paid are the nodes that the moments turn to. -/
theorem steps_evalAll (s : Scope) (nodes : List Node) (live : m.cancelled = false) :
    (Ending.machine (Machine.evalAll s nodes m)).steps = m.steps + visits (Machine.moments s nodes m) := by
  have heap : m.heap.Holds Invariant.trivial.values := fun _ _ _ _ _ => ⟨⟩
  exact ((course_evalAll heap s nodes fun _ _ => ⟨⟩).steps live).2

theorem Invariant.holds_start (inv : Invariant) (limit : Nat) (capacity : Option Nat) :
    (Machine.start limit capacity).heap.Holds inv.values :=
  Heap.holds_start limit capacity inv.hereditary.bool inv.builtin

end Eval

namespace Source

open Eval

/-- At every moment of a run the invariant holds, if it holds of the code that was read. -/
theorem kept_of_mem_moments (inv : Invariant) (src : Source)
    (code : ∀ nodes, src.parse = .ok nodes → ∀ n ∈ nodes, inv.code n) :
    ∀ moment ∈ src.moments, moment.Kept inv := by
  unfold Source.moments
  cases parsed : src.parse with
  | error errors => exact List.forall_mem_nil _
  | ok nodes => exact (course_evalAll (inv.holds_start _ _) _ nodes (code nodes parsed)).each

theorem values_of_run (inv : Invariant) {src : Source}
    (code : ∀ nodes, src.parse = .ok nodes → ∀ n ∈ nodes, inv.code n) {values : List Value}
    (done : src.run.1 = .ok values) : ∀ value ∈ values, inv.values value := by
  unfold Source.run at done
  cases parsed : src.parse with
  | error errors =>
    rw [parsed] at done
    cases done
  | ok nodes =>
    have course := course_evalAll (inv.holds_start Machine.defaultLimit none) Machine.globalScope nodes (code nodes parsed)
    rw [parsed] at done
    dsimp only at done
    cases run : Machine.evalAll Machine.globalScope nodes (.start Machine.defaultLimit none) with
    | ok given m =>
      rw [run] at done course
      cases done
      exact course.given
    | error failure m =>
      rw [run] at done
      cases done

end Source

end CheckedLisp
