import CheckedLisp.Proofs.Eval.Writing

/-! A built-in function makes its value from data and from what it was given; it changes no frame.
Only quoted code that is evaluated can do more. -/
namespace CheckedLisp

/-- A property that all data has, and a pair if and only if both of its parts have it. Of floats
only the finite ones have to have it. -/
structure Value.Hereditary (P : Value → Prop) : Prop where
  unit : P .unit
  bool : ∀ b, P (.bool b)
  int : ∀ n, P (.int n)
  float : ∀ x : Float, x.isFinite = true → P (.float x)
  string : ∀ text, P (.string text)
  pair : ∀ a b, P (.pair a b) ↔ P a ∧ P b

theorem Value.Hereditary.ofList {P : Value → Prop} (hereditary : Value.Hereditary P) {items : List Value} :
    P (Value.ofList items) ↔ ∀ item ∈ items, P item := by
  induction items with
  | nil => simp [Value.ofList, hereditary.unit]
  | cons first rest ih => simp [Value.ofList, hereditary.pair, ih]

namespace Builtin

variable {P : Value → Prop}

/-- What a computation gives, if anything, has the property. -/
def Outcome.Makes (P : Value → Prop) (outcome : Outcome) : Prop :=
  ∀ value, outcome = .ok value → P value

theorem Outcome.makes_ok {value : Value} (holds : P value) : Outcome.Makes P (.ok value) := by
  rintro _ ⟨⟩
  exact holds

theorem Outcome.makes_error (fault : Fault) : Outcome.Makes P (.error fault) := by
  rintro _ ⟨⟩

theorem makes_onOne {f : Value → Outcome} {args : List Value}
    (each : ∀ a, P a → Outcome.Makes P (f a)) (given : ∀ arg ∈ args, P arg) :
    Outcome.Makes P (onOne f args) := by
  match args with
  | [a] => exact each a (given a (by simp))
  | [] | _ :: _ :: _ => exact Outcome.makes_error _

theorem makes_onTwo {f : Value → Value → Outcome} {args : List Value}
    (each : ∀ a b, P a → P b → Outcome.Makes P (f a b)) (given : ∀ arg ∈ args, P arg) :
    Outcome.Makes P (onTwo f args) := by
  match args with
  | [a, b] => exact each a b (given a (by simp)) (given b (by simp))
  | [] | [_] | _ :: _ :: _ :: _ => exact Outcome.makes_error _

section

variable (hereditary : Value.Hereditary P)

include hereditary

theorem makes_calculate (op : Arith) (a b : Value) : Outcome.Makes P (calculate op a b) := by
  unfold calculate
  split
  · split
    · exact Outcome.makes_ok (hereditary.int _)
    · exact Outcome.makes_error _
  · dsimp only
    split
    · next finite => exact Outcome.makes_ok (hereditary.float _ finite)
    · exact Outcome.makes_error _
  · exact Outcome.makes_error _

theorem makes_order (op : Comparison) (a b : Value) : Outcome.Makes P (order op a b) := by
  unfold order
  split
  · exact Outcome.makes_ok (hereditary.bool _)
  · split
    · exact Outcome.makes_ok (hereditary.bool _)
    · exact Outcome.makes_error _
  · exact Outcome.makes_ok (hereditary.bool _)
  · exact Outcome.makes_error _

theorem makes_negate (a : Value) : Outcome.Makes P (negate a) := by
  cases a with
  | bool b => exact Outcome.makes_ok (hereditary.bool _)
  | _ => exact Outcome.makes_error _

theorem makes_first {a : Value} (given : P a) : Outcome.Makes P (first a) := by
  cases a with
  | pair car cdr => exact Outcome.makes_ok ((hereditary.pair car cdr).1 given).1
  | _ => exact Outcome.makes_error _

theorem makes_rest {a : Value} (given : P a) : Outcome.Makes P (rest a) := by
  cases a with
  | pair car cdr => exact Outcome.makes_ok ((hereditary.pair car cdr).1 given).2
  | _ => exact Outcome.makes_error _

theorem makes_count (n : Nat) : Outcome.Makes P (count n) := by
  unfold count
  split
  · exact Outcome.makes_ok (hereditary.int _)
  · exact Outcome.makes_error _

theorem makes_size (a : Value) : Outcome.Makes P (size a) := by
  cases a with
  | string s => exact makes_count hereditary s.length
  | unit => exact makes_count hereditary 0
  | pair car cdr =>
    intro value done
    obtain ⟨found, _, counted⟩ := Sequencing.except_bind_eq_ok.1 done
    exact makes_count hereditary found.length value counted
  | _ => exact Outcome.makes_error _

theorem holds_items {value : Value} (given : P value) {found : List Value}
    (proper : items value = .ok found) : ∀ item ∈ found, P item := by
  unfold items at proper
  split at proper
  · next listed =>
    cases proper
    rw [← hereditary.ofList, Value.ofList_of_toList? listed]
    exact given
  · cases proper

theorem holds_concat {args found : List Value} (given : ∀ arg ∈ args, P arg)
    (joined : concat args = .ok found) : ∀ item ∈ found, P item := by
  induction args generalizing found with
  | nil =>
    cases joined
    exact given
  | cons arg args ih =>
    obtain ⟨givenArg, givenArgs⟩ := List.forall_mem_cons.1 given
    obtain ⟨own, listed, joined⟩ := Sequencing.except_bind_eq_ok.1 joined
    obtain ⟨others, joinedOthers, together⟩ := Sequencing.except_bind_eq_ok.1 joined
    cases together
    exact List.forall_mem_append.2 ⟨holds_items hereditary givenArg listed, ih givenArgs joinedOthers⟩

theorem makes_append {args : List Value} (given : ∀ arg ∈ args, P arg) :
    Outcome.Makes P ((concat args).map .ofList) := by
  cases joined : concat args with
  | ok found => exact Outcome.makes_ok (hereditary.ofList.2 (holds_concat hereditary given joined))
  | error fault => exact Outcome.makes_error fault

theorem makes_backward {a : Value} (given : P a) : Outcome.Makes P (backward a) := by
  intro value done
  obtain ⟨found, listed, reversed⟩ := Sequencing.except_bind_eq_ok.1 done
  cases reversed
  rw [hereditary.ofList]
  intro item member
  exact holds_items hereditary given listed item (List.mem_reverse.1 member)

end

/-- How a call ends that evaluates no code: of the machine only the output changes. -/
inductive Settled (args : List Value) (m : Machine) : EStateM.Result Exit Machine Value → Prop
  | given {value : Value} (sink : Sink)
    (made : ∀ P, Value.Hereditary P → (∀ arg ∈ args, P arg) → P value) :
    Settled args m (.ok value { m with sink })
  | refused {fault : Fault} (sink : Sink) : Settled args m (.error (.fault fault) { m with sink })

/-- The ways in which a call of a built-in function ends. -/
inductive Called (eval : Scope → Node → Run Value) (frame : Scope) (args : List Value) (m : Machine) :
    EStateM.Result Exit Machine Value → Prop
  | given {value : Value} {m' : Machine} (same : m'.heap = m.heap)
    (made : ∀ P, Value.Hereditary P → (∀ arg ∈ args, P arg) → P value) :
    Called eval frame args m (.ok value m')
  | refused {fault : Fault} {m' : Machine} (same : m'.heap = m.heap) :
    Called eval frame args m (.error (.fault fault) m')
  | quoted {node : Node} (only : args = [.quoted node]) :
    Called eval frame args m (evaluated (eval ((m.heap.parent? frame).getD frame) node) m)

section

variable {eval : Scope → Node → Run Value} {frame : Scope} {args : List Value} {m : Machine}

theorem settled_give {outcome : Outcome}
    (makes : ∀ P, Value.Hereditary P → (∀ arg ∈ args, P arg) → outcome.Makes P) :
    Settled args m (give outcome m) := by
  cases outcome with
  | ok value => exact .given m.sink fun P hereditary given => makes P hereditary given value rfl
  | error fault => exact .refused m.sink

theorem settled_write (pieces : List String) : Settled args m (write pieces m) := by
  rw [write_apply]
  split
  · exact .given _ fun P hereditary _ => hereditary.unit
  · exact .refused _

/-- Only `eval` evaluates code, and only when quoted code is all it is given. -/
theorem settled {function : Builtin} (plain : ¬ (function = .eval ∧ ∃ node, args = [.quoted node])) :
    Settled args m (function.call eval frame args m) := by
  cases function with
  | arith op =>
    simp only [Builtin.call]
    split
    · exact .refused m.sink
    · exact settled_give fun P hereditary given =>
        makes_onTwo (fun a b _ _ => makes_calculate hereditary op a b) given
  | compare op =>
    exact settled_give fun P hereditary given =>
      makes_onTwo (fun a b _ _ => makes_order hereditary op a b) given
  | equal =>
    exact settled_give fun P hereditary given =>
      makes_onTwo (fun a b _ _ => Outcome.makes_ok (hereditary.bool _)) given
  | not =>
    exact settled_give fun P hereditary given => makes_onOne (fun a _ => makes_negate hereditary a) given
  | display => exact settled_write _
  | newline =>
    cases args with
    | nil => exact settled_write ["\n"]
    | cons => exact .refused m.sink
  | cons =>
    exact settled_give fun P hereditary given =>
      makes_onTwo (fun a b first second => Outcome.makes_ok ((hereditary.pair a b).2 ⟨first, second⟩)) given
  | car => exact settled_give fun P hereditary given => makes_onOne (fun _ => makes_first hereditary) given
  | cdr => exact settled_give fun P hereditary given => makes_onOne (fun _ => makes_rest hereditary) given
  | list => exact .given m.sink fun P hereditary given => hereditary.ofList.2 given
  | length =>
    exact settled_give fun P hereditary given => makes_onOne (fun a _ => makes_size hereditary a) given
  | append => exact settled_give fun P hereditary given => makes_append hereditary given
  | reverse =>
    exact settled_give fun P hereditary given => makes_onOne (fun _ => makes_backward hereditary) given
  | isNull =>
    exact settled_give fun P hereditary given =>
      makes_onOne (fun a _ => Outcome.makes_ok (hereditary.bool _)) given
  | eval =>
    match args with
    | [.quoted node] => exact absurd ⟨rfl, node, rfl⟩ plain
    | [.unit] | [.bool _] | [.int _] | [.float _] | [.string _] | [.pair _ _] | [.lambda _] | [.builtin _] =>
      exact .given m.sink fun P _ given => given _ (by simp)
    | [] => exact .refused m.sink
    | _ :: _ :: _ =>
      simp only [Builtin.call]
      exact .refused m.sink

theorem called (function : Builtin) : Called eval frame args m (function.call eval frame args m) := by
  by_cases asks : function = .eval ∧ ∃ node, args = [.quoted node]
  · obtain ⟨rfl, node, rfl⟩ := asks
    exact .quoted rfl
  · have ended : Settled args m (function.call eval frame args m) := settled asks
    generalize function.call eval frame args m = r at ended
    cases ended with
    | given sink made => exact .given rfl made
    | refused sink => exact .refused rfl

end

end Builtin

end CheckedLisp
