import CheckedLisp.Proofs.Eval.BuiltinResult
import CheckedLisp.Proofs.Eval.CappedSink
import CheckedLisp.Proofs.Eval.QuotedCode

/-! Only the calls of `display` and `newline` write, and evaluation looks nowhere at what was
written. So a sink with room for some number of bytes only decides how far a run gets: the call that
writes one byte more fails, and nothing comes after it. -/
namespace CheckedLisp

namespace Capping

open Budget (Ending)
open Eval Machine Sequencing

variable {α : Type} {k : Nat} {m : Machine} {s : Scope} {span : Span}

theorem silent_fail (span : Span) (fault : Fault) : Silent (fail span fault : Run α) := Silent.throw _

theorem silent_tick (span : Span) : Silent (tick span) := by
  intro m sink
  change (if m.cancelled then _ else if m.limit ≤ m.steps then _ else _) = _
  unfold tick
  repeat' split
  all_goals rfl

theorem silent_enter (s : Scope) (function : Option Unit) : Silent (enter s function) := fun _ _ => rfl

theorem silent_define (s : Scope) (name : String) (value : Value) : Silent (define s name value) := fun _ _ => rfl

theorem silent_assign (s : Scope) (name : String) (value : Value) : Silent (assign s name value) := fun _ _ => rfl

theorem silent_truth (span : Span) (value : Value) : Silent (truth span value) := by
  cases value with
  | bool b => exact .pure b
  | _ => exact silent_fail span _

/-- What `define` and `set!` do at the end. -/
theorem silent_done (span : Span) (fault : Fault) (done : Bool) :
    Silent (if done then return .unit else fail span fault : Run Value) := by
  cases done with
  | true => exact .pure _
  | false => exact silent_fail span fault

theorem silent_atom (s : Scope) (span : Span) (a : Atom) : Silent (atom s span a) := by
  cases a with
  | bool b => exact .pure _
  | string text => exact .pure _
  | int digits =>
    simp only [atom]
    split
    · exact .pure _
    · exact silent_fail span _
  | float digits =>
    simp only [atom]
    split
    · exact .pure _
    · exact silent_fail span _
  | symbol name =>
    have looked : Silent (lookup s name) := fun _ _ => rfl
    apply looked.bind
    intro found
    cases found with
    | some value => exact .pure value
    | none => exact silent_fail span _

theorem silent_bindAll (frame : Scope) (params : List Name) (args : List Value) :
    Silent (bindAll frame params args) := by
  induction params generalizing args with
  | nil => exact .pure ()
  | cons param params ih =>
    cases args with
    | nil => exact .pure ()
    | cons arg args => exact (silent_define frame param.text arg).bind fun _ => ih args

theorem silent_give (outcome : Builtin.Outcome) : Silent (Builtin.give outcome) := by
  cases outcome with
  | ok value => exact .pure value
  | error fault => exact .throw _

theorem silent_refuse (fault : Builtin.Fault) : Silent (Builtin.refuse fault : Builtin.Call α) := Silent.throw _

theorem Silent.calling {x : Builtin.Call Value} (silent : Silent x) (span : Span) (function : Builtin) :
    Silent (calling span function x) := by
  intro m sink
  unfold Eval.calling
  rw [silent m sink]
  rcases x m with _ | ⟨_ | _, _⟩ <;> rfl

/-- What a call of a built-in function has to do with the output. -/
inductive Manner (eval : Scope → Node → Run Value) : Builtin → List Value → Prop
  | writes {function : Builtin} {args : List Value} (pieces : List String)
    (writer : function = .display ∨ function = .newline)
    (same : ∀ frame, function.call eval frame args = Builtin.write pieces) : Manner eval function args
  | evaluates (n : Node) : Manner eval .eval [.quoted n]
  | silent {function : Builtin} {args : List Value} (silent : ∀ frame, Silent (function.call eval frame args)) :
    Manner eval function args

theorem manner (eval : Scope → Node → Run Value) (function : Builtin) (args : List Value) :
    Manner eval function args := by
  cases function with
  | arith op =>
    refine .silent fun frame => ?_
    simp only [Builtin.call]
    split
    · exact silent_refuse _
    · exact silent_give _
  | display => exact .writes _ (.inl rfl) fun _ => rfl
  | newline =>
    cases args with
    | nil => exact .writes ["\n"] (.inr rfl) fun _ => rfl
    | cons => exact .silent fun _ => silent_refuse _
  | list => exact .silent fun _ => .pure _
  | eval =>
    cases args with
    | nil => exact .silent fun _ => silent_refuse _
    | cons value others =>
      cases others with
      | nil =>
        cases value with
        | quoted n => exact .evaluates n
        | _ => exact .silent fun _ => .pure _
      | cons =>
        refine .silent fun frame => ?_
        simp only [Builtin.call]
        exact silent_refuse _
  | _ => exact .silent fun _ => silent_give _

/-- Evaluation, and what is met on the way, whatever room the sink has. -/
def Keeps (k : Nat) (eval : Node → Run Value) (inside : Node → Machine → List Moment) : Prop :=
  ∀ n m, m.sink.capacity = none → Beside .failure k m (inside n m) (eval n m) (eval n (m.capped k))

section Parts

variable {eval : Node → Run Value} {inside : Node → Machine → List Moment} (keeps : Keeps k eval inside)

include keeps

theorem beside_sequence (unbounded : m.sink.capacity = none) (last : Value) (forms : List Node) :
    Beside .failure k m (momentsAll eval inside forms m) (sequence eval last forms m)
      (sequence eval last forms (m.capped k)) := by
  induction forms generalizing last m with
  | nil => exact (Silent.pure last).beside unbounded
  | cons form forms ih =>
    apply (keeps form m unbounded).bind
    intro value m' unbounded'
    exact ih unbounded' value

theorem beside_collect (unbounded : m.sink.capacity = none) (forms : List Node) :
    Beside .failure k m (momentsAll eval inside forms m) (collect eval forms m) (collect eval forms (m.capped k)) := by
  induction forms generalizing m with
  | nil => exact (Silent.pure []).beside unbounded
  | cons form forms ih =>
    apply (keeps form m unbounded).bind
    intro value m' unbounded'
    exact (ih unbounded').bind_silent fun values => .pure (value :: values)

theorem beside_choose (unbounded : m.sink.capacity = none) (otherwise : Node) (branches : List (Node × Node)) :
    Beside .failure k m (momentsChoose eval inside otherwise branches m) (choose eval otherwise branches m)
      (choose eval otherwise branches (m.capped k)) := by
  induction branches generalizing m with
  | nil => exact keeps otherwise m unbounded
  | cons first rest ih =>
    obtain ⟨predicate, body⟩ := first
    apply (keeps predicate m unbounded).bind
    intro value m₁ unbounded₁
    apply Beside.bind_of_silent (silent_truth predicate.span value) unbounded₁
    intro holds m₂ unbounded₂
    cases holds with
    | true => exact keeps body m₂ unbounded₂
    | false => exact ih unbounded₂

theorem beside_turns (unbounded : m.sink.capacity = none) (predicate body : Node) (count : Nat) :
    Beside .failure k m (momentsTurns eval inside predicate body count m) (turns eval predicate body count m)
      (turns eval predicate body count (m.capped k)) := by
  induction count generalizing m with
  | zero =>
    have starved : Silent (turns eval predicate body 0) := fun _ _ => rfl
    exact starved.beside unbounded
  | succ count ih =>
    apply (keeps predicate m unbounded).bind
    intro value m₁ unbounded₁
    apply Beside.bind_of_silent (silent_truth predicate.span value) unbounded₁
    intro holds m₂ unbounded₂
    cases holds with
    | true =>
      apply (keeps body m₂ unbounded₂).bind
      intro _ m₃ unbounded₃
      exact ih unbounded₃
    | false => exact (Silent.pure _).beside unbounded₂

end Parts

section Evaluator

variable {fuel : Nat} {inside : Scope → Node → Machine → List Moment}

/-- The machine after a call in `s` has written a text. -/
def afterWrite (m : Machine) (s : Scope) (text : String) : Machine :=
  { m with heap := m.heap.add (some s) (some ()), sink := (m.sink.write text).2 }

section Write

variable {function : Builtin} {args : List Value} {pieces : List String}
  (writes : ∀ frame, function.call (node fuel) frame args = Builtin.write pieces)

include writes

theorem apply_write (m : Machine) :
    Eval.apply (node fuel) s span args (.builtin function) m =
      if (m.sink.write (String.join pieces)).1 then .ok .unit (afterWrite m s (String.join pieces))
      else .error (.failure ⟨span, .builtin function .outputFull⟩) (afterWrite m s (String.join pieces)) := by
  have applied : Eval.apply (node fuel) s span args (.builtin function) m =
      calling span function (Builtin.write pieces) { m with heap := m.heap.add (some s) (some ()) } := by
    rw [← writes m.heap.next]
    rfl
  rw [applied, calling, Builtin.write_apply]
  cases (m.sink.write (String.join pieces)).1 <;> rfl

/-- A call of `display` or `newline`: its moment is the one at which the sink overflows. -/
theorem beside_apply_write (writer : function = .display ∨ function = .newline) (unbounded : m.sink.capacity = none) :
    Beside .failure k m [⟨fuel, .apply s span (.builtin function) args, m⟩]
      (Eval.apply (node fuel) s span args (.builtin function) m)
      (Eval.apply (node fuel) s span args (.builtin function) (m.capped k)) := by
  let text := String.join pieces
  let m' := afterWrite m s text
  let moment : Moment := ⟨fuel, .apply s span (.builtin function) args, m⟩
  have written : m'.sink = ⟨m.sink.written ++ text.toUTF8, none⟩ := by
    simp only [m', afterWrite, Sink.write_unbounded unbounded]
  have done : Eval.apply (node fuel) s span args (.builtin function) m = .ok .unit m' := by
    rw [apply_write writes, Sink.write_unbounded unbounded]
    rfl
  have ended : moment.ending.machine = m' := congrArg Ending.machine done
  rw [done]
  refine ⟨congrArg Sink.capacity written, ⟨text.toUTF8, congrArg Sink.written written⟩, ?_⟩
  intro fits
  have taken : (m.capped k).sink.write text = (decide (m'.sink.written.size ≤ k), m'.sink.capped k) :=
    Sink.write_capped unbounded fits text
  have after : afterWrite (m.capped k) s text = m'.capped k := by
    rw [afterWrite, taken]
    rfl
  rw [apply_write writes, taken, after]
  by_cases inside : m'.sink.written.size ≤ k
  · rw [decide_eq_true inside]
    exact .whole (r := .ok Value.unit m') inside
  · have overflows : Overflows k span function moment :=
      ⟨⟨s, args, rfl⟩, writer, fits, ended ▸ Nat.lt_of_not_le inside⟩
    rw [decide_eq_false inside, ← ended]
    exact .cut (List.mem_singleton_self moment) overflows ⟨.empty, ByteArray.append_empty.symm⟩

end Write

section

variable (keeps : ∀ s, Keeps k (node fuel s) (inside s))

include keeps

/-- The moment of the call stands before those inside of it. The frame of the call changes nothing
about the sink, so quoted code may start behind it. -/
theorem beside_apply (unbounded : m.sink.capacity = none) (s : Scope) (span : Span) (args : List Value)
    (function : Value) :
    Beside .failure k m (⟨fuel, .apply s span function args, m⟩ :: momentsApply inside s args function m)
      (Eval.apply (node fuel) s span args function m) (Eval.apply (node fuel) s span args function (m.capped k)) := by
  cases function with
  | lambda closure =>
    refine Beside.mono ?_ (List.subset_cons_self _ _)
    simp only [Eval.apply, momentsApply]
    split
    · apply Beside.bind_of_silent (silent_enter closure.scope (some ())) unbounded
      intro frame m₁ unbounded₁
      apply Beside.bind_of_silent (silent_bindAll frame closure.params args) unbounded₁
      intro _ m₂ unbounded₂
      exact (keeps frame closure.body m₂ unbounded₂).catchReturn
    · exact (silent_fail span _).beside unbounded
  | builtin function =>
    cases manner (node fuel) function args with
    | writes pieces writer same =>
      refine (beside_apply_write same writer unbounded).mono ?_
      exact List.cons_subset.2 ⟨List.mem_cons_self, List.nil_subset _⟩
    | evaluates n =>
      refine Beside.mono ?_ (List.subset_cons_self _ _)
      let m₁ : Machine := { m with heap := m.heap.add (some s) (some ()) }
      have met : momentsApply inside s [.quoted n] (.builtin .eval) m = inside s n m₁ := by
        change inside ((m₁.heap.parent? m.heap.next).getD m.heap.next) n m₁ = inside s n m₁
        rw [caller_of_frame]
      have kept := (keeps s n m₁ unbounded).catchReturn
      rw [apply_eval_quoted, apply_eval_quoted, met]
      exact ⟨kept.unbounded, kept.grows, kept.ends⟩
    | silent silent =>
      have applied : Silent (Eval.apply (node fuel) s span args (.builtin function)) :=
        (silent_enter s (some ())).bind fun frame => (silent frame).calling span function
      exact (applied.beside unbounded).mono (List.nil_subset _)
  | _ => exact ((silent_fail span _).beside unbounded).mono (List.nil_subset _)

/-- Along the clauses of evaluation. -/
theorem beside_step (unbounded : m.sink.capacity = none) (s : Scope) (n : Node) :
    Beside .failure k m (momentsStep (node fuel) inside fuel s n m) (step (node fuel) fuel s n m)
      (step (node fuel) fuel s n (m.capped k)) := by
  cases n with
  | unit span => exact (Silent.pure _).beside unbounded
  | atom span a => exact (silent_atom s span a).beside unbounded
  | block span forms =>
    simp only [step, momentsStep]
    apply Beside.bind_of_silent (silent_enter s none) unbounded
    intro inner m₁ unbounded₁
    exact beside_sequence (keeps inner) unbounded₁ .unit forms
  | call span callee args =>
    apply (keeps s callee m unbounded).bind
    intro function m₁ unbounded₁
    apply (beside_collect (keeps s) unbounded₁ args).bind
    intro values m₂ unbounded₂
    exact beside_apply keeps unbounded₂ s span values function
  | conditional span branches otherwise => exact beside_choose (keeps s) unbounded otherwise branches
  | loop span predicate body => exact beside_turns (keeps s) unbounded predicate body fuel
  | define span name value =>
    apply (keeps s value m unbounded).bind_silent
    intro v
    exact (silent_define s name.text v).bind fun done => silent_done name.span _ done
  | assign span name value =>
    apply (keeps s value m unbounded).bind_silent
    intro v
    exact (silent_assign s name.text v).bind fun done => silent_done name.span _ done
  | lambda span params doc body =>
    have closed : Silent (close s params body) := fun _ _ => rfl
    exact closed.beside unbounded
  | quote span inner => exact (Silent.pure _).beside unbounded
  | ret span value =>
    change Beside .failure k m (if m.heap.inFunction s then inside s value m else [])
      ((if m.heap.inFunction s then node fuel s value >>= fun v => throw (.ret v)
        else fail span .returnOutside : Run Value) m)
      ((if m.heap.inFunction s then node fuel s value >>= fun v => throw (.ret v)
        else fail span .returnOutside : Run Value) (m.capped k))
    split
    · exact (keeps s value m unbounded).bind_silent fun v => .throw (Exit.ret v)
    · exact (silent_fail span _).beside unbounded

end

end Evaluator

/-- From one step to a whole evaluation, by induction on the fuel. -/
theorem keeps_node (k fuel : Nat) (s : Scope) : Keeps k (node fuel s) (moments fuel s) := by
  induction fuel generalizing s with
  | zero =>
    intro n m unbounded
    have starved : Silent (node 0 s n) := fun _ _ => rfl
    exact starved.beside unbounded
  | succ fuel ih =>
    intro n m unbounded
    refine Beside.mono ?_ (List.subset_cons_self _ _)
    apply Beside.bind_of_silent (silent_tick n.span) unbounded
    intro _ m₁ unbounded₁
    exact beside_step ih unbounded₁ s n

theorem beside_evalAll (unbounded : m.sink.capacity = none) (s : Scope) (nodes : List Node) :
    Beside id k m (Machine.moments s nodes m) (Machine.evalAll s nodes m) (Machine.evalAll s nodes (m.capped k)) := by
  induction nodes generalizing m with
  | nil => exact (Silent.pure []).beside unbounded
  | cons n nodes ih =>
    have first : Beside id k m (moments m.fuel s n m) (Machine.eval s n m) (Machine.eval s n (m.capped k)) :=
      (keeps_node k m.fuel s n m unbounded).liftFailure _
    apply first.bind
    intro value m₁ unbounded₁
    exact (ih unbounded₁).bind_silent fun values => .pure (value :: values)

end Capping

namespace Source

open Budget (Ending)
open Eval Capping

/-- What the owner of a program learns from its end, and the machine that it leaves. -/
def reported (src : Source) : Ending Failure (List Value) → Except Diagnostics (List Value) × Machine
  | .ok values m => (.ok values, m)
  | .error failure m => (.error (Collector.empty.push (failure.report src.name)), m)

/-- A run whose output goes to a sink of that capacity. -/
def runInto (src : Source) (capacity : Option Nat) : Except Diagnostics (List Value) × Machine :=
  match src.parse with
  | .error errors => (.error errors, .start Machine.defaultLimit capacity)
  | .ok nodes => src.reported (Budget.session nodes capacity Machine.defaultLimit)

section

variable {src : Source} {nodes : List Node}

theorem runInto_of_error {errors : Diagnostics} (failed : src.parse = .error errors) (capacity : Option Nat) :
    src.runInto capacity = (.error errors, .start Machine.defaultLimit capacity) := by
  rw [runInto, failed]

theorem runInto_of_ok (parsed : src.parse = .ok nodes) (capacity : Option Nat) :
    src.runInto capacity = src.reported (Budget.session nodes capacity Machine.defaultLimit) := by
  rw [runInto, parsed]

end

theorem run_eq_runInto (src : Source) : src.run = ((src.runInto none).1, (src.runInto none).2.sink.text) := by
  cases parsed : src.parse with
  | error errors =>
    have nothing : (Machine.start Machine.defaultLimit none).sink.text = "" := rfl
    rw [run, parsed, runInto_of_error parsed, nothing]
  | ok nodes =>
    rw [run, parsed, runInto_of_ok parsed]
    dsimp only [Budget.session]
    cases Machine.evalAll Machine.globalScope nodes (.start Machine.defaultLimit none) <;> rfl

theorem machine_reported (src : Source) (r : Ending Failure (List Value)) : (src.reported r).2 = r.machine := by
  cases r <;> rfl

theorem reported_capped (src : Source) (k : Nat) (r : Ending Failure (List Value)) :
    src.reported (capped k r) = ((src.reported r).1, (src.reported r).2.capped k) := by
  cases r <;> rfl

/-- How the two runs are compared, when the source parses. -/
theorem ends_session (nodes : List Node) (k : Nat) :
    Ends id k (Machine.moments Machine.globalScope nodes (.start Machine.defaultLimit none))
      (Budget.session nodes none Machine.defaultLimit) (Budget.session nodes (some k) Machine.defaultLimit) := by
  have beside := beside_evalAll (k := k) (m := .start Machine.defaultLimit none) rfl Machine.globalScope nodes
  rw [Machine.capped_start] at beside
  exact beside.ends (Nat.zero_le k)

theorem runInto_of_size_le {src : Source} {k : Nat} (fits : (src.runInto none).2.sink.written.size ≤ k) :
    src.runInto (some k) = ((src.runInto none).1, (src.runInto none).2.capped k) := by
  cases parsed : src.parse with
  | error errors => rw [runInto_of_error parsed, runInto_of_error parsed, Machine.capped_start]
  | ok nodes =>
    rw [runInto_of_ok parsed, machine_reported] at fits
    rw [runInto_of_ok parsed, runInto_of_ok parsed, (ends_session nodes k).eq_capped fits, reported_capped]

/-- A run that would write too much is stopped by the call that writes the byte that is too much. -/
theorem runInto_of_lt_size {src : Source} {k : Nat} (beyond : k < (src.runInto none).2.sink.written.size) :
    (src.runInto (some k)).2.sink.written = (src.runInto none).2.sink.written.extract 0 k ∧
      ∃ span function, ∃ moment ∈ src.moments, Overflows k span function moment ∧
        src.runInto (some k) =
          (.error (Collector.empty.push (Failure.report src.name ⟨span, .builtin function .outputFull⟩)),
            moment.ending.machine.capped k) := by
  cases parsed : src.parse with
  | error errors =>
    rw [runInto_of_error parsed] at beyond
    exact absurd beyond (Nat.not_lt_zero k)
  | ok nodes =>
    have ends := ends_session nodes k
    rw [runInto_of_ok parsed, machine_reported] at beyond
    rw [runInto_of_ok parsed, runInto_of_ok parsed, machine_reported, machine_reported, Source.moments, parsed]
    refine ⟨ends.written, ?_⟩
    obtain ⟨span, function, moment, member, overflows, stopped⟩ := ends.cut_of_lt beyond
    exact ⟨span, function, moment, member, overflows, congrArg src.reported stopped⟩

/-- A full sink is an exact cutoff. A run whose output fits ends as if the sink had no end. Any other is stopped
by the call that writes the first byte too many, and has written what fits. It does not matter in which pieces the
output is written, so the arguments and separators that `display` writes one by one are as good as one text. -/
theorem output_limit_exact (src : Source) (k : Nat) :
    src.run = ((src.runInto none).1, (src.runInto none).2.sink.text) ∧
    ((src.runInto none).2.sink.written.size ≤ k →
      src.runInto (some k) = ((src.runInto none).1, (src.runInto none).2.capped k) ∧
      (src.runInto (some k)).2.sink.written = (src.runInto none).2.sink.written) ∧
    (k < (src.runInto none).2.sink.written.size →
      (src.runInto (some k)).2.sink.written = (src.runInto none).2.sink.written.extract 0 k ∧
      ∃ report span function, ∃ moment ∈ src.moments, Overflows k span function moment ∧
        (src.runInto (some k)).1 = .error (Collector.empty.push report) ∧
        report.code = .builtinFailure ∧ report.span = span ∧
        report.message = function.name ++ ": output error: sink is full" ∧
        (src.runInto (some k)).2 = moment.ending.machine.capped k) ∧
    (∀ (sink : Sink) (pieces : List String), sink.writeEach pieces = sink.write (String.join pieces)) ∧
    ∀ (sink : Sink) (args : List Value),
      sink.writeEach (Builtin.pieces args) = sink.write (" ".intercalate (args.map Value.displayed)) := by
  refine ⟨run_eq_runInto src, ?_, ?_, Sink.writeEach_eq_write, Builtin.writeEach_pieces⟩
  · intro fits
    have same := runInto_of_size_le fits
    refine ⟨same, ?_⟩
    rw [same]
    exact Sink.written_capped fits
  · intro beyond
    obtain ⟨written, span, function, moment, member, overflows, stopped⟩ := runInto_of_lt_size beyond
    have message : function.name ++ ": " ++ "output error: sink is full" =
        function.name ++ ": output error: sink is full" := String.append_assoc
    exact ⟨written, _, span, function, moment, member, overflows, congrArg Prod.fst stopped, rfl, rfl, message,
      congrArg Prod.snd stopped⟩

end Source

end CheckedLisp
