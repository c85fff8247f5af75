import CheckedLisp.Proofs.Eval.Confinement
import CheckedLisp.Proofs.Node.Complaints

/-! A `return!` is refused unless a function encloses its scope, and frames never leave the function
they were opened in. So an evaluation ends with an early return only in a scope inside a function,
and a program never ends with one. Calls and quoted code end every early return that comes to them.
-/
namespace CheckedLisp

namespace EarlyReturn

open Budget (Ending)
open Confinement
open Eval

variable {α β : Type} {s : Scope} {m : Machine}

/-- The exits of an evaluation in `s`. No part of an evaluation reports an uncaught return:
that is for whoever started it. -/
def Allowed (s : Scope) (m : Machine) : Exit → Prop
  | .ret _ => m.heap.inFunction s = true
  | .failure failure => failure.fault.code ≠ .uncaughtReturn

def Exits (s : Scope) (m : Machine) (r : Ending Exit α) : Prop :=
  ∀ e m', r = .error e m' → Allowed s m e

/-- What ends every early return can only fail. -/
def Fails (r : Ending Exit α) : Prop :=
  ∀ e m', r = .error e m' → ∃ failure, e = .failure failure ∧ failure.fault.code ≠ .uncaughtReturn

theorem fails_ok (a : α) (m : Machine) : Fails (.ok a m) := by
  intro e m' failed
  cases failed

theorem fails_fail (span : Span) {fault : Fault} (other : decide (fault.code = .uncaughtReturn) = false) :
    Fails ((fail span fault : Run α) m) := by
  intro e m' failed
  cases failed
  exact ⟨_, rfl, of_decide_eq_false other⟩

theorem Fails.exits {r : Ending Exit α} (fails : Fails r) : Exits s m r := by
  intro e m' failed
  obtain ⟨failure, rfl, other⟩ := fails e m' failed
  exact other

theorem Fails.bind {x : Run α} {next : α → Run β} (first : Fails (x m))
    (second : ∀ a m', x m = .ok a m' → Fails (next a m')) : Fails ((x >>= next) m) := by
  intro e m'' failed
  rw [Sequencing.bind_apply] at failed
  cases run : x m with
  | ok a m' =>
    rw [run] at failed
    exact second a m' run e m'' failed
  | error e' m' =>
    rw [run] at failed first
    cases failed
    exact first e m'' rfl

/-- The second part may start from a later machine, since frames stay in their functions. -/
theorem Exits.bind [Scoped α] {x : Run α} {next : α → Run β} (sound : m.heap.WellScoped)
    (live : s < m.heap.next) (ended : Ended s m (x m)) (first : Exits s m (x m))
    (second : ∀ a m', m'.heap.WellScoped → m.heap.next ≤ m'.heap.next → Scoped.Within m'.heap.next a →
      Exits s m' (next a m')) : Exits s m ((x >>= next) m) := by
  intro e m'' failed
  rw [Sequencing.bind_apply] at failed
  cases run : x m with
  | ok a m' =>
    rw [run] at failed ended
    have allowed := second a m' ended.sound ended.confined.next ended.within e m'' failed
    cases e with
    | failure failure => exact allowed
    | ret value =>
      have same : m'.heap.inFunction s = m.heap.inFunction s :=
        ended.confined.inFunction sound.ordered live
      exact same.symm.trans allowed
  | error e' m' =>
    rw [run] at failed first
    cases failed
    exact first e m'' rfl

theorem exits_tick (span : Span) : Exits s m (tick span m) := by
  apply Fails.exits
  intro e m' failed
  unfold tick at failed
  split at failed
  · cases failed
    exact ⟨_, rfl, of_decide_eq_false rfl⟩
  · split at failed
    · cases failed
      exact ⟨_, rfl, of_decide_eq_false rfl⟩
    · cases failed

theorem fails_atom (t : Scope) (span : Span) (a : Atom) : Fails (atom t span a m) := by
  cases a with
  | bool b => exact fails_ok _ _
  | string text => exact fails_ok _ _
  | int digits =>
    simp only [atom]
    cases (Decimal.integer? digits).bind word? with
    | some n => exact fails_ok _ _
    | none => exact fails_fail span rfl
  | float digits =>
    simp only [atom]
    cases (Decimal.float? digits).filter Float.isFinite with
    | some x => exact fails_ok _ _
    | none => exact fails_fail span rfl
  | symbol name =>
    have looked : Fails (lookup t name m) := fails_ok _ _
    apply looked.bind
    intro found m' _
    cases found with
    | some value => exact fails_ok _ _
    | none => exact fails_fail span rfl

theorem fails_truth (span : Span) (value : Value) : Fails (truth span value m) := by
  cases value with
  | bool b => exact fails_ok _ _
  | _ => exact fails_fail span rfl

theorem fails_bindAll (frame : Scope) (params : List Name) (args : List Value) :
    Fails (bindAll frame params args m) := by
  induction params generalizing args m with
  | nil => exact fails_ok _ _
  | cons param params ih =>
    cases args with
    | nil => exact fails_ok _ _
    | cons arg args =>
      have bound : Fails (Eval.define frame param.text arg m) := fails_ok _ _
      apply bound.bind
      intro _ m' _
      exact ih args

/-- Evaluation that ends early only inside a function. -/
def Guarding (s : Scope) (eval : Node → Run Value) : Prop :=
  ∀ n m, m.heap.WellScoped → s < m.heap.next → Exits s m (eval n m)

section Parts

variable {eval : Node → Run Value} (confining : Confining s eval) (guarding : Guarding s eval)

include confining guarding

theorem exits_sequence (sound : m.heap.WellScoped) (live : s < m.heap.next) (last : Value)
    (forms : List Node) : Exits s m (sequence eval last forms m) := by
  induction forms generalizing last m with
  | nil => exact (fails_ok _ _).exits
  | cons form forms ih =>
    apply Exits.bind sound live (confining form m sound live) (guarding form m sound live)
    intro value m' sound' grown _
    exact ih sound' (Nat.lt_of_lt_of_le live grown) value

theorem exits_collect (sound : m.heap.WellScoped) (live : s < m.heap.next) (forms : List Node) :
    Exits s m (collect eval forms m) := by
  induction forms generalizing m with
  | nil => exact (fails_ok _ _).exits
  | cons form forms ih =>
    apply Exits.bind sound live (confining form m sound live) (guarding form m sound live)
    intro value m₁ sound₁ grown _
    have live₁ := Nat.lt_of_lt_of_le live grown
    apply Exits.bind sound₁ live₁ (ended_collect confining sound₁ live₁ forms) (ih sound₁ live₁)
    intro values m₂ _ _ _
    exact (fails_ok _ _).exits

theorem exits_choose (sound : m.heap.WellScoped) (live : s < m.heap.next) (otherwise : Node)
    (cases : List (Node × Node)) : Exits s m (choose eval otherwise cases m) := by
  induction cases generalizing m with
  | nil => exact guarding otherwise m sound live
  | cons first rest ih =>
    apply Exits.bind sound live (confining first.1 m sound live) (guarding first.1 m sound live)
    intro value m₁ sound₁ grown₁ _
    have live₁ := Nat.lt_of_lt_of_le live grown₁
    apply Exits.bind sound₁ live₁ (ended_truth sound₁ first.1.span value) (fails_truth _ _).exits
    intro holds m₂ sound₂ grown₂ _
    have live₂ := Nat.lt_of_lt_of_le live₁ grown₂
    cases holds with
    | true => exact guarding first.2 m₂ sound₂ live₂
    | false => exact ih sound₂ live₂

theorem exits_turns (sound : m.heap.WellScoped) (live : s < m.heap.next) (predicate body : Node)
    (count : Nat) : Exits s m (turns eval predicate body count m) := by
  induction count generalizing m with
  | zero =>
    have starved : Fails ((fail predicate.span (.stepLimit m.limit) : Run Value) m) := fails_fail _ rfl
    exact starved.exits
  | succ count ih =>
    apply Exits.bind sound live (confining predicate m sound live) (guarding predicate m sound live)
    intro value m₁ sound₁ grown₁ _
    have live₁ := Nat.lt_of_lt_of_le live grown₁
    apply Exits.bind sound₁ live₁ (ended_truth sound₁ predicate.span value) (fails_truth _ _).exits
    intro holds m₂ sound₂ grown₂ _
    have live₂ := Nat.lt_of_lt_of_le live₁ grown₂
    cases holds with
    | true =>
      apply Exits.bind sound₂ live₂ (confining body m₂ sound₂ live₂) (guarding body m₂ sound₂ live₂)
      intro _ m₃ sound₃ grown₃ _
      exact ih sound₃ (Nat.lt_of_lt_of_le live₂ grown₃)
    | false => exact (fails_ok _ _).exits

end Parts

theorem Exits.catchReturn {x : Run Value} (exits : Exits s m (x m)) : Fails (catchReturn x m) := by
  intro e m' failed
  unfold Eval.catchReturn at failed
  match run : x m with
  | .ok value m₁ | .error (.ret value) m₁ =>
    rw [run] at failed
    cases failed
  | .error (.failure failure) m₁ =>
    rw [run] at failed
    cases failed
    exact ⟨failure, rfl, exits _ _ run⟩

theorem code_ne_uncaughtReturn (fault : Builtin.Fault) : fault.code ≠ .uncaughtReturn := by
  cases fault <;> intro same <;> cases same

section Evaluator

variable {eval : Scope → Node → Run Value}

/-- Of all built-in functions only `eval` fails in the way of a program, and it does so when
the quoted code does. -/
theorem quoted_of_nested {frame : Scope} {function : Builtin} {args : List Value} {failure : Failure}
    {m' : Machine} (failed : function.call eval frame args m = .error (.nested failure) m') :
    ∃ node, args = [.quoted node] ∧
      eval ((m.heap.parent? frame).getD frame) node m = .error (.failure failure) m' := by
  have called : Builtin.Called eval frame args m (function.call eval frame args m) := Builtin.called function
  rw [failed] at called
  generalize ended : EStateM.Result.error (Builtin.Exit.nested failure) m' = r at called
  cases called with
  | given same made => cases ended
  | refused same => cases ended
  | @quoted node only =>
    refine ⟨node, only, ?_⟩
    unfold Builtin.evaluated at ended
    split at ended
    · cases ended
    · cases ended
    · next run =>
      cases ended
      exact run

variable (guarding : ∀ s, Guarding s (eval s))

include guarding

theorem fails_call (sound : m.heap.WellScoped) (live : s < m.heap.next) (span : Span)
    (function : Builtin) (args : List Value) :
    Fails ((enter s (some ()) >>= fun frame => calling span function (function.call eval frame args)) m) := by
  have entered : Fails (enter s (some ()) m) := fails_ok _ _
  apply entered.bind
  intro frame m₁ opened e m₂ failed
  cases opened
  unfold calling at failed
  split at failed
  · cases failed
  · next fault _ _ =>
    cases failed
    exact ⟨_, rfl, code_ne_uncaughtReturn fault⟩
  · next failure _ run =>
    cases failed
    obtain ⟨node, rfl, ran⟩ := quoted_of_nested run
    have caller : ((m.heap.add (some s) (some ())).parent? m.heap.next).getD m.heap.next = s := by
      rw [Heap.parent?_add_next]
      rfl
    simp only [caller] at ran
    have live' := Nat.lt_trans live (Heap.lt_next_add m.heap (some s) (some ()))
    exact ⟨failure, rfl, guarding s node _ (sound.child live (some ())) live' _ _ ran⟩

theorem fails_apply (sound : m.heap.WellScoped) (live : s < m.heap.next) (span : Span) {args : List Value}
    (within : ∀ arg ∈ args, arg.Within m.heap.next) {function : Value}
    (known : function.Within m.heap.next) : Fails (Eval.apply eval s span args function m) := by
  cases function with
  | lambda closure =>
    simp only [Eval.apply]
    split
    · have entered : Fails (enter closure.scope (some ()) m) := fails_ok _ _
      apply entered.bind
      intro frame m₁ opened
      cases opened
      have grown := Heap.lt_next_add m.heap (some closure.scope) (some ())
      have within₁ : ∀ arg ∈ args, arg.Within (m.heap.add (some closure.scope) (some ())).next :=
        fun arg member => (within arg member).mono (Nat.le_of_lt grown)
      apply Fails.bind (fails_bindAll _ _ _)
      intro _ m₂ bound
      have ended := ended_bindAll (s := m.heap.next)
        (m := { m with heap := m.heap.add (some closure.scope) (some ()) })
        (sound.child known (some ())) closure.params within₁
      rw [bound] at ended
      have live₂ : m.heap.next < m₂.heap.next := Nat.lt_of_lt_of_le grown ended.confined.next
      exact (guarding _ closure.body m₂ ended.sound live₂).catchReturn
    · exact fails_fail span rfl
  | builtin function => exact fails_call guarding sound live span function args
  | _ => exact fails_fail span rfl

/-- The frame of a block lies in a function when the scope around it does. -/
theorem exits_step (confining : ∀ s, Confining s (eval s)) (sound : m.heap.WellScoped)
    (live : s < m.heap.next) (fuel : Nat) (n : Node) : Exits s m (step eval fuel s n m) := by
  cases n with
  | unit span => exact (fails_ok _ _).exits
  | atom span a => exact (fails_atom s span a).exits
  | block span forms =>
    intro e m' failed
    have inside := Heap.lt_next_add m.heap (some s) none
    have allowed := exits_sequence (confining _) (guarding _)
      (m := { m with heap := m.heap.add (some s) none }) (sound.child live none) inside .unit forms e m' failed
    cases e with
    | failure failure => exact allowed
    | ret value => exact (Heap.inFunction_add_next sound.ordered live).symm.trans allowed
  | call span callee args =>
    apply Exits.bind sound live (confining s callee m sound live) (guarding s callee m sound live)
    intro function m₁ sound₁ grown₁ known
    have live₁ := Nat.lt_of_lt_of_le live grown₁
    apply Exits.bind sound₁ live₁ (ended_collect (confining s) sound₁ live₁ args)
      (exits_collect (confining s) (guarding s) sound₁ live₁ args)
    intro values m₂ sound₂ grown₂ within
    have known₂ : function.Within m₂.heap.next := Value.Within.mono grown₂ known
    exact (fails_apply guarding sound₂ (Nat.lt_of_lt_of_le live₁ grown₂) span within known₂).exits
  | conditional span cases otherwise =>
    exact exits_choose (confining s) (guarding s) sound live otherwise cases
  | loop span predicate body =>
    exact exits_turns (confining s) (guarding s) sound live predicate body fuel
  | define span name value =>
    apply Exits.bind sound live (confining s value m sound live) (guarding s value m sound live)
    intro v m₁ _ _ _
    have defined : Fails (Eval.define s name.text v m₁) := fails_ok _ _
    apply Fails.exits
    apply defined.bind
    intro done m₂ _
    cases done with
    | true => exact fails_ok _ _
    | false => exact fails_fail _ rfl
  | assign span name value =>
    apply Exits.bind sound live (confining s value m sound live) (guarding s value m sound live)
    intro v m₁ _ _ _
    have assigned : Fails (Eval.assign s name.text v m₁) := fails_ok _ _
    apply Fails.exits
    apply assigned.bind
    intro done m₂ _
    cases done with
    | true => exact fails_ok _ _
    | false => exact fails_fail _ rfl
  | lambda span params doc body => exact (fails_ok _ _).exits
  | quote span inner => exact (fails_ok _ _).exits
  | ret span value =>
    change Exits s m ((if m.heap.inFunction s then eval s value >>= fun v => throw (.ret v)
      else fail span .returnOutside : Run Value) m)
    by_cases inside : m.heap.inFunction s
    · rw [if_pos inside]
      intro e m' failed
      cases e with
      | ret v => exact inside
      | failure failure =>
        refine (guarding s value m sound live) _ m' ?_
        rw [Sequencing.bind_apply] at failed
        cases run : eval s value m with
        | ok v m₁ =>
          rw [run] at failed
          cases failed
        | error e m₁ =>
          rw [run] at failed
          cases failed
          rfl
    · have refused : Fails ((fail span .returnOutside : Run Value) m) := fails_fail span rfl
      rw [if_neg inside]
      exact refused.exits

end Evaluator

theorem guarding_node (fuel : Nat) (s : Scope) : Guarding s (node fuel s) := by
  induction fuel generalizing s with
  | zero =>
    intro n m _ _
    have starved : Fails ((fail n.span (.stepLimit m.limit) : Run Value) m) := fails_fail _ rfl
    exact starved.exits
  | succ fuel ih =>
    intro n m sound live
    apply Exits.bind sound live (ended_tick sound n.span) (exits_tick n.span)
    intro _ m₁ sound₁ grown _
    exact exits_step ih (confining_node fuel) sound₁ (Nat.lt_of_lt_of_le live grown) fuel n

/-- A program evaluates its forms outside of functions, where none ends with an early return. -/
theorem code_of_evalAll {nodes : List Node} {failure : Failure} {m' : Machine} (sound : m.heap.WellScoped)
    (live : s < m.heap.next) (outside : m.heap.inFunction s = false)
    (failed : Machine.evalAll s nodes m = .error failure m') : failure.fault.code ≠ .uncaughtReturn := by
  induction nodes generalizing m with
  | nil => cases failed
  | cons n nodes ih =>
    have ended := confining_node m.fuel s n m sound live
    have exits := guarding_node m.fuel s n m sound live
    simp only [Machine.evalAll, Sequencing.bind_apply, Machine.eval, liftFailure] at failed
    match run : node m.fuel s n m with
    | .ok value m₁ =>
      rw [run] at failed ended
      dsimp only at failed
      have outside₁ : m₁.heap.inFunction s = false :=
        (ended.confined.inFunction sound.ordered live).trans outside
      cases rest : Machine.evalAll s nodes m₁ with
      | ok values m₂ =>
        rw [rest] at failed
        cases failed
      | error failure' m₂ =>
        rw [rest] at failed
        cases failed
        exact ih ended.sound (Nat.lt_of_lt_of_le live ended.confined.next) outside₁ rest
    | .error (.failure failure') m₁ =>
      rw [run] at failed
      cases failed
      exact exits _ _ run
    | .error (.ret value) m₁ =>
      have inside : m.heap.inFunction s = true := exits _ _ run
      rw [outside] at inside
      cases inside

end EarlyReturn

namespace Machine

open Budget (Ending)

theorem flow_eq_ret {s : Scope} {n : Node} {m m' : Machine} {v : Value}
    (returned : flow s n m = .ok (.ret v) m') : Eval.node m.fuel s n m = .error (.ret v) m' := by
  unfold flow Eval.liftFailure at returned
  rw [map_eq_pure_bind, Sequencing.bind_apply] at returned
  match run : Eval.node m.fuel s n m with
  | .ok value m₁ | .error (.failure failure) m₁ =>
    rw [run] at returned
    cases returned
  | .error (.ret value) m₁ =>
    rw [run] at returned
    cases returned
    rfl

/-- Early return never escapes a function: where it ends an evaluation, a function encloses
the scope before and after; and no program fails because of an uncaught return. -/
theorem ret_inFunction_and_caught :
    (∀ m : Machine, m.Reachable → ∀ s < m.heap.next, ∀ n v m', flow s n m = .ok (.ret v) m' →
      m.heap.inFunction s = true ∧ m'.heap.inFunction s = true) ∧
    ∀ (src : Source) (errors : Diagnostics), src.run.1 = .error errors →
      ∀ report ∈ errors.kept, report.code ≠ .uncaughtReturn := by
  constructor
  · intro m reachable s live n v m' returned
    have sound := reachable.wellScoped
    have run := flow_eq_ret returned
    have inside : m.heap.inFunction s = true :=
      EarlyReturn.guarding_node m.fuel s n m sound live _ _ run
    have confined := (Confinement.confining_node m.fuel s n m sound live).confined
    rw [run] at confined
    exact ⟨inside, (confined.inFunction sound.ordered live).trans inside⟩
  · intro src errors failed report kept
    simp only [Source.run] at failed
    split at failed
    · next refused =>
      cases failed
      have about := Source.grammatical_of_parse refused report kept
      intro same
      rw [same] at about
      exact absurd about (by decide)
    · split at failed
      · cases failed
      · next failure _ run =>
        cases failed
        rw [List.mem_singleton.1 kept]
        exact EarlyReturn.code_of_evalAll (wellScoped_start defaultLimit none) Nat.zero_lt_one rfl run

/-- A `return!` in the frame of a call, seen by the owner of the machine. -/
theorem ret_inFunction_of_call :
    let m : Machine := { start 10 none with heap := (start 10 none).heap.add (some globalScope) (some ()) }
    let place := Span.point .first
    let m' := Ending.machine (flow 1 (.ret place (.atom place (.bool true))) m)
    flow 1 (.ret place (.atom place (.bool true))) m = .ok (.ret (.bool true)) m' ∧
      m.heap.inFunction 1 = true ∧ m'.heap.inFunction 1 = true := by
  intro m place m'
  have reachable : m.Reachable := by
    apply Reachable.frame (some globalScope) (some ()) (.start 10 none)
    rintro _ ⟨⟩
    decide
  have returned : flow 1 (.ret place (.atom place (.bool true))) m = .ok (.ret (.bool true)) m' := rfl
  exact ⟨returned, ret_inFunction_and_caught.1 m reachable 1 (by decide) _ _ m' returned⟩

end Machine

end CheckedLisp
