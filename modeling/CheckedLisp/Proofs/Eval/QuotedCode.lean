import CheckedLisp.Proofs.Eval.StepLimit
import CheckedLisp.Proofs.Scope.View

/-! To evaluate quoted code is to evaluate the code where the call stands. The call itself takes
three steps, for the call, its function and the quotation, and leaves one empty frame behind; and an
early return of the code goes no further than the call. -/
namespace CheckedLisp

namespace Eval

/-- An early return that has come to its end. -/
def Flow.caught : Flow → Flow
  | .normal value | .ret value => .normal value

end Eval

namespace Machine

open Eval Budget Sequencing

/-- The machine when the code of a call of `eval` in `s` is due. -/
def atQuoted (m : Machine) (s : Scope) : Machine :=
  { m with steps := m.steps + 3, heap := m.heap.add (some s) (some ()) }

/-- The call `(eval (quote n))`. -/
def evalQuote (span calleeSpan quoteSpan : Span) (n : Node) : Node :=
  .call span (.atom calleeSpan (.symbol Builtin.eval.name)) [.quote quoteSpan n]

variable {m : Machine} {s : Scope}

theorem node_symbol (running : m.cancelled = false) (left : m.steps < m.limit) {name : String} {value : Value}
    (resolves : m.heap.lookup s name = some value) (fuel : Nat) (span : Span) :
    node (fuel + 1) s (.atom span (.symbol name)) m = .ok value { m with steps := m.steps + 1 } := by
  rw [node_paid running left]
  simp only [step, atom, bind_apply, lookup, resolves]
  rfl

theorem node_quote (running : m.cancelled = false) (left : m.steps < m.limit) (fuel : Nat) (span : Span) (n : Node) :
    node (fuel + 1) s (.quote span n) m = .ok (.quoted n) { m with steps := m.steps + 1 } :=
  node_paid running left fuel s (.quote span n)

/-- Through the kinds of exits of a built-in function and back, failures stay what they are. -/
theorem calling_evaluated (span : Span) (function : Builtin) (x : Run Value) :
    calling span function (Builtin.evaluated x) = catchReturn x := by
  funext m
  unfold calling Builtin.evaluated catchReturn
  rcases x m with _ | ⟨_ | _, _⟩ <;> rfl

/-- The built-in function finds the caller again as the parent of its own frame. -/
theorem caller_of_frame (m : Machine) (s : Scope) :
    ((m.heap.add (some s) (some ())).parent? m.heap.next).getD m.heap.next = s := by
  rw [Heap.parent?_add_next]
  rfl

theorem apply_eval_quoted (eval : Scope → Node → Run Value) (span : Span) (n : Node) :
    Eval.apply eval s span [.quoted n] (.builtin .eval) m =
      catchReturn (eval s n) { m with heap := m.heap.add (some s) (some ()) } := by
  have called : Eval.apply eval s span [.quoted n] (.builtin .eval) m =
      calling span .eval (Builtin.evaluated (eval (((m.heap.add (some s) (some ())).parent? m.heap.next).getD
        m.heap.next) n)) { m with heap := m.heap.add (some s) (some ()) } := rfl
  rw [called, caller_of_frame, calling_evaluated]

theorem node_evalQuote (running : m.cancelled = false) (left : m.steps + 3 ≤ m.limit)
    (resolves : m.heap.lookup s Builtin.eval.name = some (.builtin .eval)) (fuel : Nat)
    (span calleeSpan quoteSpan : Span) (n : Node) :
    node (fuel + 2) s (evalQuote span calleeSpan quoteSpan n) m =
      catchReturn (node (fuel + 1) s n) (m.atQuoted s) := by
  let m₁ : Machine := { m with steps := m.steps + 1 }
  let m₂ : Machine := { m with steps := m.steps + 2 }
  let m₃ : Machine := { m with steps := m.steps + 3 }
  have callee : node (fuel + 1) s (.atom calleeSpan (.symbol Builtin.eval.name)) m₁ = .ok (.builtin .eval) m₂ :=
    node_symbol (m := m₁) running (show m.steps + 1 < m.limit by omega) resolves fuel calleeSpan
  have quoted : node (fuel + 1) s (.quote quoteSpan n) m₂ = .ok (.quoted n) m₃ :=
    node_quote (m := m₂) running (show m.steps + 2 < m.limit by omega) fuel quoteSpan n
  have args : collect (node (fuel + 1) s) [.quote quoteSpan n] m₂ = .ok [.quoted n] m₃ := by
    rw [collect, bind_apply, quoted]
    rfl
  rw [evalQuote, node_paid running (by omega), step, bind_apply, callee]
  dsimp only
  rw [bind_apply, args]
  exact apply_eval_quoted (node (fuel + 1)) span n

theorem flow_eq (s : Scope) (n : Node) (m : Machine) :
    flow s n m = match node m.fuel s n m with
      | .ok value m' => .ok (.normal value) m'
      | .error (.ret value) m' => .ok (.ret value) m'
      | .error (.failure failure) m' => .error failure m' := by
  unfold flow liftFailure
  rw [map_eq_pure_bind, bind_apply]
  rcases node m.fuel s n m with _ | ⟨_ | _, _⟩ <;> rfl

/-- `eval` undoes `quote`: evaluating `(eval (quote n))` in a scope is evaluating `n` there, three
steps later and with one more empty frame, whatever `n` does; only an early return of `n` has
become its value. -/
theorem flow_evalQuote (m : Machine) (running : m.cancelled = false) (left : m.steps + 3 ≤ m.limit)
    (s : Scope) (resolves : m.heap.lookup s Builtin.eval.name = some (.builtin .eval))
    (span calleeSpan quoteSpan : Span) (n : Node) :
    flow s (evalQuote span calleeSpan quoteSpan n) m = (Flow.caught <$> flow s n) (m.atQuoted s) := by
  let depth := m.limit - m.steps - 1
  have enough : m.fuel = depth + 2 := by
    simp only [Machine.fuel, depth]
    omega
  have covered : node (depth + 1) s n (m.atQuoted s) = node (m.atQuoted s).fuel s n (m.atQuoted s) := by
    refine node_eq_of_covers left ?_ ?_ s n
    · simp only [atQuoted, depth]
      omega
    · simp only [atQuoted, Machine.fuel]
      omega
  have called := node_evalQuote running left resolves depth span calleeSpan quoteSpan n
  rw [flow_eq, enough, called, catchReturn, covered, map_eq_pure_bind, bind_apply, flow_eq]
  rcases node (m.atQuoted s).fuel s n (m.atQuoted s) with _ | ⟨_ | _, _⟩ <;> rfl

/-- An early return inside quoted code, with just the steps for it. -/
theorem flow_evalQuote_returning :
    let m : Machine := { start 5 none with heap := (start 5 none).heap.add (some globalScope) (some ()) }
    let place := Span.point .first
    let n : Node := .ret place (.atom place (.bool true))
    m.heap.lookup 1 Builtin.eval.name = some (.builtin .eval) ∧
      flow 1 n m = .ok (.ret (.bool true)) { m with steps := 2 } ∧
      flow 1 (evalQuote place place place n) m =
        .ok (.normal (.bool true)) { m.atQuoted 1 with steps := 5 } := by
  intro m place n
  have resolves : m.heap.lookup 1 Builtin.eval.name = some (.builtin .eval) := rfl
  refine ⟨resolves, rfl, ?_⟩
  rw [flow_evalQuote m rfl (by decide) 1 resolves]
  rfl

end Machine

end CheckedLisp
