import CheckedLisp.Proofs.Eval.Confinement
import CheckedLisp.Proofs.Eval.QuotedCode
import Mathlib.Data.Nat.Digits.Defs

/-! An expression of integer literals and the four operations has a value among all integers. Its
evaluation gives that value if every number on the way fits in 64 bits and nothing is divided by
zero, and otherwise fails at the first place, in the order of evaluation, where this is not so. -/
namespace CheckedLisp

/-- Literals and operations on two operands, with the spans of their parts. -/
inductive IntExpr where
  | literal (span : Span) (digits : String)
  | apply (span nameSpan : Span) (op : Arith) (left right : IntExpr)

namespace IntExpr

open Eval Budget Sequencing

def node : IntExpr → Node
  | literal span digits => .atom span (.int digits)
  | apply span nameSpan op left right =>
    .call span (.atom nameSpan (.symbol op.name)) [left.node, right.node]

/-- Every literal is made of digits, perhaps with a minus sign in front. -/
def isWritten : IntExpr → Bool
  | literal _ digits => Text.isDigits (Atom.unsigned digits.toList)
  | apply _ _ _ left right => left.isWritten && right.isWritten

/-- The number that digits spell in base ten. -/
def magnitude (cs : List Char) : Nat := Nat.ofDigits 10 (cs.reverse.map fun c => c.toNat - '0'.toNat)

def literalValue (digits : String) : Int :=
  match digits.toList with
  | '-' :: cs => -(magnitude cs : Int)
  | cs => magnitude cs

/-- The value among all integers. Division goes toward zero. -/
def value : IntExpr → Int
  | literal _ digits => literalValue digits
  | apply _ _ .add left right => left.value + right.value
  | apply _ _ .sub left right => left.value - right.value
  | apply _ _ .mul left right => left.value * right.value
  | apply _ _ .div left right => left.value.tdiv right.value

def Fits (n : Int) : Prop := -2 ^ 63 ≤ n ∧ n ≤ 2 ^ 63 - 1

/-- Every literal and every value on the way fits in 64 bits, and no divisor is zero. -/
def Exact : IntExpr → Prop
  | literal _ digits => Fits (literalValue digits)
  | apply span nameSpan op left right =>
    left.Exact ∧ right.Exact ∧ (op = .div → right.value ≠ 0) ∧ Fits (apply span nameSpan op left right).value

instance (n : Int) : Decidable (Fits n) := inferInstanceAs (Decidable (-2 ^ 63 ≤ n ∧ n ≤ 2 ^ 63 - 1))

instance decidableExact : (e : IntExpr) → Decidable e.Exact
  | literal _ digits => inferInstanceAs (Decidable (Fits (literalValue digits)))
  | apply span nameSpan op left right =>
    have := decidableExact left
    have := decidableExact right
    inferInstanceAs (Decidable (left.Exact ∧ right.Exact ∧ (op = .div → right.value ≠ 0) ∧
      Fits (apply span nameSpan op left right).value))

/-- The steps that the evaluation takes: one for each literal, call and name of an operation. -/
def size : IntExpr → Nat
  | literal _ _ => 1
  | apply _ _ _ left right => 2 + left.size + right.size

/-- The first failure in the order of evaluation. -/
inductive Fails : IntExpr → Failure → Prop
  | literal {span : Span} {digits : String} (large : ¬Fits (literalValue digits)) :
    Fails (.literal span digits) ⟨span, .integerLiteral digits⟩
  | left {span nameSpan : Span} {op : Arith} {left right : IntExpr} {failure : Failure} (first : Fails left failure) :
    Fails (.apply span nameSpan op left right) failure
  | right {span nameSpan : Span} {op : Arith} {left right : IntExpr} {failure : Failure} (exact : left.Exact)
    (second : Fails right failure) : Fails (.apply span nameSpan op left right) failure
  | zero {span nameSpan : Span} {left right : IntExpr} (exact : left.Exact) (exact' : right.Exact)
    (zero : right.value = 0) :
    Fails (.apply span nameSpan .div left right) ⟨span, .builtin (.arith .div) .divisionByZero⟩
  | overflow {span nameSpan : Span} {op : Arith} {left right : IntExpr} {a b : Int64} (exact : left.Exact)
    (exact' : right.Exact) (isLeft : a.toInt = left.value) (isRight : b.toInt = right.value)
    (divisible : op = .div → right.value ≠ 0)
    (large : ¬Fits (IntExpr.apply span nameSpan op left right).value) :
    Fails (.apply span nameSpan op left right) ⟨span, .builtin (.arith op) (.overflow op a b)⟩

theorem Fails.code {e : IntExpr} {failure : Failure} (fails : e.Fails failure) :
    failure.fault.code = .malformedLiteral ∨ failure.fault.code = .builtinFailure := by
  induction fails with
  | literal => exact .inl rfl
  | left _ ih => exact ih
  | right _ _ ih => exact ih
  | zero => exact .inr rfl
  | overflow => exact .inr rfl

theorem digitsValue_eq (start : Nat) (cs : List Char) :
    Decimal.digitsValue start cs = start * 10 ^ cs.length + magnitude cs := by
  induction cs generalizing start with
  | nil => simp [Decimal.digitsValue, magnitude]
  | cons c cs ih =>
    have next : Decimal.digitsValue start (c :: cs) =
        Decimal.digitsValue (10 * start + (c.toNat - '0'.toNat)) cs := rfl
    have split : magnitude (c :: cs) = magnitude cs + 10 ^ cs.length * (c.toNat - '0'.toNat) := by
      simp only [magnitude, List.map_reverse, List.map_cons, Nat.ofDigits_reverse_cons, List.length_map]
    rw [next, ih, split, List.length_cons, Nat.pow_succ]
    ring

theorem integer?_eq {digits : String} (written : Text.isDigits (Atom.unsigned digits.toList) = true) :
    Decimal.integer? digits = some (literalValue digits) := by
  unfold Decimal.integer? literalValue
  generalize digits.toList = cs at written
  match cs with
  | [] => cases written
  | c :: cs =>
    by_cases minus : c = '-'
    · subst minus
      have isDigits : Text.isDigits cs = true := written
      simp [Decimal.sign, isDigits, digitsValue_eq]
    · by_cases plus : c = '+'
      · subst plus
        cases written
      · have unsigned : Decimal.sign (c :: cs) = (false, c :: cs) := by simp [Decimal.sign, minus, plus]
        have isDigits : Text.isDigits (c :: cs) = true := by simpa [Atom.unsigned, minus] using written
        simp [unsigned, isDigits, digitsValue_eq, minus]

theorem word?_of_fits {n : Int} (fits : Fits n) : ∃ w, word? n = some w ∧ w.toInt = n := by
  have inside : Int64.minValue.toInt ≤ n ∧ n ≤ Int64.maxValue.toInt := by
    rw [Int64.toInt_minValue, Int64.toInt_maxValue]
    exact fits
  refine ⟨Int64.ofInt n, by rw [word?, if_pos inside], ?_⟩
  exact Int64.toInt_ofInt_of_le fits.1 (Int.lt_of_le_sub_one fits.2)

theorem word?_of_not_fits {n : Int} (large : ¬Fits n) : word? n = none := by
  rw [word?, if_neg]
  rw [Int64.toInt_minValue, Int64.toInt_maxValue]
  exact large

theorem value_apply (span nameSpan : Span) (op : Arith) (left right : IntExpr) :
    (apply span nameSpan op left right).value = op.onInt left.value right.value := by
  cases op <;> rfl

/-- The operations mean what they are named for, and steps can be paid. -/
structure Ready (s : Scope) (m : Machine) : Prop where
  running : m.cancelled = false
  ordered : m.heap.Ordered
  live : s < m.heap.next
  resolves : ∀ op : Arith, m.heap.lookup s op.name = some (.builtin (.arith op))

namespace Ready

variable {s : Scope} {m : Machine}

theorem paid (ready : Ready s m) (steps : Nat) : Ready s { m with steps } :=
  ⟨ready.running, ready.ordered, ready.live, ready.resolves⟩

/-- The frame of a call hides nothing from the caller. -/
theorem called (ready : Ready s m) : Ready s { m with heap := m.heap.add (some s) (some ()) } := by
  refine ⟨ready.running, ready.ordered.add ready.live _, ?_, ?_⟩
  · exact Nat.lt_trans ready.live (Heap.lt_next_add m.heap (some s) (some ()))
  · intro op
    rw [← ready.resolves op, Heap.lookup_eq_view, Heap.lookup_eq_view,
      Heap.view_add_of_lt ready.ordered ready.live ready.live]

end Ready

/-- How the evaluation of an expression ends. -/
inductive Computed (s : Scope) (m : Machine) (e : IntExpr) : Ending Exit Value → Prop
  | done {n : Int64} {m' : Machine} (exact : e.Exact) (same : n.toInt = e.value) (ready : Ready s m')
    (steps : m'.steps = m.steps + e.size) (limit : m'.limit = m.limit) : Computed s m e (.ok (.int n) m')
  | failed {failure : Failure} {m' : Machine} (inexact : ¬e.Exact) (why : e.Fails failure) :
    Computed s m e (.error (.failure failure) m')

variable {s : Scope} {m : Machine}

theorem computed_literal (ready : Ready s m) (left : m.steps < m.limit) (fuel : Nat) (span : Span) {digits : String}
    (written : Text.isDigits (Atom.unsigned digits.toList) = true) :
    Computed s m (.literal span digits) (Eval.node (fuel + 1) s (IntExpr.node (.literal span digits)) m) := by
  rw [IntExpr.node, node_paid ready.running left]
  simp only [step, atom, integer?_eq written, Option.bind_some]
  by_cases fits : Fits (literalValue digits)
  · obtain ⟨w, found, same⟩ := word?_of_fits fits
    rw [found]
    exact .done fits same (ready.paid _) rfl rfl
  · rw [word?_of_not_fits fits]
    exact .failed fits (.literal fits)

theorem zeroDivisor_iff_value {op : Arith} {a b : Int64} {r : IntExpr} (isRight : b.toInt = r.value) :
    Builtin.zeroDivisor op [.int a, .int b] = true ↔ op = .div ∧ r.value = 0 := by
  rw [← isRight, ← Int64.toInt_zero, Int64.toInt_inj]
  simp [Builtin.zeroDivisor]

/-- The operation itself, on operands that have been computed. -/
theorem computed_apply (ready : Ready s m) (eval : Scope → Node → Run Value) (span nameSpan : Span) (op : Arith)
    {l r : IntExpr} {a b : Int64} (exactLeft : l.Exact) (exactRight : r.Exact) (isLeft : a.toInt = l.value)
    (isRight : b.toInt = r.value) {m₀ : Machine} (steps : m.steps = m₀.steps + (apply span nameSpan op l r).size)
    (limit : m.limit = m₀.limit) :
    Computed s m₀ (.apply span nameSpan op l r)
      (Eval.apply eval s span [.int a, .int b] (.builtin (.arith op)) m) := by
  let m' : Machine := { m with heap := m.heap.add (some s) (some ()) }
  have called : Eval.apply eval s span [.int a, .int b] (.builtin (.arith op)) m =
      calling span (.arith op) (if Builtin.zeroDivisor op [.int a, .int b] then Builtin.refuse .divisionByZero
        else Builtin.give (Builtin.calculate op (.int a) (.int b))) m' := rfl
  have sum : op.onInt a.toInt b.toInt = (apply span nameSpan op l r).value := by
    rw [isLeft, isRight, value_apply]
  rw [called]
  by_cases byZero : op = .div ∧ r.value = 0
  · rw [if_pos ((zeroDivisor_iff_value isRight).2 byZero)]
    obtain ⟨rfl, zero⟩ := byZero
    refine .failed ?_ (.zero exactLeft exactRight zero)
    intro exact
    exact exact.2.2.1 rfl zero
  · have divisible : op = .div → r.value ≠ 0 := fun isDiv zero => byZero ⟨isDiv, zero⟩
    rw [if_neg (mt (zeroDivisor_iff_value isRight).1 byZero), Builtin.calculate, sum]
    by_cases fits : Fits (apply span nameSpan op l r).value
    · obtain ⟨w, found, same⟩ := word?_of_fits fits
      rw [found]
      exact .done ⟨exactLeft, exactRight, divisible, fits⟩ same ready.called steps limit
    · rw [word?_of_not_fits fits]
      refine .failed ?_ (.overflow exactLeft exactRight isLeft isRight divisible fits)
      intro exact
      exact fits exact.2.2.2

/-- Fuel that covers the steps left is enough at every depth. -/
theorem computed_node (e : IntExpr) (written : e.isWritten = true) {fuel : Nat} (ready : Ready s m)
    (enough : m.steps + e.size ≤ m.limit) (covers : m.limit < fuel + m.steps) :
    Computed s m e (Eval.node fuel s e.node m) := by
  induction e generalizing m fuel with
  | literal span digits =>
    have left : m.steps < m.limit := enough
    obtain ⟨fuel, rfl⟩ : ∃ less, fuel = less + 1 := ⟨fuel - 1, by omega⟩
    exact computed_literal ready left fuel span written
  | apply span nameSpan op l r ihLeft ihRight =>
    simp only [size] at enough
    simp only [isWritten, Bool.and_eq_true] at written
    obtain ⟨fuel, rfl⟩ : ∃ less, fuel = less + 2 := ⟨fuel - 2, by omega⟩
    let m₁ : Machine := { m with steps := m.steps + 1 }
    let m₂ : Machine := { m with steps := m.steps + 2 }
    have callee : Eval.node (fuel + 1) s (.atom nameSpan (.symbol op.name)) m₁ = .ok (.builtin (.arith op)) m₂ :=
      Machine.node_symbol (m := m₁) ready.running (show m.steps + 1 < m.limit by omega) (ready.resolves op) fuel nameSpan
    have first : Computed s m₂ l (Eval.node (fuel + 1) s l.node m₂) :=
      ihLeft written.1 (ready.paid _) (show m.steps + 2 + l.size ≤ m.limit by omega)
        (show m.limit < fuel + 1 + (m.steps + 2) by omega)
    rw [IntExpr.node, node_paid ready.running (by omega), step, bind_apply, callee]
    dsimp only
    rw [bind_apply, collect, bind_apply]
    generalize Eval.node (fuel + 1) s l.node m₂ = result at first ⊢
    cases first with
    | failed inexact why => exact .failed (fun exact => inexact exact.1) (.left why)
    | @done a m₃ exactLeft isLeft ready₃ steps₃ limit₃ =>
      have steps₃' : m₃.steps = m.steps + 2 + l.size := steps₃
      have limit₃' : m₃.limit = m.limit := limit₃
      have second : Computed s m₃ r (Eval.node (fuel + 1) s r.node m₃) :=
        ihRight written.2 ready₃ (by omega) (by omega)
      dsimp only
      rw [bind_apply, collect, bind_apply]
      generalize Eval.node (fuel + 1) s r.node m₃ = result at second ⊢
      cases second with
      | failed inexact why => exact .failed (fun exact => inexact exact.2.1) (.right exactLeft why)
      | @done b m₄ exactRight isRight ready₄ steps₄ limit₄ =>
        refine computed_apply ready₄ _ span nameSpan op exactLeft exactRight isLeft isRight ?_ ?_
        · rw [steps₄, steps₃', size]
          omega
        · rw [limit₄, limit₃']

end IntExpr

/-- A scope that sees a name has a frame. -/
theorem Heap.lt_next_of_lookup {α ρ : Type} {h : Heap α ρ} {s : Scope} {name : String} {value : α}
    (found : h.lookup s name = some value) : s < h.next := by
  by_cases live : s < h.next
  · exact live
  · have none : h.frame? s = none := Array.getElem?_eq_none (Nat.not_lt.1 live)
    simp [lookup, chain, chainUpTo, none] at found

namespace Machine

open Eval

theorem eval_eq (s : Scope) (n : Node) (m : Machine) :
    Machine.eval s n m = match Eval.node m.fuel s n m with
      | .ok value m' => .ok value m'
      | .error (.ret value) m' => .error ⟨n.span, .uncaughtReturn value⟩ m'
      | .error (.failure failure) m' => .error failure m' := by
  unfold Machine.eval liftFailure
  rcases Eval.node m.fuel s n m with _ | ⟨_ | _, _⟩ <;> rfl

/-- Integer expressions compute exactly or fail: they give an integer just when every literal and
every value on the way fits in 64 bits and no divisor is zero, and then it is the exact value;
otherwise a literal is out of range, or an operation overflows or divides by zero. -/
theorem eval_intExpr {m : Machine} (reachable : m.Reachable) (running : m.cancelled = false) {s : Scope}
    (resolves : ∀ op : Arith, m.heap.lookup s op.name = some (.builtin (.arith op))) (e : IntExpr)
    (written : e.isWritten = true) (enough : m.steps + e.size ≤ m.limit) :
    ((∃ n m', Machine.eval s e.node m = .ok (.int n) m') ↔ e.Exact) ∧
    (∀ n m', Machine.eval s e.node m = .ok (.int n) m' → n.toInt = e.value) ∧
    (¬e.Exact → ∃ failure m', Machine.eval s e.node m = .error failure m' ∧ e.Fails failure ∧
      (failure.fault.code = .malformedLiteral ∨ failure.fault.code = .builtinFailure)) := by
  have ready : IntExpr.Ready s m :=
    ⟨running, reachable.wellScoped.ordered, Heap.lt_next_of_lookup (resolves .add), resolves⟩
  have computed : IntExpr.Computed s m e (Eval.node m.fuel s e.node m) := by
    apply IntExpr.computed_node e written ready enough
    unfold fuel
    omega
  rw [eval_eq]
  generalize Eval.node m.fuel s e.node m = result at computed
  cases computed with
  | done exact same =>
    refine ⟨⟨fun _ => exact, fun _ => ⟨_, _, rfl⟩⟩, ?_, absurd exact⟩
    rintro _ _ ⟨⟩
    exact same
  | failed inexact why =>
    refine ⟨⟨?_, fun exact => absurd exact inexact⟩, ?_, fun _ => ⟨_, _, rfl, why, why.code⟩⟩
    · rintro ⟨_, _, ⟨⟩⟩
    · rintro _ _ ⟨⟩

/-- The least integer is computed, and dividing it by minus one is refused. -/
theorem eval_intExpr_least :
    let m := start 20 none
    let place := Span.point .first
    let least : IntExpr := .apply place place .sub (.literal place "-9223372036854775807") (.literal place "01")
    let quotient : IntExpr := .apply place place .div least (.literal place "-1")
    (∃ n m', Machine.eval globalScope least.node m = .ok (.int n) m' ∧ n.toInt = -2 ^ 63) ∧
      ∃ failure m', Machine.eval globalScope quotient.node m = .error failure m' ∧
        (failure.fault.code = .malformedLiteral ∨ failure.fault.code = .builtinFailure) := by
  intro m place least quotient
  have resolves : ∀ op : Arith, m.heap.lookup globalScope op.name = some (.builtin (.arith op)) := by
    intro op
    cases op <;> rfl
  obtain ⟨computes, exactly, _⟩ :=
    eval_intExpr (.start 20 none) rfl resolves least (by decide +kernel) (by decide)
  obtain ⟨_, _, fails⟩ := eval_intExpr (.start 20 none) rfl resolves quotient (by decide +kernel) (by decide)
  have exact : least.Exact := by decide +kernel
  have inexact : ¬quotient.Exact := by decide +kernel
  have value : least.value = -2 ^ 63 := by decide +kernel
  obtain ⟨n, m', done⟩ := computes.2 exact
  obtain ⟨failure, m'', failed, _, code⟩ := fails inexact
  exact ⟨⟨n, m', done, (exactly n m' done).trans value⟩, failure, m'', failed, code⟩

end Machine

end CheckedLisp
