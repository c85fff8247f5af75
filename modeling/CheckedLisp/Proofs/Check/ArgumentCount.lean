import CheckedLisp.Eval.Run
import CheckedLisp.Proofs.Check.Overloads
import CheckedLisp.Proofs.Check.Preservation
import CheckedLisp.Proofs.Eval.BuiltinResult

/-! A built-in function counts its arguments when it is called, and its signatures say how many it
takes before that. The two agree on every function and every list of arguments, but for the divisor:
`/` looks for a zero before it counts. -/
namespace CheckedLisp

namespace Signature

theorem wrongArgument?_any (index : Nat) (params : List Ty) (count : Nat) :
    wrongArgument? index params (List.replicate count .any) = none := by
  induction params generalizing index count with
  | nil => rfl
  | cons param params ih =>
    cases count with
    | zero => rfl
    | succ count =>
      have same : param.same .any = true := by simp [Ty.same, Ty.isAny]
      rw [List.replicate_succ, wrongArgument?, if_pos same]
      exact ih (index + 1) count

/-- Arguments of any type fit a signature as soon as there are as many as it has slots for. -/
theorem fits_any_iff {s : Signature Ty} (placed : s.params.dropLast.any Ty.isVariadic = false) (count : Nat) :
    s.fits (List.replicate count .any) = true ↔ (s.slots count).length = count := by
  simp only [fits, mismatch?, placed, List.length_replicate, Bool.false_eq_true, if_false, wrongArgument?_any]
  by_cases fit : (s.slots count).length = count <;> simp [fit]

end Signature

namespace Builtin

/-- Whether a function takes `count` arguments. -/
def takes : Builtin → Nat → Bool
  | arith _, count | compare _, count | equal, count | cons, count => count = 2
  | not, count | car, count | cdr, count | length, count | reverse, count | isNull, count
  | eval, count => count = 1
  | newline, count => count = 0
  | display, _ | list, _ | append, _ => true

/-- Some signature that checking starts with accepts `count` arguments. -/
def Accepts (function : Builtin) (count : Nat) : Prop :=
  ∃ s ∈ TypeHeap.start.signatures TypeHeap.globalScope function.name,
    s.fits (List.replicate count .any) = true

theorem signatures_start (function : Builtin) :
    TypeHeap.start.signatures TypeHeap.globalScope function.name = function.overloads := by
  cases function with
  | arith op => cases op <;> rfl
  | compare op => cases op <;> rfl
  | _ => rfl

theorem placed_overloads (function : Builtin) :
    ∀ s ∈ function.overloads, s.params.dropLast.any Ty.isVariadic = false := by
  cases function <;> simp [overloads, Signature.declared, Ty.isVariadic]

theorem accepts_iff_takes (function : Builtin) (count : Nat) :
    function.Accepts count ↔ function.takes count = true := by
  have slots : function.Accepts count ↔ ∃ s ∈ function.overloads, (s.slots count).length = count := by
    rw [Accepts, signatures_start]
    refine exists_congr fun s => and_congr_right fun inside => ?_
    exact Signature.fits_any_iff (placed_overloads function s inside) count
  rw [slots]
  cases function <;> simp [overloads, takes, Signature.declared, Signature.slots, eq_comm]

/-- The number of arguments is what was refused. -/
def Outcome.Miscounted : Outcome → Prop
  | .error (.arity _ _) => True
  | _ => False

/-- The call ended because of the number of its arguments. -/
def Miscounted : EStateM.Result Exit Machine Value → Prop
  | .error (.fault (.arity _ _)) _ => True
  | _ => False

theorem miscounted_give (outcome : Outcome) (m : Machine) :
    Miscounted (give outcome m) ↔ outcome.Miscounted := by
  cases outcome with
  | ok value => exact .rfl
  | error fault => cases fault <;> exact .rfl

theorem miscounted_onOne {f : Value → Outcome} (args : List Value) (m : Machine)
    (counted : ∀ a, ¬ (f a).Miscounted) :
    Miscounted (give (onOne f args) m) ↔ decide (args.length = 1) = false := by
  rw [miscounted_give]
  match args with
  | [a] => simp [onOne, counted a]
  | [] | _ :: _ :: _ => simp [onOne, Outcome.Miscounted]

theorem miscounted_onTwo {f : Value → Value → Outcome} (args : List Value) (m : Machine)
    (counted : ∀ a b, ¬ (f a b).Miscounted) :
    Miscounted (give (onTwo f args) m) ↔ decide (args.length = 2) = false := by
  rw [miscounted_give]
  match args with
  | [a, b] => simp [onTwo, counted a b]
  | [] | [_] | _ :: _ :: _ :: _ => simp [onTwo, Outcome.Miscounted]

theorem counted_calculate (op : Arith) (a b : Value) : ¬ (calculate op a b).Miscounted := by
  unfold calculate
  split
  · split <;> exact id
  · dsimp only
    split <;> exact id
  · exact id

theorem counted_order (op : Comparison) (a b : Value) : ¬ (order op a b).Miscounted := by
  unfold order
  split
  · exact id
  · split <;> exact id
  · exact id
  · exact id

theorem counted_negate (a : Value) : ¬ (negate a).Miscounted := by cases a <;> exact id

theorem counted_first (a : Value) : ¬ (first a).Miscounted := by cases a <;> exact id

theorem counted_rest (a : Value) : ¬ (rest a).Miscounted := by cases a <;> exact id

theorem counted_count (n : Nat) : ¬ (count n).Miscounted := by
  unfold count
  split <;> exact id

theorem counted_size (a : Value) : ¬ (size a).Miscounted := by
  cases a with
  | pair head tail =>
    simp only [size, items]
    cases (Value.pair head tail).toList? with
    | none => exact id
    | some found => exact counted_count found.length
  | unit => exact counted_count 0
  | string s => exact counted_count s.length
  | _ => exact id

theorem counted_backward (a : Value) : ¬ (backward a).Miscounted := by
  simp only [backward, items]
  cases a.toList? <;> exact id

theorem fault_of_concat {args : List Value} {fault : Fault} (refused : concat args = .error fault) :
    ∃ value, fault = .improperList value := by
  induction args with
  | nil => cases refused
  | cons arg args ih =>
    simp only [concat, items] at refused
    cases listed : arg.toList? with
    | none =>
      rw [listed] at refused
      cases refused
      exact ⟨arg, rfl⟩
    | some found =>
      rw [listed] at refused
      cases joined : concat args with
      | ok others =>
        rw [joined] at refused
        cases refused
      | error fault' =>
        rw [joined] at refused
        cases refused
        exact ih joined

theorem counted_append (args : List Value) : ¬ Outcome.Miscounted ((concat args).map .ofList) := by
  cases joined : concat args with
  | ok found => exact id
  | error fault =>
    obtain ⟨value, rfl⟩ := fault_of_concat joined
    exact id

theorem counted_write (pieces : List String) (m : Machine) : ¬ Miscounted (write pieces m) := by
  rw [write_apply]
  split <;> exact id

theorem counted_evaluated (x : Run Value) (m : Machine) : ¬ Miscounted (evaluated x m) := by
  unfold evaluated
  split <;> exact id

/-- A division whose second argument is the integer zero. -/
def DividesByZero (function : Builtin) (args : List Value) : Prop :=
  function = .arith .div ∧ ∃ left rest, args = left :: .int 0 :: rest

theorem zeroDivisor_iff (op : Arith) (args : List Value) :
    zeroDivisor op args = true ↔ (arith op).DividesByZero args := by
  match args with
  | _ :: .int n :: _ => simp [zeroDivisor, DividesByZero]
  | [] | [_] | _ :: .unit :: _ | _ :: .bool _ :: _ | _ :: .float _ :: _ | _ :: .string _ :: _ | _ :: .lambda _ :: _
  | _ :: .builtin _ :: _ | _ :: .quoted _ :: _ | _ :: .pair _ _ :: _ => simp [zeroDivisor, DividesByZero]

section

variable (eval : Scope → Node → Run Value) (frame : Scope) (args : List Value) (m : Machine)

/-- Unless there is a zero to divide by, the number of arguments decides. -/
theorem miscounted_iff_takes {function : Builtin} (nonzero : ¬ function.DividesByZero args) :
    Miscounted (function.call eval frame args m) ↔ function.takes args.length = false := by
  cases function with
  | arith op =>
    rw [← zeroDivisor_iff] at nonzero
    rw [call, if_neg nonzero]
    exact miscounted_onTwo args m (counted_calculate op)
  | compare op => exact miscounted_onTwo args m (counted_order op)
  | equal | cons => exact miscounted_onTwo args m fun _ _ => id
  | not => exact miscounted_onOne args m counted_negate
  | car => exact miscounted_onOne args m counted_first
  | cdr => exact miscounted_onOne args m counted_rest
  | length => exact miscounted_onOne args m counted_size
  | reverse => exact miscounted_onOne args m counted_backward
  | isNull => exact miscounted_onOne args m fun _ => id
  | display => exact iff_of_false (counted_write _ m) Bool.noConfusion
  | list => exact iff_of_false id Bool.noConfusion
  | append =>
    refine iff_of_false ?_ Bool.noConfusion
    exact (miscounted_give _ m).not.2 (counted_append args)
  | newline =>
    cases args with
    | nil => exact iff_of_false (counted_write ["\n"] m) Bool.noConfusion
    | cons => exact iff_of_true trivial rfl
  | eval =>
    cases args with
    | nil => exact iff_of_true trivial rfl
    | cons value others =>
      cases others with
      | nil =>
        cases value with
        | quoted node => exact iff_of_false (counted_evaluated _ m) Bool.noConfusion
        | _ => exact iff_of_false id Bool.noConfusion
      | cons =>
        rw [call]
        · exact iff_of_true trivial (by simp [takes])
        all_goals simp

theorem call_of_dividesByZero {function : Builtin} (zero : function.DividesByZero args) :
    function.call eval frame args m = .error (.fault .divisionByZero) m := by
  obtain ⟨rfl, -⟩ := id zero
  rw [call, if_pos ((zeroDivisor_iff .div args).2 zero)]
  rfl

/-- A call is refused for the number of its arguments if and only if no signature accepts
that number, and there is no zero that `/` finds first. -/
theorem miscounted_iff_not_accepts (function : Builtin) :
    Miscounted (function.call eval frame args m) ↔
      ¬ function.Accepts args.length ∧ ¬ function.DividesByZero args := by
  by_cases zero : function.DividesByZero args
  · rw [call_of_dividesByZero eval frame args m zero]
    exact iff_of_false id fun both => both.2 zero
  · rw [miscounted_iff_takes eval frame args m zero, accepts_iff_takes, Bool.not_eq_true]
    exact (and_iff_left zero).symm

end

/-- With a third argument, `/` complains of the zero and not of the count. -/
theorem zero_before_count :
    let args := [.int 1, .int 0, .int 2]
    let m := Machine.start Machine.defaultLimit none
    Machine.callBuiltin Machine.globalScope (.arith .div) args m = .error (.fault .divisionByZero) m ∧
      ¬ Miscounted (Machine.callBuiltin Machine.globalScope (.arith .div) args m) ∧
      ¬ (arith .div).Accepts args.length ∧
      ∀ op, op ≠ .div → Miscounted (Machine.callBuiltin Machine.globalScope (.arith op) args m) := by
  refine ⟨rfl, id, ?_, ?_⟩
  · rw [accepts_iff_takes]
    exact Bool.noConfusion
  · intro op other
    cases op with
    | div => exact absurd rfl other
    | _ => trivial

end Builtin

end CheckedLisp
