import CheckedLisp.Proofs.Eval.StepLimit
import CheckedLisp.Proofs.Node.ReadBack

/-! The text of unit, of a truth value, of an integer or of a string is a program, and running it
gives the value back. Strings are escaped where the scanner would read something else, and the
digits of an integer are read as the integer, the least one included. -/
namespace CheckedLisp

namespace Decimal

theorem isDigits_toDigits (n : Nat) : Text.isDigits (Nat.toDigits 10 n) = true := by
  simp only [Text.isDigits, Bool.and_eq_true, Bool.not_eq_true', List.isEmpty_eq_false_iff, List.all_eq_true]
  exact ⟨Nat.toDigits_ne_nil, fun _ => Nat.isDigit_of_mem_toDigits (by decide) (by decide)⟩

theorem digitsValue_toDigits (n : Nat) : digitsValue 0 (Nat.toDigits 10 n) = n := by
  have folded : digitsValue 0 (Nat.toDigits 10 n) = Nat.ofDigitChars 10 (Nat.toDigits 10 n) 0 :=
    Nat.ofDigitChars_eq_foldl.symm
  rw [folded, Nat.ofDigitChars_ten_toDigits]

/-- Digits have no sign in front. -/
theorem sign_of_isDigits {cs : List Char} (digits : Text.isDigits cs = true) : sign cs = (false, cs) := by
  unfold sign
  split
  · cases digits
  · cases digits
  · rfl

theorem unsigned_of_isDigits {cs : List Char} (digits : Text.isDigits cs = true) : Atom.unsigned cs = cs := by
  unfold Atom.unsigned
  split
  · cases digits
  · rfl

/-- An integer is written as digits, with a minus sign in front if it is negative. -/
theorem toList_toString (i : Int) :
    (toString i).toList = if 0 ≤ i then Nat.toDigits 10 i.toNat else '-' :: Nat.toDigits 10 (-i).toNat := by
  rw [Int.toString_eq_repr, Int.repr_eq_if]
  split
  · exact Nat.toList_repr
  · rw [String.toList_append, Nat.toList_repr]
    rfl

theorem integer?_toString (i : Int) : integer? (toString i) = some i := by
  unfold integer?
  rw [toList_toString]
  by_cases positive : 0 ≤ i
  · rw [if_pos positive, sign_of_isDigits (isDigits_toDigits _)]
    simp only [isDigits_toDigits, digitsValue_toDigits]
    exact congrArg some (Int.toNat_of_nonneg positive)
  · have read : -((-i).toNat : Int) = i := by omega
    rw [if_neg positive, sign]
    simp only [isDigits_toDigits, digitsValue_toDigits]
    exact congrArg some read

theorem isDigits_unsigned_toString (i : Int) : Text.isDigits (Atom.unsigned (toString i).toList) = true := by
  rw [toList_toString]
  split
  · rw [unsigned_of_isDigits (isDigits_toDigits _), isDigits_toDigits]
  · exact isDigits_toDigits _

end Decimal

theorem word?_toInt (n : Int64) : word? n.toInt = some n := by
  rw [word?, if_pos ⟨n.minValue_le_toInt, n.toInt_le⟩, Int64.ofInt_toInt]

namespace Value

/-- Unit, truth values, integers and strings. -/
def isAtomic : Value → Bool
  | unit | bool _ | int _ | string _ => true
  | _ => false

/-- The node that the text of an atomic value is the text of. -/
def literal : Value → Node
  | bool b => .atom (.point .first) (.bool b)
  | int n => .atom (.point .first) (.int (toString n.toInt))
  | string s => .atom (.point .first) (.string s)
  | _ => .unit (.point .first)

theorem text_literal {v : Value} (atomic : v.isAtomic = true) : v.literal.text = v.text := by
  cases v with
  | bool b => cases b <;> rw [literal, Node.text, text] <;> rfl
  | unit =>
    change (Node.unit _).text = _
    rw [Node.text, text]
  | int n | string s =>
    rw [literal, Node.text, text]
    rfl
  | _ => cases atomic

theorem wellFormed_literal (v : Value) : v.literal.WellFormed false := by
  cases v with
  | int n => exact Decimal.isDigits_unsigned_toString n.toInt
  | _ => trivial

theorem unambiguous_literal (v : Value) : v.literal.Unambiguous := by
  cases v <;> trivial

/-- Wherever it stands, the literal of a value evaluates to the value. -/
theorem step_literal {v : Value} (atomic : v.isAtomic = true) {n : Node} (same : n.bare = v.literal.bare)
    (eval : Scope → Node → Run Value) (fuel : Nat) (s : Scope) : Eval.step eval fuel s n = pure v := by
  cases v with
  | unit =>
    cases n <;> cases same
    rfl
  | bool b =>
    cases n <;> cases same
    rfl
  | string text =>
    cases n <;> cases same
    rfl
  | int w =>
    cases n <;> cases same
    rw [Eval.step, Eval.atom, Decimal.integer?_toString, Option.bind_some, word?_toInt]
  | _ => cases atomic

end Value

namespace Source

open Budget

/-- The run of a program of one node whose work is to give a value. -/
theorem run_of_step {src : Source} {n : Node} {v : Value} (parsed : src.parse = .ok [n])
    (given : ∀ eval fuel, Eval.step eval fuel Machine.globalScope n = pure v) : src.run = (.ok [v], "") := by
  let m := Machine.start Machine.defaultLimit none
  have evaluated : Eval.node m.fuel Machine.globalScope n m = .ok v { m with steps := 1 } := by
    rw [Machine.fuel, node_paid rfl (by decide), given]
    rfl
  have all : Machine.evalAll Machine.globalScope [n] m = .ok [v] { m with steps := 1 } := by
    rw [Machine.evalAll, Sequencing.bind_apply, Machine.eval, Eval.liftFailure, evaluated]
    rfl
  rw [run, parsed]
  dsimp only
  rw [all]
  rfl

/-- Atomic values print as source that evaluates to them, and writes nothing. -/
theorem run_text_of_isAtomic {v : Value} (atomic : v.isAtomic = true) (name : String) :
    (⟨name, v.text⟩ : Source).run = (.ok [v], "") := by
  obtain ⟨n, parsed, same⟩ := (parse_text_iff_unambiguous v.wellFormed_literal name).2 v.unambiguous_literal
  rw [Value.text_literal atomic] at parsed
  exact run_of_step parsed fun eval fuel => Value.step_literal atomic same eval fuel _

/-- The least integer, and a string of what might be mistaken for something else. -/
theorem run_text_of_isAtomic_awkward :
    (⟨"least", (Value.int Int64.minValue).text⟩ : Source).run = (.ok [.int Int64.minValue], "") ∧
      (⟨"awkward", (Value.string "\\n\n\r\t;(')\"\\").text⟩ : Source).run =
        (.ok [.string "\\n\n\r\t;(')\"\\"], "") :=
  ⟨run_text_of_isAtomic rfl "least", run_text_of_isAtomic rfl "awkward"⟩

end Source

end CheckedLisp
