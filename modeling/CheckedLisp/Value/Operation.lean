import CheckedLisp.Value.Fault

/-! Arithmetic is exact or refused: integers must fit in 64 bits and floats must stay finite.
Integer division goes toward zero. -/
namespace CheckedLisp

namespace Arith

def onInt : Arith → Int → Int → Int
  | add, a, b => a + b
  | sub, a, b => a - b
  | mul, a, b => a * b
  | div, a, b => a.tdiv b

def onFloat : Arith → Float → Float → Float
  | add, a, b => a + b
  | sub, a, b => a - b
  | mul, a, b => a * b
  | div, a, b => a / b

end Arith

def Comparison.accepts : Comparison → Ordering → Bool
  | less, o => o.isLT
  | greater, o => o.isGT
  | atMost, o => o.isLE
  | atLeast, o => o.isGE

/-- The order of two floats, unless one of them is undefined. -/
def orderFloats? (a b : Float) : Option Ordering :=
  if a < b then some .lt
  else if b < a then some .gt
  else if a == b then some .eq
  else none

namespace Builtin

abbrev Outcome := Except Fault Value

def onOne (f : Value → Outcome) : List Value → Outcome
  | [a] => f a
  | args => .error (.arity 1 args.length)

def onTwo (f : Value → Value → Outcome) : List Value → Outcome
  | [a, b] => f a b
  | args => .error (.arity 2 args.length)

def calculate (op : Arith) : Value → Value → Outcome
  | .int a, .int b =>
    match word? (op.onInt a.toInt b.toInt) with
    | some n => .ok (.int n)
    | none => .error (.overflow op a b)
  | .float a, .float b =>
    let result := op.onFloat a b
    if result.isFinite then .ok (.float result) else .error (.notFinite op a b)
  | a, b => .error (.notNumbers a b)

/-- A zero divisor is noticed before the arguments are counted. -/
def zeroDivisor (op : Arith) : List Value → Bool
  | _ :: .int n :: _ => op = .div && n = 0
  | _ => false

def order (op : Comparison) : Value → Value → Outcome
  | .int a, .int b => .ok (.bool (op.accepts (Ord.compare a.toInt b.toInt)))
  | .float a, .float b =>
    match orderFloats? a b with
    | some o => .ok (.bool (op.accepts o))
    | none => .error (.unordered a b)
  | .string a, .string b => .ok (.bool (op.accepts (Ord.compare a b)))
  | a, b => .error (.notComparable a b)

def negate : Value → Outcome
  | .bool b => .ok (.bool (!b))
  | v => .error (.wrongKind "Bool" v)

def first : Value → Outcome
  | .pair head _ => .ok head
  | v => .error (.wrongKind "Pair" v)

def rest : Value → Outcome
  | .pair _ tail => .ok tail
  | v => .error (.wrongKind "Pair" v)

def items (v : Value) : Except Fault (List Value) :=
  match v.toList? with
  | some items => .ok items
  | none => .error (.improperList v)

def count (n : Nat) : Outcome :=
  match word? n with
  | some n => .ok (.int n)
  | none => .error (.overflow .length () ())

/-- Strings count their characters, lists their items. -/
def size : Value → Outcome
  | .string s => count s.length
  | .unit => count 0
  | .pair head tail => do
    let items ← items (.pair head tail)
    count items.length
  | v => .error (.wrongKind "list or String" v)

def concat : List Value → Except Fault (List Value)
  | [] => .ok []
  | v :: vs => do
    let first ← items v
    let others ← concat vs
    .ok (first ++ others)

def backward (v : Value) : Outcome := do
  let items ← items v
  .ok (.ofList items.reverse)

def isUnit : Value → Bool
  | .unit => true
  | _ => false

end Builtin

end CheckedLisp
