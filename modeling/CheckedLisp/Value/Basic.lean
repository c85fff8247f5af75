import CheckedLisp.Decimal.Shortest
import CheckedLisp.Node.Printer
import CheckedLisp.Scope.Heap
import CheckedLisp.Value.Builtin

/-! Integers have 64 bits. The empty list is the unit value, and a list is a chain of pairs that
ends in it. A closure remembers the scope of its lambda; each evaluation of a lambda makes a closure
of its own. -/
namespace CheckedLisp

structure Closure where
  /-- Tells closures of the same lambda apart. -/
  serial : Nat
  params : List Name
  body : Node
  scope : Scope

inductive Value where
  | unit
  | bool (value : Bool)
  | int (value : Int64)
  | float (value : Float)
  | string (value : String)
  | lambda (closure : Closure)
  | builtin (function : Builtin)
  | quoted (node : Node)
  | pair (car cdr : Value)

namespace Value

def kind : Value → String
  | unit => "Unit"
  | bool _ => "Bool"
  | int _ => "Int"
  | float _ => "Float64"
  | string _ => "String"
  | lambda _ => "Lambda"
  | builtin _ => "BuiltIn"
  | quoted _ => "Quoted"
  | pair _ _ => "Pair"

/-- Floats compare as numbers, closures by identity and quoted code by its text. -/
def same : Value → Value → Bool
  | unit, unit => true
  | bool a, bool b => a == b
  | int a, int b => a == b
  | float a, float b => a == b
  | string a, string b => a == b
  | lambda a, lambda b => a.serial == b.serial
  | builtin a, builtin b => a == b
  | quoted a, quoted b => a.text == b.text
  | pair a b, pair c d => same a c && same b d
  | _, _ => false

def ofList : List Value → Value
  | [] => unit
  | first :: rest => pair first (ofList rest)

/-- The items of a proper list. -/
def toList? : Value → Option (List Value)
  | unit => some []
  | pair car cdr => (toList? cdr).map (car :: ·)
  | _ => none

@[simp] theorem toList?_ofList (items : List Value) : (ofList items).toList? = some items := by
  induction items with
  | nil => rfl
  | cons first rest ih => simp [ofList, toList?, ih]

theorem ofList_of_toList? {value : Value} {items : List Value} (h : value.toList? = some items) :
    ofList items = value := by
  induction value generalizing items with
  | unit => simp_all [toList?, ofList]
  | pair car cdr _ ih =>
    obtain ⟨rest, found, rfl⟩ := Option.map_eq_some_iff.1 h
    simp [ofList, ih found]
  | _ => simp [toList?] at h

mutual

def text : Value → String
  | unit => "()"
  | bool true => "#t"
  | bool false => "#f"
  | int n => toString n.toInt
  | float x => (Decimal.Double.ofFloat x).valueText
  | string s => Text.quoted s
  | lambda closure => "<lambda " ++ Text.parens (closure.params.map (·.text)) ++ ">"
  | builtin b => "<builtin " ++ b.name ++ ">"
  | quoted node => "'" ++ node.text
  | pair car cdr => "(" ++ car.text ++ cdr.tailText ++ ")"

/-- The rest of a list after its first item. -/
def tailText : Value → String
  | unit => ""
  | pair car cdr => " " ++ car.text ++ cdr.tailText
  | other => " . " ++ other.text

end

/-- A value as it is displayed: a string stands for itself. -/
def displayed : Value → String
  | string s => s
  | other => other.text

/-- Kind and text, as messages name a value. -/
def described (v : Value) : String := v.kind ++ " " ++ v.text

end Value

/-- An integer as a word, if it has 64 bits. -/
def word? (n : Int) : Option Int64 :=
  if Int64.minValue.toInt ≤ n ∧ n ≤ Int64.maxValue.toInt then some (Int64.ofInt n) else none

end CheckedLisp
