/-! The names of the functions that every program starts with. -/
namespace CheckedLisp

inductive Arith where
  | add
  | sub
  | mul
  | div
  deriving DecidableEq, Repr

inductive Comparison where
  | less
  | greater
  | atMost
  | atLeast
  deriving DecidableEq, Repr

inductive Builtin where
  | arith (op : Arith)
  | compare (op : Comparison)
  | equal
  | not
  | display
  | newline
  | cons
  | car
  | cdr
  | list
  | length
  | append
  | reverse
  | isNull
  | eval
  deriving DecidableEq, Repr

def Arith.name : Arith → String
  | add => "+"
  | sub => "-"
  | mul => "*"
  | div => "/"

def Comparison.name : Comparison → String
  | less => "<"
  | greater => ">"
  | atMost => "<="
  | atLeast => ">="

namespace Builtin

def name : Builtin → String
  | arith op => op.name
  | compare op => op.name
  | equal => "="
  | not => "not"
  | display => "display"
  | newline => "newline"
  | cons => "cons"
  | car => "car"
  | cdr => "cdr"
  | list => "list"
  | length => "length"
  | append => "append"
  | reverse => "reverse"
  | isNull => "null?"
  | eval => "eval"

/-- How a listing names a built-in function. -/
def listing (b : Builtin) : String := "BuiltIn(" ++ b.name ++ ")"

def all : List Builtin := [
  arith .add, arith .sub, arith .mul, arith .div,
  compare .less, compare .greater, compare .atMost, compare .atLeast,
  equal, not, display, newline, cons, car, cdr, list, length, append, reverse, isNull, eval]

end Builtin

end CheckedLisp
