import CheckedLisp.Decimal.Binary
import CheckedLisp.Text.Digits

/-! Integers are a sign and digits. A float also has an optional point, with digits on at least one
side of it, and an optional exponent; it is rounded once, from its exact value. The names of
infinity and of the undefined number are read in any case of letters. -/
namespace CheckedLisp.Decimal

/-- The value of decimal digits; `start` is the value of those before. -/
def digitsValue (start : Nat) (cs : List Char) : Nat :=
  cs.foldl (fun value c => 10 * value + (c.toNat - '0'.toNat)) start

def sign : List Char → Bool × List Char
  | '-' :: cs => (true, cs)
  | '+' :: cs => (false, cs)
  | cs => (false, cs)

/-- The integer that a text spells, of any size. -/
def integer? (text : String) : Option Int :=
  let (negative, cs) := sign text.toList
  if Text.isDigits cs then
    let value := Int.ofNat (digitsValue 0 cs)
    some (if negative then -value else value)
  else none

/-- The exponent part of a float: nothing, or a mark and an integer. -/
def exponent? : List Char → Option Int
  | [] => some 0
  | c :: cs => if c = 'e' ∨ c = 'E' then integer? (String.ofList cs) else none

/-- `digits * 10 ^ exponent` as the encoding of a double. Far outside the range of doubles
the digits do not matter. -/
def scientificBits (digits : Nat) (exponent : Int) : Nat :=
  let size := Int.ofNat (Nat.toDigits 10 digits).length + exponent
  if digits = 0 ∨ size < -400 then 0
  else if 400 < size then infinityBits
  else nearestBits (digits * Nat.pow 10 exponent.toNat) (Nat.pow 10 (-exponent).toNat)

/-- The encoding of an unsigned decimal. -/
def magnitudeBits? (cs : List Char) : Option Nat :=
  let (whole, rest) := cs.span Char.isDigit
  let (fraction, rest) :=
    match rest with
    | '.' :: rest => rest.span Char.isDigit
    | rest => ([], rest)
  if whole.isEmpty && fraction.isEmpty then none
  else
    (exponent? rest).map fun exponent =>
      scientificBits (digitsValue 0 (whole ++ fraction)) (exponent - Int.ofNat fraction.length)

def quietBits : Nat := infinityBits + leastNormal / 2

def namedBits? (cs : List Char) : Option Nat :=
  match String.ofList (cs.map Char.toLower) with
  | "inf" | "infinity" => some infinityBits
  | "nan" => some quietBits
  | _ => none

/-- The double that a text spells. -/
def float? (text : String) : Option Float :=
  let (negative, cs) := sign text.toList
  ((namedBits? cs).or (magnitudeBits? cs)).map fun bits =>
    Float.ofBits (UInt64.ofNat (if negative then bits + signBit else bits))

end CheckedLisp.Decimal
