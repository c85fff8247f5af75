import CheckedLisp.Decimal.Binary

/-! The text of a double has the fewest digits that read back as it, and of those the nearest; it is
never in exponent notation. -/
namespace CheckedLisp.Decimal

/-- The numbers between `low / unit` and `high / unit` round to `value / unit`; the ends
do so only when `closed`. -/
structure Interval where
  low : Nat
  value : Nat
  high : Nat
  unit : Nat
  closed : Bool

namespace Interval

/-- The numbers that round to `significand * 2 ^ exponent`. The gap below a power of two
is half as wide as the gap above it. -/
def around (significand : Nat) (exponent : Int) : Interval :=
  let scale := Nat.pow 2 (exponent - 2).toNat
  let below := if significand = leastNormal ∧ -1074 < exponent then 1 else 2
  { low := (4 * significand - below) * scale
    value := 4 * significand * scale
    high := (4 * significand + 2) * scale
    unit := Nat.pow 2 (2 - exponent).toNat
    closed := significand % 2 = 0 }

/-- Whether `point / grid` lies in the interval whose bounds are over `grid` as well. -/
def holds (i : Interval) (point : Nat) : Bool :=
  if i.closed then i.low ≤ point && point ≤ i.high else i.low < point && point < i.high

/-- The interval with all its numbers multiplied by `10 ^ places`. -/
def scaled (i : Interval) (places : Int) : Interval :=
  let up := Nat.pow 10 places.toNat
  { i with
    low := i.low * up, value := i.value * up, high := i.high * up
    unit := i.unit * Nat.pow 10 (-places).toNat }

/-- The integer in the interval that is nearest to its value, of two equally near the
greater, if one of the value's two neighbours lies in it. -/
def integer? (i : Interval) : Option Nat :=
  let floor := i.value / i.unit
  let down := floor * i.unit
  let up := (floor + 1) * i.unit
  match i.holds down, i.holds up with
  | true, true => some (if i.value - down < up - i.value then floor else floor + 1)
  | true, false => some floor
  | false, true => some (floor + 1)
  | false, false => none

end Interval

/-- How often `n` has to be multiplied by ten to reach `d`, if at most `fuel` times. -/
def tenfolds : Nat → Nat → Nat → Nat
  | 0, _, _ => 0
  | fuel + 1, n, d => if d ≤ n then 0 else tenfolds fuel (10 * n) d + 1

/-- The number of decimal places before the point, counted down from zero for leading
zeros after it: `123.4` has three, `0.05` minus one. -/
def magnitude (n d : Nat) : Int :=
  if d ≤ n then Int.ofNat (Nat.toDigits 10 (n / d)).length
  else 1 - Int.ofNat (tenfolds 400 n d)

/-- A decimal `digits * 10 ^ exponent`. -/
structure Digits where
  digits : Nat
  exponent : Int
  deriving DecidableEq, Repr

/-- Tries more and more digits; `size` is the magnitude of the value. A value just below a
power of ten may have that power as its neighbour. -/
def shortestFrom (i : Interval) (size : Int) : Nat → Nat → Digits
  | 0, count => ⟨i.value / i.unit, Int.ofNat count⟩
  | fuel + 1, count =>
    let places := Int.ofNat count - size
    match (i.scaled places).integer? with
    | some digits => if digits = Nat.pow 10 count then ⟨1, size⟩ else ⟨digits, -places⟩
    | none => shortestFrom i size fuel (count + 1)

/-- The shortest decimal that rounds to `significand * 2 ^ exponent`; seventeen digits
always suffice. -/
def shortest (significand : Nat) (exponent : Int) : Digits :=
  if significand = 0 then ⟨0, 0⟩
  else
    let i := Interval.around significand exponent
    shortestFrom i (magnitude i.value i.unit) 17 1

def zeros (count : Nat) : String := String.ofList (List.replicate count '0')

/-- Positional notation. -/
def Digits.text (d : Digits) : String :=
  let ds := Nat.toDigits 10 d.digits
  let places := (-d.exponent).toNat
  if 0 ≤ d.exponent then String.ofList ds ++ zeros d.exponent.toNat
  else if places < ds.length then
    String.ofList (ds.take (ds.length - places)) ++ "." ++ String.ofList (ds.drop (ds.length - places))
  else "0." ++ zeros (places - ds.length) ++ String.ofList ds

def signed (negative : Bool) (text : String) : String := if negative then "-" ++ text else text

/-- The plain text of a double. -/
def Double.text : Double → String
  | .finite negative significand exponent => signed negative (shortest significand exponent).text
  | .infinite negative => signed negative "inf"
  | .nan => "NaN"

/-- The integer `significand * 2 ^ exponent`, if it is one. -/
def integral? (significand : Nat) (exponent : Int) : Option Nat :=
  let unit := Nat.pow 2 (-exponent).toNat
  if significand % unit = 0 then some (significand / unit * Nat.pow 2 exponent.toNat) else none

/-- The text of a double as a value: a whole number is written out exactly and keeps a
zero after the point. -/
def Double.valueText : Double → String
  | .finite negative significand exponent =>
    match integral? significand exponent with
    | some whole => signed negative (String.ofList (Nat.toDigits 10 whole) ++ ".0")
    | none => signed negative (shortest significand exponent).text
  | other => other.text

end CheckedLisp.Decimal
