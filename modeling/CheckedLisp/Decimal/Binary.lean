/-! A finite double is a significand times a power of two. Its encoding is read and written here
with natural numbers only, and a ratio of naturals is rounded to the nearest double, halves to the
even significand. -/
namespace CheckedLisp.Decimal

inductive Double where
  /-- The value `± significand * 2 ^ exponent`. -/
  | finite (negative : Bool) (significand : Nat) (exponent : Int)
  | infinite (negative : Bool)
  | nan
  deriving DecidableEq, Repr

/-- The least significand with 53 bits; fraction fields lie below it. -/
def leastNormal : Nat := Nat.pow 2 52

def signBit : Nat := Nat.pow 2 63

namespace Double

def ofBits (bits : Nat) : Double :=
  let negative := signBit ≤ bits
  let field := bits % signBit / leastNormal
  let fraction := bits % leastNormal
  if field = 2047 then if fraction = 0 then .infinite negative else .nan
  else if field = 0 then .finite negative fraction (-1074)
  else .finite negative (fraction + leastNormal) (Int.ofNat field - 1075)

def ofFloat (x : Float) : Double := ofBits x.toBits.toNat

end Double

/-- The encoding of infinity, above that of every finite magnitude. -/
def infinityBits : Nat := 2047 * leastNormal

/-- The quotient of `n` and `d` to the nearest integer, a half to the even one. -/
def roundDiv (n d : Nat) : Nat :=
  let rest := n % d
  if d < 2 * rest ∨ (d = 2 * rest ∧ n / d % 2 = 1) then n / d + 1 else n / d

/-- `n / d` divided by `2 ^ exponent`, as numerator and denominator. -/
def shift (n d : Nat) (exponent : Int) : Nat × Nat :=
  (n * Nat.pow 2 (-exponent).toNat, d * Nat.pow 2 exponent.toNat)

/-- The encoding of the double nearest to `n / d`. A significand that rounds up to the next
power of two carries into the exponent field by itself. -/
def nearestBits (n d : Nat) : Nat :=
  if n = 0 then 0
  else
    let guess := max (Int.ofNat n.log2 - Int.ofNat d.log2 - 53) (-1074)
    let (wide, unit) := shift n d guess
    let exponent := if 2 * leastNormal ≤ wide / unit then guess + 1 else guess
    let (high, low) := shift n d exponent
    let significand := roundDiv high low
    let bits := if significand < leastNormal then significand
      else (exponent + 1075).toNat * leastNormal + (significand - leastNormal)
    min bits infinityBits

end CheckedLisp.Decimal
