/-!
Binary floating-point numbers of 64 bits, kept as exact values: a finite one is its
mantissa times a power of two. Decimals are rounded to the nearest, ties to the even
mantissa.
-/
namespace WordMachine

inductive Binary64
  | finite (negative : Bool) (mantissa : Nat) (exponent : Int)
  | infinite (negative : Bool)
  | nan
deriving DecidableEq, Repr

namespace Binary64

/-- The integer nearest to a quotient, of two the even one. -/
def roundQuotient (num den : Nat) : Nat :=
  let q := num / den
  let twice := 2 * (num % den)
  if twice < den ∨ (twice = den ∧ q % 2 = 0) then q else q + 1

/-- `num / den` divided by a power of two, as a quotient. -/
def scaled (num den : Nat) (exponent : Int) : Nat × Nat :=
  if 0 ≤ exponent then (num, den * Nat.pow 2 exponent.toNat)
  else (num * Nat.pow 2 (-exponent).toNat, den)

/-- The exponent that leaves a mantissa of 53 bits for `num / den`, or the least one. -/
def exponentFor (num den : Nat) : Int :=
  let e := (num.log2 : Int) - den.log2 - 53
  let (n, d) := scaled num den e
  max (if n / d < Nat.pow 2 53 then e else e + 1) (-1074)

def ofQuotient (negative : Bool) (num den : Nat) : Binary64 :=
  let e := exponentFor num den
  let (n, d) := scaled num den e
  let m := roundQuotient n d
  let (m, e) := if m = Nat.pow 2 53 then (Nat.pow 2 52, e + 1) else (m, e)
  if 971 < e then .infinite negative else .finite negative m e

def zero (negative : Bool) : Binary64 :=
  .finite negative 0 0

def isZero : Binary64 → Bool
  | finite _ mantissa _ => mantissa = 0
  | _ => false

/-- The number `digits * 10 ^ power`. Far outside the range of magnitudes the power is not
worked out. -/
def ofDecimal (negative : Bool) (digits : Nat) (power : Int) : Binary64 :=
  let size : Int := (Nat.toDigits 10 digits).length + power
  if digits = 0 then zero negative
  else if 310 < size then .infinite negative
  else if size < -330 then zero negative
  else if 0 ≤ power then ofQuotient negative (digits * Nat.pow 10 power.toNat) 1
  else ofQuotient negative digits (Nat.pow 10 (-power).toNat)

/-- A number of no sign times a power of two. -/
def ofDyadic (mantissa : Nat) (exponent : Int) : Binary64 :=
  if 0 ≤ exponent then ofQuotient false (mantissa * Nat.pow 2 exponent.toNat) 1
  else ofQuotient false mantissa (Nat.pow 2 (-exponent).toNat)

def plus : Binary64 → Binary64 → Binary64
  | finite _ m d, finite _ n e =>
    let least := min d e
    ofDyadic (m * Nat.pow 2 (d - least).toNat + n * Nat.pow 2 (e - least).toNat) least
  | nan, _ => nan
  | _, nan => nan
  | _, _ => infinite false

def times : Binary64 → Binary64 → Binary64
  | finite _ m d, finite _ n e => ofDyadic (m * n) (d + e)
  | nan, _ => nan
  | _, nan => nan
  | x, y => if x.isZero || y.isZero then nan else infinite false

def negate : Binary64 → Binary64
  | finite negative mantissa exponent => finite (!negative) mantissa exponent
  | infinite negative => infinite (!negative)
  | nan => nan

/-- The integer that is left without the fraction. -/
def truncate (negative : Bool) (mantissa : Nat) (exponent : Int) : Int :=
  let n :=
    if 0 ≤ exponent then mantissa * Nat.pow 2 exponent.toNat
    else mantissa / Nat.pow 2 (-exponent).toNat
  if negative then -(n : Int) else n

def toInt? : Binary64 → Option Int
  | finite negative mantissa exponent =>
    if 0 ≤ exponent ∨ mantissa % Nat.pow 2 (-exponent).toNat = 0 then
      some (truncate negative mantissa exponent)
    else none
  | _ => none

end Binary64

end WordMachine
