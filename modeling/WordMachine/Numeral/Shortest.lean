import WordMachine.Numeral.Binary64
import WordMachine.Numeral.Written

/-!
Floating-point numbers as text, with the fewest decimal digits that are read as the same number.
-/
namespace WordMachine.Binary64

/-- The quotient `num / den` divided by a power of ten and rounded. -/
def roundAt (num den : Nat) (power : Int) : Nat :=
  if 0 ≤ power then roundQuotient num (den * Nat.pow 10 power.toNat)
  else roundQuotient (num * Nat.pow 10 (-power).toNat) den

/-- The power of ten of the first digit of `num / den`, of at least `low`. -/
def leadingPower (num den : Nat) : Nat → Int → Int
  | 0, low => low
  | fuel + 1, low =>
    let below := if 0 ≤ low + 1 then num < den * Nat.pow 10 (low + 1).toNat
      else num * Nat.pow 10 (-(low + 1)).toNat < den
    if below then low else leadingPower num den fuel (low + 1)

/-- The digits and the power of ten of their last one, for the first count of digits from `count` on
that will do. Seventeen always do. Below a power of two the numbers are closer to each other than
above, and so the digits above may do when the nearest ones do not. -/
def shortestFrom (mantissa : Nat) (exponent : Int) (num den : Nat) (leading : Int) :
    Nat → Nat → Nat × Int
  | 0, count => (roundAt num den (leading + 1 - count), leading + 1 - count)
  | fuel + 1, count =>
    let power := leading + 1 - count
    let digits := roundAt num den power
    let isRead (n : Nat) := ofDecimal false n power = .finite false mantissa exponent
    if isRead digits then (digits, power)
    else if isRead (digits + 1) then (digits + 1, power)
    else shortestFrom mantissa exponent num den leading fuel (count + 1)

def shortest (mantissa : Nat) (exponent : Int) : Nat × Int :=
  let num := if 0 ≤ exponent then mantissa * Nat.pow 2 exponent.toNat else mantissa
  let den := if 0 ≤ exponent then 1 else Nat.pow 2 (-exponent).toNat
  -- one digit in base ten takes less than four in base two
  let low : Int := if 0 ≤ exponent then 0 else -330
  shortestFrom mantissa exponent num den (leadingPower num den 640 low) 16 1

/-- Digits without the zeros at the end, at least one. -/
def withoutZeros (digits : List Char) : List Char :=
  match (digits.reverse.dropWhile (· = '0')).reverse with
  | [] => ['0']
  | ds => ds

/-- The digits `ds` with the point behind the first `point` of them, or with a power of ten when the
point is far from them. -/
def placeText (ds : List Char) (point : Int) : List Char :=
  if point ≤ -4 ∨ 16 < point then
    let power := (Nat.toDigits 10 (point - 1).natAbs)
    let fraction := if ds.length = 1 then ['0'] else ds.tail
    ds.take 1 ++ '.' :: fraction ++ 'e' :: (if point < 1 then '-' else '+')
      :: (List.replicate (2 - power.length) '0' ++ power)
  else if point ≤ 0 then '0' :: '.' :: (List.replicate (-point).toNat '0' ++ ds)
  else if ds.length ≤ point.toNat then
    ds ++ List.replicate (point.toNat - ds.length) '0' ++ ['.', '0']
  else ds.take point.toNat ++ '.' :: ds.drop point.toNat

def documentText : Binary64 → String
  | finite negative mantissa exponent =>
    let (digits, power) := shortest mantissa exponent
    let all := Nat.toDigits 10 digits
    let point := if mantissa = 0 then 1 else (all.length : Int) + power
    (if negative then "-" else "") ++ String.ofList (placeText (withoutZeros all) point)
  | infinite negative => (if negative then "-" else "") ++ ".inf"
  | nan => ".nan"

end WordMachine.Binary64
