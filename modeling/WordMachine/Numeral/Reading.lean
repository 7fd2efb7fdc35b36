import WordMachine.Text.Blank
import WordMachine.Text.DecimalDigit
import WordMachine.Text.Quoted

/-!
Integers read from text: a sign, a mark of the base where one is allowed, and digits
with single underscores between them. Decimal digits of any script count, and white
space around the numeral does not.
-/
namespace WordMachine.Numeral

/-- How the base of a numeral is known: it is ten, it is sixteen, or the numeral says it. -/
inductive Radix
  | decimal
  | hexadecimal
  | marked
deriving DecidableEq, Repr

namespace Radix

def number : Radix → Nat
  | decimal => 10
  | hexadecimal => 16
  | marked => 0

end Radix

inductive ReadError
  | malformed (base : Nat) (text : Text)
  | tooManyDigits (count : Nat)
deriving DecidableEq, Repr

namespace ReadError

/-- The text of a malformed numeral is shown up to its two hundredth character. -/
def message : ReadError → String
  | malformed base text =>
    "invalid literal for int() with base " ++ toString base ++ ": "
      ++ String.ofList ((Text.quotedChars text).take 200)
  | tooManyDigits count =>
    "Exceeds the limit (4300 digits) for integer string conversion: value has "
      ++ toString count ++ " digits; use sys.set_int_max_str_digits() to increase the limit"

end ReadError

/-- Digits of other scripts and other white space, in ASCII. -/
def plainChar (c : Char) : Char :=
  if c.toNat < 128 then c
  else if Text.isBlank c then ' '
  else match Text.digitValue? c with
    | some d => Nat.digitChar d
    | none => c

/-- The white space that may stand around a numeral. -/
def isPadding (c : Char) : Bool :=
  c = ' ' || (0x09 ≤ c.toNat && c.toNat ≤ 0x0D)

def isMinus (s : List Char) : Bool :=
  s.head? = some '-'

def dropSign : List Char → List Char
  | '+' :: rest => rest
  | '-' :: rest => rest
  | s => s

def digit? (base : Nat) (c : Char) : Option Nat :=
  let d? :=
    if c.isDigit then some (c.toNat - '0'.toNat)
    else if 'a' ≤ c ∧ c ≤ 'z' then some (c.toNat - 'a'.toNat + 10)
    else if 'A' ≤ c ∧ c ≤ 'Z' then some (c.toNat - 'A'.toNat + 10)
    else none
  d?.filter (· < base)

/-- One underscore may stand between the mark of the base and the digits. -/
def dropUnderscore : List Char → List Char
  | '_' :: rest => rest
  | s => s

/-- The base of an unsigned numeral, and its digits without the mark of the base. -/
def splitMark (radix : Radix) (s : List Char) : Nat × List Char :=
  match radix, s with
  | .decimal, _ => (10, s)
  | .hexadecimal, '0' :: x :: rest =>
    if x = 'x' ∨ x = 'X' then (16, dropUnderscore rest) else (16, s)
  | .hexadecimal, _ => (16, s)
  | .marked, '0' :: x :: rest =>
    if x = 'x' ∨ x = 'X' then (16, dropUnderscore rest)
    else if x = 'o' ∨ x = 'O' then (8, dropUnderscore rest)
    else if x = 'b' ∨ x = 'B' then (2, dropUnderscore rest)
    else (10, s)
  | .marked, _ => (10, s)

/-- Whether each underscore stands between two other characters. -/
def wellSpaced : List Char → Bool
  | [] => false
  | ['_'] => false
  | [_] => true
  | c :: d :: rest => !(c = '_' && d = '_') && wellSpaced (d :: rest)

def value (base : Nat) (digits : List Nat) : Nat :=
  digits.foldl (fun n d => n * base + d) 0

/-- The value of the digits `s` of an unsigned numeral; more than 4300 of them are not
read in base ten. In a numeral that marks its base, decimal digits begin with zero only if
the number is zero. -/
def readDigits (radix : Radix) (base : Nat) (s : List Char) : Option (Except Nat Nat) :=
  let body := s.takeWhile fun c => c = '_' || (digit? base c).isSome
  let digits := body.filterMap (digit? base)
  if body.head? = some '_' || !wellSpaced body then none
  else if base = 10 ∧ 4300 < digits.length then some (.error digits.length)
  else
    let n := value base digits
    if body.length < s.length then none
    else if radix = .marked ∧ base = 10 ∧ s.head? = some '0' ∧ n ≠ 0 then none
    else some (.ok n)

/-- The integer that a text denotes. -/
def read (radix : Radix) (text : Text) : Except ReadError Int :=
  let s := ((text.map fun c => plainChar c.toChar).dropWhile isPadding).reverse.dropWhile isPadding
    |>.reverse
  let unsigned := dropSign s
  let (base, digits) := splitMark radix unsigned
  match readDigits radix base digits with
  | none => .error (.malformed radix.number text)
  | some (.error count) => .error (.tooManyDigits count)
  | some (.ok n) => .ok (if isMinus s then -n else n)

end WordMachine.Numeral
