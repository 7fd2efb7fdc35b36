import WordMachine.Memory

/-!
Integers as text: decimal and upper-case hexadecimal, set in columns.
-/
namespace WordMachine.Numeral

def padLeft (width : Nat) (fill : Char) (s : String) : String :=
  String.ofList (List.replicate (width - s.length) fill) ++ s

def padRight (width : Nat) (fill : Char) (s : String) : String :=
  s ++ String.ofList (List.replicate (width - s.length) fill)

def sign (n : Int) : String :=
  if n < 0 then "-" else ""

def decimal (n : Int) : String :=
  sign n ++ String.ofList (Nat.toDigits 10 n.natAbs)

/-- Numbers of more than 4300 decimal digits are not written in decimal. -/
def Writable (n : Int) : Prop :=
  n.natAbs < Nat.pow 10 4300

instance (n : Int) : Decidable (Writable n) :=
  inferInstanceAs (Decidable (_ < _))

/-- Why an integer is not written in decimal. -/
def unwritableMessage : String :=
  "Exceeds the limit (4300 digits) for integer string conversion; "
    ++ "use sys.set_int_max_str_digits() to increase the limit"

def upperHexDigits (n : Nat) : List Char :=
  (Nat.toDigits 16 n).map Char.toUpper

/-- Four places, the sign of a negative number among them, filled with zeros behind the sign. -/
def hex4 (n : Int) : String :=
  sign n ++ padLeft (4 - (sign n).length) '0' (String.ofList (upperHexDigits n.natAbs))

end WordMachine.Numeral

namespace WordMachine.Word

def hex (w : Word) : String :=
  Numeral.hex4 w.toNat

end WordMachine.Word
