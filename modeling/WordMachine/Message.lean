import WordMachine.Numeral.Written

/-!
Messages of a program, each with the place in the program where it is written.
-/
namespace WordMachine

/-- A line of one of the files that the program is written in. -/
structure Location where
  file : String
  line : Nat
deriving DecidableEq, Repr

def Location.text (l : Location) : String :=
  l.file ++ ":" ++ Numeral.decimal l.line

structure Message where
  source : Location
  text : String
deriving DecidableEq, Repr

end WordMachine
