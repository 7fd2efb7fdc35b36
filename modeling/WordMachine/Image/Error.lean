import WordMachine.Numeral.Written
import WordMachine.Text.Quoted

/-!
What is wrong with an image that cannot be read or does not go into memory.
-/
namespace WordMachine

inductive ImageError
  | notFound (path : String)
  | oddLength (bytes : Nat)
  | badWord (token : Text) (line : Nat)
  | wideWord (token : Text) (line : Nat)
  | doesNotFit (count : Nat) (base : Int)
  | badEntry (entry : Int)
  | badCell (index : Nat) (word : Int)
deriving DecidableEq, Repr

namespace ImageError

def message : ImageError → String
  | notFound path => "Image file not found: " ++ path
  | oddLength bytes => "Binary image has odd length (" ++ Numeral.decimal bytes ++ " bytes)"
  | badWord token line =>
    "Bad hex word " ++ Text.quoted token ++ " on line " ++ Numeral.decimal line
  | wideWord token line =>
    "Word " ++ Text.quoted token ++ " on line " ++ Numeral.decimal line ++ " is not a 16-bit value"
  | doesNotFit count base =>
    "Image of " ++ Numeral.decimal count ++ " words at base " ++ Numeral.decimal base
      ++ " doesn't fit into memory"
  | badEntry entry =>
    "Entry point " ++ Numeral.decimal entry ++ " out of memory range (0..65535)"
  | badCell index word =>
    "Image word " ++ Numeral.decimal index ++ " (" ++ Numeral.decimal word
      ++ ") is not a 16-bit value"

/-- Whether the numbers of the message can be written. -/
def Writable : ImageError → Prop
  | doesNotFit _ base => Numeral.Writable base
  | badEntry entry => Numeral.Writable entry
  | badCell _ word => Numeral.Writable word
  | _ => True

instance : (e : ImageError) → Decidable e.Writable
  | notFound _ | oddLength _ | badWord _ _ | wideWord _ _ => .isTrue trivial
  | doesNotFit _ base => inferInstanceAs (Decidable (Numeral.Writable base))
  | badEntry entry => inferInstanceAs (Decidable (Numeral.Writable entry))
  | badCell _ word => inferInstanceAs (Decidable (Numeral.Writable word))

end ImageError

end WordMachine
