import WordMachine.Instruction
import WordMachine.Numeral.Written

/-!
Disassembly: the words of an image cut into instructions, one row each, and the
text of the rows.
-/
namespace WordMachine

namespace Instruction

/-- An input slot in the text of an instruction. A slot that is read through memory
without an operand word of its own shows the register it still holds. -/
def slotText (slot : Nat) (indirect : Bool) : Option Int → Option String
  | some n => some (if indirect then "[0x" ++ Numeral.hex4 n ++ "]" else "0x" ++ Numeral.hex4 n)
  | none => if indirect then some ("[in" ++ Numeral.decimal slot ++ "]") else none

def slotTexts (i : Instruction) (operands : List Int) : List String :=
  [slotText 0 i.readFirst operands[0]?, slotText 1 i.readSecond operands[1]?].filterMap id
    ++ (operands.drop 2).map fun n => "0x" ++ Numeral.hex4 n

def targetTexts (i : Instruction) (target : Int) : List String :=
  if i.writeBack then ["-> [0x" ++ Numeral.hex4 target ++ "]"] else []

/-- The text of an instruction with its operand words and the address it writes to. -/
def mnemonic (i : Instruction) (operands : List Int) (target : Int) : String :=
  " ".intercalate (i.operation.name :: (i.slotTexts operands ++ i.targetTexts target))

end Instruction

structure Row where
  address : Int
  words : List Int
  text : String
deriving DecidableEq, Repr

namespace Listing

/-- An integer cut to the cell it would fill. -/
def cell (n : Int) : Int :=
  (UInt16.ofInt n).toNat

/-- The row of an instruction that is there with all its words. -/
def completeRow (address : Int) (i : Instruction) (first : Int) (others : List Int) : Row where
  address := address
  words := first :: others
  text := i.mnemonic (others.drop i.writeBack.toNat) (if i.writeBack then others.headD 0 else 0)

/-- The row of an instruction that the words end in the middle of. -/
def truncatedRow (address : Int) (i : Instruction) (first : Int) (others : List Int) : Row where
  address := address
  words := first :: others
  text := i.operation.name ++ " <truncated>"

/-- The rows of consecutive words, the first of which stands at `address`. -/
def disassemble (address : Int) : List Int → List Row
  | [] => []
  | w :: rest =>
    let i := Instruction.decode (UInt16.ofInt w)
    let n := (i.length - 1).toNat
    let others := (rest.take n).map cell
    if others.length < n then [truncatedRow address i (cell w) others]
    else completeRow address i (cell w) others :: disassemble (address + i.length) (rest.drop n)
termination_by words => words.length
decreasing_by
  simp only [List.length_drop, List.length_cons]
  omega

def line (r : Row) : String :=
  Numeral.decimal r.address ++ " - " ++ " ".intercalate (r.words.map Numeral.hex4) ++ " - " ++
    r.text

/-- The listing has no text if the address of a row is too long to be written. -/
def text? (rows : List Row) : Option String :=
  if ∀ r ∈ rows, Numeral.Writable r.address then some ("\n".intercalate (rows.map line)) else none

end Listing

end WordMachine
