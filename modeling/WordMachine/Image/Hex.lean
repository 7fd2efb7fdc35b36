import WordMachine.Image.Error
import WordMachine.Memory
import WordMachine.Numeral.Reading
import WordMachine.Text.Lines

/-!
Images as text: hexadecimal words between blanks and commas, with comments from a
number sign to the end of the line.
-/
namespace WordMachine.Image

def tokens (line : Text) : List Text :=
  Text.words ((line.takeWhile (· ≠ .char '#')).map fun c => if c = .char ',' then .char ' ' else c)

def readToken (line : Nat) (token : Text) : Except ImageError Word :=
  match Numeral.read .hexadecimal token with
  | .error _ => .error (.badWord token line)
  | .ok n =>
    if 0 ≤ n ∧ n ≤ 65535 then .ok (UInt16.ofInt n) else .error (.wideWord token line)

/-- Lines are counted from 1. -/
def ofText (text : Text) : Except ImageError (List Word) := do
  let rows ← ((Text.lines text).zipIdx 1).mapM fun (line, number) =>
    (tokens line).mapM (readToken number)
  pure rows.flatten

end WordMachine.Image
