import WordMachine.Image.Error
import WordMachine.Memory

/-!
Images as bytes: two for each word, the low one first.
-/
namespace WordMachine.Image

def pairs : List UInt8 → List Word
  | low :: high :: rest => Word.ofBytes low high :: pairs rest
  | _ => []

def ofBytes (bytes : List UInt8) : Except ImageError (List Word) :=
  if bytes.length % 2 = 1 then .error (.oddLength bytes.length) else .ok (pairs bytes)

/-- Any integer is stored as the word that it names. -/
def toBytes (words : List Int) : List UInt8 :=
  words.flatMap fun n =>
    let w : Word := UInt16.ofInt n
    [w.low, w.high]

end WordMachine.Image
