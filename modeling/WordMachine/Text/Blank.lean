import WordMachine.Text.CodePoint

/-!
White space: the characters that separate words, and the words between them.
-/
namespace WordMachine.Text

def isBlank (c : Char) : Bool :=
  let n := c.toNat
  (0x09 ≤ n && n ≤ 0x0D) || (0x1C ≤ n && n ≤ 0x20) || n == 0x85 || n == 0xA0 || n == 0x1680
    || (0x2000 ≤ n && n ≤ 0x200A) || n == 0x2028 || n == 0x2029 || n == 0x202F || n == 0x205F
    || n == 0x3000

/-- The words before and the part of a word that were read, given backwards, as words. -/
def addWord (done : List Text) (current : Text) : List Text :=
  if current.isEmpty then done else current.reverse :: done

def wordsFrom (done : List Text) (current : Text) : Text → List Text
  | [] => (addWord done current).reverse
  | c :: rest =>
    if isBlank c.toChar then wordsFrom (addWord done current) [] rest
    else wordsFrom done (c :: current) rest

/-- The longest runs of characters that are not blank. -/
def words (s : Text) : List Text :=
  wordsFrom [] [] s

end WordMachine.Text
