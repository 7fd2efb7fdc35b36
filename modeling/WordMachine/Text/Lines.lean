import WordMachine.Text.CodePoint

/-!
Lines of text. Besides line feed and carriage return, the two of them together
count as one break, and so do the other vertical separators.
-/
namespace WordMachine.Text

def isBreak (c : Char) : Bool :=
  let n := c.toNat
  (0x0A ≤ n && n ≤ 0x0D) || (0x1C ≤ n && n ≤ 0x1E) || n == 0x85 || n == 0x2028 || n == 0x2029

/-- The lines of a text. The lines before and the part of a line that were read are given
backwards. A break at the end of the text opens no further line. -/
def linesFrom (done : List Text) (current : Text) : Text → List Text
  | [] => (if current.isEmpty then done else current.reverse :: done).reverse
  | .char '\r' :: .char '\n' :: rest => linesFrom (current.reverse :: done) [] rest
  | c :: rest =>
    if isBreak c.toChar then linesFrom (current.reverse :: done) [] rest
    else linesFrom done (c :: current) rest

def lines (s : Text) : List Text :=
  linesFrom [] [] s

/-- Line feeds for carriage returns, alone or before a line feed, behind the text that was
read, given backwards. -/
def unifyBreaksFrom (done : List Char) : List Char → List Char
  | [] => done.reverse
  | '\r' :: '\n' :: rest => unifyBreaksFrom ('\n' :: done) rest
  | c :: rest => unifyBreaksFrom ((if c = '\r' then '\n' else c) :: done) rest

def unifyBreaks (s : String) : String :=
  String.ofList (unifyBreaksFrom [] s.toList)

end WordMachine.Text
