import WordMachine.Document.Pen
import WordMachine.Document.Reading
import WordMachine.Documents
import WordMachine.Numeral.Shortest

/-!
Values written as documents. The entries of maps and the items of lists have lines of their own, and
a text is written without quotes where it is read back as it is, else between single quotes where
these show all its characters, and else between double quotes.
-/
namespace WordMachine.Document

/-- Characters that need no escape. -/
def isShown (c : Char) : Bool :=
  let n := c.toNat
  c = '\n' || (0x20 ≤ n && n ≤ 0x7E) || n = 0x85
    || (0xA0 ≤ n && isAllowed c && c ≠ byteOrderMark && n ≠ 0x10FFFF)

/-- Whether a space and a break of a line stand side by side. -/
def hasSpaceAtBreak : List Char → Bool
  | c :: d :: rest =>
    (c = ' ' && isLineBreak d) || (isLineBreak c && d = ' ') || hasSpaceAtBreak (d :: rest)
  | _ => false

def isQuotable (s : List Char) : Bool :=
  s.all isShown && !hasSpaceAtBreak s

def hasMark (afterSpace : Bool) : List Char → Bool
  | [] => false
  | c :: rest =>
    (c = ':' && endsWord rest) || (c = '#' && afterSpace) || hasMark (c = ' ') rest

/-- Whether a text begins as something else does. -/
def hasMarkInFront (s : List Char) : Bool :=
  "---".toList.isPrefixOf s || "...".toList.isPrefixOf s ||
    match s with
    | c :: rest =>
      c ∈ "#,[]\x7b\x7d&*!|>'\"%@".toList ++ [Char.ofNat 0x60]
        || (c ∈ ['?', ':', '-'] && endsWord rest)
    | [] => false

/-- Whether a text without quotes is one scalar. -/
def isOneScalar (s : List Char) : Bool :=
  !s.isEmpty && isQuotable s && !s.any isLineBreak && s.head? ≠ some ' ' && s.getLast? ≠ some ' '
    && !hasMarkInFront s && !hasMark true s

def denotesItself (s : String) : Bool :=
  !isReserved s && match resolve s with
    | .ok (.text _) => true
    | _ => false

def dateText (d : Date) : String :=
  let two (n : Nat) := Numeral.padLeft 2 '0' (Numeral.decimal n)
  Numeral.padLeft 4 '0' (Numeral.decimal d.year) ++ "-" ++ two d.month ++ "-" ++ two d.day

/-- A scalar without quotes, a moment with its time as it was written. -/
def scalarText : Scalar → String
  | .null => "null"
  | .bool b => if b then "true" else "false"
  | .int n => Numeral.decimal n
  | .float x => x.documentText
  | .text s => s.shown
  | .date d => dateText d
  | .moment d time => dateText d ++ " " ++ time

namespace Pen

def putText (p : Pen) (folds : Bool) (column : Nat) (s : Text) : Pen :=
  match s.mapM CodePoint.char? with
  | some chars =>
    if isOneScalar chars && denotesItself (String.ofList chars) then p.putPlain folds column chars
    else if isQuotable chars then p.putSingle folds column chars
    else p.putDouble folds column s
  | none => p.putDouble folds column s

/-- Further lines of a scalar stand at a column. A key has none. -/
def putScalar (p : Pen) (folds : Bool) (column : Nat) : Scalar → Pen
  | .text s => p.putText folds column s
  | s => p.putPlain folds column (scalarText s).toList

end Pen

def kindLength : Scalar → Nat
  | .null => 6
  | .bool _ => 6
  | .int _ => 5
  | .float _ => 7
  | .text _ => 5
  | .date _ => 11
  | .moment _ _ => 11

/-- Whether a key goes in front of its colon without a mark of its own: it has one line, and is not
too long. -/
def isSimpleKey (k : Scalar) : Bool :=
  let s := scalarText k
  !s.isEmpty && !s.toList.any (fun c => isLineBreak c && c ≠ '\r') && kindLength k + s.length < 128

/-- Where a value stands. The value of a key may be a list at the column of the key. -/
inductive Place
  | root
  | item
  | value
deriving DecidableEq

namespace Pen

mutual

/-- A value in a block at `column`. The column of the outermost block is the first. -/
def putValue (place : Place) (column : Nat) (p : Pen) : Value → Pen
  | .scalar s => p.putScalar true (column + 2) s
  | .list [] => (p.mark ['['] true false).mark [']'] false false
  | .map [] => (p.mark ['\x7b'] true false).mark ['\x7d'] false false
  | .list items =>
    let inner := if place = .root ∨ (place = .value ∧ !p.fresh) then column else column + 2
    putItems inner p items
  | .map entries => putEntries (if place = .root then column else column + 2) p entries

def putItems (column : Nat) (p : Pen) : List Value → Pen
  | [] => p
  | v :: rest =>
    putItems column (putValue .item column ((p.indent column).mark ['-'] true true) v) rest

def putEntries (column : Nat) (p : Pen) : List (Scalar × Value) → Pen
  | [] => p
  | (k, v) :: rest =>
    let p := p.indent column
    let p := if isSimpleKey k then (p.putScalar false (column + 2) k).mark [':'] false false
      else
        let p := (p.mark ['?'] true true).putScalar true (column + 2) k
        (p.indent column).mark [':'] true true
    putEntries column (putValue .value column p v) rest

end

end Pen

/-- The text of a document. Behind a scalar without quotes there is a mark of its end. -/
def textOf (v : Value) : List Char :=
  let p := (Pen.start.putValue .root 0 v).indent 0
  let p := match v with
    | .scalar _ => if p.endless then (p.mark "...".toList true false).indent 0 else p
    | _ => p
  p.written.reverse

def isWritableScalar : Scalar → Bool
  | .int n => Numeral.Writable n
  | _ => true

mutual

def isWritable : Value → Bool
  | .scalar s => isWritableScalar s
  | .list items => areWritable items
  | .map entries => areWritableEntries entries

def areWritable : List Value → Bool
  | [] => true
  | v :: rest => isWritable v && areWritable rest

def areWritableEntries : List (Scalar × Value) → Bool
  | [] => true
  | (k, v) :: rest => isWritableScalar k && isWritable v && areWritableEntries rest

end

/-- Nothing is written of a value with an integer that cannot be written. -/
def write (v : Value) : Written :=
  if isWritable v then ⟨Text.Utf8.encode (String.ofList (textOf v)), none⟩
  else ⟨[], some .unwritable⟩

end WordMachine.Document

namespace WordMachine

def Documents.yaml : Documents where
  read := Document.ofBytes
  write := Document.write

end WordMachine
