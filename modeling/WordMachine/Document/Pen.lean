import WordMachine.Document.Cursor
import WordMachine.Numeral.Written

/-!
A pen that writes documents line by line. It knows what stands at its place in the line, and
scalars are folded to further lines at single spaces where lines become too long.
-/
namespace WordMachine.Document

/-- What was written, given backwards, and the column behind it. White space is behind the pen
if `blank`, and nothing but marks stand in the line if `fresh`. A scalar is `endless` when only a
mark shows where it ends. -/
structure Pen where
  written : List Char
  column : Nat
  blank : Bool
  fresh : Bool
  endless : Bool

namespace Pen

/-- Lines are folded behind this column. -/
def lineWidth : Nat := 80

def start : Pen :=
  ⟨[], 0, true, true, false⟩

def put (p : Pen) (s : List Char) : Pen :=
  { p with written := s.reverse ++ p.written, column := p.column + s.length }

def putBreak (p : Pen) (c : Char) : Pen :=
  { p with written := c :: p.written, column := 0, blank := true, fresh := true }

/-- Goes to a column, on a new line if it has to. -/
def indent (p : Pen) (column : Nat) : Pen :=
  let p := if !p.fresh || column < p.column || (p.column = column && !p.blank) then p.putBreak '\n'
    else p
  if p.column < column then
    { p.put (List.replicate (column - p.column) ' ') with blank := true }
  else p

/-- A mark, behind white space if it has to be `apart`. With `opens` it leaves a line fresh. -/
def mark (p : Pen) (s : List Char) (apart opens : Bool) : Pen :=
  let p := p.put (if apart && !p.blank then ' ' :: s else s)
  { p with blank := false, fresh := p.fresh && opens, endless := false }

/-- Goes on with a scalar on a line of its own. -/
def fold (p : Pen) (column : Nat) : Pen :=
  { p.indent column with blank := false, fresh := false }

/-- Characters without quotes, `blanks` spaces before them still to be written. -/
def putPlainFrom (p : Pen) (folds : Bool) (column blanks : Nat) : List Char → Pen
  | [] => p.put (List.replicate blanks ' ')
  | c :: rest =>
    if c = ' ' then p.putPlainFrom folds column (blanks + 1) rest
    else
      let p := if folds && blanks = 1 && lineWidth < p.column then p.fold column
        else p.put (List.replicate blanks ' ')
      (p.put [c]).putPlainFrom folds column 0 rest

/-- A scalar without quotes. -/
def putPlain (p : Pen) (folds : Bool) (column : Nat) (s : List Char) : Pen :=
  let p := if p.blank then p else p.put [' ']
  { p with blank := false, fresh := false, endless := true }.putPlainFrom folds column 0 s

/-- What stands before a character between single quotes. -/
inductive Before
  | start
  | spaces (count : Nat) (first : Bool)
  | breaks
  | text

/-- Characters between single quotes. A quote is written twice. Breaks that begin with a line feed
have one more in front. -/
def putSingleFrom (p : Pen) (folds : Bool) (column : Nat) : Before → List Char → Pen
  | .spaces count _, [] => p.put (List.replicate count ' ')
  | .breaks, [] => p.indent column
  | _, [] => p
  | before, c :: rest =>
    if c = ' ' then
      match before with
      | .spaces count first => p.putSingleFrom folds column (.spaces (count + 1) first) rest
      | .breaks => (p.indent column).putSingleFrom folds column (.spaces 1 false) rest
      | .start => p.putSingleFrom folds column (.spaces 1 true) rest
      | .text => p.putSingleFrom folds column (.spaces 1 false) rest
    else
      let p := match before with
        | .spaces count first =>
          if folds && count = 1 && !first && lineWidth < p.column then p.indent column
          else p.put (List.replicate count ' ')
        | .breaks => if isLineBreak c then p else p.indent column
        | _ => p
      if isLineBreak c then
        -- a line feed for itself would be read as a space
        let p := match before with
          | .breaks => p
          | _ => if c = '\n' then p.putBreak '\n' else p
        (p.putBreak c).putSingleFrom folds column .breaks rest
      else
        (p.put (if c = '\'' then ['\'', '\''] else [c])).putSingleFrom folds column .text rest

def putSingle (p : Pen) (folds : Bool) (column : Nat) (s : List Char) : Pen :=
  ((p.mark ['\''] true false).putSingleFrom folds column .start s).mark ['\''] false false

/-- The letter behind a backslash that stands for a character. -/
def escapeLetter? (c : Char) : Option Char :=
  match c.toNat with
  | 0x00 => some '0'
  | 0x07 => some 'a'
  | 0x08 => some 'b'
  | 0x09 => some 't'
  | 0x0A => some 'n'
  | 0x0B => some 'v'
  | 0x0C => some 'f'
  | 0x0D => some 'r'
  | 0x1B => some 'e'
  | 0x22 => some '"'
  | 0x5C => some '\\'
  | 0x85 => some 'N'
  | 0x2028 => some 'L'
  | 0x2029 => some 'P'
  | _ => none

/-- An escape with the hexadecimal digits of a code point. -/
def escapeCode (n : Nat) : List Char :=
  let digits := Numeral.upperHexDigits n
  let (letter, width) := if n < 0x100 then ('x', 2) else if n < 0x10000 then ('u', 4) else ('U', 8)
  '\\' :: letter :: (List.replicate (width - digits.length) '0' ++ digits)

/-- The escape of a code point that does not stand for itself between double quotes. -/
def escape? : CodePoint → Option (List Char)
  | .char c =>
    let n := c.toNat
    match escapeLetter? c with
    | some letter => some ['\\', letter]
    | none =>
      if (0x20 ≤ n && n ≤ 0x7E) || (0xA0 ≤ n && n ≤ 0xFFFD && c ≠ byteOrderMark) then none
      else some (escapeCode n)
  | .surrogate index => some (escapeCode (0xD800 + index))

/-- A line between double quotes goes on behind a backslash, and a space at its beginning has
another. -/
def foldEscaped (p : Pen) (column : Nat) (next : Option CodePoint) : Pen :=
  let p := (p.put ['\\']).fold column
  if next = some (.char ' ') then p.put ['\\'] else p

/-- Characters between double quotes. Lines are folded at spaces and behind escapes, but neither at
the first nor at the last character. -/
def putDoubleFrom (p : Pen) (folds : Bool) (column : Nat) (first escaped : Bool) : Text → Pen
  | [] => p
  | c :: rest =>
    let inside := folds && !first && !rest.isEmpty
    match escape? c with
    | some s =>
      let p := p.put s
      let p := if inside && lineWidth + 1 < p.column then p.foldEscaped column rest.head? else p
      p.putDoubleFrom folds column false true rest
    | none =>
      let foldable := inside && (c = .char ' ' || escaped)
      let p := if foldable && lineWidth < p.column then p.foldEscaped column c else p
      (p.put [c.toChar]).putDoubleFrom folds column false false rest

def putDouble (p : Pen) (folds : Bool) (column : Nat) (s : Text) : Pen :=
  ((p.mark ['"'] true false).putDoubleFrom folds column true false s).mark ['"'] false false

end Pen

end WordMachine.Document
