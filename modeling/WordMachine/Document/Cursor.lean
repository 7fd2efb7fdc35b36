import WordMachine.Document.Source

/-!
A place in the text of a document: what is left of the text, how much was read, and the
line and column. To come to the end of a text that is at fault there is the fault.
-/
namespace WordMachine.Document

structure Cursor where
  rest : List Char
  fault : Option Fault
  index : Nat
  line : Nat
  column : Nat

def isLineBreak (c : Char) : Bool :=
  c = '\n' || c = '\r' || c.toNat = 0x85 || c.toNat = 0x2028 || c.toNat = 0x2029

/-- The end of the text or white space. -/
def endsWord : List Char → Bool
  | [] => true
  | c :: _ => c = ' ' || c = '\t' || isLineBreak c

/-- A mark of the byte order; it takes no column. -/
def byteOrderMark : Char := Char.ofNat 0xFEFF

namespace Cursor

/-- The place, if it has a character or is the end of the text. -/
def settle (c : Cursor) : Except Fault Cursor :=
  match c.rest, c.fault with
  | [], some f => .error f
  | _, _ => .ok c

def start (s : Source) : Except Fault Cursor :=
  settle ⟨s.text, s.fault, 0, 0, 0⟩

def moveOne (c : Cursor) : Cursor :=
  match c.rest with
  | [] => c
  | x :: rest =>
    if isLineBreak x then
      { c with rest := rest, index := c.index + 1, line := c.line + 1, column := 0 }
    else { c with
      rest := rest
      index := c.index + 1
      column := if x = byteOrderMark then c.column else c.column + 1 }

def move (c : Cursor) : Nat → Cursor
  | 0 => c
  | n + 1 => c.moveOne.move n

def advanceBy (c : Cursor) (n : Nat) : Except Fault Cursor :=
  (c.move n).settle

def advance (c : Cursor) : Except Fault Cursor :=
  c.advanceBy 1

/-- The characters before the first for which `p` fails, and the place of that one. -/
def takeWhile (p : Char → Bool) (c : Cursor) : Except Fault (List Char × Cursor) :=
  let taken := c.rest.takeWhile p
  (c.advanceBy taken.length).map fun c => (taken, c)

/-- The text at a place, if what is `n` characters further on is known. -/
def look (c : Cursor) (n : Nat) : Except Fault (List Char) :=
  match c.rest.drop n, c.fault with
  | [], some f => .error f
  | _, _ => .ok c.rest

/-- At the beginning of a line, whether it is `---` or `...` that stands there. -/
def atMarker (c : Cursor) : Except Fault Bool := do
  match ← c.look 2 with
  | '-' :: '-' :: '-' :: _ => (c.look 3).map fun text => endsWord (text.drop 3)
  | '.' :: '.' :: '.' :: _ => (c.look 3).map fun text => endsWord (text.drop 3)
  | _ => pure false

end Cursor

/-- The line break that a character stands for in a scalar. -/
def breakText (c : Char) : Char :=
  if c.toNat = 0x2028 ∨ c.toNat = 0x2029 then c else '\n'

/-- Line breaks in a scalar: a single one is a space, of several the first is dropped. -/
def foldBreaks (first : Char) (others : List Char) : List Char :=
  if first ≠ '\n' then first :: others else if others.isEmpty then [' '] else others

end WordMachine.Document
