import WordMachine.Document.Cursor

/-!
Scalars in blocks, behind a bar with their lines as they are and behind an angle with their lines
folded. The first line says how far the others are indented, unless the header does.
-/
namespace WordMachine.Document

/-- What becomes of the breaks behind the last line: one stays, or none, or all. -/
inductive Chomping
  | clip
  | strip
  | keep

namespace Chomping

def ofChar? : Char → Option Chomping
  | '-' => some strip
  | '+' => some keep
  | _ => none

/-- The end of a scalar, of the break of its last line and those behind it. -/
def apply (last others : List Char) : Chomping → List Char
  | clip => last
  | strip => []
  | keep => last ++ others

end Chomping

namespace Cursor

def takeChomping (c : Cursor) : Except Fault (Option Chomping × Cursor) :=
  match c.rest.head?.bind Chomping.ofChar? with
  | some chomping => c.advance.map fun next => (some chomping, next)
  | none => .ok (none, c)

/-- A figure, which is not zero, for the columns that a block is indented by. -/
def takeIncrement (c : Cursor) : Except Fault (Option Nat × Cursor) :=
  match c.rest with
  | [] => .ok (none, c)
  | x :: _ =>
    if x = '0' then .error .malformedDocument
    else if x.isDigit then c.advance.map fun next => (some (x.toNat - '0'.toNat), next)
    else .ok (none, c)

/-- The break at a cursor, as the character that it stands for. -/
def takeBreak (c : Cursor) : Except Fault (List Char × Cursor) :=
  match c.rest with
  | [] => .ok ([], c)
  | x :: _ =>
    if isLineBreak x then c.advance.map fun next => ([breakText x], next) else .ok ([], c)

def skipTo (c : Cursor) (column : Nat) : Except Fault Cursor :=
  c.advanceBy ((c.rest.take (column - c.column)).takeWhile (· = ' ')).length

/-- The header has its marks in any order, and nothing but a comment behind them. -/
def blockHeader (c : Cursor) : Except Fault (Chomping × Option Nat × Cursor) := do
  let (first, c) ← c.takeChomping
  let (increment, c) ← c.takeIncrement
  let (second, c) ← if first.isSome then pure (none, c) else c.takeChomping
  let (spaces, c) ← c.takeWhile (· = ' ')
  let c ←
    if !spaces.isEmpty && c.rest.head? = some '#' then
      (c.takeWhile fun x => !isLineBreak x).map (·.2)
    else pure c
  match c.rest with
  | [] => pure ((first.orElse fun _ => second).getD .clip, increment, c)
  | x :: _ =>
    if isLineBreak x then
      let next ← c.advance
      pure ((first.orElse fun _ => second).getD .clip, increment, next)
    else throw .malformedDocument

/-- Spaces and breaks: the breaks, and the furthest column that the spaces lead to. -/
def blockIndent : Nat → Nat → Cursor → Except Fault (List Char × Nat × Cursor)
  | 0, column, c => .ok ([], column, c)
  | fuel + 1, column, c => do
    let (_, c) ← c.takeWhile (· = ' ')
    let column := max column c.column
    let (lineBreak, next) ← c.takeBreak
    if lineBreak.isEmpty then pure ([], column, c)
    else
      let (breaks, column, last) ← blockIndent fuel column next
      pure (lineBreak ++ breaks, column, last)

def blockBreaks (column : Nat) : Nat → Cursor → Except Fault (List Char × Cursor)
  | 0, c => .ok ([], c)
  | fuel + 1, c => do
    let c ← c.skipTo column
    let (lineBreak, next) ← c.takeBreak
    if lineBreak.isEmpty then pure ([], c)
    else
      let (breaks, last) ← blockBreaks column fuel next
      pure (lineBreak ++ breaks, last)

end Cursor

/-- A block of scalars, all lines of which begin at a column. -/
structure Block where
  folded : Bool
  chomping : Chomping
  column : Nat

namespace Block

def hasLine (b : Block) (c : Cursor) : Bool :=
  c.column = b.column && !c.rest.isEmpty

def beginsBlank (c : Cursor) : Bool :=
  c.rest.head?.any fun x => x = ' ' || x = '\t'

/-- What stands for the break between two lines, if they have so many more between them. -/
def joint (b : Block) (blank : Bool) (lineBreak others : List Char) : List Char :=
  if b.folded && lineBreak = ['\n'] && !blank then if others.isEmpty then [' '] else []
  else lineBreak

/-- The lines at a cursor, with the given breaks before them. -/
def lines (b : Block) : Nat → List Char → Cursor → Except Fault (List Char × Cursor)
  | 0, breaks, c => .ok (b.chomping.apply [] breaks, c)
  | fuel + 1, breaks, c =>
    if b.hasLine c then do
      let (line, next) ← c.takeWhile fun x => !isLineBreak x
      let (lineBreak, next) ← next.takeBreak
      let (others, next) ← next.blockBreaks b.column (fuel + 1)
      -- the breaks behind a line are in front of the next one, or they end the scalar
      if b.hasLine next then
        let between := b.joint (beginsBlank c || beginsBlank next) lineBreak others
        let (text, last) ← lines b fuel others next
        pure (breaks ++ line ++ between ++ text, last)
      else pure (breaks ++ line ++ b.chomping.apply lineBreak others, next)
    else .ok (b.chomping.apply [] breaks, c)

end Block

/-- The scalar in the block that is announced at a cursor, indented by at least `indent` columns.
There are fewer than `bound` characters left. -/
def block (bound : Nat) (indent : Nat) (c : Cursor) : Except Fault (List Char × Cursor) := do
  let folded := c.rest.head? = some '>'
  let c ← c.advance
  let (chomping, increment, c) ← c.blockHeader
  match increment with
  | none =>
    let (breaks, column, c) ← c.blockIndent bound 0
    (Block.mk folded chomping (max indent column)).lines bound breaks c
  | some n =>
    let column := indent + n - 1
    let (breaks, c) ← c.blockBreaks column bound
    (Block.mk folded chomping column).lines bound breaks c

end WordMachine.Document
