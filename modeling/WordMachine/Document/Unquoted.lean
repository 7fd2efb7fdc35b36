import WordMachine.Document.Cursor

/-!
Scalars without quotes. They go on over white space and over the ends of lines that are
indented, up to a comment, a colon before white space, or, inside brackets, a bracket or
a comma.
-/
namespace WordMachine.Document

/-- Whether a colon before this text ends the scalar. -/
def colonEnds (inFlow : Bool) (rest : List Char) : Bool :=
  endsWord rest || match rest with
    | c :: _ => inFlow && c ∈ [',', '[', ']', '\x7b', '\x7d']
    | [] => false

/-- How many characters a scalar goes on without white space. -/
def unquotedLength (inFlow : Bool) : List Char → Nat
  | [] => 0
  | c :: rest =>
    if c = ' ' ∨ c = '\t' ∨ isLineBreak c then 0
    else if c = ':' ∧ colonEnds inFlow rest then 0
    else if inFlow ∧ c ∈ [',', '?', '[', ']', '\x7b', '\x7d'] then 0
    else unquotedLength inFlow rest + 1

/-- White space between the parts of a scalar: the text it stands for, and whether it has the
end of a line in it. Before a marker of documents it stands for nothing. -/
structure Gap where
  text : List Char
  broken : Bool
  after : Cursor

/-- Spaces and further breaks of lines; none if a marker of documents follows. -/
def gapBreaks : Nat → List Char → Cursor → Except Fault (Option (List Char) × Cursor)
  | 0, done, c => .ok (some done.reverse, c)
  | fuel + 1, done, c =>
    match c.rest with
    | [] => .ok (some done.reverse, c)
    | x :: _ =>
      if x = ' ' then do
        let next ← c.advance
        gapBreaks fuel done next
      else if isLineBreak x then do
        let next ← c.advance
        if ← next.atMarker then pure (none, next)
        else gapBreaks fuel (breakText x :: done) next
      else .ok (some done.reverse, c)

/-- The white space at a cursor. There are fewer than `bound` characters left. -/
def gap (bound : Nat) (c : Cursor) : Except Fault Gap := do
  let (spaces, c) ← c.takeWhile (· = ' ')
  match c.rest with
  | [] => pure ⟨spaces, false, c⟩
  | x :: _ =>
    if isLineBreak x then do
      let next ← c.advance
      if ← next.atMarker then pure ⟨[], true, next⟩
      else
        match ← gapBreaks bound [] next with
        | (none, c) => pure ⟨[], true, c⟩
        | (some others, c) => pure ⟨foldBreaks (breakText x) others, true, c⟩
    else pure ⟨spaces, false, c⟩

/-- How many characters a scalar goes on at a cursor. A colon ends it only by what is behind it. -/
def partLength (inFlow : Bool) (c : Cursor) : Except Fault Nat :=
  let n := unquotedLength inFlow c.rest
  if c.rest.head? = some '#' then .ok 0
  else if (c.rest.drop n).head? = some ':' then (c.look (n + 1)).map fun _ => n
  else .ok n

/-- The scalar behind `done`, given backwards, and whether it ends with the end of a line.
`before` is the white space in front of its next part. -/
def unquotedFrom (inFlow : Bool) (indent : Int) :
    Nat → List Char → Gap → Except Fault (List Char × Bool × Cursor)
  | 0, done, before => .ok (done.reverse, before.broken, before.after)
  | fuel + 1, done, before => do
    let c := before.after
    let n ← partLength inFlow c
    if n = 0 then pure (done.reverse, before.broken, c)
    else
      let part := c.rest.take n
      let done := part.reverse ++ (before.text.reverse ++ done)
      let after ← c.advanceBy n
      let next ← gap (fuel + 1) after
      if next.text.isEmpty ∨ (!inFlow ∧ (next.after.column : Int) < indent) then
        pure (done.reverse, next.broken, next.after)
      else unquotedFrom inFlow indent fuel done next

/-- The scalar at a cursor. Outside of brackets its further lines are indented by `indent`.
There are fewer than `bound` characters left. -/
def unquoted (bound : Nat) (inFlow : Bool) (indent : Int) (c : Cursor) :
    Except Fault (String × Bool × Cursor) := do
  let (text, broken, c) ← unquotedFrom inFlow indent bound [] ⟨[], false, c⟩
  pure (String.ofList text, broken, c)

end WordMachine.Document
