import WordMachine.Document.Quotation

/-!
Tags: an exclamation mark, and a name behind it, behind a handle, or in angle brackets.
-/
namespace WordMachine.Document

structure Tag where
  handle : Option String
  name : String
deriving DecidableEq, Repr

def isTagChar (c : Char) : Bool :=
  c.isAlphanum || c ∈ "-;/?:@&=+$,_.!~*'()[]%".toList

def isHandleChar (c : Char) : Bool :=
  c.isAlphanum || c = '-' || c = '_'

def endsTag : List Char → Bool
  | [] => true
  | c :: _ => c = ' ' || isLineBreak c

/-- The bytes of consecutive escapes at a cursor, a percent sign and two digits each. -/
def escapedBytes : Nat → Cursor → Except Fault (List UInt8 × Cursor)
  | 0, c => .ok ([], c)
  | fuel + 1, c =>
    if c.rest.head? = some '%' then do
      let digits ← c.advance
      let n ← hexNumber 2 digits
      let next ← digits.advanceBy 2
      let (bytes, last) ← escapedBytes fuel next
      pure (UInt8.ofNat n :: bytes, last)
    else .ok ([], c)

def tagNameFrom : Nat → Cursor → Except Fault (List Char × Cursor)
  | 0, c => .ok ([], c)
  | fuel + 1, c => do
    let (chars, next) ← c.takeWhile fun x => isTagChar x && x ≠ '%'
    if next.rest.head? = some '%' then
      let (bytes, next) ← escapedBytes fuel next
      match Text.Utf8.decode bytes with
      | .ok s =>
        let (more, last) ← tagNameFrom fuel next
        pure (chars ++ s.toList ++ more, last)
      | .error _ => throw .malformedDocument
    else pure (chars, next)

/-- The name at a cursor, which has at least one character. There are fewer than `bound` characters
left. -/
def tagName (bound : Nat) (c : Cursor) : Except Fault (String × Cursor) := do
  let (name, next) ← tagNameFrom bound c
  if name.isEmpty then throw .malformedDocument
  pure (String.ofList name, next)

/-- Whether another exclamation mark stands behind a cursor and before the next space. -/
def hasHandle (c : Cursor) : Except Fault Bool := do
  let next ← c.advance
  let (_, next) ← next.takeWhile fun x => x ≠ '!' && x ≠ ' ' && !isLineBreak x
  pure (next.rest.head? = some '!')

/-- The handle at a cursor, both its exclamation marks included. -/
def handleAt (c : Cursor) : Except Fault (String × Cursor) := do
  let next ← c.advance
  let (chars, next) ← next.takeWhile isHandleChar
  if next.rest.head? ≠ some '!' then throw .malformedDocument
  let next ← next.advance
  pure ("!" ++ String.ofList chars ++ "!", next)

/-- The tag at a cursor, whatever is behind it. A mark alone is a tag of that name without a handle.
There are fewer than `bound` characters left. -/
def tagAt (bound : Nat) (c : Cursor) : Except Fault (Tag × Cursor) := do
  let rest := (← c.look 1).tail
  if rest.head? = some '<' then
    let next ← c.advanceBy 2
    let (name, next) ← tagName bound next
    if next.rest.head? ≠ some '>' then throw .malformedDocument
    let next ← next.advance
    pure (⟨none, name⟩, next)
  else if endsWord rest then
    let next ← c.advance
    pure (⟨none, "!"⟩, next)
  else if ← hasHandle c then
    let (handle, next) ← handleAt c
    let (name, next) ← tagName bound next
    pure (⟨some handle, name⟩, next)
  else
    let next ← c.advance
    let (name, next) ← tagName bound next
    pure (⟨some "!", name⟩, next)

def tag (bound : Nat) (c : Cursor) : Except Fault (Tag × Cursor) := do
  let (tag, next) ← tagAt bound c
  if endsTag next.rest then pure (tag, next) else throw .malformedDocument

end WordMachine.Document
