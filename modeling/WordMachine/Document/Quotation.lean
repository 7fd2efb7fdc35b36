import WordMachine.Document.Cursor

/-!
Scalars in quotes. Between single quotes a quote is written twice; between double quotes a
backslash begins an escape. Breaks of lines are folded, with the white space around them.
-/
namespace WordMachine.Document

/-- White space at the beginning of lines, and the breaks in it. A marker of documents must
not stand in a quotation. -/
def quotedBreaks : Nat → List Char → Cursor → Except Fault (List Char × Cursor)
  | 0, _, _ => .error .malformedDocument
  | fuel + 1, done, c => do
    if ← c.atMarker then throw .malformedDocument
    else
      let (_, c) ← c.takeWhile fun x => x = ' ' || x = '\t'
      match c.rest with
      | [] => pure (done.reverse, c)
      | x :: _ =>
        if isLineBreak x then do
          let next ← c.advance
          quotedBreaks fuel (breakText x :: done) next
        else pure (done.reverse, c)

def simpleEscape? (c : Char) : Option Char :=
  match c with
  | '0' => some (Char.ofNat 0)
  | 'a' => some (Char.ofNat 0x07)
  | 'b' => some (Char.ofNat 0x08)
  | 't' => some '\t'
  | '\t' => some '\t'
  | 'n' => some '\n'
  | 'v' => some (Char.ofNat 0x0B)
  | 'f' => some (Char.ofNat 0x0C)
  | 'r' => some '\r'
  | 'e' => some (Char.ofNat 0x1B)
  | ' ' => some ' '
  | '"' => some '"'
  | '\\' => some '\\'
  | '/' => some '/'
  | 'N' => some (Char.ofNat 0x85)
  | '_' => some (Char.ofNat 0xA0)
  | 'L' => some (Char.ofNat 0x2028)
  | 'P' => some (Char.ofNat 0x2029)
  | _ => none

/-- How many hexadecimal digits follow the letter of an escape. -/
def escapeWidth? (c : Char) : Option Nat :=
  match c with
  | 'x' => some 2
  | 'u' => some 4
  | 'U' => some 8
  | _ => none

def hexDigit? (c : Char) : Option Nat :=
  if '0' ≤ c ∧ c ≤ '9' then some (c.toNat - '0'.toNat)
  else if 'a' ≤ c ∧ c ≤ 'f' then some (c.toNat - 'a'.toNat + 10)
  else if 'A' ≤ c ∧ c ≤ 'F' then some (c.toNat - 'A'.toNat + 10)
  else none

def hexNumber (width : Nat) (c : Cursor) : Except Fault Nat :=
  match (c.rest.take width).mapM hexDigit? with
  | none => .error .malformedDocument
  | some digits =>
    if digits.length < width then (c.look width).bind fun _ => .error .malformedDocument
    else .ok (digits.foldl (fun n d => n * 16 + d) 0)

/-- There are no code points past the last one. -/
def codePoint (code : Nat) : Except Fault CodePoint :=
  if 0x10FFFF < code then .error (.noCharacter code) else .ok (.ofNat code)

/-- Characters behind a text, which is given backwards. -/
def addChars (done : Text) (s : List Char) : Text :=
  (Text.ofChars s).reverse ++ done

/-- The text of a quotation up to its closing quote, behind `done`, given backwards. -/
def quotedFrom (double : Bool) : Nat → Text → Cursor → Except Fault (Text × Cursor)
  | 0, _, _ => .error .malformedDocument
  | fuel + 1, done, c =>
    match c.rest with
    | [] => .error .malformedDocument
    | x :: _ =>
      if x = ' ' ∨ x = '\t' then do
        let (blanks, after) ← c.takeWhile fun x => x = ' ' || x = '\t'
        match after.rest with
        | [] => throw .malformedDocument
        | y :: _ =>
          if isLineBreak y then do
            let next ← after.advance
            let (breaks, c) ← quotedBreaks (fuel + 1) [] next
            quotedFrom double fuel (addChars done (foldBreaks (breakText y) breaks)) c
          else quotedFrom double fuel (addChars done blanks) after
      else if isLineBreak x then do
        let next ← c.advance
        let (breaks, c) ← quotedBreaks (fuel + 1) [] next
        quotedFrom double fuel (addChars done (foldBreaks (breakText x) breaks)) c
      else if double then
        if x = '"' then do
          let next ← c.advance
          pure (done.reverse, next)
        else if x = '\\' then do
          let letter ← c.advance
          match letter.rest with
          | [] => throw .malformedDocument
          | e :: _ =>
            if let some y := simpleEscape? e then
              let next ← letter.advance
              quotedFrom double fuel (.char y :: done) next
            else if let some width := escapeWidth? e then
              let digits ← letter.advance
              let y ← (← hexNumber width digits) |> codePoint
              let next ← digits.advanceBy width
              quotedFrom double fuel (y :: done) next
            else if isLineBreak e then
              let next ← letter.advance
              let (breaks, c) ← quotedBreaks (fuel + 1) [] next
              quotedFrom double fuel (addChars done breaks) c
            else throw .malformedDocument
        else do
          let next ← c.advance
          quotedFrom double fuel (.char x :: done) next
      else if x = '\'' then do
        let next ← c.advance
        if next.rest.head? = some '\'' then
          let next ← next.advance
          quotedFrom double fuel (.char '\'' :: done) next
        else pure (done.reverse, next)
      else do
        let next ← c.advance
        quotedFrom double fuel (.char x :: done) next

def quotation (bound : Nat) (c : Cursor) : Except Fault (Text × Cursor) := do
  let double := c.rest.head? = some '"'
  let next ← c.advance
  quotedFrom double bound [] next

end WordMachine.Document
