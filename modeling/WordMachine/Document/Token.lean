import WordMachine.Document.Block
import WordMachine.Document.Tag
import WordMachine.Document.Unquoted

/-!
The tokens of a document. Blocks are opened and closed by indentation; what comes before a
colon is marked as a key when the colon is met, if it stands on one line and is not too long.
A text with a mistake has the tokens that are settled before it.
-/
namespace WordMachine.Document

inductive Token
  | documentStart
  | documentEnd
  | openList
  | closeList
  | openMap
  | closeMap
  | comma
  | item
  | key
  | value
  | openListBlock
  | openMapBlock
  | closeBlock
  | alias (name : String)
  | anchor (name : String)
  | tag (t : Tag)
  | unquoted (text : String)
  | quoted (text : Text)
  | textEnd
deriving DecidableEq, Repr

/-- Where a key may have begun. One that stands at the indentation of its block has to turn
out to be a key. -/
structure Candidate where
  position : Nat
  required : Bool
  index : Nat
  line : Nat
  column : Nat

/-- The indentations of the open blocks are in `indents`, the last opened first. For the text
outside of brackets and for each open bracket `candidates` has one place, the innermost first.
`bound` is more than the characters of the text, and so than the rounds of any loop over them. -/
structure Scan where
  bound : Nat
  cursor : Cursor
  indents : List Nat
  candidates : List (Option Candidate)
  keyAllowed : Bool
  tokens : Array Token

namespace Scan

def start (bound : Nat) (c : Cursor) : Scan where
  bound := bound
  cursor := c
  indents := []
  candidates := [none]
  keyAllowed := true
  tokens := #[]

def inFlow (s : Scan) : Bool :=
  1 < s.candidates.length

def indent (s : Scan) : Int :=
  match s.indents with
  | [] => -1
  | n :: _ => n

def emit (s : Scan) (t : Token) : Scan :=
  { s with tokens := s.tokens.push t }

/-- Positions are those of candidates, and so never behind the end. -/
def emitAt (s : Scan) (position : Nat) (t : Token) : Scan :=
  { s with tokens := s.tokens.insertIdxIfInBounds position t }

/-- Comments, spaces and ends of lines before the next token. -/
def skipFrom : Nat → Scan → Except Fault Scan
  | 0, s => .ok s
  | fuel + 1, s => do
    let (_, c) ← s.cursor.takeWhile (· = ' ')
    let c ←
      if c.rest.head? = some '#' then (c.takeWhile fun x => !isLineBreak x).map (·.2) else pure c
    match c.rest with
    | [] => pure { s with cursor := c }
    | x :: _ =>
      if isLineBreak x then do
        let next ← c.advance
        skipFrom fuel { s with cursor := next, keyAllowed := s.keyAllowed || !s.inFlow }
      else pure { s with cursor := c }

def skip (s : Scan) : Except Fault Scan := do
  let c ←
    if s.cursor.index = 0 ∧ s.cursor.rest.head? = some byteOrderMark then s.cursor.advance
    else pure s.cursor
  skipFrom s.bound { s with cursor := c }

def isStale (s : Scan) (k : Candidate) : Bool :=
  k.line ≠ s.cursor.line || k.index + 1024 < s.cursor.index

/-- Drops the candidates that are no keys any more. -/
def dropStale (s : Scan) : Except Fault Scan :=
  let stale (k? : Option Candidate) : Bool := k?.any s.isStale
  if s.candidates.any fun k? => stale k? && k?.any (·.required) then .error .malformedDocument
  else .ok { s with candidates := s.candidates.map fun k? => if stale k? then none else k? }

/-- The tokens before the first that may turn out to begin a key. -/
def settled (s : Scan) : List Token :=
  let undecided :=
    s.candidates.filterMap fun k? => (k?.filter fun k => !s.isStale k).map (·.position)
  s.tokens.toList.take (undecided.foldl min s.tokens.size)

def dropCandidate (s : Scan) : Except Fault Scan :=
  match s.candidates with
  | some k :: outer =>
    if k.required then .error .malformedDocument else .ok { s with candidates := none :: outer }
  | _ => .ok s

/-- What comes next may be a key. -/
def addCandidate (s : Scan) : Except Fault Scan :=
  if s.keyAllowed then do
    let s ← s.dropCandidate
    let c := s.cursor
    let k : Candidate := {
      position := s.tokens.size
      required := !s.inFlow && s.indent = c.column
      index := c.index
      line := c.line
      column := c.column }
    pure { s with candidates := some k :: s.candidates.tail }
  else .ok s

/-- Closes the blocks that are indented by more than `column`. -/
def closeBlocks (s : Scan) (column : Int) : Scan :=
  if s.inFlow then s
  else
    let closed := s.indents.takeWhile fun n : Nat => decide (column < n)
    { s with
      indents := s.indents.drop closed.length
      tokens := s.tokens ++ (closed.map fun _ => Token.closeBlock).toArray }

/-- Opens a block at a column, if it is indented by more than the one around it. -/
def openBlock (s : Scan) (column position : Nat) (t : Token) : Scan :=
  if s.indent < column then ({ s with indents := column :: s.indents }).emitAt position t
  else s

def accept (s : Scan) (n : Nat) (t : Token) : Except Fault Scan := do
  let next ← s.cursor.advanceBy n
  pure ({ s with cursor := next }.emit t)

def marker (s : Scan) (t : Token) : Except Fault Scan := do
  let s ← (s.closeBlocks (-1)).dropCandidate
  accept { s with keyAllowed := false } 3 t

def openBracket (s : Scan) (t : Token) : Except Fault Scan := do
  let s ← s.addCandidate
  accept { s with candidates := none :: s.candidates, keyAllowed := true } 1 t

def closeBracket (s : Scan) (t : Token) : Except Fault Scan := do
  let s ← s.dropCandidate
  let closed ← accept { s with candidates := s.candidates.tail, keyAllowed := false } 1 t
  if s.inFlow then pure closed else throw .malformedDocument

def comma (s : Scan) : Except Fault Scan := do
  let s ← s.dropCandidate
  accept { s with keyAllowed := true } 1 .comma

/-- An item or an explicit key opens its block, outside of brackets. -/
def indicator (s : Scan) (block t : Token) (keyAllowed : Bool) : Except Fault Scan := do
  if !s.inFlow && !s.keyAllowed then throw .malformedDocument
  let s := if s.inFlow then s else s.openBlock s.cursor.column s.tokens.size block
  let s ← s.dropCandidate
  accept { s with keyAllowed := keyAllowed } 1 t

/-- A colon turns the candidate, if there is one, into a key. -/
def value (s : Scan) : Except Fault Scan :=
  match s.candidates with
  | some k :: outer =>
    let s := { s with candidates := none :: outer, keyAllowed := false }
    let s := s.emitAt k.position .key
    let s := if s.inFlow then s else s.openBlock k.column k.position .openMapBlock
    s.accept 1 .value
  | _ => s.indicator .openMapBlock .value (!s.inFlow)

def name (s : Scan) (token : String → Token) : Except Fault Scan := do
  let s ← s.addCandidate
  let next ← s.cursor.advance
  let (chars, c) ← next.takeWhile isHandleChar
  if chars.isEmpty then throw .malformedDocument
  if endsWord c.rest || c.rest.head?.any (· ∈ "?:,]\x7d%@".toList ++ [Char.ofNat 0x60]) then
    pure ({ s with cursor := c, keyAllowed := false }.emit (token (String.ofList chars)))
  else throw .malformedDocument

def tag (s : Scan) : Except Fault Scan := do
  let s ← s.addCandidate
  let (t, c) ← Document.tag s.bound s.cursor
  pure ({ s with cursor := c, keyAllowed := false }.emit (.tag t))

def quotation (s : Scan) : Except Fault Scan := do
  let s ← s.addCandidate
  let (text, c) ← Document.quotation s.bound s.cursor
  pure ({ s with cursor := c, keyAllowed := false }.emit (.quoted text))

/-- A key may follow behind a block. -/
def block (s : Scan) : Except Fault Scan := do
  let s ← s.dropCandidate
  let (text, c) ← Document.block s.bound (max 1 (s.indent + 1).toNat) s.cursor
  pure ({ s with cursor := c, keyAllowed := true }.emit (.quoted (.ofChars text)))

def unquoted (s : Scan) : Except Fault Scan := do
  let s ← s.addCandidate
  let (text, broken, c) ← Document.unquoted s.bound s.inFlow (s.indent + 1) s.cursor
  pure ({ s with cursor := c, keyAllowed := broken }.emit (.unquoted text))

/-- The characters that begin a scalar without quotes only in certain places, if ever. -/
def isIndicator (c : Char) : Bool :=
  c ∈ "\t-?:,[]\x7b\x7d#&*!|>'\"%@".toList ++ [Char.ofNat 0x60]

/-- The token that an indicator begins depends on what is behind it. -/
def indicated (s : Scan) (c : Char) : Except Fault Scan := do
  let text ← s.cursor.look 1
  let alone := endsWord text.tail
  if c = '-' ∧ alone then s.indicator .openListBlock .item true
  else if c = '?' ∧ (s.inFlow ∨ alone) then s.indicator .openMapBlock .key (!s.inFlow)
  else if c = ':' ∧ (s.inFlow ∨ alone) then s.value
  else if !alone ∧ (c = '-' ∨ (!s.inFlow ∧ (c = '?' ∨ c = ':'))) then s.unquoted
  else throw .malformedDocument

/-- The next token, which begins with `c`. -/
def scanAt (s : Scan) (c : Char) : Except Fault Scan := do
  let isFirst := s.cursor.column = 0
  if c = '%' ∧ isFirst then throw .malformedDocument
  else if ← (if isFirst ∧ (c = '-' ∨ c = '.') then s.cursor.atMarker else pure false) then
    s.marker (if c = '-' then .documentStart else .documentEnd)
  else if c = '[' then s.openBracket .openList
  else if c = '\x7b' then s.openBracket .openMap
  else if c = ']' then s.closeBracket .closeList
  else if c = '\x7d' then s.closeBracket .closeMap
  else if c = ',' then s.comma
  else if c = '*' then s.name .alias
  else if c = '&' then s.name .anchor
  else if c = '!' then s.tag
  else if !s.inFlow ∧ (c = '|' ∨ c = '>') then s.block
  else if c = '\'' ∨ c = '"' then s.quotation
  else if isIndicator c then s.indicated c
  else s.unquoted

/-- The next token, or at the end of the text the last one. -/
def step (s : Scan) : Except Fault Scan := do
  let s ← s.skip
  let s ← s.dropStale
  let s := s.closeBlocks s.cursor.column
  match s.cursor.rest with
  | [] =>
    let s ← (s.closeBlocks (-1)).dropCandidate
    pure (s.emit .textEnd)
  | c :: _ => s.scanAt c

end Scan

/-- The tokens of a text and the fault that is met behind them. With all the tokens there the last
one is the end of the text, behind which nothing is met. -/
structure Tokens where
  list : List Token
  fault : Fault

namespace Tokens

def ofScan : Nat → Scan → Tokens
  | 0, s => ⟨s.settled, .malformedDocument⟩
  | fuel + 1, s =>
    match s.step with
    | .error f => ⟨s.settled, f⟩
    | .ok next =>
      if next.tokens.back? = some .textEnd then ⟨next.tokens.toList, .malformedDocument⟩
      else ofScan fuel next

def ofSource (s : Source) : Tokens :=
  match Cursor.start s with
  | .error f => ⟨[], f⟩
  | .ok c => ofScan (s.text.length + 1) (.start (s.text.length + 1) c)

end Tokens

end WordMachine.Document
