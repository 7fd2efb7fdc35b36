import WordMachine.Document.Token

/-!
The nodes of a document: scalars as they are written, lists and maps. A list of tokens is
one node, or it has a mistake.
-/
namespace WordMachine.Document

/-- A node of an unknown kind stands for no value. -/
inductive Node
  | unquoted (text : String)
  | quoted (text : Text)
  | list (items : List Node)
  | map (entries : List (Node × Node))
  | unknown
deriving Repr

namespace Node

def empty : Node := .unquoted ""

/-- The tokens that are left, the fault behind them, and the nodes that were given a name. -/
structure Input where
  tokens : List Token
  fault : Fault
  anchors : List (String × Node)

namespace Input

def peek (s : Input) : Except Fault Token :=
  match s.tokens with
  | t :: _ => .ok t
  | [] => .error s.fault

def next (s : Input) : Input :=
  { s with tokens := s.tokens.tail }

/-- Behind the marks of the ends of documents. -/
def afterEnds (s : Input) : Input :=
  { s with tokens := s.tokens.dropWhile (· = .documentEnd) }

def nextIn (s : Input) (ts : List Token) : Except Fault Bool :=
  s.peek.map ts.contains

def named (s : Input) (name : Option String) (n : Node) : Input :=
  match name with
  | some name => { s with anchors := (name, n) :: s.anchors }
  | none => s

/-- A name is given once. Inside of the node itself only its kind is known. -/
def claim (s : Input) (name : Option String) (n : Node) : Except Fault Input :=
  match name with
  | some a =>
    if s.anchors.any (·.1 = a) then .error .malformedDocument else .ok (s.named name n)
  | none => .ok s

end Input

/-- What is said of a node in front of it: the name it is given, and its kind. -/
structure Properties where
  name : Option String
  tag : Option Tag

namespace Properties

def isGiven (p : Properties) : Bool :=
  p.name.isSome || p.tag.isSome

/-- Whether the tag is a mark alone, with which a scalar is what it is without quotes. -/
def isBare (p : Properties) : Bool :=
  p.tag.any fun t => t.handle.isNone && t.name = "!"

/-- A node with a tag is of an unknown kind. -/
def apply (p : Properties) (n : Node) : Node :=
  if p.isBare then
    match n with
    | .quoted text => (text.string?.map .unquoted).getD n
    | n => n
  else if p.tag.isSome then .unknown
  else n

/-- Handles that stand for something. -/
def handles : List String := ["!", "!!"]

def read (s : Input) : Except Fault (Properties × Input) := do
  let (p, s) ← match ← s.peek with
    | .anchor name =>
      let s := s.next
      match ← s.peek with
      | .tag t => pure ((⟨some name, some t⟩ : Properties), s.next)
      | _ => pure (⟨some name, none⟩, s)
    | .tag t =>
      let s := s.next
      match ← s.peek with
      | .anchor name => pure (⟨some name, some t⟩, s.next)
      | _ => pure (⟨none, some t⟩, s)
    | _ => pure (⟨none, none⟩, s)
  if (p.tag.bind (·.handle)).any fun h => !handles.contains h then throw .malformedDocument
  pure (p, s)

end Properties

mutual

/-- A node. Only outside of brackets it can be a block, and only in a map block a list at the
indentation of the map. -/
def read (block indentless : Bool) : Nat → Input → Except Fault (Node × Input)
  | 0, _ => .error .malformedDocument
  | fuel + 1, s => do
    match ← s.peek with
    | .alias name =>
      match s.anchors.find? (·.1 = name) with
      | some (_, n) => pure (n, s.next)
      | none => throw .malformedDocument
    | _ =>
      let (p, s) ← Properties.read s
      let (n, s) ← readContent block indentless p fuel s
      let n := p.apply n
      pure (n, s.named p.name n)

/-- A node without its properties. They alone are those of an empty scalar. -/
def readContent (block indentless : Bool) (p : Properties) :
    Nat → Input → Except Fault (Node × Input)
  | 0, _ => .error .malformedDocument
  | fuel + 1, s => do
    let listKind : Node := .list [empty]
    let mapKind : Node := .map [(empty, empty)]
    match ← s.peek with
    | .unquoted text =>
      let s ← s.next.claim p.name empty
      pure (.unquoted text, s)
    | .quoted text =>
      let s ← s.next.claim p.name empty
      pure (.quoted text, s)
    | .openList =>
      let s ← s.next.claim p.name listKind
      readList true [] fuel s
    | .openMap =>
      let s ← s.next.claim p.name mapKind
      readMap true [] fuel s
    | t =>
      if t = .item ∧ indentless then
        let s ← s.claim p.name listKind
        readIndentless [] fuel s
      else if t = .openListBlock ∧ block then
        let s ← s.next.claim p.name listKind
        readListBlock [] fuel s
      else if t = .openMapBlock ∧ block then
        let s ← s.next.claim p.name mapKind
        readMapBlock [] fuel s
      else if p.isGiven then
        let s ← s.claim p.name empty
        pure (empty, s)
      else throw .malformedDocument

def readUnless (ts : List Token) (block indentless : Bool) :
    Nat → Input → Except Fault (Node × Input)
  | 0, _ => .error .malformedDocument
  | fuel + 1, s => do
    if ← s.nextIn ts then pure (empty, s) else read block indentless fuel s

def readValue (ts : List Token) (block indentless : Bool) :
    Nat → Input → Except Fault (Node × Input)
  | 0, _ => .error .malformedDocument
  | fuel + 1, s => do
    if ← s.nextIn [.value] then readUnless ts block indentless fuel s.next else pure (empty, s)

def readListBlock (done : List Node) : Nat → Input → Except Fault (Node × Input)
  | 0, _ => .error .malformedDocument
  | fuel + 1, s => do
    match ← s.peek with
    | .item =>
      let (n, s) ← readUnless [.item, .closeBlock] true false fuel s.next
      readListBlock (n :: done) fuel s
    | .closeBlock => pure (.list done.reverse, s.next)
    | _ => throw .malformedDocument

def readIndentless (done : List Node) : Nat → Input → Except Fault (Node × Input)
  | 0, _ => .error .malformedDocument
  | fuel + 1, s => do
    match ← s.peek with
    | .item =>
      let (n, s) ← readUnless [.item, .key, .value, .closeBlock] true false fuel s.next
      readIndentless (n :: done) fuel s
    | _ => pure (.list done.reverse, s)

def readMapBlock (done : List (Node × Node)) : Nat → Input → Except Fault (Node × Input)
  | 0, _ => .error .malformedDocument
  | fuel + 1, s => do
    match ← s.peek with
    | .key =>
      let ends := [.key, .value, .closeBlock]
      let (k, s) ← readUnless ends true true fuel s.next
      let (v, s) ← readValue ends true true fuel s
      readMapBlock ((k, v) :: done) fuel s
    | .closeBlock => pure (.map done.reverse, s.next)
    | _ => throw .malformedDocument

/-- The items of a list in brackets. One with a key is a map of one entry. -/
def readList (first : Bool) (done : List Node) : Nat → Input → Except Fault (Node × Input)
  | 0, _ => .error .malformedDocument
  | fuel + 1, s => do
    if ← s.nextIn [.closeList] then pure (.list done.reverse, s.next)
    else
      let comma ← s.nextIn [.comma]
      if !first && !comma then throw .malformedDocument
      let s := if first then s else s.next
      match ← s.peek with
      | .closeList => pure (.list done.reverse, s.next)
      | .key =>
        let (k, s) ← readUnless [.value, .comma, .closeList] false false fuel s.next
        let (v, s) ← readValue [.comma, .closeList] false false fuel s
        readList false (.map [(k, v)] :: done) fuel s
      | _ =>
        let (n, s) ← read false false fuel s
        readList false (n :: done) fuel s

def readMap (first : Bool) (done : List (Node × Node)) :
    Nat → Input → Except Fault (Node × Input)
  | 0, _ => .error .malformedDocument
  | fuel + 1, s => do
    if ← s.nextIn [.closeMap] then pure (.map done.reverse, s.next)
    else
      let comma ← s.nextIn [.comma]
      if !first && !comma then throw .malformedDocument
      let s := if first then s else s.next
      match ← s.peek with
      | .closeMap => pure (.map done.reverse, s.next)
      | .key =>
        let (k, s) ← readUnless [.value, .comma, .closeMap] false false fuel s.next
        let (v, s) ← readValue [.comma, .closeMap] false false fuel s
        readMap false ((k, v) :: done) fuel s
      | _ =>
        let (k, s) ← read false false fuel s
        readMap false ((k, empty) :: done) fuel s

end

/-- The node between the marks of its document. A document without one is an empty scalar. -/
def readDocument (fuel : Nat) (s : Input) : Except Fault (Node × Input) := do
  match ← s.peek with
  | .textEnd => pure (empty, s)
  | .documentStart =>
    let s := s.next
    if ← s.nextIn [.documentStart, .documentEnd, .textEnd] then pure (empty, s)
    else read true false fuel s
  | _ => read true false fuel s

def ofTokens (tokens : Tokens) : Except Fault Node := do
  let (n, s) ← readDocument (4 * tokens.list.length + 4) ⟨tokens.list, tokens.fault, []⟩
  if ← s.afterEnds.nextIn [.textEnd] then pure n else throw .malformedDocument

end Node

end WordMachine.Document
