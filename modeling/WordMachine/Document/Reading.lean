import WordMachine.Document.Merge
import WordMachine.Document.Resolution

/-!
The value that a document denotes. A text with a mistake denotes none, nor does one in which
a list or a map is a key.
-/
namespace WordMachine.Document

/-- A scalar without quotes that stands for no value of its own. -/
def isReserved (text : String) : Bool :=
  text = "<<" || text = "="

def keyOf : Node → Except Fault Scalar
  | .unquoted text => if text = "=" then .ok (.text text) else resolve text
  | .quoted text => .ok (.text text)
  | _ => .error .malformedDocument

/-- Faults by levels, each level of one list and then of the other. -/
def joinLevels : List (List Fault) → List (List Fault) → List (List Fault)
  | [], right => right
  | left, [] => left
  | x :: left, y :: right => (x ++ y) :: joinLevels left right

def faultsOf {α : Type} : Except Fault α → List Fault
  | .ok _ => []
  | .error f => [f]

mutual

/-- The faults of a node and of the nodes in it, which are met level by level. -/
def faults : Node → List (List Fault)
  | .unquoted text =>
    [if isReserved text then [.malformedDocument] else faultsOf (resolve text)]
  | .quoted _ => []
  | .unknown => [[.malformedDocument]]
  | .list items => [] :: itemFaults items
  | .map entries => [] :: entryFaults entries

def itemFaults : List Node → List (List Fault)
  | [] => []
  | n :: rest => joinLevels (faults n) (itemFaults rest)

def entryFaults : List (Node × Node) → List (List Fault)
  | [] => []
  | (k, v) :: rest =>
    joinLevels [faultsOf (keyOf k)] (joinLevels (faults v) (entryFaults rest))

end

mutual

def valueOf : Node → Except Fault Value
  | .unquoted text =>
    if isReserved text then .error .malformedDocument else (resolve text).map .scalar
  | .quoted text => .ok (.text text)
  | .unknown => .error .malformedDocument
  | .list items => (valuesOf items).map .list
  | .map entries => (entriesOf [] entries).map .map

def valuesOf : List Node → Except Fault (List Value)
  | [] => .ok []
  | n :: rest => do
    let v ← valueOf n
    let vs ← valuesOf rest
    pure (v :: vs)

/-- Entries over those that were read. The last value of a key counts. -/
def entriesOf (done : Entries) : List (Node × Node) → Except Fault Entries
  | [] => .ok done
  | (k, v) :: rest => do
    let key ← keyOf k
    let value ← valueOf v
    entriesOf (done.put key value) rest

end

/-- The value of the document in a text. Of the faults of its nodes the first of the uppermost
level counts. -/
def read (s : Source) : Except Fault Value := do
  let n := (← Node.ofTokens (.ofSource s)).merged
  match (faults n).flatten with
  | f :: _ => throw f
  | [] => valueOf n

def ofBytes (bytes : List UInt8) : Except Fault Value :=
  read (.ofBytes bytes)

end WordMachine.Document
