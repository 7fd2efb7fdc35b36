import WordMachine.Document.Node

/-!
Entries that a map takes from other maps. An entry with the key `<<` stands for the entries of
the map that is its value, or of the maps of the list that is its value. They are put before the
entries of the map itself, and so an entry of its own counts.
-/
namespace WordMachine.Document.Node

def isMerge : Node → Bool
  | .unquoted text => text = "<<"
  | _ => false

mutual

def merged : Node → Node
  | .list items => .list (allMerged items)
  | .map entries =>
    match taken entries with
    | some (others, own) => .map (others ++ own)
    | none => .map [(.unknown, empty)]
  | n => n

def allMerged : List Node → List Node
  | [] => []
  | n :: rest => n.merged :: allMerged rest

/-- The entries that a map takes from others, and those that are its own. -/
def taken : List (Node × Node) → Option (List (Node × Node) × List (Node × Node))
  | [] => some ([], [])
  | (k, v) :: rest => do
    let (others, own) ← taken rest
    if k.isMerge then
      let first ← source v
      some (first ++ others, own)
    else some (others, (k, v.merged) :: own)

def source : Node → Option (List (Node × Node))
  | .map entries => do
    let (others, own) ← taken entries
    some (others ++ own)
  | .list items => sources items
  | _ => none

/-- The entries that are taken from the maps of a list. Those of the first one come last and
count. -/
def sources : List Node → Option (List (Node × Node))
  | [] => some []
  | .map entries :: rest => do
    let later ← sources rest
    let (others, own) ← taken entries
    some (later ++ (others ++ own))
  | _ :: _ => none

end

end WordMachine.Document.Node
