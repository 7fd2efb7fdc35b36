import WordMachine.Fault
import WordMachine.Text.Stream

/-!
The text that a document is read from. It comes in portions, and a portion that is no text, or
has a character that documents do not have, is a fault only for what is behind the portions
before it.
-/
namespace WordMachine.Document

/-- The characters up to the end, or up to the portion that is at fault. -/
structure Source where
  text : List Char
  fault : Option Fault

/-- The characters that a document may have in it. -/
def isAllowed (c : Char) : Bool :=
  let n := c.toNat
  n = 0x09 || n = 0x0A || n = 0x0D || (0x20 ≤ n && n ≤ 0x7E) || n = 0x85
    || (0xA0 ≤ n && n ≤ 0xD7FF) || (0xE000 ≤ n && n ≤ 0xFFFD) || 0x10000 ≤ n

namespace Source

def portionSize : Nat := 4096

def check (chars : List Char) : Except Fault Unit :=
  if chars.all isAllowed then .ok () else .error .malformedDocument

/-- The first portion is twice as long as the others. -/
def firstPortion (s : Text.Stream) : Except Fault (List Char × Text.Stream) := do
  let (first, s) ← (s.take portionSize).mapError .undecodable
  let (second, s) ← (s.take portionSize).mapError .undecodable
  check (first ++ second)
  pure (first ++ second, s)

def nextPortion (s : Text.Stream) : Except Fault (List Char × Text.Stream) := do
  let (chars, s) ← (s.take portionSize).mapError .undecodable
  check chars
  pure (chars, s)

/-- The portions behind those of `done`, given backwards. An empty one is the end. -/
def gather : Nat → List (List Char) → Text.Stream → Source
  | 0, done, _ => ⟨done.reverse.flatten, none⟩
  | fuel + 1, done, s =>
    match nextPortion s with
    | .error f => ⟨done.reverse.flatten, some f⟩
    | .ok ([], _) => ⟨done.reverse.flatten, none⟩
    | .ok (chars, s) => gather fuel (chars :: done) s

def ofBytes (bytes : List UInt8) : Source :=
  match firstPortion (.ofBytes bytes) with
  | .error f => ⟨[], some f⟩
  | .ok (chars, s) => gather (bytes.length + 1) [chars] s

end Source

end WordMachine.Document
