import WordMachine.Text.Lines
import WordMachine.Text.Utf8

/-!
Text from a stream of bytes. The bytes come in pieces, and a piece only when characters are
wanted that the pieces before it did not give. All line breaks are line feeds in the text.
-/
namespace WordMachine.Text

/-- `bytes` are still to come, `pending` begin a character, and `held` tells of a carriage return
that may be half of a line break. `ready` was not taken yet. The last piece had `pieceBytes` bytes
and gave `pieceChars` characters. -/
structure Stream where
  bytes : List UInt8
  pending : List UInt8
  held : Bool
  ready : List Char
  pieceBytes : Nat
  pieceChars : Nat

namespace Stream

def ofBytes (bytes : List UInt8) : Stream where
  bytes := bytes
  pending := []
  held := false
  ready := []
  pieceBytes := 0
  pieceChars := 0

/-- A piece has 8192 bytes, or more if by the measure of the last one it takes more to give the
characters that are wanted. -/
def pieceSize (s : Stream) (wanted : Nat) : Nat :=
  max 8192 (s.pieceBytes * wanted / s.pieceChars)

/-- The next piece. The place of a mistake is counted from the first byte that was pending. Behind
the last byte comes an empty piece, with which nothing may stay pending. -/
def nextPiece (s : Stream) (wanted : Nat) : Except Utf8.Error Stream := do
  let size := s.pieceSize wanted
  let piece := s.bytes.take size
  let (text, pending) ←
    if piece.isEmpty then (Utf8.decode s.pending).map (·, [])
    else Utf8.decodeOpen (s.pending ++ piece)
  let chars :=
    if s.held && (piece.isEmpty || !text.isEmpty) then '\r' :: text.toList else text.toList
  let held := !piece.isEmpty && (if chars.isEmpty then s.held else chars.getLast? = some '\r')
  let ready := unifyBreaksFrom [] (if held then chars.dropLast else chars)
  pure {
    bytes := s.bytes.drop size
    pending := pending
    held := held
    ready := ready
    pieceBytes := piece.length
    pieceChars := ready.length }

/-- The next `wanted` characters, or fewer at the end, from at most `fuel` pieces. -/
def takeFrom : Nat → Stream → Nat → Except Utf8.Error (List Char × Stream)
  | 0, s, _ => .ok ([], s)
  | fuel + 1, s, wanted =>
    let taken := s.ready.take wanted
    let left := { s with ready := s.ready.drop wanted }
    if taken.length = wanted then .ok (taken, left)
    else do
      let next ← left.nextPiece (wanted - taken.length)
      if left.bytes.isEmpty && next.ready.isEmpty then pure (taken, next)
      else do
        let (more, last) ← takeFrom fuel next (wanted - taken.length)
        pure (taken ++ more, last)

/-- Each piece but the last two has a byte. -/
def take (s : Stream) (wanted : Nat) : Except Utf8.Error (List Char × Stream) :=
  s.takeFrom (s.bytes.length + 3) wanted

end Stream

end WordMachine.Text
