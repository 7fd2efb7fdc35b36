/-!
Text as UTF-8 bytes, and back. Bytes that are no text are refused with the place and the
extent of the first sequence that is wrong.
-/
namespace WordMachine.Text.Utf8

def encodeChar (c : Char) : List UInt8 :=
  let n := c.toNat
  if n < 0x80 then [UInt8.ofNat n]
  else if n < 0x800 then [UInt8.ofNat (0xC0 + n / 64), UInt8.ofNat (0x80 + n % 64)]
  else if n < 0x10000 then
    [UInt8.ofNat (0xE0 + n / 4096), UInt8.ofNat (0x80 + n / 64 % 64), UInt8.ofNat (0x80 + n % 64)]
  else
    [UInt8.ofNat (0xF0 + n / 262144), UInt8.ofNat (0x80 + n / 4096 % 64),
      UInt8.ofNat (0x80 + n / 64 % 64), UInt8.ofNat (0x80 + n % 64)]

def encode (s : String) : List UInt8 :=
  s.toList.flatMap encodeChar

inductive Reason
  | invalidStart
  | invalidContinuation
  | unexpectedEnd
deriving DecidableEq, Repr

namespace Reason

def message : Reason → String
  | invalidStart => "invalid start byte"
  | invalidContinuation => "invalid continuation byte"
  | unexpectedEnd => "unexpected end of data"

end Reason

/-- The sequence of `length` bytes at `position`, which begins with `first`, is no character. -/
structure Error where
  position : Nat
  length : Nat
  first : UInt8
  reason : Reason
deriving DecidableEq, Repr

namespace Error

def byteText (b : UInt8) : String :=
  let digits := Nat.toDigits 16 b.toNat
  "0x" ++ String.ofList (List.replicate (2 - digits.length) '0' ++ digits)

def message (e : Error) : String :=
  (if e.length = 1 then
    "'utf-8' codec can't decode byte " ++ byteText e.first ++ " in position " ++ toString e.position
  else
    "'utf-8' codec can't decode bytes in position " ++ toString e.position ++ "-"
      ++ toString (e.position + e.length - 1))
    ++ ": " ++ e.reason.message

end Error

/-- What a first byte says of its sequence: how many bytes follow, the bits it gives itself,
and the range of the byte after it. The bytes after that one range over `0x80..0xBF`. -/
structure Lead where
  count : Nat
  bits : Nat
  low : Nat
  high : Nat

/-- The ranges leave out overlong sequences, surrogates and what lies past the last character. -/
def lead? (b : UInt8) : Option Lead :=
  let n := b.toNat
  if n < 0x80 then some ⟨0, n, 0x80, 0xBF⟩
  else if n < 0xC2 then none
  else if n < 0xE0 then some ⟨1, n - 0xC0, 0x80, 0xBF⟩
  else if n = 0xE0 then some ⟨2, 0, 0xA0, 0xBF⟩
  else if n = 0xED then some ⟨2, 13, 0x80, 0x9F⟩
  else if n < 0xF0 then some ⟨2, n - 0xE0, 0x80, 0xBF⟩
  else if n = 0xF0 then some ⟨3, 0, 0x90, 0xBF⟩
  else if n < 0xF4 then some ⟨3, n - 0xF0, 0x80, 0xBF⟩
  else if n = 0xF4 then some ⟨3, 4, 0x80, 0x8F⟩
  else none

/-- The code point of a sequence whose further `count` bytes stand first in the list, or how
many of them are right before the one that is not. -/
def codePoint (low high value right : Nat) : Nat → List UInt8 → Except (Nat × Reason) Nat
  | 0, _ => .ok value
  | _ + 1, [] => .error (right, .unexpectedEnd)
  | count + 1, b :: rest =>
    if low ≤ b.toNat ∧ b.toNat ≤ high then
      codePoint 0x80 0xBF (value * 64 + (b.toNat - 0x80)) (right + 1) count rest
    else .error (right, .invalidContinuation)

/-- The characters of the bytes, the first of which is at `position`, behind those of `done`. -/
def decodeFrom (position : Nat) (done : String) : List UInt8 → Except Error String
  | [] => .ok done
  | b :: rest =>
    match lead? b with
    | none => .error ⟨position, 1, b, .invalidStart⟩
    | some lead =>
      match codePoint lead.low lead.high lead.bits 0 lead.count rest with
      | .error (right, reason) => .error ⟨position, right + 1, b, reason⟩
      | .ok n =>
        decodeFrom (position + 1 + lead.count) (done.push (Char.ofNat n)) (rest.drop lead.count)
termination_by bytes => bytes.length
decreasing_by
  simp only [List.length_drop, List.length_cons]
  omega

def decode (bytes : List UInt8) : Except Error String :=
  decodeFrom 0 "" bytes

/-- Whether these are the first two bytes of a surrogate, and the last of their piece. -/
def isSurrogateStart : List UInt8 → Bool
  | [first, second] => first = 0xED && 0xA0 ≤ second && second ≤ 0xBF
  | _ => false

/-- Whether the mistake is that the bytes end too early, so that more bytes could mend it or
show another one. -/
def Error.isUnfinished (e : Error) (bytes : List UInt8) : Bool :=
  e.reason = .unexpectedEnd || isSurrogateStart (bytes.drop e.position)

/-- The characters of the bytes, and the bytes at the end that begin one more character. -/
def decodeOpen (bytes : List UInt8) : Except Error (String × List UInt8) :=
  match decode bytes with
  | .ok text => .ok (text, [])
  | .error e =>
    if e.isUnfinished bytes then
      (decode (bytes.take e.position)).map fun text => (text, bytes.drop e.position)
    else .error e

end WordMachine.Text.Utf8
