import WordMachine.Text.CodePoint
import WordMachine.Text.Printable

/-!
Text in quotes, with escapes for what would not be seen. Single quotes are taken unless
the text has a single quote and no double one.
-/
namespace WordMachine.Text

def hexEscape (mark : Char) (width : Nat) (n : Nat) : List Char :=
  let digits := Nat.toDigits 16 n
  '\\' :: mark :: (List.replicate (width - digits.length) '0' ++ digits)

def escapeChar (quote c : Char) : List Char :=
  if c = quote ∨ c = '\\' then ['\\', c]
  else if c = '\t' then ['\\', 't']
  else if c = '\n' then ['\\', 'n']
  else if c = '\r' then ['\\', 'r']
  else if isPrintable c then [c]
  else if c.toNat < 0x100 then hexEscape 'x' 2 c.toNat
  else if c.toNat < 0x10000 then hexEscape 'u' 4 c.toNat
  else hexEscape 'U' 8 c.toNat

def escape (quote : Char) : CodePoint → List Char
  | .char c => escapeChar quote c
  | .surrogate index => hexEscape 'u' 4 (0xD800 + index)

def quoteFor (s : Text) : Char :=
  if .char '\'' ∈ s ∧ .char '"' ∉ s then '"' else '\''

def quotedChars (s : Text) : List Char :=
  let quote := quoteFor s
  quote :: (s.flatMap (escape quote) ++ [quote])

def quoted (s : Text) : String :=
  String.ofList (quotedChars s)

end WordMachine.Text
