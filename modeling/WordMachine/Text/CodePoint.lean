/-!
Texts as lists of code points. A surrogate is half of a pair that stands for one character. By
itself it stands for none, but an escape in a document can bring it into a text.
-/
namespace WordMachine

/-- Surrogates are numbered from D800 on. -/
inductive CodePoint
  | char (c : Char)
  | surrogate (index : Fin 2048)
deriving DecidableEq, Repr

namespace CodePoint

def toNat : CodePoint → Nat
  | char c => c.toNat
  | surrogate index => 0xD800 + index

def ofNat (n : Nat) : CodePoint :=
  if h : 0xD800 ≤ n ∧ n < 0xE000 then surrogate ⟨n - 0xD800, by omega⟩ else char (Char.ofNat n)

def toChar : CodePoint → Char
  | char c => c
  | surrogate _ => Char.ofNat 0xFFFD

def char? : CodePoint → Option Char
  | char c => some c
  | surrogate _ => none

end CodePoint

abbrev Text := List CodePoint

namespace Text

def ofChars (s : List Char) : Text :=
  s.map .char

def ofString (s : String) : Text :=
  ofChars s.toList

instance : Coe String Text := ⟨ofString⟩

theorem ofString_ofList (chars : List Char) : ofString (String.ofList chars) = ofChars chars :=
  congrArg ofChars String.toList_ofList

theorem ofString_append (s t : String) : ofString (s ++ t) = ofString s ++ ofString t := by
  unfold ofString ofChars
  rw [String.toList_append, List.map_append]

def string? (s : Text) : Option String :=
  (s.mapM CodePoint.char?).map String.ofList

def shown (s : Text) : String :=
  String.ofList (s.map CodePoint.toChar)

/-- Texts are ordered by their code points. -/
def precedes (s t : Text) : Bool :=
  !(t.map CodePoint.toNat).lex (s.map CodePoint.toNat)

def hasPart (part : Text) : Text → Bool
  | [] => part.isEmpty
  | c :: rest => part.isPrefixOf (c :: rest) || hasPart part rest

end Text

end WordMachine
