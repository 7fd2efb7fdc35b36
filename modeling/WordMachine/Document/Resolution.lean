import WordMachine.Document.Node
import WordMachine.Fault

/-!
What a scalar without quotes denotes: null, a truth value, a number, a date or, if it looks
like none of them, its own text.
-/
namespace WordMachine.Document

def isDigit (c : Char) : Bool := '0' ≤ c && c ≤ '9'

def isDigitOrMark (c : Char) : Bool := isDigit c || c = '_'

def isDigits : List Char → Bool
  | [] => false
  | c :: rest => isDigit c && rest.all isDigitOrMark

/-- One or two digits for a number below sixty. -/
def isSixtieth : List Char → Bool
  | [a] => isDigit a
  | [a, b] => '0' ≤ a && a ≤ '5' && isDigit b
  | _ => false

def isSigned (s : List Char) : Bool :=
  s.head?.any fun c => c = '-' || c = '+'

def unsigned (s : List Char) : List Char :=
  if isSigned s then s.tail else s

def withoutMarks (s : List Char) : List Char :=
  s.filter (· ≠ '_')

/-- The digits of a base that is given by its highest digits. -/
def natOf (base : Nat) (s : List Char) : Nat :=
  Numeral.value base (s.filterMap (Numeral.digit? base))

/-- A number in base ten, of at most 4300 digits. -/
def decimalOf (digits : List Char) : Except Fault Nat :=
  if 4300 < digits.length then .error (.conversion (.numeral (.tooManyDigits digits.length)))
  else .ok (natOf 10 digits)

/-- A number in base 2 or 16, of which at least one digit is there. -/
def markedOf (base : Nat) (digits : List Char) : Except Fault Nat :=
  if digits.isEmpty then .error (.conversion (.numeral (.malformed base "")))
  else .ok (natOf base digits)

/-- The parts of a number in base sixty, the first of them of any size. -/
def sixtiesOf (parts : List (List Char)) : Except Fault Nat := do
  let digits ← parts.mapM decimalOf
  pure (Numeral.value 60 digits)

def partsOf (s : List Char) : List (List Char) :=
  s.foldr (fun c parts => if c = ':' then [] :: parts else (c :: parts.headD []) :: parts.tail) [[]]

/-- The natural number that an integer has behind its sign. -/
def magnitude? (s : List Char) : Option (Except Fault Nat) :=
  match s with
  | '0' :: 'b' :: rest =>
    if !rest.isEmpty && rest.all (fun c => c = '0' || c = '1' || c = '_') then
      some (markedOf 2 (withoutMarks rest))
    else none
  | '0' :: 'x' :: rest =>
    if !rest.isEmpty && rest.all (fun c => (hexDigit? c).isSome || c = '_') then
      some (markedOf 16 (withoutMarks rest))
    else none
  | '0' :: rest =>
    if rest.all fun c => ('0' ≤ c && c ≤ '7') || c = '_' then
      some (.ok (natOf 8 (withoutMarks rest)))
    else none
  | _ =>
    let parts := partsOf s
    if isDigits (parts.headD []) && parts.tail.all isSixtieth then
      some (sixtiesOf (parts.map withoutMarks))
    else none

def int? (s : List Char) : Option (Except Fault Int) :=
  (magnitude? (unsigned s)).map fun n =>
    n.map fun n => if s.head? = some '-' then -(n : Int) else n

/-- The power of ten at the end of a number, with its sign; nothing is the power zero. -/
def exponent? (s : List Char) : Option Int :=
  match s with
  | [] => some 0
  | e :: sign :: digits =>
    if (e = 'e' ∨ e = 'E') ∧ (sign = '-' ∨ sign = '+') ∧ !digits.isEmpty ∧ digits.all isDigit then
      some (if sign = '-' then -(natOf 10 digits : Int) else natOf 10 digits)
    else none
  | _ => none

/-- The sum of the parts of a number in base sixty, from the last to the first. Each is multiplied
by its power of sixty and added to those before with a rounding of its own. -/
def sumOfSixties (sum : Binary64) (power : Nat) : List Binary64 → Except Fault Binary64
  | [] => .ok sum
  | x :: rest =>
    let factor := Binary64.ofQuotient false power 1
    if factor = .infinite false then .error .beyondFloats
    else sumOfSixties (sum.plus (x.times factor)) (power * 60) rest

/-- The number of a whole part and of digits behind the point. -/
def decimalOfParts (whole digits : List Char) (exponent : Int) : Binary64 :=
  let places := (withoutMarks digits).length
  .ofDecimal false (natOf 10 (withoutMarks (whole ++ digits))) (exponent - places)

/-- A number with a point behind its sign; the part before the point may be in base sixty. -/
def fraction? (signed : Bool) (s : List Char) : Option (Except Fault Binary64) :=
  let whole := s.takeWhile (· ≠ '.')
  let tail := s.drop (whole.length + 1)
  let digits := tail.takeWhile isDigitOrMark
  let parts := partsOf whole
  let last := tail.drop digits.length
  if whole.length = s.length then none
  else if (whole.isEmpty && !signed && isDigits digits) || isDigits whole then
    (exponent? last).map fun e => .ok (decimalOfParts whole digits e)
  else if isDigits (parts.headD []) && parts.tail.all isSixtieth && last.isEmpty then
    some (sumOfSixties (.zero false) 1
      (decimalOfParts (parts.getLastD []) digits 0
        :: (parts.dropLast.reverse.map fun p => decimalOfParts p [] 0)))
  else none

def float? (s : List Char) : Option (Except Fault Binary64) :=
  let body := unsigned s
  if [".inf", ".Inf", ".INF"].any (·.toList = body) then some (.ok (.infinite (s.head? = some '-')))
  else if [".nan", ".NaN", ".NAN"].any (·.toList = s) then some (.ok .nan)
  else (fraction? (isSigned s) body).map fun x =>
    if s.head? = some '-' then x.map .negate else x

def daysIn (year month : Nat) : Nat :=
  if month = 2 then
    if year % 4 = 0 ∧ (year % 100 ≠ 0 ∨ year % 400 = 0) then 29 else 28
  else if month = 4 ∨ month = 6 ∨ month = 9 ∨ month = 11 then 30 else 31

def checkDate (year month day : Nat) : Except Fault Date :=
  if year = 0 then .error (.date (.year year))
  else if month = 0 ∨ 12 < month then .error (.date .month)
  else if day = 0 ∨ daysIn year month < day then .error (.date .day)
  else .ok ⟨year, month, day⟩

/-- A number of at least `least` and at most `most` digits, and what is behind it. -/
def number? (least most : Nat) (s : List Char) : Option (Nat × List Char) :=
  let digits := (s.take most).takeWhile isDigit
  if digits.length < least then none else some (natOf 10 digits, s.drop digits.length)

def mark? (p : Char → Bool) (s : List Char) : Option (List Char) :=
  match s with
  | c :: rest => if p c then some rest else none
  | [] => none

def isDayBlank (c : Char) : Bool := c = ' ' || c = '\t'

/-- How many minutes a time zone is ahead; nothing is no zone. -/
def zone? (s : List Char) : Option Int :=
  match s.dropWhile isDayBlank with
  | [] => if s.isEmpty then some 0 else none
  | ['Z'] => some 0
  | c :: rest =>
    if c = '+' || c = '-' then do
      let (hours, rest) ← number? 1 2 rest
      let minutes ← match rest with
        | [] => some 0
        | ':' :: rest => match number? 2 2 rest with
          | some (minutes, []) => some minutes
          | _ => none
        | _ => none
      let ahead : Int := hours * 60 + minutes
      pure (if c = '-' then -ahead else ahead)
    else none

/-- A time of day as it is written. -/
structure Time where
  text : String
  hour : Nat
  minute : Nat
  second : Nat
  zone : Int

def time? (s : List Char) : Option Time := do
  let s ← match s with
    | 'T' :: rest => some rest
    | 't' :: rest => some rest
    | c :: rest => if isDayBlank c then some (rest.dropWhile isDayBlank) else none
    | [] => none
  let text := String.ofList s
  let (hour, s) ← number? 1 2 s
  let s ← mark? (· = ':') s
  let (minute, s) ← number? 2 2 s
  let s ← mark? (· = ':') s
  let (second, s) ← number? 2 2 s
  let s := match s with
    | '.' :: rest => rest.dropWhile isDigit
    | s => s
  let zone ← zone? s
  pure ⟨text, hour, minute, second, zone⟩

/-- A zone is less than a day ahead or behind. -/
def checkMoment (year month day : Nat) (t : Time) : Except Fault Scalar := do
  if 1440 ≤ t.zone.natAbs then throw (.date (.zone t.zone))
  let d ← checkDate year month day
  if 23 < t.hour then throw (.date .hour)
  if 59 < t.minute then throw (.date .minute)
  if 59 < t.second then throw (.date .second)
  pure (.moment d t.text)

/-- A date, with a time of day or without. Without one, month and day have two digits. -/
def date? (s : List Char) : Option (Except Fault Scalar) := do
  let (year, s) ← number? 4 4 s
  let s ← mark? (· = '-') s
  let (month, s') ← number? 1 2 s
  let twoDigits := s.length = s'.length + 2
  let s ← mark? (· = '-') s'
  let (day, s') ← number? 1 2 s
  if s'.isEmpty then
    if twoDigits && s.length = 2 then some ((checkDate year month day).map .date) else none
  else
    let t ← time? s'
    some (checkMoment year month day t)

def trueWords : List String :=
  ["yes", "Yes", "YES", "true", "True", "TRUE", "on", "On", "ON"]

def falseWords : List String :=
  ["no", "No", "NO", "false", "False", "FALSE", "off", "Off", "OFF"]

def nullWords : List String :=
  ["~", "null", "Null", "NULL", ""]

/-- The scalar that is written as `text` without quotes. -/
def resolve (text : String) : Except Fault Scalar :=
  let s := text.toList
  if nullWords.contains text then .ok .null
  else if trueWords.contains text then .ok (.bool true)
  else if falseWords.contains text then .ok (.bool false)
  else if let some x := float? s then x.map .float
  else if let some n := int? s then n.map .int
  else if let some d := date? s then d
  else .ok (.text text)

end WordMachine.Document
