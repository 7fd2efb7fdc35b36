import WordMachine.Numeral.Binary64
import WordMachine.Numeral.Reading

/-!
The data of documents: scalars, lists, and maps in the order of their keys. Only scalars
are keys.
-/
namespace WordMachine

structure Date where
  year : Nat
  month : Nat
  day : Nat
deriving DecidableEq, Repr

/-- A moment is a date with the time of day as it is written. -/
inductive Scalar
  | null
  | bool (b : Bool)
  | int (n : Int)
  | float (x : Binary64)
  | text (s : Text)
  | date (d : Date)
  | moment (d : Date) (time : String)
deriving DecidableEq, Repr

inductive Value
  | scalar (s : Scalar)
  | list (items : List Value)
  | map (entries : List (Scalar × Value))
deriving Repr

instance : Inhabited Value := ⟨.scalar .null⟩

namespace Value

mutual

def isSame : Value → Value → Bool
  | .scalar s, .scalar t => s = t
  | .list items, .list items' => areSame items items'
  | .map entries, .map entries' => areSameEntries entries entries'
  | _, _ => false

def areSame : List Value → List Value → Bool
  | [], [] => true
  | v :: rest, v' :: rest' => isSame v v' && areSame rest rest'
  | _, _ => false

def areSameEntries : List (Scalar × Value) → List (Scalar × Value) → Bool
  | [], [] => true
  | (k, v) :: rest, (k', v') :: rest' => k = k' && isSame v v' && areSameEntries rest rest'
  | _, _ => false

end

mutual

theorem isSame_iff (v v' : Value) : isSame v v' = true ↔ v = v' := by
  cases v with
  | scalar s => cases v' <;> simp [isSame]
  | list items =>
    cases v' with
    | list items' => simp [isSame, areSame_iff items items']
    | _ => simp [isSame]
  | map entries =>
    cases v' with
    | map entries' => simp [isSame, areSameEntries_iff entries entries']
    | _ => simp [isSame]

theorem areSame_iff (items items' : List Value) : areSame items items' = true ↔ items = items' := by
  cases items with
  | nil => cases items' <;> simp [areSame]
  | cons v rest =>
    cases items' with
    | nil => simp [areSame]
    | cons v' rest' => simp [areSame, isSame_iff v v', areSame_iff rest rest']

theorem areSameEntries_iff (entries entries' : List (Scalar × Value)) :
    areSameEntries entries entries' = true ↔ entries = entries' := by
  cases entries with
  | nil => cases entries' <;> simp [areSameEntries]
  | cons e rest =>
    cases entries' with
    | nil => simp [areSameEntries]
    | cons e' rest' =>
      obtain ⟨k, v⟩ := e
      obtain ⟨k', v'⟩ := e'
      simp [areSameEntries, isSame_iff v v', areSameEntries_iff rest rest']

end

end Value

instance : DecidableEq Value := fun v v' => decidable_of_iff _ (Value.isSame_iff v v')

namespace Scalar

/-- Truth values and integral floating-point numbers are the same key as the integer that
they equal. -/
def keyForm : Scalar → Scalar
  | bool b => int b.toNat
  | float x => (x.toInt?.map int).getD (float x)
  | s => s

def isSameKey (s t : Scalar) : Bool :=
  s.keyForm = t.keyForm

/-- The name of the kind of a scalar in messages. -/
def kindName : Scalar → String
  | null => "NoneType"
  | bool _ => "bool"
  | int _ => "int"
  | float _ => "float"
  | text _ => "str"
  | date _ => "datetime.date"
  | moment _ _ => "datetime.datetime"

end Scalar

abbrev Entries := List (Scalar × Value)

namespace Entries

def get? (entries : Entries) (key : Scalar) : Option Value :=
  (entries.find? fun e => e.1.isSameKey key).map (·.2)

/-- A key that is there keeps its place, a new one comes last. -/
def put (key : Scalar) (value : Value) : Entries → Entries
  | [] => [(key, value)]
  | e :: rest => if e.1.isSameKey key then (e.1, value) :: rest else e :: put key value rest

/-- The entries of `new` in the order in which they come are put over `old`. -/
def update (old new : Entries) : Entries :=
  new.foldl (fun entries e => put e.1 e.2 entries) old

end Entries

/-- Why a value gives no integer. -/
inductive ConversionError
  | numeral (e : Numeral.ReadError)
  | nan
  | infinite
  | notNumeric (kindName : String)
deriving DecidableEq, Repr

namespace ConversionError

def message : ConversionError → String
  | numeral e => e.message
  | nan => "cannot convert float NaN to integer"
  | infinite => "cannot convert float infinity to integer"
  | notNumeric kindName =>
    "int() argument must be a string, a bytes-like object or a real number, not '"
      ++ kindName ++ "'"

end ConversionError

namespace Value

def null : Value := .scalar .null

def bool (b : Bool) : Value := .scalar (.bool b)

def int (n : Int) : Value := .scalar (.int n)

def text (s : Text) : Value := .scalar (.text s)

def kindName : Value → String
  | scalar s => s.kindName
  | list _ => "list"
  | map _ => "dict"

/-- Null, false, zero and what is empty count as false. -/
def isTrue : Value → Bool
  | scalar .null => false
  | scalar (.bool b) => b
  | scalar (.int n) => n ≠ 0
  | scalar (.float x) => !x.isZero
  | scalar (.text s) => !s.isEmpty
  | scalar (.date _) => true
  | scalar (.moment _ _) => true
  | list items => !items.isEmpty
  | map entries => !entries.isEmpty

/-- The integer that a value stands for: a number without its fraction, or the number that
a text denotes. -/
def toInt (radix : Numeral.Radix) : Value → Except ConversionError Int
  | scalar (.bool b) => .ok b.toNat
  | scalar (.int n) => .ok n
  | scalar (.float (.finite negative mantissa exponent)) =>
    .ok (Binary64.truncate negative mantissa exponent)
  | scalar (.float (.infinite _)) => .error .infinite
  | scalar (.float .nan) => .error .nan
  | scalar (.text s) => (Numeral.read radix s).mapError .numeral
  | v => .error (.notNumeric v.kindName)

end Value

end WordMachine
