import WordMachine.Fault
import WordMachine.Image.Loading

/-!
The settings of a run. They are given as a mapping that is put over the defaults, converted
and checked: first the types, then the step limit, the entry point and the keys.
-/
namespace WordMachine

structure Settings where
  stepLimit : Nat
  entryPoint : Option Word
  trace : Bool
  echo : Bool
deriving DecidableEq, Repr

namespace Settings

def default : Settings where
  stepLimit := 100
  entryPoint := none
  trace := false
  echo := true

instance : Inhabited Settings := ⟨default⟩

def keys : List String := ["step_limit", "entry_point", "trace", "echo"]

/-- The settings as a mapping, all four keys in it. -/
def toEntries (s : Settings) : Entries := [
  (.text "step_limit", .int s.stepLimit),
  (.text "entry_point", (s.entryPoint.map fun w => Value.int w.toNat).getD .null),
  (.text "trace", .bool s.trace),
  (.text "echo", .bool s.echo)]

def entryOf : Value → Except ConversionError (Option Int)
  | .scalar .null => .ok none
  | v => (v.toInt .marked).map some

/-- Text in a limit is decimal, text in an entry point marks its base. -/
def limitOf (v : Value) : Except ConversionError Int :=
  v.toInt .decimal

def foreignKeys (entries : Entries) : List Scalar :=
  (entries.map (·.1)).filter fun key => !keys.any fun k => key.isSameKey (.text k)

def textOf? : Scalar → Option Text
  | .text s => some s
  | _ => none

/-- Foreign keys are listed in order; one that is no text cannot be listed. -/
def checkKeys (entries : Entries) : Except Fault Unit :=
  let foreign := foreignKeys entries
  match foreign.find? fun key => (textOf? key).isNone with
  | some key => .error (.keyNotText key.kindName)
  | none =>
    if foreign.isEmpty then .ok ()
    else
      let keys := (foreign.filterMap textOf?).mergeSort Text.precedes
      .error (.settings (.unknownKeys (keys.map Text.shown)))

def ofEntries (given : Entries) : Except Fault Settings := do
  let entries := default.toEntries.update given
  let value (key : String) := (entries.get? (.text key)).getD .null
  let limit ← (limitOf (value "step_limit")).mapError .ofConversion
  let entry ← (entryOf (value "entry_point")).mapError .ofConversion
  if limit < 0 then throw (.settings .negativeLimit)
  if let some n := entry then
    if ¬ IsWord n then throw (.ofEntry n)
  checkKeys entries
  pure {
    stepLimit := limit.toNat
    entryPoint := entry.map UInt16.ofInt
    trace := (value "trace").isTrue
    echo := (value "echo").isTrue }

end Settings

end WordMachine
