import WordMachine.Document.Value
import WordMachine.Files
import WordMachine.Image.Error

/-!
Everything that can end a computation without a result. Wrong images and wrong settings are
reported to the user; the other faults are not expected and pass through.
-/
namespace WordMachine

inductive SettingsError
  | badTypes (e : ConversionError)
  | negativeLimit
  | badEntry (entry : Int)
  | unknownKeys (keys : List String)
  | notFound (path : String)
  | unreadable (path : String)
  | notMapping (path : String)
  | unsupported
deriving DecidableEq, Repr

namespace SettingsError

def message : SettingsError → String
  | badTypes e => "Bad types in config: " ++ e.message
  | negativeLimit => "step_limit must be non-negative"
  | badEntry entry =>
    "entry_point (" ++ Numeral.decimal entry ++ ") out of memory range (0..65535)"
  | unknownKeys keys => "Unknown config keys: " ++ ", ".intercalate keys
  | notFound path => "Config file not found: " ++ path
  | unreadable path => "Failed to load config file " ++ path
  | notMapping path => "Config file " ++ path ++ " does not contain a mapping"
  | unsupported => "Unsupported config input"

end SettingsError

/-- What is wrong with numbers that look like a date or a time of day. -/
inductive DateError
  | year (y : Nat)
  | month
  | day
  | hour
  | minute
  | second
  | zone (minutes : Int)
deriving DecidableEq, Repr

namespace DateError

/-- A time of so many minutes, its days apart from the seconds that are more. -/
def durationText (minutes : Int) : String :=
  let days := minutes / 1440
  let seconds := minutes % 1440 * 60
  "datetime.timedelta(days=" ++ Numeral.decimal days
    ++ (if seconds = 0 then "" else ", seconds=" ++ Numeral.decimal seconds) ++ ")"

def message : DateError → String
  | year y => "year " ++ Numeral.decimal y ++ " is out of range"
  | month => "month must be in 1..12"
  | day => "day is out of range for month"
  | hour => "hour must be in 0..23"
  | minute => "minute must be in 0..59"
  | second => "second must be in 0..59"
  | zone minutes =>
    "offset must be a timedelta strictly between -timedelta(hours=24) and timedelta(hours=24), not "
      ++ durationText minutes ++ "."

end DateError

inductive Fault
  | image (e : ImageError)
  | settings (e : SettingsError)
  | conversion (e : ConversionError)
  | date (e : DateError)
  | unwritable
  | keyNotText (kindName : String)
  | notIterable (kindName : String)
  | noAttribute (kindName name : String)
  | notPath (kindName : String)
  | notIndex
  | undecodable (e : Text.Utf8.Error)
  | file (e : FileError)
  | malformedDocument
  | noCharacter (code : Nat)
  | beyondFloats
deriving DecidableEq, Repr

namespace Fault

def message : Fault → String
  | image e => e.message
  | settings e => e.message
  | conversion e => e.message
  | date e => e.message
  | unwritable => Numeral.unwritableMessage
  | keyNotText kindName => "sequence item 0: expected str instance, " ++ kindName ++ " found"
  | notIterable kindName => "argument of type '" ++ kindName ++ "' is not iterable"
  | noAttribute kindName name => "'" ++ kindName ++ "' object has no attribute '" ++ name ++ "'"
  | notPath kindName => "expected str, bytes or os.PathLike object, not " ++ kindName
  | notIndex => "slice indices must be integers or None or have an __index__ method"
  | undecodable e => e.message
  | file e => e.message
  | malformedDocument => "malformed document"
  | noCharacter code =>
    if code < Nat.pow 2 31 then "chr() arg not in range(0x110000)"
    else "Python int too large to convert to C int"
  | beyondFloats => "int too large to convert to float"

def ofImage (e : ImageError) : Fault :=
  if e.Writable then image e else unwritable

def ofEntry (entry : Int) : Fault :=
  if Numeral.Writable entry then settings (.badEntry entry) else unwritable

/-- In settings a value without an integer is reported, infinity apart. -/
def ofConversion (e : ConversionError) : Fault :=
  if e = .infinite then conversion e else settings (.badTypes e)

end Fault

end WordMachine
