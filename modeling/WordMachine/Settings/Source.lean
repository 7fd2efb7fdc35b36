import WordMachine.Documents
import WordMachine.Settings

/-!
Where settings come from: nothing, a mapping, or the path of a document with a mapping.
-/
namespace WordMachine.Settings

/-- Whatever counts as false in a document is an empty mapping. -/
def ofDocument (path : String) (v : Value) : Except Fault Settings :=
  if !v.isTrue then ofEntries []
  else match v with
    | .map entries => ofEntries entries
    | _ => .error (.settings (.notMapping path))

def ofBytes (docs : Documents) (path : String) (bytes : List UInt8) : Except Fault Settings :=
  match docs.read bytes with
  | .error .malformedDocument => .error (.settings (.unreadable path))
  | .error e => .error e
  | .ok v => ofDocument path v

def ofFile (docs : Documents) (files : Files) (path : String) : Except Fault Settings :=
  match files.find (.ofText path) with
  | .error e => .error (.file e)
  | .ok (.file p) => ofBytes docs path ((files.read? p).getD [])
  | .ok .directory => .error (.settings (.unreadable path))
  | .ok .nothing => .error (.settings (.notFound path))

/-- Settings given as a value: null, a mapping or the text of a path. A text with surrogates is the
path of no file. -/
def ofValue (docs : Documents) (files : Files) : Value → Except Fault Settings
  | .scalar .null => ofEntries []
  | .map entries => ofEntries entries
  | .scalar (.text path) =>
    match path.string? with
    | some path => ofFile docs files path
    | none => .error (.settings (.notFound path.shown))
  | _ => .error (.settings .unsupported)

end WordMachine.Settings
