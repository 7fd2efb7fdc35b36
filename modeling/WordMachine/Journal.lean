import WordMachine.Files
import WordMachine.Message

/-!
The journal: records of five levels, written to a file and, on request, to the console.
While debugging all records are written, and otherwise only critical ones.
-/
namespace WordMachine

inductive Level
  | debug
  | info
  | warning
  | error
  | critical
deriving DecidableEq, Repr

namespace Level

def name : Level → String
  | debug => "DEBUG"
  | info => "INFO"
  | warning => "WARNING"
  | error => "ERROR"
  | critical => "CRITICAL"

/-- Whether records of this level are shown when there is no journal. -/
def isUrgent : Level → Bool
  | debug => false
  | info => false
  | _ => true

end Level

structure Entry where
  level : Level
  message : Message
deriving DecidableEq, Repr

/-- An open journal. Its file, if it is in the tree, was written up to `written`. -/
structure Journal where
  debug : Bool
  console : Bool
  file : Option Path
  written : Nat

namespace Journal

def accepts (j : Journal) (e : Entry) : Bool :=
  j.debug || e.level = .critical

/-- Entries that come while debugging name the journal, which is always the root, and their
source. -/
def fileLine (j : Journal) (e : Entry) : String :=
  if j.debug then
    e.level.name ++ " root:" ++ e.message.source.text ++ " " ++ e.message.text ++ "\n"
  else Numeral.padRight 5 ' ' e.level.name ++ " " ++ e.message.text ++ "\n"

def consoleLine (e : Entry) : String :=
  Numeral.padLeft 5 ' ' e.level.name ++ " " ++ e.message.text ++ "\n"

end Journal

/-- What a program has around it: files, the two streams it prints to, and its journal. -/
structure Host where
  files : Files
  output : String
  errors : String
  journal : Option Journal

namespace Host

def ofFiles (files : Files) : Host where
  files := files
  output := ""
  errors := ""
  journal := none

def print (h : Host) (s : String) : Host :=
  { h with output := h.output ++ s }

def printError (h : Host) (s : String) : Host :=
  { h with errors := h.errors ++ s }

/-- A new journal in the place of an old one. Its file begins empty. The console is only
written to while debugging. -/
def openJournal (h : Host) (path : String) (debug console : Bool) : Except FileError Host :=
  match Path.collapse (.ofText path) with
  | none => .ok { h with journal := some ⟨debug, debug && console, none, 0⟩ }
  | some p =>
    (h.files.create p).map fun (file, files) =>
      { h with files := files, journal := some ⟨debug, debug && console, file, 0⟩ }

def isDebugging (h : Host) : Bool :=
  h.journal.any (·.debug)

/-- Without a journal urgent entries are shown. -/
def log (h : Host) (entries : List Entry) : Host :=
  match h.journal with
  | none =>
    h.printError
      (String.join ((entries.filter (·.level.isUrgent)).map fun e => e.message.text ++ "\n"))
  | some j =>
    let accepted := entries.filter j.accepts
    let bytes := Text.Utf8.encode (String.join (accepted.map j.fileLine))
    let files := match j.file with
      | some p => if bytes.isEmpty then h.files else h.files.patch p j.written bytes
      | none => h.files
    let errors := if j.console then String.join (accepted.map Journal.consoleLine) else ""
    { h with
      files := files
      errors := h.errors ++ errors
      journal := some { j with written := j.written + bytes.length } }

def debug (h : Host) (messages : List Message) : Host :=
  h.log (messages.map fun m => ⟨.debug, m⟩)

end Host

end WordMachine
