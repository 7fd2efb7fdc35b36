import WordMachine.Image.Greeting
import WordMachine.Image.Reading
import WordMachine.Run

/-!
The command line: an image, or none for the greeting, and options. A run prints what the
image emits. Wrong arguments, settings and images are reported, with the exit status 2.
-/
namespace WordMachine.CommandLine

inductive Name
  | help
  | entry
  | config
  | debug
  | logfile
  | console
  | disasm
deriving DecidableEq, Repr

namespace Name

/-- The ways to write an option, all of them in the order in which they are listed. -/
def written : List (String × Name) := [
  ("-h", help), ("--help", help), ("--entry", entry), ("--config", config), ("--debug", debug),
  ("--logfile", logfile), ("--console", console), ("--disasm", disasm)]

/-- The option in messages. -/
def display : Name → String
  | help => "-h/--help"
  | entry => "--entry"
  | config => "--config"
  | debug => "--debug"
  | logfile => "--logfile"
  | console => "--console"
  | disasm => "--disasm"

def takesValue : Name → Bool
  | entry => true
  | config => true
  | logfile => true
  | _ => false

end Name

/-- Arguments are read in one of two ways. By the older convention two dashes behind an equals sign
are the mark that ends the options, and letters behind an option of one letter are refused. By the
newer one the dashes are a value, and the letters are left aside. -/
inductive Convention
  | older
  | newer
deriving DecidableEq, Repr

/-- What an option was given: a value, or in its place the mark that ends the options, which is no
value. -/
inductive Given (α : Type)
  | value (a : α)
  | mark
deriving Repr

/-- What was given among other values, where no value is an empty list. -/
def Given.toValue {α : Type} (f : α → Value) : Given α → Value
  | value a => f a
  | mark => .list []

def defaultLogfile : String := "processor.log"

structure Options where
  image : Option String := none
  entry : Option (Given Int) := none
  config : Option (Given String) := none
  debug : Bool := false
  logfile : Given String := .value defaultLogfile
  console : Bool := false
  disasm : Bool := false
deriving Repr

/-- What is wrong with arguments. -/
inductive UsageError
  | ambiguous (argument : String) (candidates : List String)
  | unrecognized (arguments : List String)
  | missingValue (option : Name)
  | needlessValue (option : Name) (value : String)
  | badEntry (value : String)
deriving DecidableEq, Repr

namespace UsageError

def message : UsageError → String
  | ambiguous argument candidates =>
    "ambiguous option: " ++ argument ++ " could match " ++ ", ".intercalate candidates
  | unrecognized arguments => "unrecognized arguments: " ++ " ".intercalate arguments
  | missingValue option => "argument " ++ option.display ++ ": expected one argument"
  | needlessValue option value =>
    "argument " ++ option.display ++ ": ignored explicit argument " ++ Text.quoted value
  | badEntry value => "argument --entry: invalid <lambda> value: " ++ Text.quoted value

end UsageError

/-- Why arguments give no options: help is asked for, or they are wrong. -/
inductive Stop
  | help
  | usage (e : UsageError)
deriving DecidableEq, Repr

/-- An argument for itself: a value, the mark that ends the options, an option with the value
behind its equals sign, or an option of one letter with further letters, behind an equals sign or
not. -/
inductive Argument
  | value (text : String)
  | endOfOptions
  | option (name : Name) (value : Option String)
  | joined (name : Name) (marked : Bool) (letters : List Char)
  | unknown (text : String)
deriving DecidableEq, Repr

/-- The text before the first equals sign and the text behind it. -/
def splitValue (s : List Char) : List Char × Option (List Char) :=
  let name := s.takeWhile (· ≠ '=')
  if name.length = s.length then (name, none) else (name, some (s.drop (name.length + 1)))

def isDecimalDigit (c : Char) : Bool :=
  (Text.digitValue? c).isSome

/-- Whether a text is a negative number in decimal, with a point or without. -/
def isNegativeNumber (s : List Char) : Bool :=
  let s := if s.getLast? = some '\n' then s.dropLast else s
  match s with
  | '-' :: rest =>
    let whole := rest.takeWhile isDecimalDigit
    match rest.drop whole.length with
    | [] => !whole.isEmpty
    | '.' :: fraction => !fraction.isEmpty && fraction.all isDecimalDigit
    | _ => false
  | _ => false

/-- The options that an argument can be which is none exactly: those of two dashes that begin
with it, or the one of its letter. -/
def candidates (s : List Char) : List (String × Argument) :=
  match s with
  | '-' :: '-' :: _ =>
    let (name, value) := splitValue s
    (Name.written.filter fun (w, _) => name.isPrefixOf w.toList).map fun (w, n) =>
      (w, .option n (value.map String.ofList))
  | '-' :: letter :: rest =>
    (Name.written.filter fun (w, _) => w.toList = ['-', letter]).map fun (w, n) =>
      (w, .joined n false rest)
  | _ => []

/-- The option whose name stands before the equals sign. Behind an option of one letter, too, come
further letters. -/
def valued? (s : List Char) : Option Argument :=
  match splitValue s with
  | (name, some value) =>
    (Name.written.find? (·.1.toList = name)).map fun (_, n) =>
      if name.length = 2 then .joined n true value else .option n (String.ofList value)
  | (_, none) => none

def classify (text : String) : Except UsageError Argument :=
  let s := text.toList
  if s.head? ≠ some '-' then .ok (.value text)
  else if let some (_, n) := Name.written.find? (·.1 = text) then .ok (.option n none)
  else if s.length = 1 then .ok (.value text)
  else if let some a := valued? s then .ok a
  else match candidates s with
    | [] => .ok (if isNegativeNumber s || s.contains ' ' then .value text else .unknown text)
    | [(_, a)] => .ok a
    | several => .error (.ambiguous text (several.map (·.1)))

/-- Behind the end of options all arguments are values. -/
def classifyAll : List String → Except UsageError (List Argument)
  | [] => .ok []
  | text :: rest =>
    if text = "--" then .ok (.endOfOptions :: rest.map .value)
    else do
      let a ← classify text
      let as ← classifyAll rest
      pure (a :: as)

/-- Options read so far, whether the image was given, and the arguments nothing was made of. -/
structure Progress where
  options : Options
  imageGiven : Bool
  extras : List String

def setFlag (o : Options) : Name → Except Stop Options
  | .help => .error .help
  | .debug => .ok { o with debug := true }
  | .console => .ok { o with console := true }
  | .disasm => .ok { o with disasm := true }
  | _ => .ok o

def given (c : Convention) (text : String) : Given String :=
  if c = .older ∧ text = "--" then .mark else .value text

def setValue (o : Options) (n : Name) (g : Given String) : Except Stop Options :=
  match n, g with
  | .entry, .mark => .ok { o with entry := some .mark }
  | .entry, .value text =>
    match Numeral.read .marked text with
    | .ok entry => .ok { o with entry := some (.value entry) }
    | .error _ => .error (.usage (.badEntry text))
  | .config, g => .ok { o with config := some g }
  | .logfile, g => .ok { o with logfile := g }
  | _, _ => .ok o

/-- Letters that are read as options up to one that is none. What stands behind an equals sign and
what begins with a dash is needless. -/
def readLetters (n : Name) : List Char → Stop
  | [] => .help
  | 'h' :: '=' :: value => .usage (.needlessValue n (String.ofList value))
  | 'h' :: letters => readLetters n letters
  | c :: letters =>
    if c = '-' then .usage (.needlessValue n (String.ofList (c :: letters))) else .help

/-- Help is the only option of one letter. -/
def readJoined (c : Convention) (n : Name) (marked : Bool) (letters : List Char) : Stop :=
  match c with
  | .older =>
    let others := letters.dropWhile (· = 'h')
    if others.isEmpty && !letters.isEmpty then .help
    else .usage (.needlessValue n (String.ofList others))
  | .newer =>
    if marked then .usage (.needlessValue n (String.ofList letters)) else readLetters n letters

def readArguments (c : Convention) (p : Progress) : List Argument → Except Stop Progress
  | [] => .ok p
  | .unknown text :: rest => readArguments c { p with extras := p.extras ++ [text] } rest
  | .endOfOptions :: rest =>
    if p.imageGiven then readArguments c { p with extras := p.extras ++ ["--"] } rest
    else match rest with
      | .value text :: rest =>
        let p := { p with options := { p.options with image := some text }, imageGiven := true }
        readArguments c p rest
      | rest => readArguments c { p with imageGiven := true } rest
  | .value text :: rest =>
    if p.imageGiven then readArguments c { p with extras := p.extras ++ [text] } rest
    else
      let p := { p with options := { p.options with image := some text }, imageGiven := true }
      match rest with
      | .endOfOptions :: rest => readArguments c p rest
      | rest => readArguments c p rest
  | .joined n marked letters :: _ => .error (readJoined c n marked letters)
  | .option n (some value) :: rest =>
    if n.takesValue then do
      let options ← setValue p.options n (given c value)
      readArguments c { p with options := options } rest
    else .error (.usage (.needlessValue n value))
  | .option n none :: rest =>
    if n.takesValue then
      match rest with
      | .value text :: rest => do
        let options ← setValue p.options n (.value text)
        readArguments c { p with options := options } rest
      | _ => .error (.usage (.missingValue n))
    else do
      let options ← setFlag p.options n
      readArguments c { p with options := options } rest

def parse (c : Convention) (arguments : List String) : Except Stop Options := do
  let as ← (classifyAll arguments).mapError .usage
  let p ← readArguments c ⟨{}, false, []⟩ as
  if p.extras.isEmpty then pure p.options else throw (.usage (.unrecognized p.extras))

def usageText : String :=
  "usage: processor.py [-h] [--entry ENTRY] [--config CONFIG] [--debug]\n"
    ++ "                    [--logfile LOGFILE] [--console] [--disasm]\n"
    ++ "                    [image]\n"

def helpText : String :=
  usageText
    ++ "\n"
    ++ "16-bit word VM runner. Without an image runs the built-in hello-world program.\n"
    ++ "\n"
    ++ "positional arguments:\n"
    ++ "  image              program image: .bin (little-endian words) or hex text.\n"
    ++ "\n"
    ++ "options:\n"
    ++ "  -h, --help         show this help message and exit\n"
    ++ "  --entry ENTRY      initial PC; overrides the config entry_point (default 0,\n"
    ++ "                     15 for hello)\n"
    ++ "  --config CONFIG    path to yaml config\n"
    ++ "  --debug            enable debug logging, per-step trace and debug files.\n"
    ++ "  --logfile LOGFILE  path to processor log\n"
    ++ "  --console          also echo logs to stderr (only when --debug)\n"
    ++ "  --disasm           print a disassembly of the image and exit\n"

abbrev Exit := Except Fault Nat

/-- A fault that is reported behind a word on what it is about, or passes through. -/
def report (h : Host) (what : String) (f : Fault) : Exit × Host :=
  match f with
  | .image e => (.ok 2, h.printError (what ++ " " ++ e.message ++ "\n"))
  | .settings e => (.ok 2, h.printError (what ++ " " ++ e.message ++ "\n"))
  | f => (.error f, h)

/-- The words from an index on; a negative one counts from the end. -/
def wordsFrom (words : List Int) (index : Int) : List Int :=
  if 0 ≤ index then words.drop index.toNat else words.drop (words.length + index).toNat

/-- The image and the entry point that it has by itself. -/
def imageOf (h : Host) (o : Options) : Except Fault (List Int × Int) :=
  match o.image with
  | none => .ok (Image.greeting, Image.greetingEntry)
  | some path =>
    if path.isEmpty then .ok (Image.greeting, Image.greetingEntry)
    else (Image.read h.files path).map fun words => (words.map fun w => (w.toNat : Int), 0)

/-- An entry point on the command line counts most, one in the settings more than that of the
image. -/
def entryOf (o : Options) (settings : Settings) (entry : Int) : Given Int :=
  o.entry.getD (.value (Run.entryOf settings entry))

def printListing (h : Host) (words : List Int) (entry : Given Int) : Exit × Host :=
  match entry with
  | .mark => (.error .notIndex, h)
  | .value entry =>
    match Listing.text? (Listing.disassemble entry (wordsFrom words entry)) with
    | some text => (.ok 0, h.print (text ++ "\n"))
    | none => (.error .unwritable, h)

def runImage (docs : Documents) (h : Host) (o : Options) (settings : Settings)
    (words : List Int) (entry : Given Int) : Exit × Host :=
  let settingsOfRun := settings.toEntries.put (.text "entry_point") (entry.toValue .int)
  let artifacts := if o.debug then some "." else none
  match Run.image docs h words 0 (.map settingsOfRun) settings.echo artifacts with
  | (.error f, h) => report h "Cannot run image:" f
  | (.ok run, h) =>
    let h := h.print (run.stream.getD "")
    (.ok 0, h.debug [⟨⟨"processor.py", 335⟩, "CLI: " ++ Numeral.decimal run.outcome.executed
      ++ " steps, state=" ++ run.outcome.ending.name⟩])

def openJournal (h : Host) (o : Options) (debug : Bool) : Except Fault Host :=
  match o.logfile with
  | .mark => .error (.notPath (o.logfile.toValue fun path : String => Value.text path).kindName)
  | .value path => (h.openJournal path debug o.console).mapError .file

def execute (docs : Documents) (h : Host) (o : Options) : Exit × Host :=
  let config := o.config.map (·.toValue fun path : String => Value.text path)
  match Settings.ofValue docs h.files (config.getD .null) with
  | .error f => report h "Bad config:" f
  | .ok settings =>
    let settings := if o.debug then { settings with trace := true } else settings
    match openJournal h o settings.trace with
    | .error f => (.error f, h)
    | .ok h =>
      match imageOf h o with
      | .error f => report h "Bad image:" f
      | .ok (words, own) =>
        let entry := entryOf o settings own
        if o.disasm then printListing h words entry else runImage docs h o settings words entry

/-- The program with its arguments. -/
def invoke (docs : Documents) (c : Convention) (h : Host) (arguments : List String) : Exit × Host :=
  match parse c arguments with
  | .ok o => execute docs h o
  | .error .help => (.ok 0, h.print helpText)
  | .error (.usage e) =>
    (.ok 2, h.printError (usageText ++ "processor.py: error: " ++ e.message ++ "\n"))

end WordMachine.CommandLine
