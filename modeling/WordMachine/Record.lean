import WordMachine.Image.Hex
import WordMachine.Run

/-!
Records of runs. A record is a mapping with an image as text, an entry point and settings;
what its run shows is filled in under `expect`.
-/
namespace WordMachine

/-- What the run of a record shows. `memory` has the cells outside of the image that are not
zero at the end, in ascending order. -/
structure Expectations where
  outcome : Session.Outcome
  pc : Word
  memory : List (Nat × Word)
  listing : String

namespace Expectations

def toEntries (e : Expectations) : Entries := [
  (.text "out_stdout", .text e.outcome.output),
  (.text "steps", .int e.outcome.executed),
  (.text "state", .text e.outcome.ending.name),
  (.text "pc", .int e.pc.toNat),
  (.text "memory", .map (e.memory.map fun (a, w) => (.int a, .int w.toNat))),
  (.text "out_code_hex", .text e.listing)]

end Expectations

namespace Record

def imageOf (record : Entries) : Except Fault (List Word) :=
  match (record.get? (.text "image")).getD (.text "") with
  | .scalar (.text s) => (Image.ofText s).mapError .ofImage
  | v => .error (.noAttribute v.kindName "splitlines")

/-- The run of a record starts at its own entry point, whatever its settings say. -/
def expectations (docs : Documents) (files : Files) (record : Entries) :
    Except Fault Expectations := do
  let words ← imageOf record
  let entry ← (((record.get? (.text "entry")).getD (.int 0)).toInt .decimal).mapError .conversion
  let settings ← Settings.ofValue docs files ((record.get? (.text "config")).getD .null)
  let image := words.map fun w => (w.toNat : Int)
  match (Session.start false false false).load image entry 0 with
  | (.error e, _) => .error (.ofImage e)
  | (.ok (), s) =>
    let (outcome, s) := s.run settings.stepLimit
    match Listing.text? (Listing.disassemble entry (image.drop entry.toNat)) with
    | none => .error .unwritable
    | some listing =>
      .ok {
        outcome := outcome
        pc := s.machine.pc
        memory := s.machine.memory.nonzeroFrom image.length
        listing := listing ++ "\n" }

def hasImage : Value → Except Fault Bool
  | .map entries => .ok (Entries.get? entries (.text "image")).isSome
  | .list items => .ok (items.any fun
    | .scalar (.text s) => s = "image"
    | _ => false)
  | .scalar (.text s) => .ok (Text.hasPart "image" s)
  | v => .error (.notIterable v.kindName)

/-- The record with its expectations. Other entries stay as they are, also those under
`expect`. -/
def fill (docs : Documents) (files : Files) : Value → Except Fault Value
  | .map record =>
    match (Entries.get? record (.text "expect")).getD (.map []) with
    | .map expect => do
      let e ← expectations docs files record
      let expect := Entries.update expect e.toEntries
      pure (.map (Entries.put (.text "expect") (.map expect) record))
    | v => .error (.noAttribute v.kindName "update")
  | v => .error (.noAttribute v.kindName "setdefault")

/-- What counts as false in a document is an empty record. -/
def ofValue (v : Value) : Value :=
  if v.isTrue then v else .map []

def readFile (docs : Documents) (files : Files) (p : Path) : Except Fault Value := do
  let v ← docs.read ((files.read? p).getD [])
  pure (ofValue v)

/-- The record in a file with its expectations, if it has an image. -/
def filled (docs : Documents) (files : Files) (p : Path) : Except Fault (Option Value) := do
  let record ← readFile docs files p
  if ← hasImage record then
    let v ← fill docs files record
    pure (some v)
  else pure none

/-- How an update ends: it is done, or there is nothing to do and the status is 2. -/
inductive Update
  | done
  | fileNotFound
  | noImage

/-- A file is emptied before the record is written to it. A fault of the writing leaves what was
written up to then. -/
def save (docs : Documents) (files : Files) (p : Path) (record : Value) :
    Except Fault Update × Files :=
  let written := docs.write record
  let saved := (files.put p []).put p written.bytes
  match written.fault with
  | none => (.ok .done, saved)
  | some f => (.error f, saved)

def update (docs : Documents) (files : Files) (path : String) : Except Fault Update × Files :=
  match files.find (.ofText path) with
  | .error e => (.error (.file e), files)
  | .ok (.file p) =>
    match filled docs files p with
    | .error f => (.error f, files)
    | .ok none => (.ok .noImage, files)
    | .ok (some record) => save docs files p record
  | .ok .directory => (.error (.file (.isDirectory (Path.ofText path).toText)), files)
  | .ok .nothing => (.ok .fileNotFound, files)

def Update.line (path : String) : Update → String
  | done => "Updated " ++ path ++ " with observed expectations.\n"
  | fileNotFound => "File not found: " ++ path ++ "\n"
  | noImage => "No 'image' found in YAML - nothing to run\n"

end Record

end WordMachine
