import WordMachine.Dump
import WordMachine.Journal
import WordMachine.Session
import WordMachine.Settings.Source

/-!
A run of an image: its settings, a machine that starts at the entry point, and, while
debugging, files that show the image and the memory that is left.
-/
namespace WordMachine

/-- A run that was allowed: how it ended and what the stream received, if there was one. -/
structure Run where
  outcome : Session.Outcome
  stream : Option String

namespace Run

/-- The entry point of the settings counts more than the one given with the image. -/
def entryOf (settings : Settings) (entry : Int) : Int :=
  match settings.entryPoint with
  | some w => w.toNat
  | none => entry

def perform (settings : Settings) (words : List Int) (entry : Int) (logging streaming : Bool) :
    Except Fault (Session.Outcome × Session) :=
  let s := Session.start settings.trace logging streaming
  match s.load words (entryOf settings entry) 0 with
  | (.error e, _) => .error (.ofImage e)
  | (.ok (), s) => .ok (s.run settings.stepLimit)

/-- The addresses of a listing from the beginning of memory can always be written. -/
def listingText (words : List Int) : String :=
  (Listing.text? (Listing.disassemble 0 words)).getD ""

/-- Writes the listing of an image and the dump of a machine into a directory. What was
written before a failure stays. -/
def writeArtifacts (files : Files) (directory : String) (words : List Int) (m : Machine) :
    Option FileError × Files :=
  let inside (name : String) : Path := Path.ofText directory ++ [name]
  match files.write (inside "out.hex") (listingText words ++ "\n") with
  | .error e => (some e, files)
  | .ok files =>
    match files.write (inside "memory_dump.txt") (Dump.text m) with
    | .error e => (some e, files)
    | .ok files => (none, files)

/-- Leaves the artifacts of a run. Files that cannot be opened are noted in the journal, and only
what is no path at all is a fault. -/
def leaveArtifacts (h : Host) (directory : String) (words : List Int) (m : Machine) :
    Except Fault Unit × Host :=
  let (failure, files) := writeArtifacts h.files directory words m
  let h := { h with files := files }
  match failure with
  | none => (.ok (), h)
  | some .nullByte => (.error (.file .nullByte), h)
  | some e =>
    (.ok (), h.debug [⟨⟨"processor.py", 77⟩, "Failed to write debug out files: " ++ e.message⟩])

/-- The artifacts are left only while debugging. -/
def image (docs : Documents) (h : Host) (words : List Int) (entry : Int) (settings : Value)
    (streaming : Bool) (artifacts : Option String) : Except Fault Run × Host :=
  match Settings.ofValue docs h.files settings with
  | .error e => (.error e, h)
  | .ok settings =>
    match perform settings words entry h.isDebugging streaming with
    | .error e => (.error e, h)
    | .ok (outcome, s) =>
      let h := h.debug (s.log.toList.map Event.message)
      let (left, h) := match artifacts with
        | some directory =>
          if h.isDebugging then leaveArtifacts h directory words s.machine else (.ok (), h)
        | none => (.ok (), h)
      (left.map fun () => ⟨outcome, s.stream⟩, h)

end Run

end WordMachine
