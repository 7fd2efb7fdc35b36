import WordMachine.Text.Quoted
import WordMachine.Text.Utf8

/-!
A tree of files. A path is a list of names from the root of the tree, and a directory is
there as soon as a file is in it.
-/
namespace WordMachine

abbrev Path := List String

structure Files where
  contents : List (Path × List UInt8)

/-- What a path leads to. A path that leaves the tree upwards ends in a directory about which
nothing more is known. An absent file could be made where the path leads, and one beyond the
tree could too. -/
inductive Place
  | file (p : Path)
  | directory (p : Path)
  | above (levels : Nat)
  | absent (p : Path)
  | beyond
  | lost
  | throughFile
  | tooLong
deriving DecidableEq, Repr

/-- What is at the end of a path. -/
inductive Found
  | file (p : Path)
  | directory
  | nothing
deriving DecidableEq, Repr

/-- Why a file is not opened. -/
inductive FileError
  | notFound (path : String)
  | notDirectory (path : String)
  | isDirectory (path : String)
  | nameTooLong (path : String)
  | nullByte
deriving DecidableEq, Repr

namespace FileError

def message : FileError → String
  | notFound path => "[Errno 2] No such file or directory: " ++ Text.quoted path
  | notDirectory path => "[Errno 20] Not a directory: " ++ Text.quoted path
  | isDirectory path => "[Errno 21] Is a directory: " ++ Text.quoted path
  | nameTooLong path => "[Errno 36] File name too long: " ++ Text.quoted path
  | nullByte => "embedded null byte"

end FileError

namespace Path

/-- The names of a path; empty ones and single dots mean nothing. -/
def ofText (text : String) : Path :=
  ((text.splitToList (· = '/')).filter fun name => name ≠ "" && name ≠ ".")

def toText (p : Path) : String :=
  if p.isEmpty then "." else "/".intercalate p

def hasNull (p : Path) : Bool :=
  p.any (·.contains (Char.ofNat 0))

/-- A path has at most 4095 bytes. -/
def isLong (p : Path) : Bool :=
  4095 < p.toText.utf8ByteSize

/-- The path in which a name before two dots is dropped together with them. None if it leaves
the tree. -/
def collapse (p : Path) : Option Path :=
  p.foldl (fun done name => do
    let done ← done
    if name = ".." then if done.isEmpty then none else some done.dropLast
    else some (done ++ [name])) (some [])

/-- Whether the last name ends in `.bin` and has something before that. -/
def isBinary (p : Path) : Bool :=
  match p.getLast? with
  | some name => ".bin".toList.isSuffixOf name.toList && 4 < name.length
  | none => false

end Path

namespace Files

def empty : Files := ⟨[]⟩

def read? (files : Files) (p : Path) : Option (List UInt8) :=
  (files.contents.find? (·.1 = p)).map (·.2)

def isDirectory (files : Files) (p : Path) : Bool :=
  p.isEmpty || files.contents.any fun e => p.isPrefixOf e.1 && p.length < e.1.length

def put (files : Files) (p : Path) (bytes : List UInt8) : Files :=
  if files.contents.any (·.1 = p) then
    ⟨files.contents.map fun e => if e.1 = p then (p, bytes) else e⟩
  else ⟨files.contents ++ [(p, bytes)]⟩

/-- A name has at most 255 bytes. -/
def isLongName (name : String) : Bool :=
  255 < name.utf8ByteSize

/-- One name further. -/
def follow (files : Files) : Place → String → Place
  | .directory p, name =>
    if name = ".." then if p.isEmpty then .above 1 else .directory p.dropLast
    else if isLongName name then .tooLong
    else
      let q := p ++ [name]
      if (files.read? q).isSome then .file q
      else if files.isDirectory q then .directory q
      else .absent q
  | .above levels, name =>
    if name = ".." then .above (levels + 1) else if isLongName name then .tooLong else .beyond
  | .file _, _ => .throughFile
  | .throughFile, _ => .throughFile
  | .absent _, _ => .lost
  | .beyond, _ => .lost
  | .lost, _ => .lost
  | .tooLong, _ => .tooLong

def locate (files : Files) (p : Path) : Place :=
  p.foldl files.follow (.directory [])

def resolve (files : Files) (p : Path) : Except FileError Place :=
  let place := files.locate p
  if p.isLong || place = .tooLong then .error (.nameTooLong p.toText) else .ok place

/-- What is found at a path. A path with a null in it leads nowhere. -/
def find (files : Files) (p : Path) : Except FileError Found :=
  if p.hasNull then .ok .nothing
  else (files.resolve p).map fun
    | .file q => .file q
    | .directory _ => .directory
    | .above _ => .directory
    | _ => .nothing

/-- The place of a file that is opened for writing. It is emptied or made; beyond the tree it
has no place. -/
def create (files : Files) (p : Path) : Except FileError (Option Path × Files) := do
  if p.hasNull then throw .nullByte
  match ← files.resolve p with
  | .file q => .ok (some q, files.put q [])
  | .absent q => .ok (some q, files.put q [])
  | .beyond => .ok (none, files)
  | .directory _ => .error (.isDirectory p.toText)
  | .above _ => .error (.isDirectory p.toText)
  | .lost => .error (.notFound p.toText)
  | .throughFile => .error (.notDirectory p.toText)
  | .tooLong => .error (.nameTooLong p.toText)

def write (files : Files) (p : Path) (text : String) : Except FileError Files :=
  (files.create p).map fun (q?, files) => match q? with
    | some q => files.put q (Text.Utf8.encode text)
    | none => files

/-- Bytes put into a content from an offset on. A gap before them is filled with zeros, and
what they do not reach stays. -/
def overwrite (content : List UInt8) (offset : Nat) (bytes : List UInt8) : List UInt8 :=
  content.take offset ++ List.replicate (offset - content.length) 0 ++ bytes
    ++ content.drop (offset + bytes.length)

/-- The tree with bytes put into a file from an offset on. -/
def patch (files : Files) (p : Path) (offset : Nat) (bytes : List UInt8) : Files :=
  files.put p (overwrite ((files.read? p).getD []) offset bytes)

end Files

end WordMachine
