import WordMachine.CommandLine
import WordMachine.Document.Writing

/-!
The program: it reads the files that its arguments name, runs the command line on them, and
writes back the files that have changed.
-/
namespace WordMachine.Main

/-- The texts that may be paths: each argument, what it gives as the value of an option, and
the files that are written without being named. -/
def named (arguments : List String) : List String :=
  let values := arguments.filterMap fun a =>
    (CommandLine.splitValue a.toList).2.map String.ofList
  ["processor.log", "out.hex", "memory_dump.txt"] ++ arguments ++ values

/-- The paths with those of the directories on the way to them. -/
def withParents (paths : List String) : List String :=
  (paths.flatMap fun path =>
    let root := if path.toList.head? = some '/' then "/" else ""
    let names := Path.ofText path
    (List.range names.length).map fun n => root ++ "/".intercalate (names.take (n + 1))).eraseDups

/-- A directory is known by an entry that no path leads to. -/
def addPath (files : Files) (path : String) : IO Files := do
  let p := Path.ofText path
  try
    let bytes ← IO.FS.readBinFile path
    pure (files.put p bytes.toList)
  catch
    | .noFileOrDirectory _ _ _ => pure files
    | _ => pure (files.put (p ++ ["."]) [])

def writeChanged (before after : Files) (path : String) : IO Unit := do
  let p := Path.ofText path
  match after.read? p with
  | some bytes =>
    if before.read? p != some bytes then
      IO.FS.writeBinFile path (ByteArray.mk bytes.toArray)
  | none => pure ()

end WordMachine.Main

open WordMachine in
def main (arguments : List String) : IO UInt32 := do
  let paths := Main.withParents (Main.named arguments)
  let before ← paths.foldlM Main.addPath .empty
  let (exit, h) := CommandLine.invoke .yaml .older (.ofFiles before) arguments
  paths.forM (Main.writeChanged before h.files)
  IO.print h.output
  IO.eprint h.errors
  match exit with
  | .ok n => pure (UInt32.ofNat n)
  | .error f =>
    IO.eprintln f.message
    pure 1
