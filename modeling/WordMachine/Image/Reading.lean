import WordMachine.Fault
import WordMachine.Image.Binary
import WordMachine.Image.Hex

/-!
Images read from files: bytes from files named `.bin`, and hexadecimal text from all others.
-/
namespace WordMachine.Image

def ofFileBytes (p : Path) (bytes : List UInt8) : Except Fault (List Word) :=
  if p.isBinary then (ofBytes bytes).mapError .ofImage
  else do
    let text ← (Text.Utf8.decode bytes).mapError .undecodable
    (ofText (Text.unifyBreaks text)).mapError .ofImage

def read (files : Files) (path : String) : Except Fault (List Word) :=
  let p := Path.ofText path
  match files.find p with
  | .error e => .error (.file e)
  | .ok (.file q) => ofFileBytes p ((files.read? q).getD [])
  | .ok .directory => .error (.file (.isDirectory p.toText))
  | .ok .nothing => .error (.image (.notFound path))

end WordMachine.Image
