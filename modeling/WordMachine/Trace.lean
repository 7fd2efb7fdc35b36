import WordMachine.Listing
import WordMachine.Machine
import WordMachine.Message
import WordMachine.Text.Quoted

/-!
The trace of a run: the events of each step in order, and the line of text that
each event is logged as.
-/
namespace WordMachine

/-- The registers during a step that starts at `start`. -/
structure Snapshot where
  steps : Nat
  start : Word
  slots : Vector Word 3
  out : Word

inductive Event
  | fetch (s : Snapshot) (word : Word) (operation : Operation)
  | operands (s : Snapshot) (i : Instruction) (words : List Word) (target : Word)
  | read (value address : Word)
  | poke (byte : UInt8)
  | write (value address : Word)
  | execution (s : Snapshot) (operation : Operation)
  | loaded (count : Nat) (base entry : Int)
  | stopped (executed : Nat) (ending : Ending) (pc : Word)

namespace Snapshot

def line (s : Snapshot) (phase instruction : String) : String :=
  "STEP: " ++ Numeral.padLeft 4 ' ' (Numeral.decimal s.steps)
    ++ " PHASE: " ++ Numeral.padRight 10 ' ' phase
    ++ " PC: " ++ Word.hex s.start
    ++ " IN: " ++ " ".intercalate (s.slots.toList.map Word.hex)
    ++ " OUT: " ++ Word.hex s.out
    ++ "\tINSTR: " ++ instruction

end Snapshot

namespace Event

def line : Event → String
  | fetch s word operation => s.line "FETCH" (Word.hex word ++ " " ++ operation.name)
  | operands s i words target =>
    s.line "OPERANDS" (i.mnemonic (words.map fun w => (w.toNat : Int)) target.toNat)
  | read value address => "read " ++ Word.hex value ++ " from " ++ Word.hex address
  | poke byte =>
    "[POKE] " ++ Numeral.decimal byte.toNat ++ " -> char: "
      ++ Text.quoted (String.singleton (Char.ofNat byte.toNat))
  | write value address => "wrote " ++ Word.hex value ++ " to " ++ Word.hex address
  | execution s operation => s.line "EXECUTION" operation.name
  | loaded count base entry =>
    "Loader: " ++ Numeral.decimal count ++ " words at base " ++ Numeral.decimal base
      ++ ", PC=" ++ Numeral.decimal entry
  | stopped executed ending pc =>
    "Stopped after " ++ Numeral.decimal executed ++ " steps: " ++ ending.name
      ++ " (PC=" ++ Word.hex pc ++ ")"

/-- Where an event is noted. The three lines of a step are written in one place. -/
def source : Event → Location
  | fetch .. => ⟨"processor.py", 149⟩
  | operands .. => ⟨"processor.py", 149⟩
  | read .. => ⟨"processor.py", 189⟩
  | poke .. => ⟨"processor.py", 126⟩
  | write .. => ⟨"processor.py", 196⟩
  | execution .. => ⟨"processor.py", 149⟩
  | loaded .. => ⟨"loader.py", 58⟩
  | stopped .. => ⟨"processor.py", 238⟩

def message (e : Event) : Message :=
  ⟨e.source, e.line⟩

end Event

namespace Machine

def snapshot (m : Machine) (start : Word) : Snapshot where
  steps := m.steps
  start := start
  slots := m.slots
  out := m.out

def readEvents (before after : Machine) (i : Instruction) : List Event :=
  (if i.readFirst then [.read (after.slot .first) (before.slot .first)] else [])
    ++ (if i.readSecond then [.read (after.slot .second) (before.slot .second)] else [])

def executeEvents (m : Machine) : Operation → List Event
  | .poke => [.poke (m.slot .second).low]
  | _ => []

/-- What the next step does, in order. -/
def events (m : Machine) : List Event :=
  let (f, loaded) := m.fetchInstruction
  let i := f.instruction
  let ready := loaded.dereference i
  let done := ready.execute i.operation
  [.fetch (m.snapshot m.pc) f.opcode i.operation,
    .operands (loaded.snapshot m.pc) i f.operands f.target]
    ++ readEvents loaded ready i
    ++ ready.executeEvents i.operation
    ++ (if i.writeBack then [.write done.out f.target] else [])
    ++ [.execution { done.snapshot m.pc with steps := m.steps + 1 } i.operation]

/-- What a run with this budget does. -/
def record : Nat → Machine → List Event
  | 0, _ => []
  | budget + 1, m => if m.halted then [] else m.events ++ record budget m.step

end Machine

end WordMachine
