import WordMachine.Image.Loading
import WordMachine.Trace

/-!
A machine under observation. While events are logged, loads and ends of runs are noted, and if the
machine is traced so is everything its steps do. A stream, if there is one, receives each character
when it is emitted.
-/
namespace WordMachine

structure Session where
  machine : Machine
  tracing : Bool
  logging : Bool
  stream : Option String
  log : Array Event

namespace Session

def start (tracing logging streaming : Bool) : Session where
  machine := .fresh
  tracing := tracing
  logging := logging
  stream := if streaming then some "" else none
  log := #[]

def note (s : Session) (e : Event) : Session :=
  if s.logging then { s with log := s.log.push e } else s

def trace (s : Session) (e : Event) : Session :=
  if s.tracing then s.note e else s

def ask {α : Type} (s : Session) (action : Machine → α × Machine) : α × Session :=
  match s with
  | ⟨machine, tracing, logging, stream, log⟩ =>
    let (answer, machine) := action machine
    (answer, ⟨machine, tracing, logging, stream, log⟩)

def act (s : Session) (action : Machine → Machine) : Session :=
  (s.ask fun m => ((), action m)).2

def receive (s : Session) (c : Char) : Session :=
  match s.stream with
  | some text => { s with stream := some (text.push c) }
  | none => s

def load (s : Session) (words : List Int) (entry base : Int) :
    Except ImageError Unit × Session :=
  match s.ask fun m => m.load words entry base with
  | (.error e, s) => (.error e, s)
  | (.ok (), s) => (.ok (), s.note (.loaded words.length base entry))

def write (s : Session) (address value : Int) : Session :=
  s.act (·.store (UInt16.ofInt address) (UInt16.ofInt value))

def emit (s : Session) (w : Word) : Session :=
  let s := s.act (·.poke w)
  let s := s.receive (Char.ofNat w.low.toNat)
  s.trace (.poke w.low)

def poke (s : Session) (value : Int) : Session :=
  s.emit (UInt16.ofInt value)

def fetch (s : Session) : Word × Session :=
  s.ask Machine.fetch

/-- Only what is emitted is observed. -/
def execute (s : Session) : Operation → Session
  | .poke => s.emit (s.machine.slot .second)
  | o => s.act (·.execute o)

def dereferenceSlot (s : Session) (slot : Slot) : Session :=
  let address := s.machine.slot slot
  let s := s.act (·.dereferenceSlot slot)
  s.trace (.read (s.machine.slot slot) address)

def storeResult (s : Session) (address : Word) : Session :=
  let value := s.machine.out
  let s := s.act (·.store address value)
  s.trace (.write value address)

/-- Fetches the next instruction. Its word is traced before the words that belong to it are
fetched. -/
def fetchInstruction (s : Session) : Fetched × Session :=
  let start := s.machine.pc
  let (opcode, s) := s.fetch
  let i := Instruction.decode opcode
  let s := s.trace (.fetch (s.machine.snapshot start) opcode i.operation)
  let (target, s) := s.ask (·.fetchTarget i)
  let (operands, s) := s.ask (Machine.fetchOperands 0 i.argumentCount.toNat)
  (⟨opcode, target, operands⟩,
    s.trace (.operands (s.machine.snapshot start) i operands target))

def dereference (s : Session) (i : Instruction) : Session :=
  let s := if i.readFirst then s.dereferenceSlot .first else s
  if i.readSecond then s.dereferenceSlot .second else s

def writeBack (s : Session) (f : Fetched) : Session :=
  if f.instruction.writeBack then s.storeResult f.target else s

/-- The step is counted, and its end is traced. -/
def finish (s : Session) (start : Word) (o : Operation) : Session :=
  let s := s.act fun m => { m with steps := m.steps + 1 }
  s.trace (.execution (s.machine.snapshot start) o)

def step (s : Session) : Session :=
  let start := s.machine.pc
  let (f, s) := s.fetchInstruction
  let i := f.instruction
  let s := (s.dereference i).execute i.operation
  (s.writeBack f).finish start i.operation

/-- How a run ended, after how many steps, and all that was emitted up to then. -/
structure Outcome where
  output : String
  executed : Nat
  ending : Ending
deriving DecidableEq, Repr

def runFrom (executed : Nat) : Nat → Session → Nat × Session
  | 0, s => (executed, s)
  | budget + 1, s =>
    if s.machine.halted then (executed, s) else runFrom (executed + 1) budget s.step

/-- A negative budget allows no step. -/
def run (s : Session) (budget : Int) : Outcome × Session :=
  let (executed, s) := runFrom 0 budget.toNat s
  let ending := s.machine.ending
  (⟨s.machine.output, executed, ending⟩, s.note (.stopped executed ending s.machine.pc))

end Session

end WordMachine
