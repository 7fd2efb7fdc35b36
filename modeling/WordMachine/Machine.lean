import WordMachine.Instruction

/-!
The machine: memory, a program counter, three input slots, an output register and
the characters emitted so far. A step fetches an instruction with its operands,
reads through memory where the instruction says so, executes, and writes back.
A run steps until the machine halts or its budget is spent.
-/
namespace WordMachine

/-- The input slots. The operands of an instruction go to them in order. -/
inductive Slot
  | first
  | second
  | third
deriving DecidableEq, Repr

namespace Slot

def index : Slot → Nat
  | first => 0
  | second => 1
  | third => 2

theorem index_lt (s : Slot) : s.index < 3 := by
  cases s <;> decide

end Slot

structure Machine where
  memory : Memory
  pc : Word
  slots : Vector Word 3
  out : Word
  halted : Bool
  steps : Nat
  emitted : Array UInt8

/-- The word of an instruction, the address it writes to and its operand words. -/
structure Fetched where
  opcode : Word
  target : Word
  operands : List Word

namespace Fetched

def instruction (f : Fetched) : Instruction :=
  .decode f.opcode

/-- All the words of an instruction, in the order in which they are fetched. -/
def words (f : Fetched) : List Word :=
  f.opcode :: (if f.instruction.writeBack then [f.target] else []) ++ f.operands

end Fetched

namespace Machine

def fresh : Machine where
  memory := .zero
  pc := 0
  slots := #v[0, 0, 0]
  out := 0
  halted := false
  steps := 0
  emitted := #[]

instance : Inhabited Machine := ⟨fresh⟩

/-- Every emitted byte is the character of its number. -/
def output (m : Machine) : String :=
  String.ofList (m.emitted.toList.map fun b => Char.ofNat b.toNat)

/-- The word at the program counter, which moves on. -/
def fetch (m : Machine) : Word × Machine :=
  (m.memory.read m.pc, { m with pc := m.pc + 1 })

/-- The address an instruction writes to stands behind its word; one that writes nothing has 0. -/
def fetchTarget (m : Machine) (i : Instruction) : Word × Machine :=
  if i.writeBack then m.fetch else (0, m)

/-- Fetches `count` words into the slots from `slot` on. The other slots keep what they hold. -/
def fetchOperands (slot : Nat) : Nat → Machine → List Word × Machine
  | 0, m => ([], m)
  | count + 1, m =>
    let (w, m) := m.fetch
    let m := { m with slots := m.slots.setIfInBounds slot w }
    let (ws, m) := fetchOperands (slot + 1) count m
    (w :: ws, m)

def fetchInstruction (m : Machine) : Fetched × Machine :=
  let (opcode, m) := m.fetch
  let i := Instruction.decode opcode
  let (target, m) := m.fetchTarget i
  let (operands, m) := fetchOperands 0 i.argumentCount.toNat m
  (⟨opcode, target, operands⟩, m)

/-- The words of the next instruction. -/
def next (m : Machine) : Fetched :=
  m.fetchInstruction.1

def instruction (m : Machine) : Instruction :=
  m.next.instruction

def slot (m : Machine) (s : Slot) : Word :=
  m.slots.get ⟨s.index, s.index_lt⟩

def dereferenceSlot (m : Machine) (s : Slot) : Machine :=
  { m with slots := m.slots.set s.index (m.memory.read (m.slot s)) s.index_lt }

/-- The first two slots are read through memory where the instruction says so, the third never. -/
def dereference (m : Machine) (i : Instruction) : Machine :=
  let m := if i.readFirst then m.dereferenceSlot .first else m
  if i.readSecond then m.dereferenceSlot .second else m

def poke (m : Machine) (w : Word) : Machine :=
  { m with emitted := m.emitted.push w.low }

def execute (m : Machine) : Operation → Machine
  | .none => m
  | .copy => { m with out := m.slot .first }
  | .add => { m with out := m.slot .first + m.slot .second }
  | .jumpIfZero => if m.slot .second = 0 then { m with pc := m.slot .first } else m
  | .poke => m.poke (m.slot .second)
  | .halt => { m with halted := true }

def store (m : Machine) (a v : Word) : Machine :=
  { m with memory := m.memory.write a v }

/-- One step, whether the machine has halted or not. -/
def step (m : Machine) : Machine :=
  let (f, m) := m.fetchInstruction
  let i := f.instruction
  let m := (m.dereference i).execute i.operation
  let m := if i.writeBack then m.store f.target m.out else m
  { m with steps := m.steps + 1 }

/-- Steps until the machine has halted or the budget is spent, and how many they are, counted
on from `executed`. -/
def runFrom (executed : Nat) : Nat → Machine → Nat × Machine
  | 0, m => (executed, m)
  | budget + 1, m => if m.halted then (executed, m) else runFrom (executed + 1) budget m.step

/-- At most `budget` steps, none once the machine has halted. -/
def run (budget : Nat) (m : Machine) : Machine :=
  (runFrom 0 budget m).2

/-- How many steps a run with this budget takes. -/
def executed (budget : Nat) (m : Machine) : Nat :=
  (runFrom 0 budget m).1

end Machine

/-- Why a run came to its end. -/
inductive Ending
  | halted
  | stepLimit
deriving DecidableEq, Repr

namespace Ending

def name : Ending → String
  | halted => "halted"
  | stepLimit => "step_limit"

end Ending

namespace Machine

def ending (m : Machine) : Ending :=
  if m.halted then .halted else .stepLimit

end Machine

end WordMachine
