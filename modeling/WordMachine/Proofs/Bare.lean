import WordMachine.Listing
import WordMachine.Proofs.Requests

/-!
A machine of plain numbers and lists. Registers are integers of any size, memory is a list of
bytes of any length, and whatever needs a number to be in its range or an item to be in its list
may break down. The machine is the same otherwise, so that what its types promise elsewhere has to
be earned here.
-/
namespace WordMachine

inductive Breakdown
  | noSlot (index : ℕ)
  | noOperand (index : ℕ)
  | noFlag (index : ℕ)
  | noOperation (code : Int)
  | noCharacter (code : Int)
  | tooWide (n : Int)
deriving DecidableEq, Repr

structure Bare where
  memory : List UInt8
  pc : Int
  slots : List Int
  out : Int
  halted : Bool
  steps : Int
  emitted : List Int
  stream : Option String

namespace Bare

def fresh (streaming : Bool) : Bare where
  memory := List.replicate 131072 0
  pc := 0
  slots := [0, 0, 0]
  out := 0
  halted := false
  steps := 0
  emitted := []
  stream := if streaming then some "" else none

def ofBytes : List UInt8 → Int
  | [] => 0
  | b :: rest => b.toNat + 256 * ofBytes rest

def toBytes (n : Int) : Except Breakdown (List UInt8) :=
  if 0 ≤ n ∧ n < 65536 then .ok [UInt8.ofNat (n.toNat % 256), UInt8.ofNat (n.toNat / 256)]
  else .error (.tooWide n)

def character (n : Int) : Except Breakdown Char :=
  if 0 ≤ n ∧ n.toNat.isValidChar then .ok (Char.ofNat n.toNat) else .error (.noCharacter n)

def operation (n : Int) : Except Breakdown Operation :=
  match Operation.all.find? fun o => (o.code : Int) = n with
  | some o => .ok o
  | none => .error (.noOperation n)

/-- The operation of a low byte. It is only looked for up to the last code. -/
def operationOfByte (b : Int) : Except Breakdown Operation :=
  if 5 < b then .ok .none else operation b

def decode (word : Int) : Except Breakdown Instruction := do
  let w := word % 65536
  let o ← operationOfByte (w % 256)
  pure {
    operation := o
    argumentCount := w / 4096 % 4
    readFirst := w / 512 % 2 = 1
    readSecond := w / 256 % 2 = 1
    writeBack := w / 1024 % 2 = 1 }

def offset (address : Int) : ℕ :=
  (address % 65536 * 2).toNat

/-- Fewer bytes may be there than the two of a word. -/
def read (d : Bare) (address : Int) : Int :=
  ofBytes ((d.memory.drop (offset address)).take 2)

/-- The bytes that are there are replaced, whether they are two or not. -/
def write (d : Bare) (address value : Int) : Except Breakdown Bare := do
  let bytes ← toBytes (value % 65536)
  let before := d.memory.take (offset address)
  let behind := d.memory.drop (offset address + 2)
  pure { d with memory := before ++ bytes ++ behind }

def poke (d : Bare) (value : Int) : Except Breakdown Bare := do
  let byte := value % 256
  let d := { d with emitted := d.emitted ++ [byte] }
  match d.stream with
  | none => pure d
  | some text =>
    let c ← character byte
    pure { d with stream := some (text.push c) }

def output (d : Bare) : Except Breakdown String := do
  let cs ← d.emitted.mapM character
  pure (String.ofList cs)

def fetch (d : Bare) : Int × Bare :=
  (d.read d.pc, { d with pc := (d.pc + 1) % 65536 })

def slot (d : Bare) (j : ℕ) : Except Breakdown Int :=
  match d.slots[j]? with
  | some v => .ok v
  | none => .error (.noSlot j)

def setSlot (d : Bare) (j : ℕ) (v : Int) : Except Breakdown Bare :=
  if j < d.slots.length then .ok { d with slots := d.slots.set j v } else .error (.noSlot j)

/-- The operands are looked up in the slots that they were put in. -/
def fetchOperands (j : ℕ) : ℕ → Bare → Except Breakdown (List Int × Bare)
  | 0, d => .ok ([], d)
  | count + 1, d => do
    let d ← d.fetch.2.setSlot j d.fetch.1
    let v ← d.slot j
    let (vs, d) ← fetchOperands (j + 1) count d
    pure (v :: vs, d)

def fetchTarget (d : Bare) (i : Instruction) : Int × Bare :=
  if i.writeBack then d.fetch else (0, d)

def operand (operands : List Int) (j : ℕ) : Except Breakdown Int :=
  match operands[j]? with
  | some n => .ok n
  | none => .error (.noOperand j)

/-- An instruction has two flags for slots that are read through memory. -/
def flag (i : Instruction) (j : ℕ) : Except Breakdown Bool :=
  match [i.readFirst, i.readSecond][j]? with
  | some indirect => .ok indirect
  | none => .error (.noFlag j)

/-- The text of slot `j`, if there is one. -/
def slotText (i : Instruction) (operands : List Int) (j : ℕ) : Except Breakdown (List String) := do
  let indirect ← if j < 2 then flag i j else pure false
  if j < operands.length then
    let n ← operand operands j
    let text := "0x" ++ Numeral.hex4 n
    pure [if indirect then "[" ++ text ++ "]" else text]
  else pure (if indirect then ["[in" ++ Numeral.decimal j ++ "]"] else [])

def slotTextsFrom (i : Instruction) (operands : List Int) (j : ℕ) :
    ℕ → Except Breakdown (List String)
  | 0 => .ok []
  | count + 1 => do
    let here ← slotText i operands j
    let others ← slotTextsFrom i operands (j + 1) count
    pure (here ++ others)

def mnemonic (i : Instruction) (operands : List Int) (target : Int) :
    Except Breakdown String := do
  let parts ← slotTextsFrom i operands 0 (max operands.length 2)
  pure (" ".intercalate (i.operation.name :: (parts ++ i.targetTexts target)))

/-- The next instruction, the address it writes to and the texts that show it. They are made in
every step, whether somebody sees them or not. -/
def fetchInstruction (d : Bare) :
    Except Breakdown ((Instruction × Int × List String) × Bare) := do
  let (word, d) := d.fetch
  let i ← decode word
  let shown := Numeral.hex4 word ++ " " ++ i.operation.name
  let (target, d) := d.fetchTarget i
  let (operands, d) ← fetchOperands 0 i.argumentCount.toNat d
  let text ← mnemonic i operands target
  pure ((i, target, [shown, text]), d)

def dereferenceSlot (d : Bare) (j : ℕ) : Except Breakdown Bare := do
  let address ← d.slot j
  d.setSlot j (d.read address)

def dereferenceIf (d : Bare) (i : Instruction) (j : ℕ) : Except Breakdown Bare := do
  let indirect ← flag i j
  if indirect then d.dereferenceSlot j else pure d

def dereference (d : Bare) (i : Instruction) : Except Breakdown Bare := do
  let d ← d.dereferenceIf i 0
  d.dereferenceIf i 1

def storeResult (d : Bare) (i : Instruction) (target : Int) : Except Breakdown Bare :=
  if i.writeBack then d.write target d.out else .ok d

def execute (d : Bare) : Operation → Except Breakdown Bare
  | .none => .ok d
  | .copy => do
    let a ← d.slot 0
    pure { d with out := a }
  | .add => do
    let a ← d.slot 0
    let b ← d.slot 1
    pure { d with out := (a + b) % 65536 }
  | .jumpIfZero => do
    let b ← d.slot 1
    if b = 0 then
      let a ← d.slot 0
      pure { d with pc := a }
    else pure d
  | .poke => do
    let b ← d.slot 1
    d.poke b
  | .halt => .ok { d with halted := true }

/-- A step with the texts of its three phases. -/
def step (d : Bare) : Except Breakdown (List String × Bare) := do
  let ((i, target, texts), d) ← d.fetchInstruction
  let d ← d.dereference i
  let d ← d.execute i.operation
  let d ← d.storeResult i target
  pure (texts ++ [i.operation.name], { d with steps := d.steps + 1 })

def runFrom (executed : ℕ) : ℕ → Bare → Except Breakdown (ℕ × Bare)
  | 0, d => .ok (executed, d)
  | budget + 1, d =>
    if d.halted then .ok (executed, d)
    else do
      let (_, d) ← d.step
      runFrom (executed + 1) budget d

/-- Stores words one after the other until one is no word. -/
def storeFrom (base : Int) (index : ℕ) :
    List Int → Bare → Except Breakdown (Except ImageError Unit × Bare)
  | [], d => .ok (.ok (), d)
  | n :: rest, d =>
    if ¬ IsWord n then .ok (.error (.badCell index n), d)
    else do
      let d ← d.write (base + index) n
      storeFrom base (index + 1) rest d

def load (d : Bare) (words : List Int) (entry base : Int) :
    Except Breakdown (Except ImageError Unit × Bare) :=
  if base < 0 ∨ (cellCount : Int) < base + words.length then
    .ok (.error (.doesNotFit words.length base), d)
  else if ¬ IsWord entry then .ok (.error (.badEntry entry), d)
  else do
    let (r, d) ← storeFrom base 0 words d
    match r with
    | .error e => pure (.error e, d)
    | .ok () => pure (.ok (), { d with pc := entry })

inductive Reply
  | done
  | number (n : Int)
  | loaded (r : Except ImageError Unit)
  | outcome (output : String) (executed : ℕ) (ending : String)

def perform (d : Bare) : Request → Except Breakdown (Reply × Bare)
  | .load words entry base => do
    let (r, d) ← d.load words entry base
    pure (.loaded r, d)
  | .read address => pure (.number (d.read address), d)
  | .write address value => do
    let d ← d.write address value
    pure (.done, d)
  | .poke value => do
    let d ← d.poke value
    pure (.done, d)
  | .fetch => pure (.number d.fetch.1, d.fetch.2)
  | .step => do
    let (_, d) ← d.step
    pure (.done, d)
  | .execute i => do
    let d ← d.execute i.operation
    pure (.done, d)
  | .run budget => do
    let (executed, d) ← runFrom 0 budget.toNat d
    let text ← d.output
    pure (.outcome text executed (if d.halted then "halted" else "step_limit"), d)

def performAll (d : Bare) : List Request → Except Breakdown (List Reply × Bare)
  | [] => pure ([], d)
  | r :: rest => do
    let (reply, d) ← d.perform r
    let (replies, d) ← d.performAll rest
    pure (reply :: replies, d)

/-- What the types of the other machine promise. -/
structure Sound (d : Bare) : Prop where
  memory : d.memory.length = 131072
  pc : IsWord d.pc
  out : IsWord d.out
  slots : d.slots.length = 3 ∧ ∀ v ∈ d.slots, IsWord v
  emitted : ∀ b ∈ d.emitted, 0 ≤ b ∧ b ≤ 255
  output : ∃ text, d.output = .ok text ∧ text.length = d.emitted.length

/-- The bare machine in the state of a machine and its stream. -/
def of (m : Machine) (stream : Option String) : Bare where
  memory := m.memory.bytes.toList
  pc := m.pc.toNat
  slots := m.slots.toList.map fun v => (v.toNat : Int)
  out := m.out.toNat
  halted := m.halted
  steps := m.steps
  emitted := m.emitted.toList.map fun b => (b.toNat : Int)
  stream := stream

def Reply.of : Answer → Reply
  | .done => .done
  | .word w => .number w.toNat
  | .loaded r => .loaded r
  | .outcome o => .outcome o.output o.executed o.ending.name

end Bare

end WordMachine
