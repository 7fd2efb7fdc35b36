import WordMachine.Memory

/-!
Instructions and the word that holds one. The low byte of the word is the
operation, bits 8 and 9 tell which input slots are read through memory, bit 10
whether the result is written back, bits 12 and 13 count the operand words.
Bits 11, 14 and 15 mean nothing.
-/
namespace WordMachine

inductive Operation
  | none
  | copy
  | add
  | jumpIfZero
  | poke
  | halt
deriving DecidableEq, Repr, Inhabited

namespace Operation

def all : List Operation := [none, copy, add, jumpIfZero, poke, halt]

def code : Operation → Nat
  | none => 0
  | copy => 1
  | add => 2
  | jumpIfZero => 3
  | poke => 4
  | halt => 5

def name : Operation → String
  | none => "NONE"
  | copy => "COPY"
  | add => "ADD"
  | jumpIfZero => "JUMP_IF_ZERO"
  | poke => "POKE"
  | halt => "HALT"

/-- The operation named by a low byte; a byte that names none does nothing. -/
def ofByte (b : UInt8) : Operation :=
  match b.toNat with
  | 1 => copy
  | 2 => add
  | 3 => jumpIfZero
  | 4 => poke
  | 5 => halt
  | _ => none

theorem code_lt (o : Operation) : o.code < 256 := by
  cases o <;> decide

theorem code_inj {o o' : Operation} : o.code = o'.code ↔ o = o' := by
  cases o <;> cases o' <;> decide

@[simp] theorem ofByte_code (o : Operation) : ofByte (UInt8.ofNat o.code) = o := by
  cases o <;> rfl

theorem code_ofByte (b : UInt8) : (ofByte b).code = if b.toNat ≤ 5 then b.toNat else 0 := by
  unfold ofByte
  by_cases hb : b.toNat ≤ 5
  · have hcodes : b.toNat = 0 ∨ b.toNat = 1 ∨ b.toNat = 2 ∨ b.toNat = 3 ∨ b.toNat = 4 ∨
        b.toNat = 5 := by omega
    rw [if_pos hb]
    rcases hcodes with h | h | h | h | h | h <;> rw [h] <;> rfl
  · rw [if_neg hb]
    split <;> first | omega | rfl

end Operation

/-- `readFirst` and `readSecond` tell whether input slots 0 and 1 are read through memory. -/
structure Instruction where
  operation : Operation := .none
  argumentCount : Int := 0
  readFirst : Bool := false
  readSecond : Bool := false
  writeBack : Bool := false
deriving DecidableEq, Repr, Inhabited

namespace Instruction

def decode (w : Word) : Instruction where
  operation := .ofByte w.low
  argumentCount := w.toNat / 4096 % 4
  readFirst := w.toNat / 512 % 2 = 1
  readSecond := w.toNat / 256 % 2 = 1
  writeBack := w.toNat / 1024 % 2 = 1

/-- An argument count outside `0..3` is cut to its two low bits. -/
def encode (i : Instruction) : Word :=
  UInt16.ofNat (i.operation.code + 256 * i.readSecond.toNat + 512 * i.readFirst.toNat
    + 1024 * i.writeBack.toNat + 4096 * (i.argumentCount % 4).toNat)

/-- How many words the instruction takes: itself, the address it writes to, its operands. -/
def length (i : Instruction) : Int :=
  1 + i.writeBack.toNat + i.argumentCount

theorem toNat_encode (i : Instruction) : i.encode.toNat =
    i.operation.code + 256 * i.readSecond.toNat + 512 * i.readFirst.toNat
      + 1024 * i.writeBack.toNat + 4096 * (i.argumentCount % 4).toNat := by
  have := i.operation.code_lt
  have := i.readFirst.toNat_le
  have := i.readSecond.toNat_le
  have := i.writeBack.toNat_le
  simp only [encode, UInt16.toNat_ofNat']
  omega

theorem argumentCount_decode_nonneg (w : Word) : 0 ≤ (decode w).argumentCount := by
  simp only [decode]
  omega

theorem argumentCount_decode_lt (w : Word) : (decode w).argumentCount < 4 := by
  simp only [decode]
  omega

theorem decode_encode (i : Instruction) :
    decode i.encode = { i with argumentCount := i.argumentCount % 4 } := by
  obtain ⟨o, n, first, second, back⟩ := i
  have hn := toNat_encode ⟨o, n, first, second, back⟩
  have ho := o.code_lt
  have hfirst := first.toNat_le
  have hsecond := second.toNat_le
  have hback := back.toNat_le
  simp only at hn
  have low : (encode ⟨o, n, first, second, back⟩).low = UInt8.ofNat o.code := by
    apply UInt8.toNat_inj.1
    rw [Word.toNat_low, UInt8.toNat_ofNat']
    omega
  simp only [decode, low, Operation.ofByte_code, mk.injEq, true_and]
  refine ⟨by omega, ?_, ?_, ?_⟩
  · cases first <;> simp_all <;> omega
  · cases second <;> simp_all <;> omega
  · cases back <;> simp_all <;> omega

end Instruction

end WordMachine
