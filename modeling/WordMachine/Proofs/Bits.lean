import Mathlib.Data.Int.Bitwise
import Mathlib.Tactic.IntervalCases
import WordMachine.Proofs.Loading

/-!
Instructions in the bits of a word. Every bit of an encoded instruction stands for one thing or for
nothing, and a word of any size is decoded from its own bits. So encoding what was decoded keeps the
bits that mean something, and words are the same instruction if they agree in these.
-/
namespace WordMachine

/-- A bit of an integer of either sign, as a remainder. -/
theorem testBit_eq_decide (n : Int) (k : ℕ) : n.testBit k = decide (n / 2 ^ k % 2 = 1) := by
  cases n with
  | ofNat m =>
    change m.testBit k = _
    rw [Nat.testBit_eq_decide_div_mod_eq, Int.ofNat_eq_natCast]
    norm_cast
  | negSucc m =>
    have hquotient : Int.negSucc m / 2 ^ k = -((m / 2 ^ k : ℕ) + 1 : Int) := by
      rw [Int.negSucc_ediv _ (by positivity)]
      norm_cast
    change (!m.testBit k) = _
    rw [Nat.testBit_eq_decide_div_mod_eq, hquotient, ← decide_not, decide_eq_decide]
    omega

theorem toNat_testBit (n : Int) (k : ℕ) : ((n.testBit k).toNat : Int) = n / 2 ^ k % 2 := by
  rw [testBit_eq_decide]
  by_cases hodd : n / 2 ^ k % 2 = 1
  · rw [decide_eq_true hodd, hodd]
    rfl
  · have heven : n / 2 ^ k % 2 = 0 := by omega
    rw [decide_eq_false hodd, heven]
    rfl

/-- A number is what a mask leaves of an integer of any size and sign if their bits say so. -/
theorem eq_land_of_testBit {word mask : ℕ} {n : Int}
    (h : ∀ k, word.testBit k = (n.testBit k && mask.testBit k)) : (word : Int) = n.land mask := by
  obtain ⟨kept, hkept⟩ : ∃ kept : ℕ, n.land mask = kept := by
    cases n with
    | ofNat m => exact ⟨m &&& mask, rfl⟩
    | negSucc m => exact ⟨mask.ldiff m, rfl⟩
  have hsame : word = kept := by
    apply Nat.eq_of_testBit_eq
    intro k
    have hbit := Int.testBit_land n mask k
    rw [hkept] at hbit
    exact (h k).trans hbit.symm
  rw [hkept, hsame]

namespace Instruction

/-- What a bit of the word that encodes an instruction says. -/
def bit (i : Instruction) (k : ℕ) : Bool :=
  if k < 8 then i.operation.code.testBit k
  else if k = 8 then i.readSecond
  else if k = 9 then i.readFirst
  else if k = 10 then i.writeBack
  else if k = 12 then i.argumentCount.testBit 0
  else if k = 13 then i.argumentCount.testBit 1
  else false

theorem testBit_encode (i : Instruction) (k : ℕ) : i.encode.toNat.testBit k = i.bit k := by
  have hsum := i.toNat_encode
  have hcode := i.operation.code_lt
  have hfirst := i.readFirst.toNat_le
  have hsecond := i.readSecond.toNat_le
  have hback := i.writeBack.toNat_le
  have hflag : ∀ b : Bool, decide (b.toNat = 1) = b := by decide
  unfold bit
  split_ifs with hlow h8 h9 h10 h12 h13
  · have hbyte : i.encode.toNat = 2 ^ 8 * (i.encode.toNat / 256) + i.operation.code := by omega
    rw [hbyte, Nat.testBit_two_pow_mul_add _ hcode, if_pos hlow]
  · have hbit : i.encode.toNat / 2 ^ 8 % 2 = i.readSecond.toNat := by omega
    rw [h8, Nat.testBit_eq_decide_div_mod_eq, hbit, hflag]
  · have hbit : i.encode.toNat / 2 ^ 9 % 2 = i.readFirst.toNat := by omega
    rw [h9, Nat.testBit_eq_decide_div_mod_eq, hbit, hflag]
  · have hbit : i.encode.toNat / 2 ^ 10 % 2 = i.writeBack.toNat := by omega
    rw [h10, Nat.testBit_eq_decide_div_mod_eq, hbit, hflag]
  · rw [h12, testBit_eq_decide, Nat.testBit_eq_decide_div_mod_eq, decide_eq_decide]
    omega
  · rw [h13, testBit_eq_decide, Nat.testBit_eq_decide_div_mod_eq, decide_eq_decide]
    omega
  · by_cases h11 : k = 11
    · rw [h11, Nat.testBit_eq_decide_div_mod_eq, decide_eq_false_iff_not]
      omega
    · apply Nat.testBit_lt_two_pow
      calc i.encode.toNat < 2 ^ 14 := by omega
        _ ≤ 2 ^ k := Nat.pow_le_pow_right (by omega) (by omega)

theorem decode_ofInt (n : Int) : decode (UInt16.ofInt n) = {
    operation := .ofByte (Word.low (UInt16.ofInt n))
    argumentCount := (n.testBit 12).toNat + 2 * (n.testBit 13).toNat
    readFirst := n.testBit 9
    readSecond := n.testBit 8
    writeBack := n.testBit 10 } := by
  have hcast := Word.toNat_ofInt n
  unfold decode
  simp only [toNat_testBit, mk.injEq, true_and]
  simp only [testBit_eq_decide, decide_eq_decide]
  refine ⟨?_, ?_, ?_, ?_⟩ <;> omega

/-- The code of what is decoded is the low byte if that is a code. -/
theorem code_decode_ofInt (n : Int) :
    ((decode (UInt16.ofInt n)).operation.code : Int) = if n % 256 ≤ 5 then n % 256 else 0 := by
  have hcast := Word.toNat_ofInt n
  have hlow := Word.toNat_low (UInt16.ofInt n)
  unfold decode
  rw [Operation.code_ofByte]
  by_cases hcode : n % 256 ≤ 5
  · rw [if_pos hcode, if_pos (by omega)]
    omega
  · rw [if_neg hcode, if_neg (by omega)]
    rfl

/-- Behind the low byte an instruction is decoded from five bits, whichever operation it has. -/
theorem bit_decode_of_le {n : Int} {mask k : ℕ} (h : 8 ≤ k) (hmask : mask / 256 = 0x37) :
    (decode (UInt16.ofInt n)).bit k = (n.testBit k && mask.testBit k) := by
  have hcount : ∀ b c : Bool, ((b.toNat + 2 * c.toNat : Int).testBit 0 = b) ∧
      ((b.toNat + 2 * c.toNat : Int).testBit 1 = c) := by decide
  have hshift : mask.testBit k = Nat.testBit 0x37 (k - 8) := by
    rw [← hmask, ← Nat.shiftRight_eq_div_pow mask 8, Nat.testBit_shiftRight]
    congr 1
    omega
  unfold bit
  rw [hshift, decode_ofInt, if_neg (by omega)]
  split_ifs with h8 h9 h10 h12 h13
  · subst h8
    exact (Bool.and_true _).symm
  · subst h9
    exact (Bool.and_true _).symm
  · subst h10
    exact (Bool.and_true _).symm
  · subst h12
    exact (hcount _ _).1.trans (Bool.and_true _).symm
  · subst h13
    exact (hcount _ _).2.trans (Bool.and_true _).symm
  · have hzero : Nat.testBit 0x37 (k - 8) = false := by
      by_cases h11 : k = 11
      · subst h11
        rfl
      · apply Nat.testBit_lt_two_pow
        calc 0x37 < 2 ^ 6 := by decide
          _ ≤ 2 ^ (k - 8) := Nat.pow_le_pow_right (by omega) (by omega)
    rw [hzero, Bool.and_false]

/-- A low byte that is no code leaves none of its bits. -/
theorem bit_decode_of_lt {n : Int} {k : ℕ} (h : k < 8) :
    (decode (UInt16.ofInt n)).bit k = (n.testBit k && decide (n % 256 ≤ 5)) := by
  have hlow := code_decode_ofInt n
  unfold bit
  rw [if_pos h]
  by_cases hcode : n % 256 ≤ 5
  · rw [if_pos hcode] at hlow
    rw [decide_eq_true hcode, Bool.and_true, Nat.testBit_eq_decide_div_mod_eq, testBit_eq_decide,
      decide_eq_decide]
    interval_cases k <;> omega
  · rw [if_neg hcode, Int.natCast_eq_zero] at hlow
    rw [decide_eq_false hcode, Bool.and_false, hlow, Nat.zero_testBit]

/-- A mask with these five bits, and with the low byte if that is a code, leaves what encoding what
was decoded keeps. -/
theorem encode_decode_eq_land {n : Int} {mask : ℕ} (hfields : mask / 256 = 0x37)
    (hlow : ∀ k < 8, mask.testBit k = decide (n % 256 ≤ 5)) :
    ((decode (UInt16.ofInt n)).encode.toNat : Int) = n.land mask := by
  apply eq_land_of_testBit
  intro k
  rw [testBit_encode]
  by_cases hk : k < 8
  · rw [bit_decode_of_lt hk, hlow k hk]
  · exact bit_decode_of_le (by omega) hfields

theorem encode_decode_ofInt (n : Int) : ((decode (UInt16.ofInt n)).encode.toNat : Int) =
    if n % 256 ≤ 5 then n.land 0x37FF else n.land 0x3700 := by
  by_cases hcode : n % 256 ≤ 5
  · have hlow : ∀ k < 8, Nat.testBit 0x37FF k = decide (n % 256 ≤ 5) := by
      rw [decide_eq_true hcode]
      decide
    rw [if_pos hcode]
    exact encode_decode_eq_land rfl hlow
  · have hlow : ∀ k < 8, Nat.testBit 0x3700 k = decide (n % 256 ≤ 5) := by
      rw [decide_eq_false hcode]
      decide
    rw [if_neg hcode]
    exact encode_decode_eq_land rfl hlow

/-- The low byte of an integer names no operation. -/
def NamesNone (n : Int) : Prop :=
  n % 256 = 0 ∨ 5 < n % 256

/-- Two integers are decoded alike if they agree in five bits and in the operation. -/
theorem decode_eq_decode_iff (v w : Int) :
    decode (UInt16.ofInt v) = decode (UInt16.ofInt w) ↔
      (∀ k ∈ [8, 9, 10, 12, 13], v.testBit k = w.testBit k) ∧
      (v % 256 = w % 256 ∨ NamesNone v ∧ NamesNone w) := by
  have hv := code_decode_ofInt v
  have hw := code_decode_ofInt w
  have hoperation : (decode (UInt16.ofInt v)).operation = (decode (UInt16.ofInt w)).operation ↔
      v % 256 = w % 256 ∨ NamesNone v ∧ NamesNone w := by
    unfold NamesNone
    rw [← Operation.code_inj, ← Int.natCast_inj, hv, hw]
    split_ifs <;> omega
  have hcount : ∀ b c b' c' : Bool, (b.toNat + 2 * c.toNat : Int) = b'.toNat + 2 * c'.toNat ↔
      b = b' ∧ c = c' := by decide
  rw [← hoperation, decode_ofInt, decode_ofInt]
  simp only [mk.injEq, hcount, List.forall_mem_cons, List.not_mem_nil, false_implies]
  tauto

/-- Encoding what an integer of any size and sign is decoded to keeps its bits that mean something.
Integers are decoded alike exactly if they agree in these. An encoded instruction is the sum of its
fields, which has no bit that means nothing, and is decoded to itself with its argument count cut to
two bits. -/
theorem codec_keeps_meaning :
    (∀ n : Int, ((decode (UInt16.ofInt n)).encode.toNat : Int) =
      if n % 256 ≤ 5 then n.land 0x37FF else n.land 0x3700) ∧
    (∀ v w : Int, decode (UInt16.ofInt v) = decode (UInt16.ofInt w) ↔
      (∀ k ∈ [8, 9, 10, 12, 13], v.testBit k = w.testBit k) ∧
      (v % 256 = w % 256 ∨ NamesNone v ∧ NamesNone w)) ∧
    (∀ i : Instruction,
      decode i.encode = { i with argumentCount := i.argumentCount % 4 } ∧
      i.encode.toNat = i.operation.code + 256 * i.readSecond.toNat + 512 * i.readFirst.toNat +
        1024 * i.writeBack.toNat + 4096 * (i.argumentCount % 4).toNat ∧
      ∀ k, k = 11 ∨ k = 14 ∨ k = 15 ∨ 15 < k → i.encode.toNat.testBit k = false) := by
  refine ⟨encode_decode_ofInt, decode_eq_decode_iff, ?_⟩
  intro i
  refine ⟨i.decode_encode, i.toNat_encode, ?_⟩
  intro k hk
  rw [testBit_encode]
  unfold bit
  rw [if_neg, if_neg, if_neg, if_neg, if_neg, if_neg] <;> omega

/-- The low bytes of -1 and of a number beyond a word name no operation, and their other bits that
mean something are set. An argument count of -1 is read as three. -/
theorem codec_keeps_meaning_minus_one :
    ((decode (UInt16.ofInt (-1))).encode.toNat : Int) = 0x3700 ∧
    (∀ k ∈ [8, 9, 10, 12, 13], Int.testBit (-1) k = Int.testBit 0x1FF00 k) ∧
    decode (UInt16.ofInt (-1)) = decode (UInt16.ofInt 0x1FF00) ∧
    decode (encode ⟨.halt, -1, true, false, true⟩) = ⟨.halt, 3, true, false, true⟩ ∧
    (encode ⟨.halt, -1, true, false, true⟩).toNat.testBit 14 = false := by
  obtain ⟨hkept, hsame, hround⟩ := codec_keeps_meaning
  obtain ⟨hdecoded, -, hzero⟩ := hround ⟨.halt, -1, true, false, true⟩
  have hbits : ∀ k ∈ [8, 9, 10, 12, 13], Int.testBit (-1) k = Int.testBit 0x1FF00 k := by decide
  refine ⟨?_, hbits, ?_, hdecoded, hzero 14 (by decide)⟩
  · rw [hkept, if_neg (by decide)]
    decide +kernel
  · apply (hsame _ _).mpr
    exact ⟨hbits, .inr ⟨.inr (by decide), .inl (by decide)⟩⟩

end Instruction

end WordMachine
