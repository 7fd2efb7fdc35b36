/-!
The memory of the machine: 65536 cells of one 16-bit word each, kept as bytes
with the low byte of a cell first.
-/
namespace WordMachine

/-- An address or the content of a cell. Any integer names a word, its residue modulo 65536. -/
abbrev Word := UInt16

/-- How many words the machine can address. -/
def cellCount : Nat := 65536

namespace Word

def low (w : Word) : UInt8 := UInt8.ofNat (w.toNat % 256)

def high (w : Word) : UInt8 := UInt8.ofNat (w.toNat / 256)

def ofBytes (low high : UInt8) : Word := UInt16.ofNat (low.toNat + 256 * high.toNat)

theorem toNat_low (w : Word) : w.low.toNat = w.toNat % 256 := by
  simp [low]

theorem toNat_high (w : Word) : w.high.toNat = w.toNat / 256 := by
  have := UInt16.toNat_lt w
  simp only [high, UInt8.toNat_ofNat']
  omega

theorem toNat_ofBytes (low high : UInt8) :
    (ofBytes low high).toNat = low.toNat + 256 * high.toNat := by
  have := UInt8.toNat_lt low
  have := UInt8.toNat_lt high
  simp only [ofBytes, UInt16.toNat_ofNat']
  omega

@[simp] theorem ofBytes_low_high (w : Word) : ofBytes w.low w.high = w := by
  apply UInt16.toNat_inj.1
  rw [toNat_ofBytes, toNat_low, toNat_high]
  omega

@[simp] theorem low_ofBytes (low high : UInt8) : (ofBytes low high).low = low := by
  apply UInt8.toNat_inj.1
  have := UInt8.toNat_lt low
  rw [toNat_low, toNat_ofBytes]
  omega

@[simp] theorem high_ofBytes (low high : UInt8) : (ofBytes low high).high = high := by
  apply UInt8.toNat_inj.1
  have := UInt8.toNat_lt low
  rw [toNat_high, toNat_ofBytes]
  omega

end Word

/-- Cell `a` is the byte pair at `2 * a` and `2 * a + 1`. -/
structure Memory where
  bytes : Vector UInt8 131072

namespace Memory

def zero : Memory := ⟨Vector.replicate 131072 0⟩

instance : Inhabited Memory := ⟨zero⟩

theorem two_mul_lt (a : Word) : 2 * a.toNat + 1 < 131072 := by
  have := UInt16.toNat_lt a
  omega

def read (m : Memory) (a : Word) : Word :=
  have := two_mul_lt a
  Word.ofBytes m.bytes[2 * a.toNat] m.bytes[2 * a.toNat + 1]

def write (m : Memory) (a v : Word) : Memory :=
  have := two_mul_lt a
  ⟨(m.bytes.set (2 * a.toNat) v.low).set (2 * a.toNat + 1) v.high⟩

@[simp] theorem read_write_self (m : Memory) (a v : Word) : (m.write a v).read a = v := by
  simp [read, write]

theorem read_write_of_ne (m : Memory) {a b : Word} (v : Word) (h : a ≠ b) :
    (m.write a v).read b = m.read b := by
  have h' : a.toNat ≠ b.toNat := fun e => h (UInt16.toNat_inj.1 e)
  have h1 : ¬ 2 * a.toNat + 1 = 2 * b.toNat := by omega
  have h2 : ¬ 2 * a.toNat = 2 * b.toNat := by omega
  have h4 : ¬ 2 * a.toNat = 2 * b.toNat + 1 := by omega
  simp [read, write, h1, h2, h4]

theorem read_write (m : Memory) (a b v : Word) :
    (m.write a v).read b = if a = b then v else m.read b := by
  split
  · next h => rw [h, read_write_self]
  · next h => exact read_write_of_ne m v h

@[simp] theorem read_zero (a : Word) : zero.read a = 0 := by
  have h : Word.ofBytes 0 0 = 0 := by decide
  simpa [read, zero] using h

theorem ext_read {m n : Memory} (h : ∀ a, m.read a = n.read a) : m = n := by
  obtain ⟨xs⟩ := m
  obtain ⟨ys⟩ := n
  congr 1
  apply Vector.ext
  intro i hi
  let a : Word := UInt16.ofNat (i / 2)
  have ha : a.toNat = i / 2 := by
    simp only [a, UInt16.toNat_ofNat']
    omega
  have lows := congrArg Word.low (h a)
  have highs := congrArg Word.high (h a)
  simp only [read, Word.low_ofBytes, Word.high_ofBytes, ha] at lows highs
  rcases Nat.mod_two_eq_zero_or_one i with e | e
  · have : 2 * (i / 2) = i := by omega
    simpa [this] using lows
  · have : 2 * (i / 2) + 1 = i := by omega
    simpa [this] using highs

end Memory

end WordMachine
