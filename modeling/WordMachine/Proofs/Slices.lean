import Mathlib.Data.Int.ModEq
import WordMachine.Proofs.Loading
import WordMachine.Session

/-!
Memory as one list of bytes. The cell that an integer names is the slice of two bytes at twice its
residue, and writing puts two others in place of them. So memory is an array of 65536 words, and
what is written to one cell neither moves nor touches another.
-/
namespace WordMachine

theorem take_two_drop (xs : List UInt8) (i : ℕ) (h : i + 1 < xs.length) :
    (xs.drop i).take 2 = [xs[i], xs[i + 1]] := by
  rw [List.drop_eq_getElem_cons (by omega), List.drop_eq_getElem_cons h]
  rfl

theorem set_set_succ (xs : List UInt8) (i : ℕ) (a b : UInt8) (h : i + 1 < xs.length) :
    (xs.set i a).set (i + 1) b = xs.take i ++ [a, b] ++ xs.drop (i + 2) := by
  induction xs generalizing i with
  | nil => simp at h
  | cons x rest ih =>
    cases i with
    | zero =>
      cases rest with
      | nil => simp at h
      | cons y rest => rfl
    | succ i =>
      have hrest : i + 1 < rest.length := by simpa using h
      simpa using ih i hrest

namespace Word

theorem low_ofInt (n : Int) : low (UInt16.ofInt n) = UInt8.ofInt n := by
  have hcast := toNat_ofInt n
  apply UInt8.toNat_inj.mp
  rw [toNat_low]
  unfold UInt8.ofInt
  rw [UInt8.toNat_ofNat']
  omega

theorem high_ofInt (n : Int) : high (UInt16.ofInt n) = UInt8.ofInt (n / 256) := by
  have hcast := toNat_ofInt n
  apply UInt8.toNat_inj.mp
  rw [toNat_high]
  unfold UInt8.ofInt
  rw [UInt8.toNat_ofNat']
  omega

/-- Two integers name one word if they differ by a multiple of the number of words. -/
theorem ofInt_eq_ofInt_iff {a b : Int} :
    UInt16.ofInt a = UInt16.ofInt b ↔ a ≡ b [ZMOD 65536] := by
  unfold Int.ModEq
  rw [← UInt16.toNat_inj, ← Int.natCast_inj, toNat_ofInt, toNat_ofInt]

end Word

namespace Memory

theorem length_bytes (m : Memory) : m.bytes.toList.length = 131072 :=
  Vector.length_toList

/-- A cell is a slice of two bytes. -/
theorem slice_bytes (m : Memory) (a : Word) :
    (m.bytes.toList.drop (2 * a.toNat)).take 2 = [(m.read a).low, (m.read a).high] := by
  have hlt := two_mul_lt a
  unfold read
  rw [take_two_drop _ _ (by simpa using hlt), Word.low_ofBytes, Word.high_ofBytes]
  simp

theorem bytes_write (m : Memory) (a v : Word) : (m.write a v).bytes.toList =
    m.bytes.toList.take (2 * a.toNat) ++ [v.low, v.high] ++
      m.bytes.toList.drop (2 * a.toNat + 2) := by
  have hlt := two_mul_lt a
  unfold write
  rw [Vector.toList_set, Vector.toList_set, set_set_succ _ _ _ _ (by simpa using hlt)]

theorem write_comm (m : Memory) {a b : Word} (v w : Word) (h : a ≠ b) :
    (m.write a v).write b w = (m.write b w).write a v := by
  apply ext_read
  intro c
  simp only [read_write]
  by_cases hb : b = c
  · have ha : a ≠ c := fun ha => h (ha.trans hb.symm)
    rw [if_pos hb, if_neg ha, if_pos hb]
  · rw [if_neg hb, if_neg hb]

theorem write_write (m : Memory) (a v w : Word) : (m.write a v).write a w = m.write a w := by
  apply ext_read
  intro c
  simp only [read_write]
  by_cases ha : a = c
  · rw [if_pos ha, if_pos ha]
  · rw [if_neg ha, if_neg ha, if_neg ha]

theorem eq_iff_read_eq {m n : Memory} : m = n ↔
    ∀ b : Int, 0 ≤ b → b ≤ 65535 → m.read (UInt16.ofInt b) = n.read (UInt16.ofInt b) := by
  constructor
  · rintro rfl b - -
    rfl
  · intro h
    apply ext_read
    intro a
    obtain ⟨hlow, hhigh⟩ := Word.isWord_toNat a
    have hcell := h a.toNat hlow hhigh
    rwa [Word.ofInt_toNat] at hcell

end Memory

namespace Session

theorem write_eq (s : Session) (a v : Int) : s.write a v = { s with
    machine := { s.machine with
      memory := s.machine.memory.write (UInt16.ofInt a) (UInt16.ofInt v) } } :=
  rfl

/-- Memory is an array of 65536 words, in which any integer names a cell and a word. Writing puts
the two bytes of the word in the place of the two of the cell. The cell then holds the word, and the
others hold what they held. Memories are equal if their cells are. Of two writes to one cell the
later counts, and writes to two cells may change places. -/
theorem write_updates_array (s : Session) (a v : Int) :
    let before := s.machine.memory
    let after := (s.write a v).machine.memory
    let place := (2 * (a % 65536)).toNat
    let replaced := before.bytes.toList.take place ++ [UInt8.ofInt v, UInt8.ofInt (v / 256)] ++
      before.bytes.toList.drop (place + 2)
    (replaced.length = 131072 ∧ after.bytes.toList = replaced) ∧
    (∀ b : Int, ((after.read (UInt16.ofInt b)).toNat : Int) =
      if a ≡ b [ZMOD 65536] then v % 65536 else (before.read (UInt16.ofInt b)).toNat) ∧
    (∀ m n : Memory, m = n ↔
      ∀ b : Int, 0 ≤ b → b ≤ 65535 → m.read (UInt16.ofInt b) = n.read (UInt16.ofInt b)) ∧
    (∀ b w : Int, ¬ a ≡ b [ZMOD 65536] →
      (s.write a v).write b w = (s.write b w).write a v) ∧
    (∀ b w : Int, a ≡ b [ZMOD 65536] → (s.write a v).write b w = s.write b w) := by
  intro before after place replaced
  have hafter : after = before.write (UInt16.ofInt a) (UInt16.ofInt v) := rfl
  have hplace : place = 2 * (UInt16.ofInt a).toNat := by
    have hcast := Word.toNat_ofInt a
    omega
  have hbytes : after.bytes.toList = replaced := by
    rw [hafter, Memory.bytes_write, Word.low_ofInt, Word.high_ofInt, ← hplace]
  refine ⟨⟨?_, hbytes⟩, ?_, fun m n => Memory.eq_iff_read_eq, ?_, ?_⟩
  · rw [← hbytes, Memory.length_bytes]
  · intro b
    rw [hafter, Memory.read_write]
    by_cases hsame : a ≡ b [ZMOD 65536]
    · rw [if_pos hsame, if_pos (Word.ofInt_eq_ofInt_iff.mpr hsame), Word.toNat_ofInt]
    · rw [if_neg hsame, if_neg fun h => hsame (Word.ofInt_eq_ofInt_iff.mp h)]
  · intro b w hapart
    simp only [write_eq]
    rw [Memory.write_comm _ _ _ fun h => hapart (Word.ofInt_eq_ofInt_iff.mp h)]
  · intro b w hsame
    simp only [write_eq]
    rw [Word.ofInt_eq_ofInt_iff.mpr hsame, Memory.write_write]

/-- The last cell is also the one before the first. A negative number is written to it under the one
name and overwritten under the other, and the first cell does not change. -/
theorem write_updates_array_minus_one :
    let s := start false false false
    let after := (s.write (-1) (-2)).machine.memory
    ¬ -1 ≡ 0 [ZMOD 65536] ∧ -1 ≡ 131071 [ZMOD 65536] ∧
    ((after.read (UInt16.ofInt 0)).toNat : Int) = 0 ∧
    ((after.read (UInt16.ofInt 131071)).toNat : Int) = 65534 ∧
    (s.write (-1) (-2)).write 0 7 = (s.write 0 7).write (-1) (-2) ∧
    (s.write (-1) (-2)).write 131071 7 = s.write 131071 7 := by
  intro s after
  obtain ⟨-, hread, -, hcomm, hlast⟩ := s.write_updates_array (-1) (-2)
  have hsame : -1 ≡ 131071 [ZMOD 65536] := by decide
  have hapart : ¬ -1 ≡ 0 [ZMOD 65536] := by decide
  have hblank : s.machine.memory.read (UInt16.ofInt 0) = 0 := Memory.read_zero _
  refine ⟨hapart, hsame, ?_, ?_, hcomm 0 7 hapart, hlast 131071 7 hsame⟩
  · rw [hread 0, if_neg hapart, hblank]
    rfl
  · rw [hread 131071, if_pos hsame]
    rfl

end Session

end WordMachine
