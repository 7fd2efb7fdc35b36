import WordMachine.Machine
import WordMachine.Numeral.Written

/-!
The memory dump: the registers and one line for each cell that is not zero, in ascending
order.
-/
namespace WordMachine

namespace Memory

/-- The addresses and words of the cells from `first` on that are not zero. -/
def nonzeroFrom (m : Memory) (first : Nat) : List (Nat × Word) :=
  (List.range' first (cellCount - first)).filterMap fun a =>
    let w := m.read (UInt16.ofNat a)
    if w = 0 then none else some (a, w)

theorem mem_nonzeroFrom_iff {m : Memory} {first a : Nat} {w : Word} :
    (a, w) ∈ m.nonzeroFrom first ↔
      first ≤ a ∧ a < cellCount ∧ w ≠ 0 ∧ m.read (UInt16.ofNat a) = w := by
  unfold nonzeroFrom
  rw [List.mem_filterMap]
  constructor
  · rintro ⟨b, hb, hcell⟩
    obtain ⟨hle, hlt⟩ := List.mem_range'_1.mp hb
    dsimp only at hcell
    split at hcell
    · cases hcell
    · next hne =>
      obtain ⟨rfl, rfl⟩ := Prod.mk.inj (Option.some.inj hcell)
      exact ⟨hle, by omega, hne, rfl⟩
  · rintro ⟨hle, hlt, hne, rfl⟩
    exact ⟨a, List.mem_range'_1.mpr ⟨hle, by omega⟩, if_neg hne⟩

theorem ascending_nonzeroFrom (m : Memory) (first : Nat) :
    (m.nonzeroFrom first).Pairwise fun c d => c.1 < d.1 := by
  have haddress : ∀ (b : Nat) (c : Nat × Word),
      (let w := m.read (UInt16.ofNat b)
       if w = 0 then none else some (b, w)) = some c → c.1 = b := by
    intro b c hcell
    dsimp only at hcell
    split at hcell
    · cases hcell
    · exact (congrArg Prod.fst (Option.some.inj hcell)).symm
  unfold nonzeroFrom
  rw [List.pairwise_filterMap]
  refine List.Pairwise.imp ?_ (List.pairwise_lt_range' 1)
  intro a b hab c hc d hd
  rw [haddress a c hc, haddress b d hd]
  exact hab

def nonzero (m : Memory) : List (Nat × Word) :=
  m.nonzeroFrom 0

end Memory

namespace Dump

def cellLine (a : Nat) (w : Word) : String :=
  let n := w.toNat
  let c := if 32 ≤ n ∧ n < 127 then Char.ofNat n else '.'
  Numeral.padLeft 5 '0' (Numeral.decimal a) ++ ": " ++ Word.hex w ++ "  ("
    ++ Numeral.padLeft 5 ' ' (Numeral.decimal n) ++ ") " ++ String.singleton c ++ "\n"

def registerLine (m : Machine) : String :=
  "PC: " ++ Word.hex m.pc ++ "  IN: " ++ " ".intercalate (m.slots.toList.map Word.hex)
    ++ "  OUT: " ++ Word.hex m.out ++ "  halted: " ++ (if m.halted then "True" else "False")
    ++ "\n\n"

def text (m : Machine) : String :=
  "=== MEMORY DUMP (non-zero words) ===\n" ++ registerLine m
    ++ String.join (m.memory.nonzero.map fun (a, w) => cellLine a w)
    ++ "=== END DUMP ===\n"

end Dump

end WordMachine
