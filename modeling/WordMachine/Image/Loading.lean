import WordMachine.Image.Error
import WordMachine.Machine

/-!
An image goes into memory word by word from its base on. One that does not fit, or whose
entry point is no address, leaves the machine as it was; one with a number that is no word
is stored up to that number.
-/
namespace WordMachine

namespace Memory

/-- The words in consecutive cells from `a` on. -/
def fill (m : Memory) (a : Word) : List Word → Memory
  | [] => m
  | w :: rest => fill (m.write a w) (a + 1) rest

end Memory

def IsWord (n : Int) : Prop :=
  0 ≤ n ∧ n ≤ 65535

instance (n : Int) : Decidable (IsWord n) :=
  inferInstanceAs (Decidable (_ ∧ _))

namespace Machine

def load (m : Machine) (words : List Int) (entry base : Int) :
    Except ImageError Unit × Machine :=
  if base < 0 ∨ (cellCount : Int) < base + words.length then
    (.error (.doesNotFit words.length base), m)
  else if ¬ IsWord entry then (.error (.badEntry entry), m)
  else
    let good := words.takeWhile IsWord
    let m := { m with memory := m.memory.fill (UInt16.ofInt base) (good.map UInt16.ofInt) }
    match words[good.length]? with
    | some n => (.error (.badCell good.length n), m)
    | none => (.ok (), { m with pc := UInt16.ofInt entry })

end Machine

end WordMachine
