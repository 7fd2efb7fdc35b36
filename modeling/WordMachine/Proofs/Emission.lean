import WordMachine.Proofs.Running
import WordMachine.Session

/-!
What has been emitted is never taken back, and a halt is final. So the text of a machine only
grows, and a stream that receives the additions one after the other has received them all.
-/
namespace WordMachine

namespace Machine

/-- A later state of a machine: no halt and nothing emitted is taken back. -/
structure Before (m later : Machine) : Prop where
  halted : m.halted = true → later.halted = true
  emitted : m.emitted.toList <+: later.emitted.toList

namespace Before

theorem refl (m : Machine) : m.Before m :=
  ⟨id, List.prefix_rfl⟩

theorem trans {m n k : Machine} (h : m.Before n) (h' : n.Before k) : m.Before k :=
  ⟨h'.halted ∘ h.halted, h.emitted.trans h'.emitted⟩

theorem of_eq {m n : Machine} (hh : n.halted = m.halted) (he : n.emitted = m.emitted) :
    m.Before n :=
  ⟨fun h => hh.trans h, by rw [he]⟩

theorem poke (m : Machine) (w : Word) : m.Before (m.poke w) :=
  ⟨id, by simp [Machine.poke]⟩

theorem execute (m : Machine) (o : Operation) : m.Before (m.execute o) := by
  rw [execute_eq]
  constructor
  · intro h
    simp [h]
  · dsimp only
    split
    · simp
    · exact List.prefix_rfl

theorem step (m : Machine) : m.Before m.step := by
  constructor
  · intro h
    simp [step_halted, h]
  · rw [step_emitted]
    split
    · simp
    · exact List.prefix_rfl

theorem iterate (n : ℕ) (m : Machine) : m.Before (Machine.step^[n] m) := by
  induction n generalizing m with
  | zero => exact refl m
  | succ n ih => exact (step m).trans (ih m.step)

theorem run (budget : ℕ) (m : Machine) : m.Before (Machine.run budget m) := by
  rw [run_eq_iterate]
  exact iterate _ m

end Before

end Machine

namespace Session

def characters (bytes : List UInt8) : String :=
  String.ofList (bytes.map fun b => Char.ofNat b.toNat)

theorem characters_append (xs ys : List UInt8) :
    characters (xs ++ ys) = characters xs ++ characters ys := by
  unfold characters
  rw [List.map_append, String.ofList_append]

/-- The text of the bytes emitted since there were `count` of them. -/
def outputSince (m : Machine) (count : ℕ) : String :=
  characters (m.emitted.extract count).toList

theorem outputSince_eq {m later : Machine} {more : List UInt8}
    (h : m.emitted.toList ++ more = later.emitted.toList) :
    outputSince later m.emitted.size = characters more := by
  have hsuffix : (later.emitted.extract m.emitted.size).toList = more := by
    rw [Array.toList_extract, List.extract_eq_take_drop,
      List.take_of_length_le (by rw [List.length_drop, Array.length_toList]), ← h]
    exact List.drop_left
  exact congrArg characters hsuffix

theorem output_of_before {m later : Machine} (h : m.Before later) :
    later.output = m.output ++ outputSince later m.emitted.size := by
  obtain ⟨more, hmore⟩ := h.emitted
  have hlater : later.output = characters (m.emitted.toList ++ more) :=
    congrArg characters hmore.symm
  rw [outputSince_eq hmore, hlater, characters_append]
  rfl

theorem outputSince_trans {m n k : Machine} (h : m.Before n) (h' : n.Before k) :
    outputSince n m.emitted.size ++ outputSince k n.emitted.size =
      outputSince k m.emitted.size := by
  obtain ⟨xs, hxs⟩ := h.emitted
  obtain ⟨ys, hys⟩ := h'.emitted
  have hboth : m.emitted.toList ++ (xs ++ ys) = k.emitted.toList := by
    rw [← List.append_assoc, hxs, hys]
  rw [outputSince_eq hxs, outputSince_eq hys, outputSince_eq hboth, characters_append]

/-- What a stream holds once a machine has come to a later state. -/
def streamed (stream : Option String) (m later : Machine) : Option String :=
  stream.map (· ++ outputSince later m.emitted.size)

theorem streamed_of_emitted (stream : Option String) {m later : Machine}
    (h : later.emitted = m.emitted) : streamed stream m later = stream := by
  have hsame : m.emitted.toList ++ [] = later.emitted.toList := by
    rw [List.append_nil, h]
  unfold streamed
  rw [outputSince_eq hsame]
  cases stream with
  | none => rfl
  | some text => exact congrArg some String.append_empty

theorem streamed_trans (stream : Option String) {m n k : Machine} (h : m.Before n)
    (h' : n.Before k) : streamed (streamed stream m n) n k = streamed stream m k := by
  unfold streamed
  cases stream with
  | none => rfl
  | some text => simp only [Option.map_some, String.append_assoc, outputSince_trans h h']

end Session

end WordMachine
