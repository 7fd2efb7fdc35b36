import WordMachine.Proofs.Budget
import WordMachine.Proofs.Remarks

/-!
A trace replays its run. The writes that its lines tell of, made in order in the memory before the
run, give the memory after it. By then each cell that a line tells to be read holds the word that it
shows, and the codes of the lines about emitted characters are those of the text that the run adds.
-/
namespace WordMachine

namespace Remark

/-- What a remark tells to be done to a memory. -/
def apply (memory : Memory) : Remark → Memory
  | wrote v a => memory.write a v
  | _ => memory

def code? : Remark → Option ℕ
  | poked n => some n
  | _ => none

/-- Whatever is read is in memory by then. -/
def Faithful : Memory → List Remark → Prop
  | _, [] => True
  | memory, r :: rest => (∀ v a, r = read v a → memory.read a = v) ∧ Faithful (apply memory r) rest

theorem faithful_append {memory : Memory} {first later : List Remark} :
    Faithful memory (first ++ later) ↔
      Faithful memory first ∧ Faithful (first.foldl apply memory) later := by
  induction first generalizing memory with
  | nil => simp [Faithful]
  | cons r rest ih =>
    rw [List.cons_append, Faithful, Faithful, ih, List.foldl_cons, and_assoc]

theorem Faithful.read_eq {memory : Memory} {before after : List Remark} {v a : Word}
    (h : Faithful memory (before ++ read v a :: after)) :
    (before.foldl apply memory).read a = v := by
  obtain ⟨-, hread⟩ := faithful_append.mp h
  exact hread.1 v a rfl

section Part

-- a remark that is made or not
variable {p : Prop} [Decidable p] (memory : Memory) (r : Remark)

theorem foldl_apply_part :
    (if p then [r] else []).foldl apply memory = if p then apply memory r else memory := by
  split <;> rfl

theorem faithful_part :
    Faithful memory (if p then [r] else []) ↔ (p → ∀ v a, r = read v a → memory.read a = v) := by
  split
  · next hp => simp [Faithful, hp]
  · next hp => simp [Faithful, hp]

theorem filterMap_code?_part :
    (if p then [r] else []).filterMap code? = if p then (code? r).toList else [] := by
  split
  · cases r <;> rfl
  · rfl

end Part

end Remark

namespace Machine

/-- Remarks tell how a machine came to be a later one, as far as memory and what it emits go. -/
structure Recounts (m : Machine) (remarks : List Remark) (later : Machine) : Prop where
  memory : remarks.foldl Remark.apply m.memory = later.memory
  reads : Remark.Faithful m.memory remarks
  codes : later.emitted.toList.map UInt8.toNat =
    m.emitted.toList.map UInt8.toNat ++ remarks.filterMap Remark.code?

namespace Recounts

theorem refl (m : Machine) : m.Recounts [] m :=
  ⟨rfl, trivial, (List.append_nil _).symm⟩

theorem trans {m n k : Machine} {first later : List Remark} (h : m.Recounts first n)
    (h' : n.Recounts later k) : m.Recounts (first ++ later) k where
  memory := by rw [List.foldl_append, h.memory, h'.memory]
  reads := Remark.faithful_append.mpr ⟨h.reads, by rw [h.memory]; exact h'.reads⟩
  codes := by rw [h'.codes, h.codes, List.filterMap_append, List.append_assoc]

theorem step (m : Machine) : m.Recounts m.remarks m.step where
  memory := by
    rw [step_memory]
    unfold remarks
    simp only [List.foldl_append, Remark.foldl_apply_part, List.foldl_cons, List.foldl_nil,
      Remark.apply, ite_self]
  reads := by
    have hinput : ∀ s, m.instruction.reads s = true → m.memory.read (m.loaded s) = m.inputs s :=
      fun s hs => ((m.inputs_eq s).trans (if_pos hs)).symm
    unfold remarks
    simp only [Remark.faithful_append, List.foldl_append, Remark.foldl_apply_part, List.foldl_cons,
      List.foldl_nil, Remark.apply, ite_self, Remark.faithful_part]
    refine ⟨⟨⟨⟨⟨?_, ?_⟩, ?_⟩, ?_⟩, ?_⟩, ?_⟩
    · simp [Remark.Faithful]
    · intro hfirst v a hshown
      cases hshown
      exact hinput .first hfirst
    · intro hsecond v a hshown
      cases hshown
      exact hinput .second hsecond
    · exact fun _ _ _ hshown => nomatch hshown
    · exact fun _ _ _ hshown => nomatch hshown
    · simp [Remark.Faithful]
  codes := by
    rw [step_emitted]
    unfold remarks
    simp only [List.filterMap_append, Remark.filterMap_code?_part, List.filterMap_cons,
      List.filterMap_nil, Remark.code?, Option.toList_none, Option.toList_some, ite_self]
    by_cases hpoke : m.instruction.operation = .poke
    · simp [hpoke]
    · simp [hpoke]

theorem iterate (n : ℕ) (m : Machine) :
    m.Recounts ((m.visited n).map remarks).flatten (Machine.step^[n] m) := by
  induction n with
  | zero => exact refl m
  | succ n ih =>
    rw [visited_succ, List.map_append, List.flatten_append, Function.iterate_succ_apply']
    refine ih.trans ?_
    simpa using step (Machine.step^[n] m)

end Recounts

theorem codes_output (m : Machine) :
    m.output.toList.map Char.toNat = m.emitted.toList.map UInt8.toNat := by
  have hcode : ∀ b : UInt8, (Char.ofNat b.toNat).toNat = b.toNat := by
    intro b
    have hb := UInt8.toNat_lt b
    have hvalid : b.toNat.isValidChar := .inl (by omega)
    unfold Char.ofNat
    rw [dif_pos hvalid]
    rfl
  unfold output
  rw [String.toList_ofList, List.map_map]
  exact List.map_congr_left fun b _ => hcode b

end Machine

namespace Remark

def ofLines (lines : List String) : List Remark :=
  lines.filterMap ofLine?

/-- A memory after the writes that lines tell of, in order. -/
def replay (memory : Memory) (lines : List String) : Memory :=
  (ofLines lines).foldl apply memory

/-- The codes of the characters that lines tell to be emitted, in order. -/
def codes (lines : List String) : List ℕ :=
  (ofLines lines).filterMap code?

theorem ofLines_append (first later : List String) :
    ofLines (first ++ later) = ofLines first ++ ofLines later :=
  List.filterMap_append

theorem ofLines_lines (m : Machine) : ofLines m.lines = m.remarks := by
  calc
    ofLines m.lines = (m.lines.map ofLine?).filterMap id := by rw [List.filterMap_map]; rfl
    _ = (m.remarks.map some).filterMap id := by rw [m.ofLine?_lines]
    _ = m.remarks := by rw [List.filterMap_map]; exact List.filterMap_some

theorem ofLines_flatten_lines (machines : List Machine) :
    ofLines (machines.map Machine.lines).flatten = (machines.map Machine.remarks).flatten := by
  induction machines with
  | nil => rfl
  | cons m rest ih =>
    rw [List.map_cons, List.flatten_cons, ofLines_append, ofLines_lines, ih]
    rfl

end Remark

namespace Session

/-- The lines that a run logs replay it. -/
theorem lines_replay_run (m : Machine) (stream : Option String) (log : Array Event)
    (budget : Int) :
    let s : Session := ⟨m, true, true, stream, log⟩
    let r := s.run budget
    ∃ lines, r.2.lines = s.lines ++ lines ∧
      Remark.replay m.memory lines = r.2.machine.memory ∧
      (∀ before line after v a, lines = before ++ line :: after →
        Remark.ofLine? line = some (.read v a) → (Remark.replay m.memory before).read a = v) ∧
      r.1.output.toList.map Char.toNat = m.output.toList.map Char.toNat ++ Remark.codes lines := by
  intro s r
  let steps := m.visited r.1.executed
  let lines := (steps.map Machine.lines).flatten ++ [stopLine r.1 r.2.machine.pc]
  have hlines : r.2.lines = s.lines ++ lines := lines_run m stream log budget
  have hremarks : Remark.ofLines lines = (steps.map Machine.remarks).flatten := by
    have hstop : Remark.ofLines [stopLine r.1 r.2.machine.pc] = [] := by
      have hnone := Remark.ofLine?_stopped r.1.executed r.1.ending r.2.machine.pc
      exact List.filterMap_cons_none hnone
    rw [Remark.ofLines_append, Remark.ofLines_flatten_lines, hstop, List.append_nil]
  have hmachine : r.2.machine = Machine.step^[r.1.executed] m := (s.run_counts budget).1
  have hrecounts : m.Recounts (Remark.ofLines lines) r.2.machine := by
    rw [hremarks, hmachine]
    exact .iterate r.1.executed m
  refine ⟨lines, hlines, hrecounts.memory, ?_, ?_⟩
  · intro before line after v a hsplit hline
    have hsplit : Remark.ofLines lines =
        Remark.ofLines before ++ .read v a :: Remark.ofLines after := by
      rw [hsplit, Remark.ofLines_append]
      exact congrArg _ (List.filterMap_cons_some hline)
    have hreads := hrecounts.reads
    rw [hsplit] at hreads
    exact hreads.read_eq
  · have houtput : r.1.output = r.2.machine.output := (s.run_counts budget).2.2.1
    rw [houtput, Machine.codes_output, Machine.codes_output]
    exact hrecounts.codes

def copyingSession : Session :=
  let image : List Word := [0x1601, 0x0010, 0x0007, 0x2004, 0x0000, 0x0041, 0x0005, 0x0042]
  ⟨{ Machine.fresh with memory := Memory.zero.fill 0 image }, true, true, none, #[]⟩

theorem lines_replay_run_copying :
    let r := copyingSession.run 3
    r.2.lines[2]? = some "read 0042 from 0007" ∧
      Remark.ofLine? "read 0042 from 0007" = some (.read 0x0042 0x0007) ∧
      (Remark.replay copyingSession.machine.memory (r.2.lines.take 2)).read 0x0007 = 0x0042 ∧
      Remark.replay copyingSession.machine.memory r.2.lines = r.2.machine.memory ∧
      r.1.output = "A" ∧ Remark.codes r.2.lines = [0x41] := by
  intro r
  have hline : r.2.lines[2]? = some "read 0042 from 0007" := by decide +kernel
  have hshown : (Event.read 0x0042 0x0007).line = "read 0042 from 0007" := by decide +kernel
  have hremark := Remark.ofLine?_read 0x0042 0x0007
  rw [hshown] at hremark
  obtain ⟨hlength, hread⟩ := List.getElem?_eq_some_iff.mp hline
  have hsplit : r.2.lines = r.2.lines.take 2 ++ "read 0042 from 0007" :: r.2.lines.drop 3 := by
    rw [← hread, ← List.drop_eq_getElem_cons hlength, List.take_append_drop]
  obtain ⟨logged, hlogged, hmemory, hreads, hcodes⟩ :=
    lines_replay_run copyingSession.machine none #[] 3
  obtain rfl : r.2.lines = logged := hlogged.trans (List.nil_append logged)
  have hbefore : copyingSession.machine.output = "" := by decide +kernel
  have hafter : r.1.output = "A" := by decide +kernel
  have hcode : Remark.codes r.2.lines = [0x41] := by
    have hshow : r.1.output.toList.map Char.toNat = [0x41] := by
      rw [hafter]
      decide
    have hnone : copyingSession.machine.output.toList.map Char.toNat = [] := by
      rw [hbefore]
      rfl
    rw [hnone, List.nil_append] at hcodes
    exact hcodes.symm.trans hshow
  exact ⟨hline, hremark, hreads _ _ _ _ _ hsplit hremark, hmemory, hafter, hcode⟩

end Session

end WordMachine
