import WordMachine.Proofs.Coverage
import WordMachine.Proofs.Figures
import WordMachine.Proofs.Traced

/-!
What the lines of a trace say, read from their words alone. The lines of a step say where it started
and which number it has, what was read through memory, what was emitted and what was written, each
once and in the order in which it happened.
-/
namespace WordMachine

/-- What a line of a trace says. -/
inductive Remark
  | step (number : ℕ) (phase : Text) (pc : Word)
  | read (value address : Word)
  | poked (code : ℕ)
  | wrote (value address : Word)
deriving DecidableEq

namespace Remark

open Text Numeral

def number? (t : Text) : Option ℕ :=
  figure? 10 (t.map CodePoint.toChar)

def word? (t : Text) : Option Word :=
  ((figure? 16 (t.map CodePoint.toChar)).filter (· < cellCount)).map UInt16.ofNat

/-- A word and an address with a link between them. -/
def exchange? (link : Text) : List Text → Option (Word × Word)
  | [value, middle, address] =>
    if middle = link then do
      let v ← word? value
      let a ← word? address
      pure (v, a)
    else none
  | _ => none

def step? : List Text → Option Remark
  | number :: phaseMark :: phase :: pcMark :: pc :: _ =>
    if phaseMark = "PHASE:" ∧ pcMark = "PC:" then do
      let n ← number? number
      let w ← word? pc
      pure (.step n phase w)
    else none
  | _ => none

def ofWords? : List Text → Option Remark
  | [] => none
  | verb :: rest =>
    if verb = "STEP:" then step? rest
    else if verb = "read" then (exchange? "from" rest).map fun (v, a) => .read v a
    else if verb = "[POKE]" then (rest.head?.bind number?).map .poked
    else if verb = "wrote" then (exchange? "to" rest).map fun (v, a) => .wrote v a
    else none

def ofLine? (line : String) : Option Remark :=
  ofWords? (words line)

theorem number?_decimal (n : ℕ) : number? (decimal n : String) = some n := by
  unfold number?
  rw [chars_ofString, figure?_decimal]

theorem word?_hex (w : Word) : word? w.hex = some w := by
  have hword : w.toNat < cellCount := UInt16.toNat_lt w
  unfold word?
  rw [chars_ofString, figure?_hex, Option.filter_some, if_pos (decide_eq_true hword)]
  simp

theorem words_spaced {t : String} (ht : Solid t) (rest : String) :
    words (t ++ (" " ++ rest) : String) = ofString t :: words rest :=
  words_of_solid_append ht (by decide) (by decide) rest

theorem words_exchange (verb link : String) (hverb : Solid verb) (hlink : Solid link)
    (v a : Word) :
    words (verb ++ " " ++ v.hex ++ (" " ++ link ++ " ") ++ a.hex : String) =
      [ofString verb, ofString v.hex, ofString link, ofString a.hex] := by
  simp only [String.append_assoc]
  rw [words_spaced hverb, words_spaced (solid_hex v), words_spaced hlink,
    words_of_solid (solid_hex a)]

theorem exchange?_hex (link : Text) (v a : Word) :
    exchange? link [ofString v.hex, link, ofString a.hex] = some (v, a) := by
  unfold exchange?
  dsimp only
  rw [if_pos rfl, word?_hex, word?_hex]
  rfl

theorem ofLine?_read (v a : Word) : ofLine? (Event.read v a).line = some (.read v a) := by
  have hwords : words (Event.read v a).line =
      [ofString "read", ofString v.hex, ofString "from", ofString a.hex] :=
    words_exchange "read" "from" (by decide) (by decide) v a
  unfold ofLine? ofWords?
  rw [hwords]
  dsimp only
  rw [if_neg (by decide), if_pos rfl, exchange?_hex]
  rfl

theorem ofLine?_write (v a : Word) : ofLine? (Event.write v a).line = some (.wrote v a) := by
  have hwords : words (Event.write v a).line =
      [ofString "wrote", ofString v.hex, ofString "to", ofString a.hex] :=
    words_exchange "wrote" "to" (by decide) (by decide) v a
  unfold ofLine? ofWords?
  rw [hwords]
  dsimp only
  rw [if_neg (by decide), if_neg (by decide), if_neg (by decide), if_pos rfl, exchange?_hex]
  rfl

theorem words_stepLine (s : Snapshot) {phase : String} (hphase : Solid phase)
    (instruction : String) : words (s.line phase instruction) =
      [ofString "STEP:", ofString (decimal s.steps), ofString "PHASE:", ofString phase,
        ofString "PC:", ofString s.start.hex, ofString "IN:"]
        ++ (s.slots.toList.map Word.hex).map ofString
        ++ [ofString "OUT:", ofString s.out.hex, ofString "INSTR:"] ++ words instruction := by
  let front := String.ofList (List.replicate (4 - (decimal s.steps).length) ' ')
  let behind := String.ofList (List.replicate (10 - phase.length) ' ')
  let slots := " ".intercalate (s.slots.toList.map Word.hex)
  have hline : s.line phase instruction =
      "STEP:" ++ ((" " ++ front) ++ (decimal s.steps ++ (" " ++ ("PHASE:" ++ (" " ++ (phase ++
        ((behind ++ " ") ++ ("PC:" ++ (" " ++ (s.start.hex ++ (" " ++ ("IN:" ++ (" " ++ (slots ++
          (" " ++ ("OUT:" ++ (" " ++ (s.out.hex ++ ("\t" ++ ("INSTR:" ++ (" " ++
            instruction))))))))))))))))))))) := by
    have hstep : "STEP: " = "STEP:" ++ " " := rfl
    have hmark : " PHASE: " = " " ++ "PHASE:" ++ " " := rfl
    have hpc : " PC: " = " " ++ "PC:" ++ " " := rfl
    have hin : " IN: " = " " ++ "IN:" ++ " " := rfl
    have hout : " OUT: " = " " ++ "OUT:" ++ " " := rfl
    have hinstruction : "\tINSTR: " = "\t" ++ "INSTR:" ++ " " := rfl
    unfold Snapshot.line padLeft padRight
    rw [hstep, hmark, hpc, hin, hout, hinstruction]
    simp only [String.append_assoc, front, behind, slots]
  have hfront : Blanks (" " ++ front) := blanks_append (by decide) (blanks_replicate _)
  have hbehind : Blanks (behind ++ " ") := blanks_append (blanks_replicate _) (by decide)
  have hslots : words slots = (s.slots.toList.map Word.hex).map ofString := words_hex _
  rw [hline, words_of_solid_append (by decide) hfront (by simp),
    words_spaced (solid_decimal s.steps), words_spaced (by decide),
    words_of_solid_append hphase hbehind (by simp), words_spaced (by decide),
    words_spaced (solid_hex s.start), words_spaced (by decide), words_apart (by decide) (by decide),
    hslots, words_spaced (by decide),
    words_of_solid_append (solid_hex s.out) (by decide) (by decide), words_spaced (by decide)]
  simp

theorem drop_words_stepLine (s : Snapshot) {phase : String} (hphase : Solid phase)
    (instruction : String) : (words (s.line phase instruction)).drop 13 = words instruction := by
  rw [words_stepLine s hphase]
  apply List.drop_left'
  simp

theorem ofLine?_stepLine (s : Snapshot) {phase : String} (hphase : Solid phase)
    (instruction : String) :
    ofLine? (s.line phase instruction) = some (.step s.steps phase s.start) := by
  unfold ofLine? ofWords?
  rw [words_stepLine s hphase]
  dsimp only [List.cons_append, List.nil_append]
  rw [if_pos rfl]
  unfold step?
  dsimp only
  rw [if_pos ⟨rfl, rfl⟩, number?_decimal, word?_hex]
  rfl

theorem ofLine?_poke (b : UInt8) : ofLine? (Event.poke b).line = some (.poked b.toNat) := by
  let more := "-> char: " ++ quoted (String.singleton (Char.ofNat b.toNat))
  have hline : (Event.poke b).line = "[POKE]" ++ (" " ++ (decimal b.toNat ++ (" " ++ more))) := by
    have hverb : "[POKE] " = "[POKE]" ++ " " := rfl
    have hlink : " -> char: " = " " ++ "-> char: " := rfl
    unfold Event.line
    rw [hverb, hlink]
    simp only [String.append_assoc, more]
  unfold ofLine? ofWords?
  rw [hline, words_spaced (by decide), words_spaced (solid_decimal b.toNat)]
  dsimp only [List.head?, Option.bind]
  rw [if_neg (by decide), if_neg (by decide), if_pos rfl, number?_decimal]
  rfl

theorem ofLine?_stopped (executed : ℕ) (ending : Ending) (pc : Word) :
    ofLine? (Event.stopped executed ending pc).line = none := by
  obtain ⟨more, hline⟩ : ∃ more, (Event.stopped executed ending pc).line =
      "Stopped" ++ (" " ++ more) := by
    refine ⟨"after " ++ decimal executed ++ " steps: " ++ ending.name ++ " (PC=" ++ pc.hex ++ ")",
      ?_⟩
    have hverb : "Stopped after " = "Stopped" ++ (" " ++ "after ") := rfl
    unfold Event.line
    rw [hverb]
    simp only [String.append_assoc]
  unfold ofLine? ofWords?
  rw [hline, words_spaced (by decide)]
  dsimp only
  rw [if_neg (by decide), if_neg (by decide), if_neg (by decide), if_neg (by decide)]

end Remark

namespace Machine

/-- What the lines of the next step say, in order. -/
def remarks (m : Machine) : List Remark :=
  let start (phase : String) : Remark := .step m.steps phase m.pc
  let read (s : Slot) : Remark := .read (m.inputs s) (m.loaded s)
  let poked : Remark := .poked (m.inputs .second).low.toNat
  let wrote : Remark := .wrote m.result m.next.target
  [start "FETCH", start "OPERANDS"]
    ++ (if m.instruction.readFirst then [read .first] else [])
    ++ (if m.instruction.readSecond then [read .second] else [])
    ++ (if m.instruction.operation = .poke then [poked] else [])
    ++ (if m.instruction.writeBack then [wrote] else [])
    ++ [.step (m.steps + 1) "EXECUTION" m.pc]

theorem out_execute_ready (m : Machine) :
    (m.ready.execute m.instruction.operation).out = m.result := by
  rw [← step_out]
  change _ = Machine.out { (if m.instruction.writeBack then _ else _ : Machine) with steps := _ }
  cases m.instruction.writeBack <;> rfl

theorem executeEvents_eq (m : Machine) (o : Operation) :
    m.executeEvents o = if o = .poke then [.poke (m.slot .second).low] else [] := by
  cases o <;> rfl

theorem ofLine?_events (m : Machine) :
    m.events.map (fun e => Remark.ofLine? e.line) = m.remarks.map some := by
  let loaded := m.fetchInstruction.2
  let done := m.ready.execute m.instruction.operation
  have hevents : m.events =
      [.fetch (m.snapshot m.pc) m.next.opcode m.instruction.operation,
        .operands (loaded.snapshot m.pc) m.instruction m.next.operands m.next.target]
        ++ readEvents loaded m.ready m.instruction
        ++ m.ready.executeEvents m.instruction.operation
        ++ (if m.instruction.writeBack then [.write done.out m.next.target] else [])
        ++ [.execution { done.snapshot m.pc with steps := m.steps + 1 } m.instruction.operation] :=
    rfl
  have hsteps : loaded.steps = m.steps := by
    change m.fetchInstruction.2.steps = m.steps
    rw [fetchInstruction_snd]
  have hfetch : Remark.ofLine? (Event.fetch (m.snapshot m.pc) m.next.opcode
      m.instruction.operation).line = some (.step m.steps "FETCH" m.pc) :=
    Remark.ofLine?_stepLine _ (by decide) _
  have hoperands : Remark.ofLine? (Event.operands (loaded.snapshot m.pc) m.instruction
      m.next.operands m.next.target).line = some (.step m.steps "OPERANDS" m.pc) := by
    rw [← hsteps]
    exact Remark.ofLine?_stepLine _ (by decide) _
  have hexecution : Remark.ofLine? (Event.execution
      { done.snapshot m.pc with steps := m.steps + 1 } m.instruction.operation).line =
        some (.step (m.steps + 1) "EXECUTION" m.pc) :=
    Remark.ofLine?_stepLine _ (by decide) _
  have hout : done.out = m.result := out_execute_ready m
  rw [hevents, executeEvents_eq]
  unfold readEvents remarks
  simp only [List.map_append, apply_ite (List.map _), List.map_cons, List.map_nil, hfetch,
    hoperands, hexecution, Remark.ofLine?_read, Remark.ofLine?_poke, Remark.ofLine?_write, hout]
  rfl

/-- The machines from which the first `n` steps start. -/
def visited (n : ℕ) (m : Machine) : List Machine :=
  (List.range n).map fun j => step^[j] m

theorem visited_succ (n : ℕ) (m : Machine) : m.visited (n + 1) = m.visited n ++ [step^[n] m] := by
  unfold visited
  rw [List.range_succ, List.map_append]
  rfl

def lines (m : Machine) : List String :=
  m.events.map Event.line

theorem ofLine?_lines (m : Machine) : m.lines.map Remark.ofLine? = m.remarks.map some := by
  unfold lines
  rw [List.map_map]
  exact m.ofLine?_events

end Machine

namespace Session

def lines (s : Session) : List String :=
  s.log.toList.map Event.line

def stopLine (outcome : Outcome) (pc : Word) : String :=
  "Stopped after " ++ Numeral.decimal outcome.executed ++ " steps: " ++ outcome.ending.name
    ++ " (PC=" ++ pc.hex ++ ")"

theorem log_run (m : Machine) (stream : Option String) (log : Array Event) (budget : Int) :
    let s : Session := ⟨m, true, true, stream, log⟩
    let r := s.run budget
    r.2.log.toList = log.toList ++ (((m.visited r.1.executed).map Machine.events).flatten
      ++ [.stopped r.1.executed r.1.ending r.2.machine.pc]) := by
  intro s r
  have hlog : r.2.log = (log ++ m.record budget.toNat).push
      (.stopped r.1.executed r.1.ending r.2.machine.pc) := by
    unfold r
    rw [run_eq_after]
    rfl
  have hexecuted : r.1.executed = m.executed budget.toNat := by
    unfold r
    rw [run_eq_after]
  unfold Machine.visited
  rw [hlog, Machine.record_eq, ← hexecuted]
  simp only [Array.toList_push, Array.toList_appendList, List.flatMap_def, List.map_map,
    List.append_assoc]
  rfl

theorem lines_run (m : Machine) (stream : Option String) (log : Array Event) (budget : Int) :
    let s : Session := ⟨m, true, true, stream, log⟩
    let r := s.run budget
    r.2.lines = s.lines ++ (((m.visited r.1.executed).map Machine.lines).flatten
      ++ [stopLine r.1 r.2.machine.pc]) := by
  intro s r
  unfold lines
  rw [log_run m stream log budget]
  simp only [List.map_append, List.map_flatten, List.map_map]
  rfl

end Session

end WordMachine
