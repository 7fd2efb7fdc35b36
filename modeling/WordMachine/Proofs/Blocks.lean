import WordMachine.Journal
import WordMachine.Proofs.Artifacts
import WordMachine.Proofs.Budget
import WordMachine.Proofs.Failure
import WordMachine.Proofs.Lines
import WordMachine.Proofs.Places
import WordMachine.Proofs.Remarks

/-!
The blocks of a trace. Each step of a run logs one block of lines, the last of which alone tells of
the execution, and behind the blocks one line tells how the run ended. In the file of the journal
every line is a line of its own, whatever characters are emitted.
-/
namespace WordMachine

open Text Numeral Instruction

/-- The line of a message in the file of a journal, while debugging. -/
def Message.record (m : Message) : String :=
  Level.debug.name ++ " root:" ++ m.source.text ++ " " ++ m.text

theorem plain_hex (w : Word) : Plain w.hex :=
  plain_hex4 w.toNat

namespace Snapshot

/-- The phase stands between texts that are plain. -/
theorem exists_line_eq (s : Snapshot) (phase : String) {instruction : String}
    (hplain : Plain instruction) : ∃ front behind, Plain front ∧ Plain behind ∧
      s.line phase instruction = front ++ ("PHASE: " ++ phase) ++ behind := by
  let front := "STEP: " ++ padLeft 4 ' ' (decimal s.steps) ++ " "
  let registers := " IN: " ++ " ".intercalate (s.slots.toList.map Word.hex) ++ " OUT: " ++ s.out.hex
  let pad := String.ofList (List.replicate (10 - phase.length) ' ')
  have hfront : Plain front :=
    plain_append (plain_append (by decide) (plain_padLeft (by decide) (plain_decimal _) 4))
      (by decide)
  have hslots : ∀ part ∈ s.slots.toList.map Word.hex, Plain part := by
    intro part hpart
    obtain ⟨w, -, rfl⟩ := List.mem_map.mp hpart
    exact plain_hex w
  have hregisters : Plain registers :=
    plain_append (plain_append (plain_append (by decide) (plain_intercalate (by decide) hslots))
      (by decide)) (plain_hex s.out)
  have hpad : Plain pad := plain_padRight (by decide) (s := "") (by decide) (10 - phase.length)
  refine ⟨front, pad ++ " PC: " ++ s.start.hex ++ registers ++ ("\tINSTR: " ++ instruction), hfront,
    ?_, ?_⟩
  · exact plain_append (plain_append (plain_append (plain_append hpad (by decide))
      (plain_hex s.start)) hregisters) (plain_append (by decide) hplain)
  · have hmark : " PHASE: " = " " ++ "PHASE: " := rfl
    unfold line padRight
    rw [hmark]
    simp only [String.append_assoc, front, registers, pad]

end Snapshot

namespace Event

def isExecution : Event → Bool
  | execution .. => true
  | _ => false

theorem plain_phase_line {s : Snapshot} {phase instruction : String} (hphase : Plain phase)
    (hplain : Plain instruction) : Plain (s.line phase instruction) := by
  obtain ⟨front, behind, hfront, hbehind, hline⟩ := s.exists_line_eq phase hplain
  rw [hline]
  exact plain_append (plain_append hfront (plain_append (by decide) hphase)) hbehind

/-- Two kinds of events aside, the line of an event is plain. -/
theorem line_cases (e : Event) :
    (∃ b, e = .poke b) ∨ (∃ s operation, e = .execution s operation) ∨
      e.isExecution = false ∧ Plain e.line := by
  cases e with
  | poke b => exact .inl ⟨b, rfl⟩
  | execution s operation => exact .inr (.inl ⟨s, operation, rfl⟩)
  | fetch s word operation =>
    refine .inr (.inr ⟨rfl, plain_phase_line (by decide) ?_⟩)
    exact plain_append (plain_append (plain_hex word) (by decide)) (plain_name operation)
  | operands s i words target =>
    exact .inr (.inr ⟨rfl, plain_phase_line (by decide) (plain_mnemonic i _ _)⟩)
  | read value address =>
    refine .inr (.inr ⟨rfl, ?_⟩)
    exact plain_append (plain_append (plain_append (by decide) (plain_hex value)) (by decide))
      (plain_hex address)
  | write value address =>
    refine .inr (.inr ⟨rfl, ?_⟩)
    exact plain_append (plain_append (plain_append (by decide) (plain_hex value)) (by decide))
      (plain_hex address)
  | loaded count base entry =>
    refine .inr (.inr ⟨rfl, ?_⟩)
    exact plain_append (plain_append (plain_append (plain_append (plain_append (by decide)
      (plain_decimal count)) (by decide)) (plain_decimal base)) (by decide)) (plain_decimal entry)
  | stopped executed ending pc =>
    have hname : Plain ending.name := by cases ending <;> decide
    refine .inr (.inr ⟨rfl, ?_⟩)
    exact plain_append (plain_append (plain_append (plain_append (plain_append (plain_append
      (by decide) (plain_decimal executed)) (by decide)) hname) (by decide)) (plain_hex pc))
      (by decide)

theorem plain_pokeFront (b : UInt8) : Plain ("[POKE] " ++ decimal b.toNat ++ " -> char: ") :=
  plain_append (plain_append (by decide) (plain_decimal b.toNat)) (by decide)

/-- The line about an execution, with its phase between plain texts. -/
theorem exists_execution_line_eq (s : Snapshot) (operation : Operation) :
    ∃ front behind, Plain front ∧ Plain behind ∧
      (Event.execution s operation).line = front ++ ("PHASE: " ++ "EXECUTION") ++ behind :=
  s.exists_line_eq "EXECUTION" (plain_name operation)

theorem oneLine_line (e : Event) : OneLine e.line := by
  rcases e.line_cases with ⟨b, rfl⟩ | ⟨s, operation, rfl⟩ | ⟨-, hplain⟩
  · exact oneLine_append (.of_plain (plain_pokeFront b)) (oneLine_quoted _)
  · obtain ⟨front, behind, hfront, hbehind, hline⟩ := exists_execution_line_eq s operation
    have hmark : OneLine ("PHASE: " ++ "EXECUTION") := by decide
    rw [hline]
    exact oneLine_append (oneLine_append (.of_plain hfront) hmark) (.of_plain hbehind)
  · exact .of_plain hplain

theorem plain_source (e : Event) : Plain e.source.text := by
  have hplace : ∀ file line, Plain file → Plain (Location.mk file line).text := fun _ line hfile =>
    plain_append (plain_append hfile (by decide)) (plain_decimal line)
  cases e <;> exact hplace _ _ (by decide)

/-- What a file has before the line of an event. -/
def front (e : Event) : String :=
  Level.debug.name ++ " root:" ++ e.source.text ++ " "

theorem plain_front (e : Event) : Plain e.front :=
  plain_append (plain_append (by decide) e.plain_source) (by decide)

theorem record_message (e : Event) : e.message.record = e.front ++ e.line :=
  rfl

theorem oneLine_record (e : Event) : OneLine e.message.record :=
  oneLine_append (.of_plain e.plain_front) e.oneLine_line

def executionMark : Text :=
  "PHASE: EXECUTION"

theorem mem_line_of_hasPart {e : Event} (h : hasPart executionMark e.message.record = true) :
    'X' ∈ e.line.toList := by
  have hmark : CodePoint.char 'X' ∈ executionMark := by decide
  obtain ⟨x, hx, hc⟩ := List.mem_map.mp (((hasPart_iff _ _).mp h).subset hmark)
  obtain rfl : x = 'X' := CodePoint.char.inj hc
  rw [record_message, String.toList_append, List.mem_append] at hx
  exact hx.resolve_left fun hfront => absurd (e.plain_front 'X' hfront) (by decide)

/-- An upper-case X is in the line about an emitted character only if it is that character. -/
theorem eq_of_mem_poke_line {b : UInt8} (h : 'X' ∈ (Event.poke b).line.toList) : b = 88 := by
  have hsingle : ofString (String.singleton (Char.ofNat b.toNat)) =
      [.char (Char.ofNat b.toNat)] := by
    unfold ofString ofChars
    rw [String.toList_singleton]
    rfl
  have hquoted : 'X' ∈ quotedChars [.char (Char.ofNat b.toNat)] := by
    unfold line quoted at h
    rw [String.toList_append, List.mem_append, String.toList_ofList, hsingle] at h
    exact h.resolve_left fun hfront => absurd (plain_pokeFront b 'X' hfront) (by decide)
  have hshown : CodePoint.char 'X' ∈ [CodePoint.char (Char.ofNat b.toNat)] := by
    rcases mem_quotedChars hquoted with h | h | h | hplain | ⟨hshown, -⟩
    · exact absurd h (by decide)
    · exact absurd h (by decide)
    · exact absurd h (by decide)
    · exact absurd hplain (by decide)
    · exact hshown
  have hchar : 'X' = Char.ofNat b.toNat := CodePoint.char.inj (List.mem_singleton.mp hshown)
  have hvalue : ∀ n < 256, 'X' = Char.ofNat n → n = 88 := by decide +kernel
  exact UInt8.toNat_inj.mp (hvalue b.toNat (UInt8.toNat_lt b) hchar)

/-- The lines about an execution are known by their phase. -/
theorem hasPart_record (e : Event) : hasPart executionMark e.message.record = e.isExecution := by
  rcases e.line_cases with ⟨b, rfl⟩ | ⟨s, operation, rfl⟩ | ⟨hother, hplain⟩
  · -- the letter is only shown if it is emitted, and then the other letters are missing
    have hshown : hasPart executionMark (Event.poke 88).message.record = false := by
      decide +kernel
    change _ = false
    rw [Bool.eq_false_iff]
    intro h
    obtain rfl : b = 88 := eq_of_mem_poke_line (mem_line_of_hasPart h)
    rw [hshown] at h
    cases h
  · obtain ⟨before, behind, -, -, hline⟩ := exists_execution_line_eq s operation
    have hmark : executionMark = ofString ("PHASE: " ++ "EXECUTION") := by decide
    refine (hasPart_iff _ _).mpr
      ⟨ofString ((Event.execution s operation).front ++ before), ofString behind, ?_⟩
    rw [record_message, hline, hmark, ← ofString_append, ← ofString_append]
    simp only [String.append_assoc]
  · rw [hother, Bool.eq_false_iff]
    exact fun h => absurd (hplain 'X' (mem_line_of_hasPart h)) (by decide)

theorem countP_record (es : List Event) :
    (es.map fun e => ofString e.message.record).countP (hasPart executionMark) =
      es.countP isExecution := by
  have hmark : (hasPart executionMark ∘ fun e : Event => ofString e.message.record) =
      isExecution := by
    funext e
    exact e.hasPart_record
  rw [List.countP_map, hmark]

end Event

namespace Machine

theorem countP_isExecution_events (m : Machine) : m.events.countP Event.isExecution = 1 := by
  have hread : ∀ before after i, (readEvents before after i).countP Event.isExecution = 0 := by
    intro before after i
    unfold readEvents
    cases i.readFirst <;> cases i.readSecond <;> rfl
  have hexecute : ∀ (n : Machine) o, (n.executeEvents o).countP Event.isExecution = 0 := by
    intro n o
    cases o <;> rfl
  unfold events
  simp only [List.countP_append, hread, hexecute]
  change _ + List.countP Event.isExecution (if m.instruction.writeBack then _ else _) + _ = _
  cases m.instruction.writeBack <;> rfl

theorem countP_isExecution_visited (n : ℕ) (m : Machine) :
    ((m.visited n).map events).flatten.countP Event.isExecution = n := by
  have hone : (List.countP Event.isExecution ∘ events) = fun _ => 1 := by
    funext k
    exact k.countP_isExecution_events
  have hlength : (m.visited n).length = n := by
    unfold visited
    rw [List.length_map, List.length_range]
  rw [List.countP_flatten, List.map_map, hone, List.map_const', List.sum_replicate, hlength]
  simp

end Machine

theorem Text.Utf8.encode_append (s t : String) : encode (s ++ t) = encode s ++ encode t := by
  unfold encode
  rw [String.toList_append, List.flatMap_append]

namespace Files

theorem overwrite_length (content bytes : List UInt8) :
    overwrite content content.length bytes = content ++ bytes := by
  unfold overwrite
  rw [List.take_length, Nat.sub_self, List.replicate_zero, List.append_nil,
    List.drop_eq_nil_of_le (by omega), List.append_nil]

theorem read?_patch {files : Files} {p : Path} {content : List UInt8}
    (h : files.read? p = some content) (bytes : List UInt8) :
    (files.patch p content.length bytes).read? p = some (content ++ bytes) := by
  unfold patch
  rw [read?_put, if_pos rfl, h, Option.getD_some, overwrite_length]

end Files

namespace Host

open Event

/-- While debugging, records go to a file that has this text by now. -/
structure LogsTo (h : Host) (p : Path) (text : String) : Prop where
  journal : ∃ console, h.journal = some ⟨true, console, some p, (Utf8.encode text).length⟩
  file : h.files.read? p = some (Utf8.encode text)
  closed : text = "" ∨ text.toList.getLast? = some '\n'

/-- What is written for records. -/
def writing (messages : List Message) : String :=
  String.join (messages.map fun message => message.record ++ "\n")

theorem writing_concat (front : List Message) (last : Message) :
    writing (front ++ [last]) = writing front ++ (last.record ++ "\n") := by
  unfold writing
  rw [List.map_append, String.join_append, List.map_singleton, String.join_cons,
    String.join_nil, String.append_empty]

variable {h : Host} {p : Path} {text : String}

theorem logsTo_openJournal {ready : Host} {path : String} {console : Bool}
    (hopen : h.openJournal path true console = .ok ready)
    (hfile : ready.journal.bind (·.file) = some p) : ready.LogsTo p "" := by
  unfold openJournal at hopen
  split at hopen
  · obtain rfl := Except.ok.inj hopen
    cases hfile
  · obtain ⟨⟨place, files⟩, hcreate, rfl⟩ := exists_of_map_eq_ok hopen
    rcases Files.create_ok hcreate with ⟨rfl, -⟩ | ⟨q, rfl, -, rfl⟩
    · cases hfile
    · obtain rfl : q = p := Option.some.inj hfile
      refine ⟨⟨console, rfl⟩, ?_, .inl rfl⟩
      exact (Files.read?_put h.files q q []).trans (if_pos rfl)

theorem LogsTo.debug (hlogs : h.LogsTo p text) (messages : List Message) :
    (h.debug messages).LogsTo p (text ++ writing messages) := by
  obtain ⟨⟨console, hjournal⟩, hfile, hclosed⟩ := hlogs
  let journal : Journal := ⟨true, console, some p, (Utf8.encode text).length⟩
  have haccepted : (messages.map fun m => (⟨.debug, m⟩ : Entry)).filter journal.accepts =
      messages.map fun m => ⟨.debug, m⟩ :=
    List.filter_eq_self.mpr fun _ _ => rfl
  have hwritten : String.join ((messages.map fun m => (⟨.debug, m⟩ : Entry)).map journal.fileLine) =
      writing messages := by
    rw [List.map_map]
    rfl
  have hlog : h.debug messages =
      { h with
        files := if (Utf8.encode (writing messages)).isEmpty then h.files
          else h.files.patch p (Utf8.encode text).length (Utf8.encode (writing messages))
        errors := (h.debug messages).errors
        journal := some ⟨true, console, some p,
          (Utf8.encode text).length + (Utf8.encode (writing messages)).length⟩ } := by
    unfold Host.debug log
    rw [hjournal]
    dsimp only
    rw [haccepted, hwritten]
  rw [hlog]
  refine ⟨⟨console, ?_⟩, ?_, ?_⟩
  · rw [Utf8.encode_append, List.length_append]
  · rw [Utf8.encode_append]
    dsimp only
    split
    · next hempty => rw [hfile, List.isEmpty_iff.mp hempty, List.append_nil]
    · exact Files.read?_patch hfile _
  · rcases messages.eq_nil_or_concat with rfl | ⟨front, last, rfl⟩
    · have hnone : text ++ writing [] = text := String.append_empty
      rwa [hnone]
    · right
      rw [List.concat_eq_append, writing_concat]
      simp [← String.append_assoc]

theorem lines_writing {messages : List Message} (h : ∀ m ∈ messages, OneLine m.record) :
    lines (writing messages : String) = messages.map fun m => ofString m.record := by
  have hrecord : ∀ line ∈ messages.map Message.record, OneLine line :=
    List.forall_mem_map.mpr h
  have hjoin := lines_join hrecord
  rwa [List.map_map, List.map_map] at hjoin

theorem LogsTo.lines_append (hlogs : h.LogsTo p text) {messages : List Message}
    (hmessages : ∀ m ∈ messages, OneLine m.record) :
    lines (text ++ writing messages : String) =
      lines (text : String) ++ messages.map fun m => ofString m.record := by
  rcases hlogs.closed with rfl | hlast
  · rw [String.empty_append, lines_writing hmessages]
    rfl
  · have hfeed : (ofString text).getLast? = some (.char '\n') := by
      unfold ofString ofChars
      rw [List.getLast?_map, hlast]
      rfl
    rw [ofString_append, Text.lines_append hfeed, lines_writing hmessages]

end Host

namespace Session

open Event

def messages (s : Session) : List Message :=
  s.log.toList.map Event.message

/-- The last message of a run. -/
def stopMessage (outcome : Outcome) (pc : Word) : Message :=
  ⟨⟨"processor.py", 238⟩, stopLine outcome pc⟩

/-- The steps of a run have a block of messages each, behind which one message tells how the run
ended. A file of the journal has all of them as lines of its own, one about an execution for each
step. -/
theorem logs_block_per_step (m : Machine) (stream : Option String) (log : Array Event)
    (budget : Int) :
    let s : Session := ⟨m, true, true, stream, log⟩
    let r := s.run budget
    ∃ blocks : List (List Message),
      let logged := blocks.flatten ++ [stopMessage r.1 r.2.machine.pc]
      r.2.messages = s.messages ++ logged ∧
      blocks.length = r.1.executed ∧ r.1.ending = r.2.machine.ending ∧
      r.2.machine = Machine.step^[r.1.executed] m ∧
      (∀ j (hj : j < blocks.length),
        (Machine.step^[j] m).steps = m.steps + j ∧
        blocks[j].map (fun e => Remark.ofLine? e.text) =
          (Machine.step^[j] m).remarks.map some) ∧
      ∀ (h : Host) (p : Path) (text : String), h.LogsTo p text →
        ∃ added, (h.debug logged).LogsTo p (text ++ added) ∧
          Text.lines (text ++ added : String) =
            Text.lines text ++ logged.map (fun e => ofString e.record) ∧
          (Text.lines (text ++ added : String)).countP (hasPart executionMark) =
            (Text.lines text).countP (hasPart executionMark) + r.1.executed := by
  intro s r
  let k := r.1.executed
  let es := ((m.visited k).map Machine.events).flatten ++
    [Event.stopped r.1.executed r.1.ending r.2.machine.pc]
  let blocks := (m.visited k).map fun n => n.events.map Event.message
  let logged := blocks.flatten ++ [stopMessage r.1 r.2.machine.pc]
  have hlogged : logged = es.map Event.message := by
    simp only [logged, blocks, es, List.map_append, List.map_flatten, List.map_map]
    rfl
  have hmessages : r.2.messages = s.messages ++ logged := by
    rw [hlogged]
    unfold messages
    rw [log_run m stream log budget, List.map_append]
  have hlength : blocks.length = k := by
    simp only [blocks, Machine.visited, List.length_map, List.length_range]
  have hcount : es.countP isExecution = k := by
    rw [List.countP_append, Machine.countP_isExecution_visited]
    rfl
  have hending : r.1.ending = r.2.machine.ending := by
    rw [(s.run_eq budget).1, (s.run_eq budget).2.1]
  refine ⟨blocks, hmessages, hlength, hending, (s.run_counts budget).1, ?_, ?_⟩
  · intro j hj
    have hblock : blocks[j] = (Machine.step^[j] m).events.map Event.message := by
      simp [blocks, Machine.visited]
    rw [hblock, List.map_map]
    exact ⟨Machine.iterate_step_steps j m, Machine.ofLine?_events _⟩
  · intro h p text hlogs
    have honeLine : ∀ e ∈ logged, OneLine e.record := by
      rw [hlogged]
      exact List.forall_mem_map.mpr fun e _ => e.oneLine_record
    have hadded := hlogs.lines_append honeLine
    refine ⟨Host.writing logged, hlogs.debug _, hadded, ?_⟩
    rw [hadded, List.countP_append, hlogged, List.map_map]
    exact congrArg _ ((countP_record es).trans hcount)

/-- A session that emits a line feed and halts. -/
def feedingSession : Session :=
  ⟨{ Machine.fresh with memory := Memory.zero.fill 0 [0x2004, 0x0000, 0x000A, 0x0005] }, true, true,
    none, #[]⟩

theorem logs_block_per_step_feeding :
    let r := feedingSession.run 9
    ∃ (h : Host) (text : String),
      (Host.ofFiles .empty).openJournal "run.log" true false = .ok h ∧
      r.1.executed = 2 ∧
      (r.2.messages[2]?).map Message.record =
        some "DEBUG root:processor.py:126 [POKE] 10 -> char: '\\n'" ∧
      (h.debug r.2.messages).LogsTo ["run.log"] text ∧ (Text.lines text).length = 8 ∧
      (Text.lines text).countP (hasPart executionMark) = 2 := by
  intro r
  let h : Host := { Host.ofFiles (Files.empty.put ["run.log"] []) with
    journal := some ⟨true, false, some ["run.log"], 0⟩ }
  have hopen : (Host.ofFiles .empty).openJournal "run.log" true false = .ok h := by
    have hpath : Path.collapse (.ofText "run.log") = some ["run.log"] :=
      Path.collapse_ofText (by decide) (by decide)
    have hnull : Path.hasNull ["run.log"] = false := Path.hasNull_inside (by decide) []
    have hcreate : Files.empty.create ["run.log"] =
        .ok (some ["run.log"], Files.empty.put ["run.log"] []) := by
      have hplace : Files.empty.resolve ["run.log"] = .ok (.absent ["run.log"]) := by
        decide +kernel
      unfold Files.create
      rw [hnull, hplace]
      rfl
    have hempty : (Host.ofFiles .empty).files = .empty := rfl
    unfold Host.openJournal
    rw [hpath, hempty]
    dsimp only
    rw [hcreate]
    rfl
  have hlogs := Host.logsTo_openJournal hopen rfl
  have hexecuted : r.1.executed = 2 := by decide +kernel
  have hpoke : (r.2.messages[2]?).map Message.record =
      some "DEBUG root:processor.py:126 [POKE] 10 -> char: '\\n'" := by decide +kernel
  have hlength : r.2.messages.length = 8 := by decide +kernel
  obtain ⟨blocks, hmessages, -, -, -, -, hfile⟩ :=
    logs_block_per_step feedingSession.machine none #[] 9
  obtain ⟨text, hdebug, hadded, hcount⟩ := hfile _ _ _ hlogs
  have hlogged := hmessages.trans (List.nil_append _)
  rw [← hlogged] at hdebug hadded
  rw [String.empty_append] at hdebug hadded hcount
  refine ⟨h, text, hopen, hexecuted, hpoke, hdebug, ?_, ?_⟩
  · have hnone : Text.lines "" = [] := rfl
    rw [hadded, hnone, List.nil_append, List.length_map]
    exact hlength
  · rw [hcount]
    exact congrArg _ hexecuted

end Session

end WordMachine
