import WordMachine.Proofs.Bare
import WordMachine.Proofs.Slices

/-!
The bare machine never breaks down. Each of its operations, from the state of a machine with its
stream, comes to the state that the machine comes to, and so whatever it is asked for, in any
order, its registers stay words and its memory keeps its size.
-/
namespace WordMachine.Bare

/-- What comes behind something that has not broken down. -/
theorem ok_bind {α β : Type} (a : α) (f : α → Except Breakdown β) :
    (Except.ok a >>= f) = f a := rfl

theorem pure_eq_ok {α : Type} (a : α) : (pure a : Except Breakdown α) = .ok a := rfl

theorem offset_eq (address : Int) : offset address = 2 * (UInt16.ofInt address).toNat := by
  have hcast := Word.toNat_ofInt address
  unfold offset
  omega

theorem read_of (m : Machine) (stream : Option String) (address : Int) :
    (of m stream).read address = (m.memory.read (UInt16.ofInt address)).toNat := by
  have hslice := m.memory.slice_bytes (UInt16.ofInt address)
  have hlow := Word.toNat_low (m.memory.read (UInt16.ofInt address))
  have hhigh := Word.toNat_high (m.memory.read (UInt16.ofInt address))
  unfold read
  rw [offset_eq]
  simp only [of, hslice, ofBytes]
  omega

theorem toBytes_of (w : Word) : toBytes w.toNat = .ok [w.low, w.high] := by
  have hw := UInt16.toNat_lt w
  unfold toBytes
  rw [if_pos (by omega)]
  rfl

theorem write_of (m : Machine) (stream : Option String) (address value : Int) :
    (of m stream).write address value =
      .ok (of (m.store (UInt16.ofInt address) (UInt16.ofInt value)) stream) := by
  unfold write
  rw [← Word.toNat_ofInt, toBytes_of, offset_eq]
  simp only [ok_bind, pure_eq_ok, of, Machine.store, Memory.bytes_write]

theorem character_of (b : UInt8) : character b.toNat = .ok (Char.ofNat b.toNat) := by
  have hb := UInt8.toNat_lt b
  have hvalid : b.toNat.isValidChar := Or.inl (by omega)
  unfold character
  rw [if_pos ⟨by omega, by simpa using hvalid⟩]
  rfl

theorem toNat_low (value : Int) : ((Word.low (UInt16.ofInt value)).toNat : Int) = value % 256 := by
  have hcast := Word.toNat_ofInt value
  rw [Word.toNat_low]
  omega

theorem poke_of (m : Machine) (stream : Option String) (value : Int) :
    (of m stream).poke value =
      .ok (of (m.poke (UInt16.ofInt value))
        (Session.streamed stream m (m.poke (UInt16.ofInt value)))) := by
  have hmore : m.emitted.toList ++ [Word.low (UInt16.ofInt value)] =
      (m.poke (UInt16.ofInt value)).emitted.toList := by
    simp [Machine.poke]
  unfold poke Session.streamed
  rw [← toNat_low, Session.outputSince_eq hmore]
  cases stream with
  | none => simp [of, Machine.poke, pure_eq_ok]
  | some text =>
    simp only [of, character_of, ok_bind, pure_eq_ok]
    simp [Machine.poke, Session.characters]

theorem output_of (m : Machine) (stream : Option String) : (of m stream).output = .ok m.output := by
  have hall : ∀ bs : List UInt8,
      (bs.map fun b => (b.toNat : Int)).mapM character =
        .ok (bs.map fun b => Char.ofNat b.toNat) := by
    intro bs
    induction bs with
    | nil => rfl
    | cons b rest ih =>
      rw [List.map_cons, List.mapM_cons, character_of, ih]
      rfl
  unfold output
  simp only [of, hall]
  rfl

theorem fetch_of (m : Machine) (stream : Option String) :
    (of m stream).fetch = ((m.fetch.1.toNat : Int), of m.fetch.2 stream) := by
  have hnext : ((m.pc.toNat : Int) + 1) % 65536 = (m.pc + 1).toNat := by
    rw [UInt16.toNat_add]
    norm_cast
  have hword : (of m stream).read m.pc.toNat = (m.memory.read m.pc).toNat := by
    rw [read_of, Word.ofInt_toNat]
  unfold fetch
  refine Prod.ext hword ?_
  simp only [of, hnext]
  rfl

theorem slot_of (m : Machine) (stream : Option String) (s : Slot) :
    (of m stream).slot s.index = .ok ((m.slot s).toNat : Int) := by
  have hget : (of m stream).slots[s.index]? = some ((m.slot s).toNat : Int) := by
    have hs := s.index_lt
    simp [of, hs, Machine.slot, Vector.get]
  unfold slot
  rw [hget]

theorem setSlot_of (m : Machine) (stream : Option String) (j : ℕ) (hj : j < 3) (w : Word) :
    (of m stream).setSlot j w.toNat =
      .ok (of { m with slots := m.slots.setIfInBounds j w } stream) := by
  have hlength : (of m stream).slots.length = 3 := by
    simp [of]
  unfold setSlot
  rw [hlength, if_pos hj]
  simp [of, Vector.toList_setIfInBounds, List.map_set]

theorem fetchOperands_of (stream : Option String) (j count : ℕ) (m : Machine)
    (h : j + count ≤ 3) :
    fetchOperands j count (of m stream) =
      .ok ((Machine.fetchOperands j count m).1.map fun w => (w.toNat : Int),
        of (Machine.fetchOperands j count m).2 stream) := by
  induction count generalizing j m with
  | zero => rfl
  | succ count ih =>
    have hput := setSlot_of m.fetch.2 stream j (by omega) m.fetch.1
    have hfound : (of { m.fetch.2 with slots := m.fetch.2.slots.setIfInBounds j m.fetch.1 }
        stream).slot j = .ok (m.fetch.1.toNat : Int) := by
      have hj : j < 3 := by omega
      unfold slot
      simp [of, Vector.toList_setIfInBounds, hj]
    simp only [fetchOperands, fetch_of]
    rw [hput, ok_bind, hfound, ok_bind, ih (j + 1) _ (by omega), ok_bind]
    rfl

theorem operand_of {operands : List Int} {j : ℕ} (h : j < operands.length) :
    operand operands j = .ok operands[j] := by
  unfold operand
  rw [List.getElem?_eq_getElem h]

theorem slotText_of_lt (i : Instruction) (operands : List Int) {j : ℕ} {indirect : Bool}
    (hj : j < 2) (hflag : flag i j = .ok indirect) :
    slotText i operands j = .ok (Instruction.slotText j indirect operands[j]?).toList := by
  have hbracket (s : String) : "[" ++ ("0x" ++ s) ++ "]" = "[0x" ++ s ++ "]" := by
    rw [← String.append_assoc]
    rfl
  unfold slotText Instruction.slotText
  rw [if_pos hj, hflag, ok_bind]
  dsimp only
  by_cases hoperand : j < operands.length
  · rw [if_pos hoperand, operand_of hoperand, ok_bind, List.getElem?_eq_getElem hoperand,
      hbracket]
    rfl
  · rw [if_neg hoperand, List.getElem?_eq_none (by omega)]
    cases indirect <;> rfl

/-- A slot without a flag is an operand. -/
theorem slotText_of_le (i : Instruction) {operands : List Int} {j : ℕ} (htwo : 2 ≤ j)
    (h : j < operands.length) :
    slotText i operands j = .ok ["0x" ++ Numeral.hex4 operands[j]] := by
  unfold slotText
  rw [if_neg (by omega), pure_eq_ok, ok_bind]
  dsimp only
  rw [if_pos h, operand_of h]
  rfl

theorem slotTextsFrom_of_le (i : Instruction) (operands : List Int) {j count : ℕ}
    (htwo : 2 ≤ j) (h : count = operands.length - j) :
    slotTextsFrom i operands j count =
      .ok ((operands.drop j).map fun n => "0x" ++ Numeral.hex4 n) := by
  induction count generalizing j with
  | zero =>
    rw [List.drop_eq_nil_of_le (by omega)]
    rfl
  | succ count ih =>
    have hj : j < operands.length := by omega
    rw [slotTextsFrom, slotText_of_le i htwo hj, ok_bind, ih (by omega) (by omega), ok_bind,
      List.drop_eq_getElem_cons hj]
    rfl

theorem flag_of (i : Instruction) :
    flag i Slot.first.index = .ok i.readFirst ∧ flag i Slot.second.index = .ok i.readSecond :=
  ⟨rfl, rfl⟩

theorem mnemonic_of (i : Instruction) (operands : List Int) (target : Int) :
    mnemonic i operands target = .ok (i.mnemonic operands target) := by
  have hcount : max operands.length 2 = operands.length - 2 + 1 + 1 := by omega
  have htexts (a b : Option String) : [a, b].filterMap id = a.toList ++ b.toList := by
    cases a <;> cases b <;> rfl
  have hfrom : slotTextsFrom i operands 0 (max operands.length 2) =
      .ok (i.slotTexts operands) := by
    have hfirst : slotText i operands 0 = _ := slotText_of_lt i operands (by decide) (flag_of i).1
    have hsecond : slotText i operands (0 + 1) = _ :=
      slotText_of_lt i operands (by decide) (flag_of i).2
    have hothers : slotTextsFrom i operands (0 + 1 + 1) (operands.length - 2) = _ :=
      slotTextsFrom_of_le i operands (by decide) rfl
    rw [hcount, slotTextsFrom, slotTextsFrom, hfirst, hsecond, hothers]
    simp only [ok_bind, pure_eq_ok, Instruction.slotTexts, htexts, List.append_assoc]
  unfold mnemonic Instruction.mnemonic
  rw [hfrom]
  rfl

theorem dereferenceSlot_of (m : Machine) (stream : Option String) (s : Slot) :
    (of m stream).dereferenceSlot s.index = .ok (of (m.dereferenceSlot s) stream) := by
  have hset : m.slots.setIfInBounds s.index (m.memory.read (m.slot s)) =
      m.slots.set s.index (m.memory.read (m.slot s)) s.index_lt := by
    ext k hk
    rw [Vector.getElem_set, Vector.getElem_setIfInBounds]
  unfold dereferenceSlot Machine.dereferenceSlot
  rw [slot_of, ← hset]
  change (of m stream).setSlot s.index ((of m stream).read ((m.slot s).toNat : Int)) = _
  rw [read_of, Word.ofInt_toNat, setSlot_of m stream s.index s.index_lt]

theorem dereferenceIf_of (m : Machine) (stream : Option String) {i : Instruction} {s : Slot}
    {indirect : Bool} (h : flag i s.index = .ok indirect) :
    (of m stream).dereferenceIf i s.index =
      .ok (of (if indirect then m.dereferenceSlot s else m) stream) := by
  unfold dereferenceIf
  rw [h, ok_bind]
  cases indirect with
  | false => rfl
  | true => exact dereferenceSlot_of m stream s

theorem dereference_of (m : Machine) (stream : Option String) (i : Instruction) :
    (of m stream).dereference i = .ok (of (m.dereference i) stream) := by
  have hfirst : (of m stream).dereferenceIf i 0 = _ := dereferenceIf_of m stream (flag_of i).1
  have hsecond : (of (if i.readFirst then m.dereferenceSlot .first else m) stream).dereferenceIf
      i 1 = _ := dereferenceIf_of _ stream (flag_of i).2
  unfold dereference
  rw [hfirst, ok_bind]
  exact hsecond

theorem operation_of (o : Operation) : operation o.code = .ok o := by
  cases o <;> rfl

theorem operationOfByte_of (b : UInt8) : operationOfByte b.toNat = .ok (.ofByte b) := by
  have hcode := Operation.code_ofByte b
  unfold operationOfByte
  by_cases hbeyond : 5 < b.toNat
  · rw [if_neg (by omega)] at hcode
    have hnone : Operation.ofByte b = .none := Operation.code_inj.mp hcode
    rw [if_pos (by omega), hnone]
  · rw [if_pos (by omega)] at hcode
    rw [if_neg (by omega), ← hcode, operation_of]

/-- Every number is an instruction, whether its low byte names an operation or not. -/
theorem decode_of (word : Int) : decode word = .ok (.decode (UInt16.ofInt word)) := by
  have hcast := Word.toNat_ofInt word
  have hlow := toNat_low word
  have hbyte : word % 65536 % 256 = (Word.low (UInt16.ofInt word)).toNat := by omega
  unfold decode Instruction.decode
  simp only [hbyte, operationOfByte_of]
  simp only [ok_bind, pure_eq_ok, ← hcast]
  norm_cast

theorem execute_of (m : Machine) (stream : Option String) (o : Operation) :
    (of m stream).execute o =
      .ok (of (m.execute o) (Session.streamed stream m (m.execute o))) := by
  have hfirst : (of m stream).slot 0 = _ := slot_of m stream .first
  have hsecond : (of m stream).slot 1 = _ := slot_of m stream .second
  by_cases hpoke : o = .poke
  · subst hpoke
    have hemit := poke_of m stream (m.slot .second).toNat
    rw [Word.ofInt_toNat] at hemit
    simp only [execute, hsecond]
    exact hemit
  · have hsilent : (m.execute o).emitted = m.emitted := by
      rw [Machine.execute_eq]
      exact if_neg hpoke
    rw [Session.streamed_of_emitted stream hsilent]
    cases o with
    | none => rfl
    | halt => rfl
    | poke => exact absurd rfl hpoke
    | copy =>
      simp only [execute, hfirst]
      rfl
    | add =>
      have hsum : (((m.slot .first).toNat : Int) + (m.slot .second).toNat) % 65536 =
          (m.slot .first + m.slot .second).toNat := by
        rw [UInt16.toNat_add]
        norm_cast
      simp only [execute, hfirst, hsecond, ok_bind, pure_eq_ok]
      exact congrArg (fun n => Except.ok { of m stream with out := n }) hsum
    | jumpIfZero =>
      have hzero : (((m.slot .second).toNat : Int) = 0) ↔ m.slot .second = 0 := by
        rw [← UInt16.toNat_inj]
        norm_cast
      simp only [execute, hfirst, hsecond, ok_bind, hzero, Machine.execute]
      split <;> rfl

theorem fetchTarget_of (m : Machine) (stream : Option String) (i : Instruction) :
    (of m stream).fetchTarget i =
      (((m.fetchTarget i).1.toNat : Int), of (m.fetchTarget i).2 stream) := by
  unfold fetchTarget Machine.fetchTarget
  cases i.writeBack with
  | false => rfl
  | true => exact fetch_of m stream

def shownTexts (m : Machine) : List String :=
  [m.next.opcode.hex ++ " " ++ m.instruction.operation.name,
    m.instruction.mnemonic (m.next.operands.map fun w => (w.toNat : Int)) m.next.target.toNat]

theorem fetchInstruction_of (m : Machine) (stream : Option String) :
    (of m stream).fetchInstruction =
      .ok ((m.instruction, m.next.target.toNat, shownTexts m), of m.fetchInstruction.2 stream) := by
  have hcount := Instruction.argumentCount_decode_lt m.fetch.1
  have hslots : 0 + (Instruction.decode m.fetch.1).argumentCount.toNat ≤ 3 := by omega
  simp only [fetchInstruction, fetch_of, decode_of, Word.ofInt_toNat, fetchTarget_of, ok_bind]
  rw [fetchOperands_of stream 0 _ _ hslots, ok_bind, mnemonic_of, ok_bind]
  rfl

theorem storeResult_of (m : Machine) (stream : Option String) (i : Instruction) (target : Word) :
    (of m stream).storeResult i target.toNat =
      .ok (of (if i.writeBack then m.store target m.out else m) stream) := by
  unfold storeResult
  cases i.writeBack with
  | false => rfl
  | true =>
    have hwrite := write_of m stream target.toNat m.out.toNat
    rw [Word.ofInt_toNat, Word.ofInt_toNat] at hwrite
    exact hwrite

/-- A step finds everything it needs, for what it does and for the texts that show it. -/
theorem step_of (m : Machine) (stream : Option String) :
    (of m stream).step = .ok (shownTexts m ++ [m.instruction.operation.name],
      of m.step (Session.streamed stream m m.step)) := by
  let i := m.instruction
  let ready := m.fetchInstruction.2.dereference i
  let done := ready.execute i.operation
  let stored := if i.writeBack then done.store m.next.target done.out else done
  have hstep : m.step = { stored with steps := stored.steps + 1 } := rfl
  have hready : ready.emitted = m.emitted := by
    change (m.fetchInstruction.2.dereference i).emitted = m.emitted
    rw [Machine.dereference_eq, Machine.fetchInstruction_snd]
  have hstored : stored.emitted = done.emitted := by
    change (if i.writeBack then done.store m.next.target done.out else done).emitted = _
    split <;> rfl
  have hstreamed : Session.streamed stream ready done = Session.streamed stream m m.step := by
    unfold Session.streamed Session.outputSince
    rw [hready, hstep, ← hstored]
  have hexecute := execute_of ready stream i.operation
  have hstore := storeResult_of done (Session.streamed stream ready done) i m.next.target
  unfold step
  rw [fetchInstruction_of, ok_bind]
  dsimp only
  rw [dereference_of, ok_bind, hexecute, ok_bind, hstore, ok_bind, hstreamed, hstep]
  rfl

theorem runFrom_of (executed budget : ℕ) (m : Machine) (stream : Option String) :
    runFrom executed budget (of m stream) =
      .ok ((Machine.runFrom executed budget m).1,
        of (Machine.runFrom executed budget m).2
          (Session.streamed stream m (Machine.runFrom executed budget m).2)) := by
  induction budget generalizing executed m stream with
  | zero =>
    simp only [runFrom, Machine.runFrom, Session.streamed_of_emitted stream rfl]
  | succ budget ih =>
    have hhalted : (of m stream).halted = m.halted := rfl
    simp only [runFrom, Machine.runFrom, hhalted]
    split
    · rw [Session.streamed_of_emitted stream rfl]
    · have hfirst : m.Before m.step := .step m
      have hlater : m.step.Before (Machine.runFrom (executed + 1) budget m.step).2 := by
        rw [Machine.runFrom_eq]
        exact .run budget m.step
      rw [step_of, ok_bind, ih, Session.streamed_trans stream hfirst hlater]

/-- What comes of storing words: the first number that is no word is an error. -/
def stored (index : ℕ) (words : List Int) : Except ImageError Unit :=
  match words[(words.takeWhile IsWord).length]? with
  | some n => .error (.badCell (index + (words.takeWhile IsWord).length) n)
  | none => .ok ()

theorem storeFrom_of (m : Machine) (stream : Option String) (base : Int) (index : ℕ)
    (words : List Int) :
    storeFrom base index words (of m stream) =
      .ok (stored index words,
        of { m with
          memory := m.memory.fill (UInt16.ofInt (base + index))
            ((words.takeWhile IsWord).map UInt16.ofInt) } stream) := by
  induction words generalizing index m with
  | nil => rfl
  | cons n rest ih =>
    by_cases hword : IsWord n
    · have hnext : UInt16.ofInt (base + index) + 1 = UInt16.ofInt (base + (index + 1 : ℕ)) := by
        have hsum : base + (index + 1 : ℕ) = base + index + 1 := by omega
        rw [hsum, UInt16.ofInt_add (base + index), UInt16.ofInt_one]
      have hstored : stored index (n :: rest) = stored (index + 1) rest := by
        unfold stored
        rw [List.takeWhile_cons_of_pos (by simpa using hword)]
        simp only [List.length_cons, List.getElem?_cons_succ, Nat.add_assoc, Nat.add_comm 1]
      simp only [storeFrom, hword, not_true_eq_false, if_false, write_of, ok_bind]
      rw [ih, hstored, List.takeWhile_cons_of_pos (by simpa using hword), ← hnext]
      rfl
    · have hnone : (n :: rest).takeWhile IsWord = [] :=
        List.takeWhile_cons_of_neg (by simpa using hword)
      unfold stored
      simp only [storeFrom, hword, not_false_eq_true, if_true, hnone]
      rfl

/-- An image that fails at any point leaves the machine in one piece. -/
theorem load_of (m : Machine) (stream : Option String) (words : List Int) (entry base : Int) :
    (of m stream).load words entry base =
      .ok ((m.load words entry base).1, of (m.load words entry base).2 stream) := by
  unfold load Machine.load
  split
  · rfl
  · split
    · rfl
    · next hentry =>
      have hpc := Word.toNat_ofInt_of_isWord (not_not.mp hentry)
      have hbase : base + ((0 : ℕ) : Int) = base := Int.add_zero base
      rw [storeFrom_of, hbase, ok_bind]
      simp only [stored, Nat.zero_add]
      cases words[(words.takeWhile IsWord).length]? with
      | some n => rfl
      | none => simp only [pure_eq_ok, of, hpc]

/-- Whatever is asked for, the bare machine answers, and comes to the state the machine comes
to. -/
theorem perform_of (m : Machine) (stream : Option String) (r : Request) :
    (of m stream).perform r =
      .ok (.of (m.respond r).1,
        of (m.respond r).2 (Session.streamed stream m (m.respond r).2)) := by
  cases r with
  | load words entry base =>
    have hsilent : (m.load words entry base).2.emitted = m.emitted := by
      rw [Machine.load_eq]
    simp only [perform, load_of, Machine.respond, Session.streamed_of_emitted stream hsilent]
    rfl
  | read address =>
    simp only [perform, Machine.respond, read_of, Session.streamed_of_emitted stream rfl]
    rfl
  | write address value =>
    have hsilent : (m.store (UInt16.ofInt address) (UInt16.ofInt value)).emitted = m.emitted := rfl
    simp only [perform, write_of, Machine.respond, Session.streamed_of_emitted stream hsilent]
    rfl
  | poke value =>
    simp only [perform, poke_of, Machine.respond]
    rfl
  | fetch =>
    have hsilent : m.fetch.2.emitted = m.emitted := rfl
    simp only [perform, fetch_of, Machine.respond, Session.streamed_of_emitted stream hsilent]
    rfl
  | step =>
    simp only [perform, step_of, Machine.respond]
    rfl
  | execute i =>
    simp only [perform, execute_of, Machine.respond]
    rfl
  | run budget =>
    have hhalted : ∀ n text, (if (of n text).halted then "halted" else "step_limit") =
        n.ending.name := by
      intro n text
      unfold Machine.ending
      cases hn : n.halted <;> simp [of, hn, Ending.name]
    simp only [perform, runFrom_of, ok_bind, output_of, hhalted, Machine.respond]
    rfl

theorem performAll_of (s : Session) (requests : List Request) :
    (of s.machine s.stream).performAll requests =
      .ok ((s.performAll requests).1.map .of,
        of (s.performAll requests).2.machine (s.performAll requests).2.stream) := by
  induction requests generalizing s with
  | nil => rfl
  | cons r rest ih =>
    simp only [performAll, Session.performAll, perform_of, ok_bind]
    rw [← s.perform_answer, ← s.perform_stream, ← s.perform_machine, ih]
    rfl

theorem of_fresh (streaming : Bool) :
    of .fresh (if streaming then some "" else none) = fresh streaming := by
  have hmemory : (Vector.replicate 131072 (0 : UInt8)).toList = List.replicate 131072 0 :=
    Vector.toList_replicate
  unfold of fresh
  rw [← hmemory]
  rfl

theorem sound_of (m : Machine) (stream : Option String) : (of m stream).Sound where
  memory := by simp [of]
  pc := Word.isWord_toNat m.pc
  out := Word.isWord_toNat m.out
  slots := by
    exact ⟨by simp [of], fun v hv => Word.isWord_of_mem_map hv⟩
  emitted := by
    intro v hv
    obtain ⟨b, -, rfl⟩ := List.mem_map.mp hv
    have hb := UInt8.toNat_lt b
    omega
  output := by
    refine ⟨m.output, output_of m stream, ?_⟩
    simp [of, Machine.output]

/-- From a fresh machine on, after any requests in any order, nothing has broken down, all is in
its range, and nothing that can be asked for next breaks down. A session with typed registers
is in the same state and has given the same answers. -/
theorem fresh_performAll_sound (streaming : Bool) (requests : List Request) :
    ∃ replies d,
      (fresh streaming).performAll requests = .ok (replies, d) ∧
      d.Sound ∧
      (∀ r : Request, ∃ reply d', d.perform r = .ok (reply, d') ∧ d'.Sound) ∧
      ∀ tracing logging : Bool,
        let s := ((Session.start tracing logging streaming).performAll requests)
        replies = s.1.map .of ∧ d = of s.2.machine s.2.stream := by
  have hall := fun tracing logging =>
    performAll_of (Session.start tracing logging streaming) requests
  refine ⟨_, _, (congrArg (performAll · requests) (of_fresh streaming)).symm.trans
    (hall false false), sound_of _ _, ?_, ?_⟩
  · intro r
    exact ⟨_, _, perform_of _ _ r, sound_of _ _⟩
  · intro tracing logging
    have hsame := (hall false false).symm.trans (hall tracing logging)
    simp only [Except.ok.injEq, Prod.mk.injEq] at hsame
    exact hsame

end WordMachine.Bare
