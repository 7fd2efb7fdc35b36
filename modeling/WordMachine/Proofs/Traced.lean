import WordMachine.Proofs.Emission
import WordMachine.Proofs.Running

/-!
What is seen of a session is what its machine does. Each part of a step brings the machine to a
later state, adds what it emits to the stream and its events to the log, and so do a step, which has
the events of its parts, and a run, which has those of its steps. Nothing of what is noted or
received comes back to the machine.
-/
namespace WordMachine

def Machine.counted (m : Machine) : Machine :=
  { m with steps := m.steps + 1 }

namespace Session

/-- The session when its machine has come to a later state by what the events tell. -/
def after (s : Session) (later : Machine) (events : List Event) : Session where
  machine := later
  tracing := s.tracing
  logging := s.logging
  stream := streamed s.stream s.machine later
  log := if s.tracing && s.logging then s.log ++ events else s.log

@[simp] theorem machine_after (s : Session) (later : Machine) (events : List Event) :
    (s.after later events).machine = later := rfl

theorem after_nil (s : Session) {later : Machine} (h : later.emitted = s.machine.emitted) :
    s.after later [] = { s with machine := later } := by
  unfold after
  rw [streamed_of_emitted s.stream h]
  simp

theorem after_self (s : Session) : s.after s.machine [] = s :=
  s.after_nil rfl

theorem after_after (s : Session) {m later : Machine} (h : s.machine.Before m)
    (h' : m.Before later) (events more : List Event) :
    (s.after m events).after later more = s.after later (events ++ more) := by
  have hlog : (if s.tracing && s.logging then
        (if s.tracing && s.logging then s.log ++ events else s.log) ++ more
      else if s.tracing && s.logging then s.log ++ events else s.log) =
      if s.tracing && s.logging then s.log ++ (events ++ more) else s.log := by
    split
    · rw [← Array.toList_inj]
      simp
    · rfl
  unfold after
  dsimp only
  rw [streamed_trans s.stream h h', hlog]

theorem trace_eq (s : Session) (e : Event) : s.trace e = s.after s.machine [e] := by
  unfold trace note after
  rw [streamed_of_emitted s.stream rfl]
  obtain ⟨machine, tracing, logging, stream, log⟩ := s
  cases tracing <;> cases logging <;> simp

theorem trace_after (s : Session) {later : Machine} (h : s.machine.Before later)
    (events : List Event) (e : Event) :
    (s.after later events).trace e = s.after later (events ++ [e]) := by
  rw [trace_eq]
  exact s.after_after h (.refl later) events [e]

theorem act_eq (s : Session) {action : Machine → Machine}
    (h : (action s.machine).emitted = s.machine.emitted) :
    s.act action = s.after (action s.machine) [] :=
  (s.after_nil h).symm

/-- What neither halts nor emits has one event, the one that is noted of it. -/
theorem trace_act (s : Session) {action : Machine → Machine}
    (hhalted : (action s.machine).halted = s.machine.halted)
    (hemitted : (action s.machine).emitted = s.machine.emitted) (e : Event) :
    (s.act action).trace e = s.after (action s.machine) [e] := by
  rw [s.act_eq hemitted]
  exact s.trace_after (.of_eq hhalted hemitted) [] e

theorem ask_eq {α : Type} (s : Session) {action : Machine → α × Machine}
    (h : (action s.machine).2.emitted = s.machine.emitted) :
    s.ask action = ((action s.machine).1, s.after (action s.machine).2 []) :=
  Prod.ext rfl (s.after_nil h).symm

theorem ask_after {α : Type} (s : Session) {later : Machine} {action : Machine → α × Machine}
    (h : s.machine.Before later)
    (h' : (action later).2.halted = later.halted ∧ (action later).2.emitted = later.emitted)
    (events : List Event) :
    (s.after later events).ask action = ((action later).1, s.after (action later).2 events) := by
  have hsilent : later.Before (action later).2 := .of_eq h'.1 h'.2
  have hnothing := s.after_after h hsilent events []
  rw [List.append_nil] at hnothing
  rw [ask_eq _ h'.2, machine_after, hnothing]

/-- The stream receives the character that the machine emits. -/
theorem emit_eq (s : Session) (w : Word) :
    s.emit w = s.after (s.machine.poke w) [.poke w.low] := by
  have hmore : s.machine.emitted.toList ++ [w.low] = (s.machine.poke w).emitted.toList := by
    simp [Machine.poke]
  have hone : characters [w.low] = String.singleton (Char.ofNat w.low.toNat) := rfl
  have hreceived : (s.act (·.poke w)).receive (Char.ofNat w.low.toNat) =
      s.after (s.machine.poke w) [] := by
    unfold after streamed
    rw [outputSince_eq hmore, hone]
    obtain ⟨machine, tracing, logging, stream, log⟩ := s
    cases stream <;> simp [act, ask, receive]
  unfold emit
  dsimp only
  rw [hreceived]
  exact s.trace_after (.poke s.machine w) [] _

theorem execute_eq (s : Session) (o : Operation) :
    s.execute o = s.after (s.machine.execute o) (s.machine.executeEvents o) := by
  cases o with
  | poke => exact s.emit_eq _
  | jumpIfZero =>
    have hemitted : (s.machine.execute .jumpIfZero).emitted = s.machine.emitted := by
      rw [Machine.execute_eq]
      rfl
    exact s.act_eq hemitted
  | _ => exact s.act_eq rfl

theorem dereferenceSlot_eq (s : Session) (slot : Slot) :
    s.dereferenceSlot slot = s.after (s.machine.dereferenceSlot slot)
      [.read ((s.machine.dereferenceSlot slot).slot slot) (s.machine.slot slot)] :=
  s.trace_act rfl rfl _

theorem storeResult_eq (s : Session) (address : Word) :
    s.storeResult address = s.after (s.machine.store address s.machine.out)
      [.write s.machine.out address] :=
  s.trace_act rfl rfl _

/-- Reading one slot does not change what the other holds, so that both reads can be told from the
machine before and after. -/
theorem dereference_eq (s : Session) (i : Instruction) :
    s.dereference i = s.after (s.machine.dereference i)
      (Machine.readEvents s.machine (s.machine.dereference i) i) := by
  have hfirst : s.machine.Before (s.machine.dereferenceSlot .first) := .of_eq rfl rfl
  have hsecond : (s.machine.dereferenceSlot .first).Before
      ((s.machine.dereferenceSlot .first).dereferenceSlot .second) := .of_eq rfl rfl
  unfold dereference Machine.dereference Machine.readEvents
  cases i.readFirst with
  | false =>
    cases i.readSecond with
    | false => exact s.after_self.symm
    | true => exact s.dereferenceSlot_eq .second
  | true =>
    cases i.readSecond with
    | false => exact s.dereferenceSlot_eq .first
    | true =>
      simp only [if_true]
      rw [dereferenceSlot_eq, dereferenceSlot_eq, machine_after, after_after s hfirst hsecond]
      simp [Machine.slot_dereferenceSlot]

/-- The two lines that show an instruction are written when its word and when all its words are
fetched. -/
theorem fetchInstruction_eq (s : Session) :
    let m := s.machine
    let loaded := m.fetchInstruction.2
    s.fetchInstruction = (m.next, s.after loaded
      [.fetch (m.snapshot m.pc) m.next.opcode m.instruction.operation,
        .operands (loaded.snapshot m.pc) m.instruction m.next.operands m.next.target]) := by
  intro m loaded
  have hfetched : m.Before m.fetch.2 := .of_eq rfl rfl
  have htargeted : m.Before (m.fetch.2.fetchTarget m.instruction).2 := by
    rw [Machine.fetchTarget_snd]
    exact .of_eq rfl rfl
  have hloaded : m.Before loaded := by
    unfold loaded
    rw [Machine.fetchInstruction_snd]
    exact .of_eq rfl rfl
  have hinstruction : Instruction.decode m.fetch.1 = m.instruction := rfl
  unfold fetchInstruction fetch
  rw [s.ask_eq rfl]
  dsimp only
  rw [hinstruction, trace_after s hfetched]
  rw [ask_after s hfetched (by
    rw [Machine.fetchTarget_snd]
    exact ⟨rfl, rfl⟩)]
  dsimp only
  rw [ask_after s htargeted (by
    rw [Machine.fetchOperands_snd]
    exact ⟨rfl, rfl⟩)]
  exact congrArg (Prod.mk _) (trace_after s hloaded _ _)

theorem finish_eq (s : Session) (start : Word) (o : Operation) :
    s.finish start o =
      s.after s.machine.counted [.execution (s.machine.counted.snapshot start) o] :=
  s.trace_act rfl rfl _

theorem writeBack_eq (s : Session) (f : Fetched) :
    s.writeBack f =
      s.after
        (if f.instruction.writeBack then s.machine.store f.target s.machine.out else s.machine)
        (if f.instruction.writeBack then [.write s.machine.out f.target] else []) := by
  unfold writeBack
  cases f.instruction.writeBack with
  | false => exact s.after_self.symm
  | true => exact s.storeResult_eq f.target

theorem step_eq (s : Session) : s.step = s.after s.machine.step s.machine.events := by
  let m := s.machine
  let i := m.next.instruction
  let loaded := m.fetchInstruction.2
  let ready := loaded.dereference i
  let done := ready.execute i.operation
  let stored := if i.writeBack then done.store m.next.target done.out else done
  let shown : List Event := [.fetch (m.snapshot m.pc) m.next.opcode i.operation,
    .operands (loaded.snapshot m.pc) i m.next.operands m.next.target]
  let read := shown ++ Machine.readEvents loaded ready i
  let executed := read ++ ready.executeEvents i.operation
  let wrote := executed ++ if i.writeBack then [.write done.out m.next.target] else []
  have hloaded : m.Before loaded := by
    unfold loaded
    rw [Machine.fetchInstruction_snd]
    exact .of_eq rfl rfl
  have hready : loaded.Before (loaded.dereference i) := by
    rw [Machine.dereference_eq]
    exact .of_eq rfl rfl
  have hdone : ready.Before (ready.execute i.operation) := .execute ready i.operation
  have hstored : done.Before
      (if i.writeBack then done.store m.next.target done.out else done) := by
    split <;> exact .of_eq rfl rfl
  have hexecuted : m.Before done := (hloaded.trans hready).trans hdone
  have hcounted : stored.Before stored.counted := .of_eq rfl rfl
  have hsteps : done.steps = m.steps := by
    unfold done ready loaded
    rw [Machine.execute_eq, Machine.dereference_eq, Machine.fetchInstruction_snd]
  -- the last line is written when the step is counted, but shows the registers of the execution
  have hsnapshot : stored.counted.snapshot m.pc =
      { done.snapshot m.pc with steps := m.steps + 1 } := by
    rw [← hsteps]
    unfold stored
    split <;> rfl
  calc s.step
    _ = ((((s.after loaded shown).dereference i).execute i.operation).writeBack m.next).finish
          m.pc i.operation := by
      unfold step
      rw [fetchInstruction_eq]
      rfl
    _ = (((s.after ready read).execute i.operation).writeBack m.next).finish m.pc i.operation := by
      rw [dereference_eq, machine_after, after_after s hloaded hready]
    _ = ((s.after done executed).writeBack m.next).finish m.pc i.operation := by
      rw [execute_eq, machine_after, after_after s (hloaded.trans hready) hdone]
    _ = (s.after stored wrote).finish m.pc i.operation := by
      rw [writeBack_eq, machine_after, after_after s hexecuted hstored]
    _ = s.after stored.counted
          (wrote ++ [.execution (stored.counted.snapshot m.pc) i.operation]) := by
      rw [finish_eq, machine_after, after_after s (hexecuted.trans hstored) hcounted]
    _ = s.after m.step m.events := by
      rw [hsnapshot]
      rfl

theorem runFrom_eq (executed budget : ℕ) (s : Session) :
    runFrom executed budget s = (executed + s.machine.executed budget,
      s.after (s.machine.run budget) (s.machine.record budget)) := by
  induction budget generalizing executed s with
  | zero => rw [runFrom, Machine.executed_zero, Machine.run_zero, Machine.record, after_self]; rfl
  | succ budget ih =>
    rw [runFrom, Machine.executed_succ, Machine.run_succ, Machine.record]
    split
    · rw [after_self]
      rfl
    · rw [step_eq, ih, machine_after, after_after s (.step _) (.run budget _)]
      exact congrArg (·, _) (by omega)

/-- A run notes its end, whether its steps are traced or not. -/
theorem run_eq_after (s : Session) (budget : Int) :
    let m := s.machine
    let last := m.run budget.toNat
    let executed := m.executed budget.toNat
    s.run budget = (⟨last.output, executed, last.ending⟩,
      (s.after last (m.record budget.toNat)).note (.stopped executed last.ending last.pc)) := by
  intro m last executed
  have hrun := s.runFrom_eq 0 budget.toNat
  rw [Nat.zero_add] at hrun
  unfold run
  rw [hrun]
  rfl

end Session

end WordMachine
