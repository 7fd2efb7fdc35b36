import WordMachine.Proofs.Traced

/-!
Everything a session can be asked for, as requests in any order. A session answers as its
machine alone would, and its stream receives what the machine emits. The machine after a
request is a later state of the machine before it. What is logged is told from the machine too.
-/
namespace WordMachine

inductive Request
  | load (words : List Int) (entry base : Int)
  | read (address : Int)
  | write (address value : Int)
  | poke (value : Int)
  | fetch
  | step
  | execute (i : Instruction)
  | run (budget : Int)

inductive Answer
  | done
  | word (w : Word)
  | loaded (r : Except ImageError Unit)
  | outcome (o : Session.Outcome)

namespace Session

def perform (s : Session) : Request → Answer × Session
  | .load words entry base =>
    let (r, s) := s.load words entry base
    (.loaded r, s)
  | .read address => (.word (s.machine.memory.read (UInt16.ofInt address)), s)
  | .write address value => (.done, s.write address value)
  | .poke value => (.done, s.poke value)
  | .fetch =>
    let (w, s) := s.fetch
    (.word w, s)
  | .step => (.done, s.step)
  | .execute i => (.done, s.execute i.operation)
  | .run budget =>
    let (o, s) := s.run budget
    (.outcome o, s)

def performAll (s : Session) : List Request → List Answer × Session
  | [] => ([], s)
  | r :: rest =>
    let (a, s) := s.perform r
    let (as, s) := s.performAll rest
    (a :: as, s)

end Session

namespace Machine

def respond (m : Machine) : Request → Answer × Machine
  | .load words entry base => (.loaded (m.load words entry base).1, (m.load words entry base).2)
  | .read address => (.word (m.memory.read (UInt16.ofInt address)), m)
  | .write address value => (.done, m.store (UInt16.ofInt address) (UInt16.ofInt value))
  | .poke value => (.done, m.poke (UInt16.ofInt value))
  | .fetch => (.word m.fetch.1, m.fetch.2)
  | .step => (.done, m.step)
  | .execute i => (.done, m.execute i.operation)
  | .run budget =>
    let last := m.run budget.toNat
    (.outcome ⟨last.output, m.executed budget.toNat, last.ending⟩, last)

theorem load_eq (m : Machine) (words : List Int) (entry base : Int) :
    (m.load words entry base).2 =
      { m with
        memory := (m.load words entry base).2.memory
        pc := (m.load words entry base).2.pc } := by
  unfold load
  split
  · rfl
  · split
    · rfl
    · dsimp only
      split <;> rfl

theorem before_respond (m : Machine) (r : Request) : m.Before (m.respond r).2 := by
  cases r with
  | load words entry base =>
    change m.Before (m.load words entry base).2
    rw [load_eq]
    exact .of_eq rfl rfl
  | read address => exact .refl m
  | write address value => exact .of_eq rfl rfl
  | poke value => exact .poke m _
  | fetch => exact .of_eq rfl rfl
  | step => exact .step m
  | execute i => exact .execute m i.operation
  | run budget => exact .run budget.toNat m

/-- What a machine does to answer, as far as it is traced. -/
def doings (m : Machine) : Request → List Event
  | .poke value => [.poke (Word.low (UInt16.ofInt value))]
  | .step => m.events
  | .execute i => m.executeEvents i.operation
  | .run budget => m.record budget.toNat
  | _ => []

/-- A load is noted if it succeeds. -/
def loadRemark? (m : Machine) (words : List Int) (entry base : Int) : Option Event :=
  match (m.load words entry base).1 with
  | .ok () => some (.loaded words.length base entry)
  | .error _ => none

/-- What is noted of a request itself. -/
def remark? (m : Machine) : Request → Option Event
  | .load words entry base => m.loadRemark? words entry base
  | .run budget =>
    let last := m.run budget.toNat
    some (.stopped (m.executed budget.toNat) last.ending last.pc)
  | _ => none

def respondAll (m : Machine) : List Request → List Answer × Machine
  | [] => ([], m)
  | r :: rest =>
    let (a, m) := m.respond r
    let (as, m) := m.respondAll rest
    (a :: as, m)

theorem before_respondAll (m : Machine) (requests : List Request) :
    m.Before (m.respondAll requests).2 := by
  induction requests generalizing m with
  | nil => exact .refl m
  | cons r rest ih => exact (m.before_respond r).trans (ih (m.respond r).2)

end Machine

namespace Session

@[simp] theorem machine_note (s : Session) (e : Event) : (s.note e).machine = s.machine := by
  unfold note
  split <;> rfl

@[simp] theorem stream_note (s : Session) (e : Event) : (s.note e).stream = s.stream := by
  unfold note
  split <;> rfl

theorem machine_elim_note (s : Session) (e? : Option Event) :
    (e?.elim s s.note).machine = s.machine := by
  cases e? with
  | none => rfl
  | some e => exact s.machine_note e

theorem stream_elim_note (s : Session) (e? : Option Event) :
    (e?.elim s s.note).stream = s.stream := by
  cases e? with
  | none => rfl
  | some e => exact s.stream_note e

theorem load_eq (s : Session) (words : List Int) (entry base : Int) :
    let r := s.machine.load words entry base
    let later := s.after r.2 []
    s.load words entry base =
      (r.1, (s.machine.loadRemark? words entry base).elim later later.note) := by
  intro r later
  have hemitted : (s.machine.load words entry base).2.emitted = s.machine.emitted := by
    rw [Machine.load_eq]
  unfold load Machine.loadRemark? later r
  rw [s.ask_eq hemitted]
  cases (s.machine.load words entry base).1 <;> rfl

theorem load_answer (s : Session) (words : List Int) (entry base : Int) :
    (s.load words entry base).1 = (s.machine.load words entry base).1 := by
  rw [load_eq]

theorem load_machine (s : Session) (words : List Int) (entry base : Int) :
    (s.load words entry base).2.machine = (s.machine.load words entry base).2 := by
  rw [load_eq]
  exact machine_elim_note _ _

theorem load_stream (s : Session) (words : List Int) (entry base : Int) :
    (s.load words entry base).2.stream = s.stream := by
  have hemitted : (s.machine.load words entry base).2.emitted = s.machine.emitted := by
    rw [Machine.load_eq]
  have hsame : (s.after (s.machine.load words entry base).2 []).stream = s.stream :=
    streamed_of_emitted s.stream hemitted
  rw [load_eq]
  exact (stream_elim_note _ _).trans hsame

/-- Every request to a session is one to its machine. The stream receives what the machine emits,
and the log what it does, while it is traced, and what is noted of the request. Nothing of this
decides anything. -/
theorem perform_eq (s : Session) (r : Request) :
    let later := s.after (s.machine.respond r).2 (s.machine.doings r)
    s.perform r = ((s.machine.respond r).1, (s.machine.remark? r).elim later later.note) := by
  intro later
  cases r with
  | load words entry base =>
    have hperform : s.perform (.load words entry base) =
        (.loaded (s.load words entry base).1, (s.load words entry base).2) := rfl
    rw [hperform, load_eq]
    rfl
  | read address => exact Prod.ext rfl s.after_self.symm
  | write address value =>
    have hwrite : s.write address value = s.after
        (s.machine.store (UInt16.ofInt address) (UInt16.ofInt value)) [] := s.act_eq rfl
    exact Prod.ext rfl hwrite
  | poke value => exact Prod.ext rfl (s.emit_eq _)
  | fetch =>
    have hfetch : s.fetch = (s.machine.fetch.1, s.after s.machine.fetch.2 []) := s.ask_eq rfl
    have hperform : s.perform .fetch = (.word s.fetch.1, s.fetch.2) := rfl
    rw [hperform, hfetch]
    rfl
  | step => exact Prod.ext rfl s.step_eq
  | execute i => exact Prod.ext rfl (s.execute_eq i.operation)
  | run budget =>
    have hperform : s.perform (.run budget) =
        (.outcome (s.run budget).1, (s.run budget).2) := rfl
    rw [hperform, run_eq_after]
    rfl

theorem perform_answer (s : Session) (r : Request) :
    (s.perform r).1 = (s.machine.respond r).1 := by
  rw [perform_eq]

theorem perform_machine (s : Session) (r : Request) :
    (s.perform r).2.machine = (s.machine.respond r).2 := by
  rw [perform_eq]
  exact machine_elim_note _ _

theorem perform_stream (s : Session) (r : Request) : (s.perform r).2.stream =
    streamed s.stream s.machine (s.machine.respond r).2 := by
  rw [perform_eq]
  exact stream_elim_note _ _

/-- So it does over any requests. -/
theorem performAll_eq (s : Session) (requests : List Request) :
    (s.performAll requests).1 = (s.machine.respondAll requests).1 ∧
    (s.performAll requests).2.machine = (s.machine.respondAll requests).2 ∧
    (s.performAll requests).2.stream =
      streamed s.stream s.machine (s.machine.respondAll requests).2 := by
  induction requests generalizing s with
  | nil => exact ⟨rfl, rfl, (streamed_of_emitted s.stream rfl).symm⟩
  | cons r rest ih =>
    have hmachine := s.perform_machine r
    obtain ⟨hanswers, hlast, hlater⟩ := ih (s.perform r).2
    rw [hmachine] at hanswers hlast hlater
    refine ⟨?_, hlast, ?_⟩
    · exact congrArg₂ List.cons (s.perform_answer r) hanswers
    · rw [perform_stream, streamed_trans s.stream (s.machine.before_respond r)
        ((s.machine.respond r).2.before_respondAll rest)] at hlater
      exact hlater

theorem before_performAll (s : Session) (requests : List Request) :
    s.machine.Before (s.performAll requests).2.machine := by
  rw [(s.performAll_eq requests).2.1]
  exact s.machine.before_respondAll requests

end Session

end WordMachine
