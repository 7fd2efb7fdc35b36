import WordMachine.Document.Writing
import WordMachine.Proofs.Artifacts
import WordMachine.Proofs.Budget
import WordMachine.Proofs.Mapping

/-!
Observing has no effect. A session answers and comes to the machine that the machine would by
itself, whether it is traced, logged or streamed, and so does the run of an image whatever is left
of it in files. A stream receives what is emitted and nothing else, and nothing is noted unless the
journal is for debugging.
-/
namespace WordMachine

namespace Session

/-- The bytes emitted over any requests are what the stream receives, each as its character. -/
theorem stream_performAll (s : Session) (requests : List Request) :
    ∃ bytes : List UInt8,
      (s.performAll requests).2.machine.emitted.toList = s.machine.emitted.toList ++ bytes ∧
      (s.performAll requests).2.stream = s.stream.map (· ++ characters bytes) := by
  obtain ⟨-, hmachine, hstream⟩ := s.performAll_eq requests
  obtain ⟨bytes, hbytes⟩ := (s.machine.before_respondAll requests).emitted
  refine ⟨bytes, ?_, ?_⟩
  · rw [hmachine, hbytes]
  · rw [hstream]
    unfold streamed
    rw [outputSince_eq hbytes]

theorem note_of_not_logging {s : Session} (h : s.logging = false) (e : Event) : s.note e = s := by
  unfold note
  rw [h]
  rfl

theorem log_perform {s : Session} (h : s.logging = false) (r : Request) :
    (s.perform r).2.log = s.log ∧ (s.perform r).2.logging = false := by
  have hafter (later : Machine) (events : List Event) :
      (s.after later events).log = s.log ∧ (s.after later events).logging = false := by
    unfold after
    rw [h, Bool.and_false]
    exact ⟨rfl, rfl⟩
  rw [perform_eq]
  cases s.machine.remark? r with
  | none => exact hafter _ _
  | some e =>
    obtain ⟨hlog, hlogging⟩ := hafter (s.machine.respond r).2 (s.machine.doings r)
    dsimp only [Option.elim_some]
    rw [note_of_not_logging hlogging]
    exact ⟨hlog, hlogging⟩

theorem log_performAll {s : Session} (h : s.logging = false) (requests : List Request) :
    (s.performAll requests).2.log = s.log := by
  induction requests generalizing s with
  | nil => rfl
  | cons r rest ih =>
    obtain ⟨hlog, hlogging⟩ := log_perform h r
    exact (ih hlogging).trans hlog

end Session

namespace Run

/-- How a run ends that nobody observes, and the machine that it leaves. -/
def unobserved (settings : Settings) (words : List Int) (entry : Int) :
    Except Fault (Session.Outcome × Machine) :=
  match Machine.fresh.load words (entryOf settings entry) 0 with
  | (.error e, _) => .error (.ofImage e)
  | (.ok (), m) =>
    let last := m.run settings.stepLimit
    .ok (⟨last.output, m.executed settings.stepLimit, last.ending⟩, last)

theorem perform_unobserved (settings : Settings) (words : List Int) (entry : Int)
    (logging streaming : Bool) :
    (perform settings words entry logging streaming).map (fun r => (r.1, r.2.machine)) =
      unobserved settings words entry := by
  have hanswer := (Session.start settings.trace logging streaming).load_answer words
    (entryOf settings entry) 0
  have hmachine := (Session.start settings.trace logging streaming).load_machine words
    (entryOf settings entry) 0
  unfold perform unobserved
  dsimp only
  generalize (Session.start settings.trace logging streaming).load words (entryOf settings entry) 0
    = loaded at hanswer hmachine ⊢
  obtain ⟨result, s⟩ := loaded
  have hload : Machine.fresh.load words (entryOf settings entry) 0 = (result, s.machine) :=
    Prod.ext hanswer.symm hmachine.symm
  rw [hload]
  cases result with
  | error e => rfl
  | ok u =>
    obtain ⟨houtcome, hlast, -⟩ := s.run_eq settings.stepLimit
    rw [Int.toNat_natCast] at houtcome hlast
    dsimp only [Except.map]
    rw [houtcome, hlast]

theorem perform_ok {settings : Settings} {words : List Int} {entry : Int}
    {logging streaming : Bool} {o : Session.Outcome} {s : Session}
    (h : perform settings words entry logging streaming = .ok (o, s)) :
    s = ((Session.start settings.trace logging streaming).performAll
      [.load words (entryOf settings entry) 0, .run settings.stepLimit]).2 ∧
    o.output = s.machine.output := by
  unfold perform at h
  dsimp only at h
  split at h
  · cases h
  · next loaded hload =>
    have hrun : loaded.run settings.stepLimit = (o, s) := Except.ok.inj h
    have houtput := (loaded.run_counts settings.stepLimit).2.2.1
    rw [hrun] at houtput
    refine ⟨?_, houtput⟩
    dsimp only [Session.performAll, Session.perform]
    rw [hload]
    dsimp only
    rw [hrun]

theorem stream_perform {settings : Settings} {words : List Int} {entry : Int}
    {logging streaming : Bool} {o : Session.Outcome} {s : Session}
    (h : perform settings words entry logging streaming = .ok (o, s)) :
    s.stream = if streaming then some o.output else none := by
  obtain ⟨hlast, houtput⟩ := perform_ok h
  obtain ⟨bytes, hemitted, hstream⟩ :=
    (Session.start settings.trace logging streaming).stream_performAll
      [.load words (entryOf settings entry) 0, .run settings.stepLimit]
  rw [← hlast] at hemitted hstream
  have hall : o.output = Session.characters bytes := by
    rw [houtput]
    exact congrArg Session.characters hemitted
  rw [hstream, hall]
  cases streaming with
  | true => exact congrArg some String.empty_append
  | false => rfl

/-- The session of a run of an image, which is what the run is before its artifacts. -/
def session (docs : Documents) (h : Host) (words : List Int) (entry : Int) (settings : Value)
    (streaming : Bool) :
    Except Fault (Session.Outcome × Session) :=
  (Settings.ofValue docs h.files settings).bind fun settings =>
    perform settings words entry h.isDebugging streaming

theorem image_fst (docs : Documents) (h : Host) (words : List Int) (entry : Int) (settings : Value)
    (streaming : Bool) (artifacts : Option String) :
    (image docs h words entry settings streaming artifacts).1 =
      (session docs h words entry settings streaming).bind fun r =>
        if h.isDebugging && artifacts.any fun directory => (Path.ofText directory).hasNull then
          .error (.file .nullByte)
        else .ok ⟨r.1, r.2.stream⟩ := by
  unfold image session
  cases Settings.ofValue docs h.files settings with
  | error f => rfl
  | ok settings =>
    dsimp only [Except.bind]
    cases perform settings words entry h.isDebugging streaming with
    | error f => rfl
    | ok r =>
      cases artifacts with
      | none => simp [Except.map]
      | some directory =>
        cases hdebugging : h.isDebugging with
        | false => simp [Host.isDebugging_debug, hdebugging, Except.map]
        | true =>
          simp only [Host.isDebugging_debug, hdebugging, if_true, leaveArtifacts_fst, Bool.true_and,
            Option.any_some]
          split <;> rfl

theorem image_snd_of_not_isDebugging {docs : Documents} {h : Host} (hquiet : h.isDebugging = false)
    (words : List Int) (entry : Int) (settings : Value) (streaming : Bool)
    (artifacts : Option String) :
    (image docs h words entry settings streaming artifacts).2 = h := by
  unfold image
  split
  · rfl
  · split
    · rfl
    · rw [Host.debug_of_not_isDebugging hquiet]
      cases artifacts with
      | none => rfl
      | some directory => simp [hquiet]

end Run

/-- What stands around a run of an image and has no part in it: a host with its journal, a stream or
none, and the name of a directory for artifacts or none. There need not be such a directory, and
nothing need be writable in it, but a name has no null in it. -/
structure Observer where
  host : Host
  streaming : Bool
  artifacts : Option String
  named : ∀ directory ∈ artifacts, Char.ofNat 0 ∉ directory.toList

namespace Observer

def image (o : Observer) (docs : Documents) (words : List Int) (entry : Int) (settings : Value) :
    Except Fault Run × Host :=
  Run.image docs o.host words entry settings o.streaming o.artifacts

def session (o : Observer) (docs : Documents) (words : List Int) (entry : Int) (settings : Value) :
    Except Fault (Session.Outcome × Session) :=
  Run.session docs o.host words entry settings o.streaming

/-- The mapping that settings are given as, but for the trace. -/
def given (o : Observer) (docs : Documents) (settings : Value) : Except Fault Entries :=
  (Settings.given docs o.host.files settings).map (Entries.erase Settings.traceKey)

variable (o : Observer) (docs : Documents) (words : List Int) (entry : Int) (settings : Value)

theorem image_fst_eq : (o.image docs words entry settings).1 =
    (o.session docs words entry settings).map fun r => ⟨r.1, r.2.stream⟩ := by
  have hnamed : (o.artifacts.any fun directory => (Path.ofText directory).hasNull) = false := by
    cases hartifacts : o.artifacts with
    | none => rfl
    | some directory => exact Path.hasNull_ofText (o.named directory hartifacts)
  unfold image session
  rw [Run.image_fst, hnamed, Bool.and_false]
  cases Run.session docs o.host words entry settings o.streaming <;> rfl

theorem image_outcome : (o.image docs words entry settings).1.map Run.outcome =
    ((o.session docs words entry settings).map fun r => (r.1, r.2.machine)).map Prod.fst := by
  rw [image_fst_eq]
  cases o.session docs words entry settings <;> rfl

theorem session_unobserved :
    (o.session docs words entry settings).map (fun r => (r.1, r.2.machine)) =
      ((Settings.ofValue docs o.host.files settings).map Settings.untraced).bind fun s =>
        Run.unobserved s words entry := by
  unfold session Run.session
  cases Settings.ofValue docs o.host.files settings with
  | error f => rfl
  | ok s => exact Run.perform_unobserved s words entry o.host.isDebugging o.streaming

variable {o docs words entry settings} in
theorem session_ok {r : Session.Outcome × Session}
    (h : o.session docs words entry settings = .ok r) :
    ∃ s : Settings, Run.perform s words entry o.host.isDebugging o.streaming = .ok r := by
  unfold session Run.session at h
  cases hsettings : Settings.ofValue docs o.host.files settings with
  | error f =>
    rw [hsettings] at h
    cases h
  | ok s =>
    rw [hsettings] at h
    exact ⟨s, h⟩

theorem session_stream :
    (o.session docs words entry settings).map (·.2.stream) =
      (o.session docs words entry settings).map fun r =>
        if o.streaming then some r.1.output else none := by
  cases hsession : o.session docs words entry settings with
  | error f => rfl
  | ok r =>
    obtain ⟨s, hperform⟩ := session_ok hsession
    exact congrArg Except.ok (Run.stream_perform hperform)

theorem session_log (hquiet : o.host.isDebugging = false) :
    (o.session docs words entry settings).map (·.2.log) =
      (o.session docs words entry settings).map fun _ => #[] := by
  cases hsession : o.session docs words entry settings with
  | error f => rfl
  | ok r =>
    obtain ⟨s, hperform⟩ := session_ok hsession
    have hlog : r.2.log = #[] := by
      rw [(Run.perform_ok hperform).1]
      exact Session.log_performAll hquiet _
    exact congrArg Except.ok hlog

end Observer

/-- Observation has no effect. Sessions of equal machines, and runs of an image with settings that
differ in the trace at most, answer the same and come to the same machine, whoever observes them.
A stream receives the characters of what is emitted, in order, and a run's stream its output. Where
there is no debugging nothing is noted, and the host is as it was. -/
theorem observation_has_no_effect :
    (∀ (s s' : Session) (requests : List Request), s.machine = s'.machine →
      (s.performAll requests).1 = (s'.performAll requests).1 ∧
      (s.performAll requests).2.machine = (s'.performAll requests).2.machine) ∧
    (∀ (s : Session) (requests : List Request),
      (∃ bytes : List UInt8,
        (s.performAll requests).2.machine.emitted.toList = s.machine.emitted.toList ++ bytes ∧
        (s.performAll requests).2.stream = s.stream.map (· ++ Session.characters bytes)) ∧
      (s.logging = false → (s.performAll requests).2.log = s.log)) ∧
    (∀ (docs : Documents) (o o' : Observer) (words : List Int) (entry : Int)
        (settings settings' : Value),
      o.given docs settings = o'.given docs settings' →
      (o.image docs words entry settings).1.map Run.outcome =
        (o'.image docs words entry settings').1.map Run.outcome ∧
      (o.session docs words entry settings).map (fun r => (r.1, r.2.machine)) =
        (o'.session docs words entry settings').map fun r => (r.1, r.2.machine)) ∧
    ∀ (docs : Documents) (o : Observer) (words : List Int) (entry : Int) (settings : Value),
      (o.image docs words entry settings).1 =
        (o.session docs words entry settings).map (fun r => ⟨r.1, r.2.stream⟩) ∧
      (o.session docs words entry settings).map (·.2.stream) =
        (o.session docs words entry settings).map
          (fun r => if o.streaming then some r.1.output else none) ∧
      (o.host.isDebugging = false →
        (o.session docs words entry settings).map (·.2.log) =
          (o.session docs words entry settings).map (fun _ => #[]) ∧
        (o.image docs words entry settings).2 = o.host) := by
  refine ⟨?_, ?_, ?_, ?_⟩
  · intro s s' requests hmachine
    obtain ⟨hanswers, hlast, -⟩ := s.performAll_eq requests
    obtain ⟨hanswers', hlast', -⟩ := s'.performAll_eq requests
    rw [hanswers, hlast, hanswers', hlast', hmachine]
    exact ⟨rfl, rfl⟩
  · intro s requests
    exact ⟨s.stream_performAll requests, fun hquiet => Session.log_performAll hquiet requests⟩
  · intro docs o o' words entry settings settings' hgiven
    have hsession : (o.session docs words entry settings).map (fun r => (r.1, r.2.machine)) =
        (o'.session docs words entry settings').map fun r => (r.1, r.2.machine) := by
      rw [o.session_unobserved docs, o'.session_unobserved docs,
        Settings.map_untraced_ofValue hgiven]
    refine ⟨?_, hsession⟩
    rw [o.image_outcome docs, o'.image_outcome docs, hsession]
  · intro docs o words entry settings
    refine ⟨o.image_fst_eq docs words entry settings, o.session_stream docs words entry settings,
      ?_⟩
    intro hquiet
    exact ⟨o.session_log docs words entry settings hquiet,
      Run.image_snd_of_not_isDebugging hquiet words entry settings o.streaming o.artifacts⟩

namespace Observer

/-- One who debugs, with a stream, and looks for artifacts in a directory that is not there. -/
def curious : Observer where
  host := { Host.ofFiles .empty with journal := some ⟨true, false, none, 0⟩ }
  streaming := true
  artifacts := some "missing"
  named := by decide

/-- One who only waits for the answer. -/
def patient : Observer where
  host := .ofFiles .empty
  streaming := false
  artifacts := none
  named := by decide

end Observer

/-- A letter is poked and the machine halts. That is the answer to those who look on and to those
who do not, and the latter have nothing noted. -/
theorem observation_has_no_effect_on_letter :
    let words : List Int := [0x2004, 0, 0x41, 0x0005]
    let traced : Value := .map [(.text "trace", .scalar (.bool true))]
    let noted := Session.start true true true
    let silent := Session.start false false false
    let requests : List Request := [.load words 0 0, .run 100]
    (noted.machine = silent.machine ∧ silent.logging = false ∧
      (noted.performAll requests).2.machine = (silent.performAll requests).2.machine ∧
      (silent.performAll requests).2.log = silent.log) ∧
    Observer.curious.given .yaml traced = Observer.patient.given .yaml (.scalar .null) ∧
    Observer.patient.host.isDebugging = false ∧
    (Observer.curious.image .yaml words 0 traced).1.map Run.outcome = .ok ⟨"A", 2, .halted⟩ ∧
    (Observer.patient.image .yaml words 0 (.scalar .null)).2 = Observer.patient.host := by
  intro words traced noted silent requests
  obtain ⟨hsessions, hstreams, hruns, hobserved⟩ := observation_has_no_effect
  have hmachine : noted.machine = silent.machine := rfl
  have hlogging : silent.logging = false := rfl
  have hgiven :
      Observer.curious.given .yaml traced = Observer.patient.given .yaml (.scalar .null) :=
    congrArg Except.ok (Entries.erase_cons_of_same (by decide) _ [])
  have hquiet : Observer.patient.host.isDebugging = false := rfl
  have hpatient : (Observer.patient.image .yaml words 0 (.scalar .null)).1.map Run.outcome =
      .ok ⟨"A", 2, .halted⟩ := by
    decide +kernel
  refine ⟨⟨hmachine, hlogging, ?_, ?_⟩, hgiven, hquiet, ?_, ?_⟩
  · exact (hsessions noted silent requests hmachine).2
  · exact (hstreams silent requests).2 hlogging
  · exact
      (hruns .yaml Observer.curious Observer.patient words 0 traced (.scalar .null) hgiven).1.trans
        hpatient
  · exact ((hobserved .yaml Observer.patient words 0 (.scalar .null)).2.2 hquiet).2

end WordMachine
