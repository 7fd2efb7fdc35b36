import Mathlib.Data.List.GetD
import WordMachine.Proofs.Observation
import WordMachine.Proofs.Storage

/-!
When a run of an image is refused. Settings, image and entry point are checked one after the other,
and all of them before the first step, so that a run that is refused leaves nothing behind. Behind
the last step nothing is checked but the name for the artifacts, and only while debugging.
-/
namespace WordMachine.Run

/-- Why a run of an image is refused: wrong settings, more words than cells, no address to start at,
or a number that is no word. -/
inductive Refused (docs : Documents) (files : Files) (config : Value) (words : List Int)
    (entry : Int) : Prop
  | settings (f : Fault) (h : Settings.ofValue docs files config = .error f)
  | length (h : 65536 < words.length)
  | start (settings : Settings) (h : Settings.ofValue docs files config = .ok settings)
      (hentry : ¬ IsWord (entryOf settings entry))
  | word (n : Int) (hn : n ∈ words) (h : ¬ IsWord n)

def Admitted (settings : Settings) (words : List Int) (entry : Int) : Prop :=
  Fits words 0 ∧ IsWord (entryOf settings entry) ∧ ∀ n ∈ words, IsWord n

/-- Artifacts are to be left under a name that is no path. -/
def Misnamed (h : Host) (artifacts : Option String) : Prop :=
  h.isDebugging = true ∧ ∃ directory ∈ artifacts, Char.ofNat 0 ∈ directory.toList

/-- A machine that is about to run an image. Its words are at the beginning of memory, with zeros
behind them, and nothing has happened yet. -/
structure Begins (words : List Int) (start : Int) (m : Machine) : Prop where
  memory : ∀ a : Word, ((m.memory.read a).toNat : Int) = words.getD a.toNat 0
  pc : (m.pc.toNat : Int) = start
  fresh : m = { Machine.fresh with memory := m.memory, pc := m.pc }

/-- A run with the session that is left of it, whether it is refused or not. -/
def attempt (settings : Settings) (words : List Int) (entry : Int) (logging streaming : Bool) :
    Except Fault Session.Outcome × Session :=
  match (Session.start settings.trace logging streaming).load words (entryOf settings entry) 0 with
  | (.error e, s) => (.error (.ofImage e), s)
  | (.ok (), s) =>
    let (o, s) := s.run settings.stepLimit
    (.ok o, s)

section

variable {settings : Settings} {words : List Int} {entry : Int}

theorem perform_eq_attempt (settings : Settings) (words : List Int) (entry : Int)
    (logging streaming : Bool) :
    perform settings words entry logging streaming =
      (attempt settings words entry logging streaming).1.map fun o =>
        (o, (attempt settings words entry logging streaming).2) := by
  unfold perform attempt
  dsimp only
  generalize (Session.start settings.trace logging streaming).load words (entryOf settings entry) 0
    = loaded
  obtain ⟨e | u, s⟩ := loaded <;> rfl

theorem attempt_of_not_admitted (h : ¬ Admitted settings words entry) (logging streaming : Bool) :
    (∃ f, (attempt settings words entry logging streaming).1 = .error f) ∧
    (attempt settings words entry logging streaming).2.machine.steps = 0 ∧
    (attempt settings words entry logging streaming).2.machine.emitted = #[] ∧
    (attempt settings words entry logging streaming).2.stream =
      if streaming then some "" else none := by
  have hanswer := (Session.start settings.trace logging streaming).load_answer words
    (entryOf settings entry) 0
  have hmachine := (Session.start settings.trace logging streaming).load_machine words
    (entryOf settings entry) 0
  have hstream := (Session.start settings.trace logging streaming).load_stream words
    (entryOf settings entry) 0
  have hrefused : (Machine.fresh.load words (entryOf settings entry) 0).1 ≠ .ok () := by
    intro hok
    exact h ((Machine.load_fst_eq_ok_iff _ _ _ _).mp hok)
  -- a load changes the memory and the program counter only
  rw [Machine.load_eq] at hmachine
  unfold attempt
  generalize (Session.start settings.trace logging streaming).load words (entryOf settings entry) 0
    = loaded at hanswer hmachine hstream ⊢
  obtain ⟨e | u, s⟩ := loaded
  · dsimp only at hmachine hstream ⊢
    rw [hmachine]
    exact ⟨⟨_, rfl⟩, rfl, rfl, hstream⟩
  · exact absurd hanswer.symm hrefused

theorem begins_fill {start : Int} (hfits : Fits words 0) (hstart : IsWord start)
    (hwords : ∀ n ∈ words, IsWord n) :
    Begins words start { Machine.fresh with
      memory := Memory.zero.fill (UInt16.ofInt 0) (words.map UInt16.ofInt)
      pc := UInt16.ofInt start } := by
  have hstores := Memory.zero.stores_fill hfits.1 hfits.2 (Nat.le_refl _) (by simpa using hwords)
  rw [List.take_length] at hstores
  refine ⟨?_, Word.toNat_ofInt_of_isWord hstart, rfl⟩
  intro a
  by_cases hinside : a.toNat < words.length
  · have hcell := hstores.inside a (by omega) (by omega)
    have hindex : ((a.toNat : Int) - 0).toNat = a.toNat := by omega
    rw [hindex] at hcell
    rw [List.getD_eq_getElem?_getD, hcell]
    rfl
  · have hcell := hstores.outside a (by omega)
    rw [List.getD_eq_default _ _ (by omega)]
    dsimp only
    rw [hcell, Memory.read_zero]
    rfl

theorem attempt_of_admitted (h : Admitted settings words entry) (logging streaming : Bool) :
    ∃ s : Session, Begins words (entryOf settings entry) s.machine ∧
      attempt settings words entry logging streaming =
        (.ok (s.run settings.stepLimit).1, (s.run settings.stepLimit).2) := by
  obtain ⟨hfits, hentry, hwords⟩ := h
  obtain ⟨s, hload, hmachine⟩ :=
    (Session.start settings.trace logging streaming).exists_load_of_words hfits hentry hwords
  refine ⟨s, ?_, ?_⟩
  · rw [hmachine]
    exact begins_fill hfits hentry hwords
  · unfold attempt
    rw [hload]

end

theorem misnamed_iff (h : Host) (artifacts : Option String) :
    (h.isDebugging && artifacts.any fun directory => (Path.ofText directory).hasNull) = true ↔
      Misnamed h artifacts := by
  unfold Misnamed
  cases artifacts with
  | none => simp
  | some directory => simp [Path.hasNull_ofText_iff]

theorem not_refused_iff {docs : Documents} {files : Files} {config : Value} {words : List Int}
    {entry : Int} :
    ¬ Refused docs files config words entry ↔
      ∃ settings, Settings.ofValue docs files config = .ok settings ∧
        Admitted settings words entry := by
  constructor
  · intro hallowed
    cases hsettings : Settings.ofValue docs files config with
    | error f => exact absurd (.settings f hsettings) hallowed
    | ok settings =>
      refine ⟨settings, rfl, ⟨Int.le_refl 0, ?_⟩, ?_, ?_⟩
      · by_contra hlong
        exact hallowed (.length (by omega))
      · by_contra hentry
        exact hallowed (.start settings hsettings hentry)
      · intro n hn
        by_contra hword
        exact hallowed (.word n hn hword)
  · intro ⟨settings, hsettings, hfits, hentry, hwords⟩ hrefused
    have hfit := hfits.2
    cases hrefused with
    | settings f h =>
      rw [hsettings] at h
      cases h
    | length h => omega
    | start settings' h hstart =>
      rw [hsettings] at h
      obtain rfl := Except.ok.inj h
      exact hstart hentry
    | word n hn h => exact h (hwords n hn)

theorem not_admitted_of_refused {docs : Documents} {files : Files} {config : Value}
    {words : List Int} {entry : Int}
    (hrefused : Refused docs files config words entry) {settings : Settings}
    (hsettings : Settings.ofValue docs files config = .ok settings) :
    ¬ Admitted settings words entry := by
  intro hadmitted
  exact not_refused_iff.mpr ⟨settings, hsettings, hadmitted⟩ hrefused

section

variable {docs : Documents} {h : Host} {words : List Int} {entry : Int} {config : Value}

theorem image_of_refused (hrefused : Refused docs h.files config words entry) (streaming : Bool)
    (artifacts : Option String) :
    ∃ f, image docs h words entry config streaming artifacts = (.error f, h) := by
  unfold image
  cases hsettings : Settings.ofValue docs h.files config with
  | error f => exact ⟨f, rfl⟩
  | ok settings =>
    have hnot := not_admitted_of_refused hrefused hsettings
    obtain ⟨⟨f, hattempt⟩, -⟩ := attempt_of_not_admitted hnot h.isDebugging streaming
    dsimp only
    rw [perform_eq_attempt, hattempt]
    exact ⟨f, rfl⟩

/-- An image that is not refused is run, and only the name for its artifacts can be wrong then. -/
theorem image_of_not_refused (hallowed : ¬ Refused docs h.files config words entry)
    (streaming : Bool) (artifacts : Option String) :
    ∃ (settings : Settings) (s : Session), Settings.ofValue docs h.files config = .ok settings ∧
      Begins words (entryOf settings entry) s.machine ∧
      (Misnamed h artifacts →
        (image docs h words entry config streaming artifacts).1 = .error (.file .nullByte)) ∧
      (¬ Misnamed h artifacts →
        (image docs h words entry config streaming artifacts).1 =
          .ok ⟨(s.run settings.stepLimit).1,
            if streaming then some (s.run settings.stepLimit).1.output else none⟩) := by
  obtain ⟨settings, hsettings, hadmitted⟩ := not_refused_iff.mp hallowed
  obtain ⟨s, hbegins, hattempt⟩ := attempt_of_admitted hadmitted h.isDebugging streaming
  have hperform : perform settings words entry h.isDebugging streaming =
      .ok ((s.run settings.stepLimit).1, (s.run settings.stepLimit).2) := by
    rw [perform_eq_attempt, hattempt]
    rfl
  have hsession : session docs h words entry config streaming =
      .ok ((s.run settings.stepLimit).1, (s.run settings.stepLimit).2) := by
    unfold session
    rw [hsettings]
    exact hperform
  refine ⟨settings, s, hsettings, hbegins, ?_, ?_⟩
  · intro hmisnamed
    rw [image_fst, hsession]
    dsimp only [Except.bind]
    rw [if_pos ((misnamed_iff h artifacts).mpr hmisnamed)]
  · intro hnamed
    rw [image_fst, hsession]
    dsimp only [Except.bind]
    rw [if_neg (fun hnull => hnamed ((misnamed_iff h artifacts).mp hnull)),
      stream_perform hperform]

end

/-- A run of an image is refused before anything happens, or it comes to its end. If it is refused
nothing is run, emitted, received or noted, and no file is touched. Otherwise the outcome is that of
the machine with the image at the beginning of memory, unless artifacts are to be left under a name
that is no path. -/
theorem image_fails_iff (docs : Documents) (h : Host) (words : List Int) (entry : Int)
    (config : Value) (streaming : Bool) (artifacts : Option String) :
    ((∃ f, (image docs h words entry config streaming artifacts).1 = .error f) ↔
      Refused docs h.files config words entry ∨ Misnamed h artifacts) ∧
    (Refused docs h.files config words entry →
      (image docs h words entry config streaming artifacts).2 = h ∧
      ∀ settings, Settings.ofValue docs h.files config = .ok settings →
        (attempt settings words entry h.isDebugging streaming).2.machine.steps = 0 ∧
        (attempt settings words entry h.isDebugging streaming).2.machine.emitted = #[] ∧
        (attempt settings words entry h.isDebugging streaming).2.stream =
          if streaming then some "" else none) ∧
    (¬ Refused docs h.files config words entry →
      ∃ (settings : Settings) (s : Session), Settings.ofValue docs h.files config = .ok settings ∧
        Begins words (entryOf settings entry) s.machine ∧
        (s.run settings.stepLimit).1.executed ≤ settings.stepLimit ∧
        (Misnamed h artifacts →
          (image docs h words entry config streaming artifacts).1 = .error (.file .nullByte)) ∧
        (¬ Misnamed h artifacts →
          (image docs h words entry config streaming artifacts).1 =
            .ok ⟨(s.run settings.stepLimit).1,
              if streaming then some (s.run settings.stepLimit).1.output else none⟩)) := by
  refine ⟨?_, ?_, ?_⟩
  · by_cases hrefused : Refused docs h.files config words entry
    · obtain ⟨f, himage⟩ := image_of_refused hrefused streaming artifacts
      exact ⟨fun _ => .inl hrefused, fun _ => ⟨f, congrArg Prod.fst himage⟩⟩
    · obtain ⟨settings, s, -, -, hfails, hruns⟩ :=
        image_of_not_refused hrefused streaming artifacts
      by_cases hmisnamed : Misnamed h artifacts
      · exact ⟨fun _ => .inr hmisnamed, fun _ => ⟨_, hfails hmisnamed⟩⟩
      · constructor
        · intro ⟨f, hf⟩
          rw [hruns hmisnamed] at hf
          cases hf
        · intro hcause
          exact absurd hcause (not_or.mpr ⟨hrefused, hmisnamed⟩)
  · intro hrefused
    obtain ⟨f, himage⟩ := image_of_refused hrefused streaming artifacts
    refine ⟨congrArg Prod.snd himage, ?_⟩
    intro settings hsettings
    have hnot := not_admitted_of_refused hrefused hsettings
    exact (attempt_of_not_admitted hnot h.isDebugging streaming).2
  · intro hallowed
    obtain ⟨settings, s, hsettings, hbegins, hends⟩ :=
      image_of_not_refused hallowed streaming artifacts
    refine ⟨settings, s, hsettings, hbegins, ?_, hends⟩
    rw [(s.run_eq settings.stepLimit).1]
    exact Machine.executed_le _ _

def letterImage : List Int := [0x2004, 0, 0x41, 0x0005]

theorem not_refused_letter : ¬ Refused .yaml .empty (.scalar .null) letterImage 0 := by
  rw [not_refused_iff]
  refine ⟨.default, rfl, ?_, by decide, by decide⟩
  unfold Fits
  decide

def debugging : Host :=
  { Host.ofFiles .empty with journal := some ⟨true, false, none, 0⟩ }

/-- Nothing is wrong with the settings and the image. While debugging, and with a null for the name
of a directory, the run fails when all its steps are done and the letter is received. -/
theorem image_fails_after_run :
    ¬ Refused .yaml debugging.files (.scalar .null) letterImage 0 ∧
    (image .yaml debugging letterImage 0 (.scalar .null) true
      (some (String.singleton (Char.ofNat 0)))).1 = .error (.file .nullByte) ∧
    (attempt .default letterImage 0 true true).2.machine.steps = 2 ∧
    (attempt .default letterImage 0 true true).2.stream = some "A" := by
  have hmisnamed : Misnamed debugging (some (String.singleton (Char.ofNat 0))) :=
    ⟨rfl, _, rfl, by decide⟩
  obtain ⟨settings, s, -, -, hfails, -⟩ :=
    image_of_not_refused (h := debugging) not_refused_letter true
      (some (String.singleton (Char.ofNat 0)))
  exact ⟨not_refused_letter, hfails hmisnamed, by decide +kernel, by decide +kernel⟩

/-- The letter is emitted, and with a number behind the image that is no word nothing happens. -/
theorem image_fails_iff_letter :
    ¬ Refused .yaml .empty (.scalar .null) letterImage 0 ∧ ¬ Misnamed (Host.ofFiles .empty) none ∧
    (¬ ∃ f, (image .yaml (Host.ofFiles .empty) letterImage 0 (.scalar .null) true none).1 =
      .error f) ∧
    Refused .yaml .empty (.scalar .null) (letterImage ++ [70000]) 0 ∧
    (∃ f,
      (image .yaml (Host.ofFiles .empty) (letterImage ++ [70000]) 0 (.scalar .null) true none).1 =
        .error f) ∧
    (image .yaml (Host.ofFiles .empty) (letterImage ++ [70000]) 0 (.scalar .null) true none).2 =
      Host.ofFiles .empty := by
  have hnamed : ¬ Misnamed (Host.ofFiles .empty) none := by
    intro hmisnamed
    cases hmisnamed.1
  have hrefused :
      Refused .yaml (Host.ofFiles .empty).files (.scalar .null) (letterImage ++ [70000]) 0 :=
    .word 70000 (by decide) (by decide)
  obtain ⟨hruns, -, -⟩ :=
    image_fails_iff .yaml (.ofFiles .empty) letterImage 0 (.scalar .null) true none
  obtain ⟨hstops, hkeeps, -⟩ :=
    image_fails_iff .yaml (.ofFiles .empty) (letterImage ++ [70000]) 0 (.scalar .null) true none
  refine ⟨not_refused_letter, hnamed, ?_, hrefused, hstops.mpr (.inl hrefused), ?_⟩
  · intro hfails
    exact (hruns.mp hfails).elim not_refused_letter hnamed
  · exact (hkeeps hrefused).1

end WordMachine.Run
