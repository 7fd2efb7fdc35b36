import WordMachine.Proofs.Labels
import WordMachine.Record

/-!
What is expected of a record and what a run of its image does. Both load the same image and keep to
the same step limit, but a record starts at its own entry point, and a run at that of the settings
if they have one. So a run does what is expected of the record whose entry point is the one of the
settings, which is the record itself only where the settings do not move the entry point.
-/
namespace WordMachine

namespace Run

variable {settings : Settings} {words : List Int} {entry : Int}

theorem fits_of_unobserved_ok {r : Session.Outcome × Machine}
    (h : unobserved settings words entry = .ok r) :
    words.length ≤ 65536 ∧ IsWord (entryOf settings entry) ∧ ∀ n ∈ words, IsWord n := by
  unfold unobserved at h
  split at h
  · cases h
  · next m hload =>
    obtain ⟨-, hfit, hentry, hwords, -⟩ := Machine.load_ok hload
    exact ⟨by omega, hentry, hwords⟩

theorem exists_unobserved_ok (hfit : words.length ≤ 65536)
    (hentry : IsWord (entryOf settings entry)) (hwords : ∀ n ∈ words, IsWord n) :
    ∃ r, unobserved settings words entry = .ok r := by
  obtain ⟨m, hload⟩ := Machine.exists_load_ok .fresh (Int.le_refl 0) (by omega) hentry hwords
  unfold unobserved
  rw [hload]
  exact ⟨_, rfl⟩

end Run

namespace Record

def entryOf (record : Entries) : Except Fault Int :=
  (((record.get? (.text "entry")).getD (.int 0)).toInt .decimal).mapError .conversion

def configOf (record : Entries) : Value :=
  (record.get? (.text "config")).getD .null

/-- The image, the entry point and the settings of a record. -/
structure Asks (docs : Documents) (files : Files) (record : Entries) (image : List Word)
    (entry : Int) (settings : Settings) : Prop where
  image : imageOf record = .ok image
  entry : entryOf record = .ok entry
  settings : Settings.ofValue docs files (configOf record) = .ok settings

theorem imageOf_cons (s : Text) (rest : Entries) :
    imageOf ((.text "image", .text s) :: rest) = (Image.ofText s).mapError .ofImage :=
  rfl

def numbersOf (image : List Word) : List Int :=
  image.map fun w => (w.toNat : Int)

def runOf (settings : Settings) (image : List Word) (entry : Int) :
    Except Fault (Session.Outcome × Machine) :=
  Run.unobserved { settings with entryPoint := none } (numbersOf image) entry

def expected (image : List Word) (entry : Int) (r : Session.Outcome × Machine) : Expectations where
  outcome := r.1
  pc := r.2.pc
  memory := r.2.memory.nonzeroFrom image.length
  listing :=
    (Listing.text? (Listing.disassemble entry ((numbersOf image).drop entry.toNat))).getD "" ++ "\n"

variable {docs : Documents} {files : Files} {record : Entries} {image : List Word} {entry : Int}
  {settings : Settings}

theorem exists_listing {r : Session.Outcome × Machine} (h : runOf settings image entry = .ok r) :
    ∃ text, Listing.text? (Listing.disassemble entry ((numbersOf image).drop entry.toNat)) =
      some text := by
  obtain ⟨hfit, hentry, hwords⟩ := Run.fits_of_unobserved_ok h
  have hnonneg : 0 ≤ entry := hentry.1
  have hlength : Numeral.Writable (numbersOf image).length := Numeral.writable_of_le hfit
  obtain ⟨text, htext⟩ := CommandLine.exists_text_rowsFrom hwords hlength (.inl (.inl hnonneg))
  unfold CommandLine.rowsFrom CommandLine.wordsFrom at htext
  rw [if_pos hnonneg] at htext
  exact ⟨text, htext⟩

theorem expectations_eq (hasks : Asks docs files record image entry settings) :
    expectations docs files record = (runOf settings image entry).map (expected image entry) := by
  obtain ⟨himage, hentry, hsettings⟩ := hasks
  unfold entryOf at hentry
  unfold configOf at hsettings
  have hnumbers : (image.map fun w => (w.toNat : Int)) = numbersOf image := rfl
  have hrun : _ = runOf settings image entry :=
    Run.perform_unobserved { settings with entryPoint := none, trace := false } (numbersOf image)
      entry false false
  unfold Run.perform at hrun
  unfold expectations
  rw [himage, hentry, hsettings]
  dsimp only [bind, Except.bind, Run.entryOf] at hrun ⊢
  rw [hnumbers]
  rcases hload : (Session.start false false false).load (numbersOf image) entry 0 with ⟨e | u, s⟩
  · rw [hload] at hrun
    rw [← hrun]
    rfl
  · rw [hload] at hrun
    obtain ⟨text, htext⟩ := exists_listing hrun.symm
    rw [← hrun]
    unfold expected
    dsimp only [Except.map]
    rw [htext, ← hnumbers, List.length_map]
    rfl

theorem asks_of_expectations {e : Expectations} (h : expectations docs files record = .ok e) :
    ∃ image entry settings, Asks docs files record image entry settings := by
  unfold expectations at h
  obtain ⟨image, himage, hrest⟩ := exists_of_bind_eq_ok h
  obtain ⟨entry, hentry, hrest⟩ := exists_of_bind_eq_ok hrest
  obtain ⟨settings, hsettings, -⟩ := exists_of_bind_eq_ok hrest
  exact ⟨image, entry, settings, himage, hentry, hsettings⟩

/-- A record takes another entry point and asks for the same otherwise. -/
theorem asks_put_entry (hasks : Asks docs files record image entry settings) (n : Int) :
    Asks docs files (record.put (.text "entry") (.int n)) image n settings := by
  obtain ⟨himage, -, hsettings⟩ := hasks
  constructor
  · unfold imageOf at himage ⊢
    rw [Entries.get?_put]
    exact himage
  · unfold entryOf
    rw [Entries.get?_put]
    rfl
  · unfold configOf at hsettings ⊢
    rw [Entries.get?_put]
    exact hsettings

theorem image_outcome_of_asks (hasks : Asks docs files record image entry settings) {o : Observer}
    (hfiles : o.host.files = files) :
    (o.image docs (numbersOf image) entry (configOf record)).1.map Run.outcome =
      (runOf settings image (Run.entryOf settings entry)).map (·.1) := by
  have hunobserved := o.session_unobserved docs (numbersOf image) entry (configOf record)
  rw [o.image_outcome, hunobserved, hfiles, hasks.settings]
  rfl

/-- Where something is expected of a record there is a run of its image, which does what is expected
of the record whose entry point is that of the settings, should they have one. The run and the
record agree if the settings do not move the entry point. -/
theorem run_agrees_of_entryOf_eq {e : Expectations} (h : expectations docs files record = .ok e) :
    ∃ image entry settings, Asks docs files record image entry settings ∧
      ∀ o : Observer, o.host.files = files →
        ∃ run, (o.image docs (numbersOf image) entry (configOf record)).1 = .ok run ∧
          (expectations docs files
            (record.put (.text "entry") (.int (Run.entryOf settings entry)))).map (·.outcome) =
              .ok run.outcome ∧
          (Run.entryOf settings entry = entry → run.outcome = e.outcome) := by
  obtain ⟨image, entry, settings, hasks⟩ := asks_of_expectations h
  refine ⟨image, entry, settings, hasks, fun o hfiles => ?_⟩
  rw [expectations_eq hasks] at h
  obtain ⟨own, hown, rfl⟩ := exists_of_map_eq_ok h
  -- the image fits for the record, and the entry point of the settings is an address
  obtain ⟨hfit, hentry, hwords⟩ := Run.fits_of_unobserved_ok hown
  have haddress : IsWord (Run.entryOf settings entry) := by
    unfold Run.entryOf
    split
    · exact Word.isWord_toNat _
    · exact hentry
  obtain ⟨r, hr⟩ : ∃ r, runOf settings image (Run.entryOf settings entry) = .ok r :=
    Run.exists_unobserved_ok hfit haddress hwords
  have hrun := image_outcome_of_asks hasks hfiles
  rw [hr] at hrun
  obtain ⟨run, himage, houtcome⟩ := exists_of_map_eq_ok hrun
  refine ⟨run, himage, ?_, ?_⟩
  · rw [expectations_eq (asks_put_entry hasks _), hr, houtcome]
    rfl
  · intro hstays
    rw [hstays, hown] at hr
    obtain rfl := Except.ok.inj hr
    exact houtcome

/-- The settings and the record have the same entry point, and both runs emit a letter. -/
theorem run_agrees_of_entryOf_eq_letter :
    let outcome : Session.Outcome := ⟨"A", 2, .halted⟩
    let record : Entries := [
      (.text "image", .text "0005 2004 0000 0041 0005"),
      (.text "entry", .int 1),
      (.text "config", .map [(.text "entry_point", .int 1)])]
    ∃ e, expectations .yaml .empty record = .ok e ∧ e.outcome = outcome ∧
      ∃ image entry settings, Asks .yaml .empty record image entry settings ∧
        Run.entryOf settings entry = entry ∧
        ∃ run,
          (Observer.patient.image .yaml (numbersOf image) entry (configOf record)).1 = .ok run ∧
          run.outcome = outcome := by
  intro outcome record
  have hrecord : (expectations .yaml .empty record).map (·.outcome) = .ok outcome := by
    decide +kernel
  obtain ⟨e, he, houtcome⟩ := exists_of_map_eq_ok hrecord
  obtain ⟨image, entry, settings, hasks, hruns⟩ := run_agrees_of_entryOf_eq he
  obtain ⟨run, hrun, -, hagrees⟩ := hruns .patient rfl
  have hentry : Except.ok 1 = Except.ok entry := hasks.entry
  have hsettings :
      Settings.ofValue .yaml .empty (configOf record) = .ok ⟨100, some 1, false, true⟩ := by
    decide +kernel
  rw [hasks.settings] at hsettings
  have hstays : Run.entryOf settings entry = entry := by
    rw [Except.ok.inj hsettings, ← Except.ok.inj hentry]
    rfl
  exact ⟨e, he, houtcome, image, entry, settings, hasks, hstays, run, hrun,
    (hagrees hstays).trans houtcome⟩

/-- A record halts at once at its own entry point. A run of the same image with the same settings
starts at theirs and emits a letter before it halts. -/
theorem record_halts_before_letter :
    let config : Value := .map [(.text "entry_point", .int 1)]
    let record : Entries := [
      (.text "image", .text "0005 2004 0000 0041 0005"), (.text "config", config)]
    imageOf record = .ok [0x0005, 0x2004, 0x0000, 0x0041, 0x0005] ∧
    (expectations .yaml .empty record).map (·.outcome) = .ok ⟨"", 1, .halted⟩ ∧
    (Observer.patient.image .yaml [0x0005, 0x2004, 0x0000, 0x0041, 0x0005] 0 config).1.map
        Run.outcome =
      .ok ⟨"A", 2, .halted⟩ := by
  intro config record
  refine ⟨?_, ?_, ?_⟩
  · decide +kernel
  · decide +kernel
  · decide +kernel

end Record

end WordMachine
