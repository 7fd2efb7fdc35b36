import WordMachine.CommandLine
import WordMachine.Proofs.Legible
import WordMachine.Proofs.Normal
import WordMachine.Proofs.Observation

/-!
What the program does once its arguments are options. When its settings are found and its journal is
open it turns to the image, and what is wrong there or with the run is either reported, which is
status 2, or passes through. A run of words from an entry point that can be written always ends with
a status.
-/
namespace WordMachine

namespace ImageError

/-- The report of a wrong image can be written if its numbers can. -/
theorem writable_of_load {m : Machine} {words : List Int} {entry : Int} {e : ImageError}
    (hwords : ∀ n ∈ words, IsWord n) (hentry : Numeral.Writable entry)
    (h : (m.load words entry 0).1 = .error e) : e.Writable := by
  unfold Machine.load at h
  split at h
  · obtain rfl := Except.error.inj h
    exact Numeral.writable_of_isWord (by decide)
  · split at h
    · obtain rfl := Except.error.inj h
      exact hentry
    · dsimp only at h
      split at h
      · next n hn =>
        obtain rfl := Except.error.inj h
        exact Numeral.writable_of_isWord (hwords n (List.mem_of_getElem? hn))
      · cases h

end ImageError

namespace Run

theorem exists_of_perform_eq_error {settings : Settings} {words : List Int} {entry : Int}
    {logging streaming : Bool} {f : Fault}
    (h : perform settings words entry logging streaming = .error f) :
    ∃ e, (Machine.fresh.load words (entryOf settings entry) 0).1 = .error e ∧ f = .ofImage e := by
  have hunobserved := perform_unobserved settings words entry logging streaming
  rw [h] at hunobserved
  unfold unobserved at hunobserved
  split at hunobserved
  · next e m hload =>
    refine ⟨e, ?_, Except.error.inj hunobserved⟩
    rw [hload]
  · cases hunobserved

theorem perform_answers {settings : Settings} {words : List Int} {entry : Int}
    (hwords : ∀ n ∈ words, IsWord n) (hentry : Numeral.Writable (entryOf settings entry))
    (logging streaming : Bool) :
    (∃ r, perform settings words entry logging streaming = .ok r) ∨
      ∃ e, perform settings words entry logging streaming = .error (.image e) := by
  cases hperform : perform settings words entry logging streaming with
  | ok r => exact .inl ⟨r, rfl⟩
  | error f =>
    obtain ⟨e, hload, rfl⟩ := exists_of_perform_eq_error hperform
    have hwritable := ImageError.writable_of_load hwords hentry hload
    exact .inr ⟨e, congrArg Except.error (if_pos hwritable)⟩

end Run

namespace Settings

/-- Settings take another entry point if it is an address. -/
theorem right_put_entry (s : Settings) {n : Int} (h : IsWord n) :
    Right (s.toEntries.put (.text "entry_point") (.int n))
      { s with entryPoint := some (UInt16.ofInt n) } := by
  rw [toEntries_put_entry s h]
  exact right_toEntries _

theorem wrong_put_entry (s : Settings) {n : Int} (h : ¬ IsWord n) :
    Wrong (s.toEntries.put (.text "entry_point") (.int n)) (.ofEntry n) :=
  .range (show limitOf (.int s.stepLimit) = .ok _ from rfl) (Int.natCast_nonneg _) rfl h

/-- Settings take no list for an entry point. -/
theorem wrong_put_list (s : Settings) :
    Wrong (s.toEntries.put (.text "entry_point") (.list []))
      (.ofConversion (.notNumeric "list")) :=
  .entry (show limitOf (.int s.stepLimit) = .ok _ from rfl) rfl

end Settings

namespace CommandLine

def configOf (o : Options) : Value :=
  (o.config.map (·.toValue fun path : String => Value.text path)).getD .null

/-- The settings, with the trace on while debugging. -/
def settingsOf (docs : Documents) (h : Host) (o : Options) : Except Fault Settings :=
  (Settings.ofValue docs h.files (configOf o)).map fun s =>
    if o.debug then { s with trace := true } else s

/-- There are settings, and the journal is open. -/
structure Ready (docs : Documents) (h : Host) (o : Options) (settings : Settings) (ready : Host) :
    Prop where
  found : settingsOf docs h o = .ok settings
  journal : openJournal h o settings.trace = .ok ready

/-- What is done then: the image is listed or run, if there is one. -/
def proceed (docs : Documents) (h : Host) (o : Options) (settings : Settings) : Exit × Host :=
  match imageOf h o with
  | .error f => report h "Bad image:" f
  | .ok (words, own) =>
    if o.disasm then printListing h words (entryOf o settings own)
    else runImage docs h o settings words (entryOf o settings own)

section

variable {docs : Documents} {c : Convention} {h ready : Host} {arguments : List String}
  {o : Options} {settings : Settings}

theorem invoke_of_settings_error {f : Fault} (hparse : parse c arguments = .ok o)
    (hsettings : Settings.ofValue docs h.files (configOf o) = .error f) :
    invoke docs c h arguments = report h "Bad config:" f := by
  unfold configOf at hsettings
  unfold invoke execute
  rw [hparse]
  dsimp only
  rw [hsettings]

theorem invoke_of_ready (hparse : parse c arguments = .ok o)
    (hready : Ready docs h o settings ready) :
    invoke docs c h arguments = proceed docs ready o settings := by
  obtain ⟨hsettings, hjournal⟩ := hready
  unfold settingsOf configOf at hsettings
  unfold invoke execute
  rw [hparse]
  dsimp only
  obtain ⟨s, hvalue, rfl⟩ := exists_of_map_eq_ok hsettings
  rw [hvalue]
  dsimp only
  rw [hjournal]
  rfl

theorem exists_of_openJournal {debug : Bool} (hopen : openJournal h o debug = .ok ready) :
    ∃ path, o.logfile = .value path ∧ h.openJournal path debug o.console = .ok ready := by
  unfold openJournal at hopen
  split at hopen
  · cases hopen
  · next path hlogfile =>
    refine ⟨path, hlogfile, ?_⟩
    cases hresult : h.openJournal path debug o.console with
    | error e =>
      rw [hresult] at hopen
      cases hopen
    | ok host =>
      rw [hresult] at hopen
      exact congrArg Except.ok (Except.ok.inj hopen)

end

/-- A host whose journal has just been made, in the place where it is by default. -/
def opened (files : Files) : Host :=
  { Host.ofFiles (files.put [defaultLogfile] []) with
    journal := some ⟨false, false, some [defaultLogfile], 0⟩ }

theorem openJournal_of_absent {files : Files} {o : Options} {name : String}
    (hlogfile : o.logfile = .value name) (hpath : Path.collapse (.ofText name) = some [name])
    (hnull : Char.ofNat 0 ∉ name.toList) (hplace : files.resolve [name] = .ok (.absent [name]))
    (debug : Bool) :
    openJournal (.ofFiles files) o debug = .ok { Host.ofFiles (files.put [name] []) with
      journal := some ⟨debug, debug && o.console, some [name], 0⟩ } := by
  have hname : Path.hasNull [name] = false := Path.hasNull_inside hnull []
  have hcreate : files.create [name] = .ok (some [name], files.put [name] []) := by
    unfold Files.create
    rw [hname, hplace]
    rfl
  unfold openJournal
  rw [hlogfile]
  dsimp only
  unfold Host.openJournal
  rw [hpath]
  dsimp only [Host.ofFiles]
  rw [hcreate]
  rfl

/-- Without options the settings are the defaults, and the journal is in its default place. -/
theorem ready_opened {docs : Documents} {files : Files} {o : Options} (hconfig : o.config = none)
    (hdebug : o.debug = false) (hlogfile : o.logfile = .value defaultLogfile)
    (hplace : files.resolve [defaultLogfile] = .ok (.absent [defaultLogfile])) :
    Ready docs (.ofFiles files) o .default (opened files) := by
  constructor
  · unfold settingsOf configOf
    rw [hconfig, hdebug]
    rfl
  · exact openJournal_of_absent hlogfile (by decide +kernel) (by decide) hplace false

/-- The status of what is reported, or the fault that passes through. -/
def statusOf : Fault → Exit
  | .image _ => .ok 2
  | .settings _ => .ok 2
  | f => .error f

theorem report_fst (h : Host) (what : String) (f : Fault) : (report h what f).1 = statusOf f := by
  cases f <;> rfl

def settingsOfRun (settings : Settings) (entry : Given Int) : Value :=
  .map (settings.toEntries.put (.text "entry_point") (entry.toValue .int))

theorem ofValue_settingsOfRun (docs : Documents) (files : Files) (settings : Settings)
    (entry : Given Int) :
    Settings.ofValue docs files (settingsOfRun settings entry) =
      Settings.ofEntries (settings.toEntries.put (.text "entry_point") (entry.toValue .int)) :=
  Settings.ofValue_eq docs files _

/-- Leaving artifacts has no part in the status of a run. -/
theorem runImage_fst (docs : Documents) (h : Host) (o : Options) (settings : Settings)
    (words : List Int) (entry : Given Int) :
    (runImage docs h o settings words entry).1 =
      match Run.session docs h words 0 (settingsOfRun settings entry) settings.echo with
      | .error f => statusOf f
      | .ok _ => .ok 0 := by
  let artifacts : Option String := if o.debug then some "." else none
  have hnamed : (artifacts.any fun directory => (Path.ofText directory).hasNull) = false := by
    unfold artifacts
    cases o.debug
    · rfl
    · exact Path.hasNull_ofText (by decide)
  have hrun := Run.image_fst docs h words 0 (settingsOfRun settings entry) settings.echo artifacts
  rw [hnamed, Bool.and_false] at hrun
  have hstatus : (runImage docs h o settings words entry).1 =
      match (Run.image docs h words 0 (settingsOfRun settings entry) settings.echo artifacts).1 with
      | .error f => statusOf f
      | .ok _ => .ok 0 := by
    unfold runImage settingsOfRun artifacts
    dsimp only
    generalize Run.image _ _ _ _ _ _ _ = answer
    obtain ⟨result, h'⟩ := answer
    cases result with
    | error f => exact report_fst _ _ f
    | ok run => rfl
  rw [hstatus, hrun]
  cases Run.session docs h words 0 (settingsOfRun settings entry) settings.echo <;> rfl

theorem runImage_of_not_isWord (docs : Documents) (h : Host) (o : Options) (settings : Settings)
    (words : List Int) {n : Int} (hn : ¬ IsWord n) (hwritable : Numeral.Writable n) :
    runImage docs h o settings words (.value n) = (.ok 2,
      h.printError ("Cannot run image: " ++ (SettingsError.badEntry n).message ++ "\n")) := by
  have hfault : Fault.ofEntry n = .settings (.badEntry n) := if_pos hwritable
  have hsettings : Settings.ofValue docs h.files (settingsOfRun settings (.value n)) =
      .error (.settings (.badEntry n)) := by
    rw [ofValue_settingsOfRun, ← hfault]
    exact Settings.ofEntries_of_wrong (Settings.wrong_put_entry settings hn)
  unfold settingsOfRun at hsettings
  unfold runImage Run.image
  dsimp only
  rw [hsettings]
  rfl

/-- A run of words ends with a status if its entry point, should it be a number, can be written. -/
theorem exists_status_runImage (docs : Documents) (h : Host) (o : Options) (settings : Settings)
    {words : List Int} {entry : Given Int} (hwords : ∀ n ∈ words, IsWord n)
    (hentry : ∀ n, entry = .value n → Numeral.Writable n) :
    ∃ status, (status = 0 ∨ status = 2) ∧
      (runImage docs h o settings words entry).1 = .ok status := by
  cases entry with
  | mark =>
    have hsettings := Settings.ofEntries_of_wrong (Settings.wrong_put_list settings)
    refine ⟨2, .inr rfl, ?_⟩
    rw [runImage_fst]
    unfold Run.session
    rw [ofValue_settingsOfRun]
    dsimp only [Given.toValue]
    rw [hsettings]
    rfl
  | value n =>
    have hwritable := hentry n rfl
    by_cases hn : IsWord n
    · let moved : Settings := { settings with entryPoint := some (UInt16.ofInt n) }
      have hsettings := Settings.ofEntries_of_right (Settings.right_put_entry settings hn)
      have hword : Numeral.Writable (Run.entryOf moved 0) :=
        Numeral.writable_of_isWord (Word.isWord_toNat _)
      rw [runImage_fst]
      unfold Run.session
      rw [ofValue_settingsOfRun]
      dsimp only [Given.toValue]
      rw [hsettings]
      dsimp only [Except.bind]
      rcases Run.perform_answers hwords hword h.isDebugging settings.echo with ⟨r, hr⟩ | ⟨e, he⟩
      · rw [hr]
        exact ⟨0, .inl rfl, rfl⟩
      · rw [he]
        exact ⟨2, .inr rfl, rfl⟩
    · have hrefused := runImage_of_not_isWord docs h o settings words hn hwritable
      exact ⟨2, .inr rfl, congrArg Prod.fst hrefused⟩

theorem isWord_of_imageOf {h : Host} {o : Options} {words : List Int} {own : Int}
    (himage : imageOf h o = .ok (words, own)) : ∀ n ∈ words, IsWord n := by
  have hgreeting : ∀ n ∈ Image.greeting, IsWord n := by decide
  unfold imageOf at himage
  split at himage
  · cases himage
    exact hgreeting
  · split at himage
    · cases himage
      exact hgreeting
    · obtain ⟨ws, -, hws⟩ := exists_of_map_eq_ok himage
      cases hws
      exact fun n hn => Word.isWord_of_mem_map hn

end CommandLine

end WordMachine
