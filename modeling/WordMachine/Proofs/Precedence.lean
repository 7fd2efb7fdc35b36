import WordMachine.Proofs.Exit
import WordMachine.Proofs.Places

/-!
An invocation without a listing is a run of its image. The entry point on the command line counts
more than that of the settings, and that one more than the one of the image. What the run shows is
printed if the settings let it echo, and nothing else is, whether the run is observed or not. The
journal takes no part in it as long as its file is not that of the image.
-/
namespace WordMachine

namespace Host

theorem output_log (h : Host) (entries : List Entry) : (h.log entries).output = h.output := by
  unfold log
  split <;> rfl

theorem output_debug (h : Host) (messages : List Message) :
    (h.debug messages).output = h.output :=
  h.output_log _

theorem openJournal_ok {h ready : Host} {path : String} {debug console : Bool}
    (hopen : h.openJournal path debug console = .ok ready) :
    ready.output = h.output ∧
      (ready.files = h.files ∨
        ∃ p, ready.journal.bind (·.file) = some p ∧ h.files.Takes p ∧
          ready.files = h.files.put p []) := by
  unfold openJournal at hopen
  split at hopen
  · obtain rfl := Except.ok.inj hopen
    exact ⟨rfl, .inl rfl⟩
  · obtain ⟨⟨place, files⟩, hcreate, rfl⟩ := exists_of_map_eq_ok hopen
    refine ⟨rfl, ?_⟩
    rcases Files.create_ok hcreate with ⟨-, hsame⟩ | ⟨p, rfl, htakes, hput⟩
    · exact .inl hsame
    · exact .inr ⟨p, rfl, htakes, hput⟩

end Host

namespace Image

/-- An image that is read is a file, and another file that is written leaves it as it is. -/
theorem read_put {files : Files} {p : Path} {path : String} {ws : List Word}
    (htakes : files.Takes p) (hread : read files path = .ok ws)
    (hapart : ∀ q, files.find (.ofText path) = .ok (.file q) → p ≠ q) (bytes : List UInt8) :
    read (files.put p bytes) path = .ok ws := by
  unfold read at hread ⊢
  dsimp only at hread ⊢
  cases hfind : files.find (.ofText path) with
  | error e =>
    rw [hfind] at hread
    cases hread
  | ok found =>
    rw [hfind] at hread
    cases found with
    | file q =>
      rw [Files.find_put_of_find_eq_file htakes bytes hfind]
      dsimp only at hread ⊢
      rw [Files.read?_put, if_neg (hapart q hfind)]
      exact hread
    | directory => cases hread
    | nothing => cases hread

end Image

namespace Run

theorem output_leaveArtifacts (h : Host) (directory : String) (words : List Int) (m : Machine) :
    (leaveArtifacts h directory words m).2.output = h.output := by
  unfold leaveArtifacts
  dsimp only
  split
  · rfl
  · rfl
  · exact Host.output_debug _ _

theorem output_image (docs : Documents) (h : Host) (words : List Int) (entry : Int)
    (settings : Value) (streaming : Bool) (artifacts : Option String) :
    (image docs h words entry settings streaming artifacts).2.output = h.output := by
  unfold image
  split
  · rfl
  · split
    · rfl
    · dsimp only
      split
      · split
        · rw [output_leaveArtifacts, Host.output_debug]
        · exact Host.output_debug _ _
      · exact Host.output_debug _ _

end Run

/-- The stream of a run that is allowed has received its output. -/
theorem Observer.stream_of_image {o : Observer} {docs : Documents} {words : List Int} {entry : Int}
    {settings : Value} {run : Run} (h : (o.image docs words entry settings).1 = .ok run) :
    run.stream = if o.streaming then some run.outcome.output else none := by
  rw [o.image_fst_eq] at h
  obtain ⟨r, hsession, rfl⟩ := exists_of_map_eq_ok h
  obtain ⟨s, hperform⟩ := session_ok hsession
  exact Run.stream_perform hperform

namespace CommandLine

/-- Whether the options name a file for the image. -/
def namesImage (o : Options) : Bool :=
  o.image.any fun path => !path.isEmpty

/-- The entry point on the command line, or else that of the settings, or else that of the image,
which is 0 for a file and 15 for the greeting. -/
def chosenEntry (o : Options) (settings : Settings) : Given Int :=
  match o.entry, settings.entryPoint with
  | some entry, _ => entry
  | none, some w => .value w.toNat
  | none, none => .value (if namesImage o then 0 else 15)

theorem own_eq {h : Host} {o : Options} {words : List Int} {own : Int}
    (himage : imageOf h o = .ok (words, own)) : own = if namesImage o then 0 else 15 := by
  unfold imageOf at himage
  unfold namesImage
  cases hpath : o.image with
  | none =>
    rw [hpath] at himage
    cases himage
    rfl
  | some path =>
    rw [hpath] at himage
    dsimp only at himage
    split at himage
    · next hempty =>
      cases himage
      simp [hempty, Image.greetingEntry]
    · next hnamed =>
      obtain ⟨ws, -, hws⟩ := exists_of_map_eq_ok himage
      cases hws
      simp [hnamed]

theorem entryOf_eq_chosenEntry {h : Host} {o : Options} {words : List Int} {own : Int}
    (himage : imageOf h o = .ok (words, own)) (settings : Settings) :
    entryOf o settings own = chosenEntry o settings := by
  rw [own_eq himage]
  unfold entryOf Run.entryOf chosenEntry
  cases o.entry with
  | some entry => rfl
  | none => cases settings.entryPoint <;> rfl

/-- How a run of words ends with settings whose entry point is replaced. Words from an address on
are run unobserved, and all else is no entry point. -/
def answerOf (settings : Settings) (words : List Int) : Given Int → Except Fault Session.Outcome
  | .mark => .error (.ofConversion (.notNumeric "list"))
  | .value n =>
    if IsWord n then
      (Run.unobserved { settings with entryPoint := some (UInt16.ofInt n) } words n).map (·.1)
    else .error (.ofEntry n)

/-- Whoever observes it, this is how the run ends, and it starts at no other entry point. -/
theorem image_settingsOfRun (obs : Observer) (docs : Documents) (settings : Settings)
    (words : List Int) (entry : Given Int) (n : Int) :
    (obs.image docs words n (settingsOfRun settings entry)).1.map Run.outcome =
      answerOf settings words entry := by
  rw [obs.image_outcome, obs.session_unobserved, ofValue_settingsOfRun]
  cases entry with
  | mark =>
    dsimp only [Given.toValue]
    rw [Settings.ofEntries_of_wrong (Settings.wrong_put_list settings)]
    rfl
  | value n' =>
    dsimp only [Given.toValue, answerOf]
    split
    · next hword =>
      rw [Settings.ofEntries_of_right (Settings.right_put_entry settings hword)]
      rfl
    · next hword =>
      rw [Settings.ofEntries_of_wrong (Settings.wrong_put_entry settings hword)]
      rfl

/-- The one who observes an invocation. -/
def observer (h : Host) (o : Options) (settings : Settings) : Observer where
  host := h
  streaming := settings.echo
  artifacts := if o.debug then some "." else none
  named := by
    intro directory hartifacts
    cases hdebug : o.debug with
    | false => simp [hdebug] at hartifacts
    | true =>
      obtain rfl : directory = "." := by simpa [hdebug] using hartifacts.symm
      decide

theorem runImage_eq (docs : Documents) (h : Host) (o : Options) (settings : Settings)
    (words : List Int) (entry : Given Int) :
    (runImage docs h o settings words entry).1 =
      (match answerOf settings words entry with
        | .error f => statusOf f
        | .ok _ => .ok 0) ∧
    (runImage docs h o settings words entry).2.output =
      h.output ++ (match answerOf settings words entry with
        | .error _ => ""
        | .ok outcome => if settings.echo then outcome.output else "") := by
  let obs := observer h o settings
  have hanswer := image_settingsOfRun obs docs settings words entry 0
  have hprinted : (obs.image docs words 0 (settingsOfRun settings entry)).2.output = h.output :=
    Run.output_image _ _ _ _ _ _ _
  have hstream : ∀ run, (obs.image docs words 0 (settingsOfRun settings entry)).1 = .ok run →
      run.stream = if settings.echo then some run.outcome.output else none :=
    fun run himage => Observer.stream_of_image himage
  rcases hended : obs.image docs words 0 (settingsOfRun settings entry) with ⟨result, after⟩
  rw [hended] at hanswer hprinted hstream
  have hrun : Run.image docs h words 0
      (.map (settings.toEntries.put (.text "entry_point") (entry.toValue .int))) settings.echo
      (if o.debug then some "." else none) = (result, after) := hended
  dsimp only at hanswer hprinted hstream
  unfold runImage
  dsimp only
  rw [hrun, ← hanswer]
  cases result with
  | error f =>
    refine ⟨report_fst _ _ f, ?_⟩
    cases f <;> exact hprinted.trans String.append_empty.symm
  | ok run =>
    refine ⟨rfl, ?_⟩
    dsimp only [Except.map]
    rw [Host.output_debug, hstream run rfl, ← hprinted]
    cases settings.echo <;> rfl

/-- Options that run an image. It is read, there are settings, and a journal is opened whose file is
another one than that of the image. -/
structure Runs (docs : Documents) (c : Convention) (h : Host) (arguments : List String)
    (o : Options) (settings : Settings) (words : List Int) : Prop where
  parsed : parse c arguments = .ok o
  running : o.disasm = false
  found : Settings.ofValue docs h.files (configOf o) = .ok settings
  image : (imageOf h o).map Prod.fst = .ok words
  journal : ∃ ready, openJournal h o (settings.trace || o.debug) = .ok ready ∧
    ∀ path ∈ o.image, ∀ p, h.files.find (.ofText path) = .ok (.file p) →
      ready.journal.bind (·.file) ≠ some p

section

variable {docs : Documents} {c : Convention} {h : Host} {arguments : List String} {o : Options}
  {settings : Settings} {words : List Int}

/-- The image that is read before the journal is opened is read behind it. -/
theorem imageOf_of_apart {ready : Host} {debug : Bool} {own : Int}
    (himage : imageOf h o = .ok (words, own)) (hopen : openJournal h o debug = .ok ready)
    (hapart : ∀ path ∈ o.image, ∀ p, h.files.find (.ofText path) = .ok (.file p) →
      ready.journal.bind (·.file) ≠ some p) :
    ready.output = h.output ∧ imageOf ready o = .ok (words, own) := by
  obtain ⟨log, -, hjournal⟩ := exists_of_openJournal hopen
  obtain ⟨hprinted, hfiles⟩ := Host.openJournal_ok hjournal
  refine ⟨hprinted, ?_⟩
  rw [← himage]
  unfold imageOf at himage ⊢
  cases hpath : o.image with
  | none => rfl
  | some path =>
    rw [hpath] at himage
    dsimp only at himage ⊢
    split
    · rfl
    · next hnamed =>
      rw [if_neg hnamed] at himage
      obtain ⟨ws, hread, -⟩ := exists_of_map_eq_ok himage
      rcases hfiles with hsame | ⟨p, hplace, htakes, hput⟩
      · rw [hsame]
      · have hother : ∀ q, h.files.find (.ofText path) = .ok (.file q) → p ≠ q := by
          rintro q hfind rfl
          exact hapart path hpath p hfind hplace
        rw [hput, hread, Image.read_put htakes hread hother]

theorem invoke_eq (hruns : Runs docs c h arguments o settings words) :
    (invoke docs c h arguments).1 =
      (match answerOf settings words (chosenEntry o settings) with
        | .error f => statusOf f
        | .ok _ => .ok 0) ∧
    (invoke docs c h arguments).2.output =
      h.output ++ (match answerOf settings words (chosenEntry o settings) with
        | .error _ => ""
        | .ok outcome => if settings.echo then outcome.output else "") := by
  obtain ⟨hparse, hrunning, hfound, hwords, ready, hopen, hapart⟩ := hruns
  obtain ⟨⟨words, own⟩, himage, rfl⟩ := exists_of_map_eq_ok hwords
  obtain ⟨hprinted, himage'⟩ := imageOf_of_apart himage hopen hapart
  let traced : Settings := if o.debug then { settings with trace := true } else settings
  have htrace : traced.trace = (settings.trace || o.debug) := by
    unfold traced
    cases o.debug
    · exact (Bool.or_false _).symm
    · exact (Bool.or_true _).symm
  have hready : Ready docs h o traced ready := by
    constructor
    · unfold settingsOf
      rw [hfound]
      rfl
    · rw [htrace]
      exact hopen
  -- tracing moves no entry point and has no part in the answer
  have hentry : entryOf o traced own = chosenEntry o settings := by
    rw [← entryOf_eq_chosenEntry himage]
    unfold traced
    cases o.debug <;> rfl
  have hanswer : ∀ entry, answerOf traced words entry = answerOf settings words entry := by
    intro entry
    unfold traced
    cases o.debug <;> cases entry <;> rfl
  have hecho : traced.echo = settings.echo := by
    unfold traced
    cases o.debug <;> rfl
  have hrun := runImage_eq docs ready o traced words (chosenEntry o settings)
  rw [hanswer, hecho, hprinted] at hrun
  have hproceed : proceed docs ready o traced =
      runImage docs ready o traced words (chosenEntry o settings) := by
    unfold proceed
    rw [himage']
    dsimp only
    rw [hrunning, hentry]
    rfl
  rw [invoke_of_ready hparse hready, hproceed]
  exact hrun

/-- What is wrong with a run of words is reported if its entry point can be written. -/
theorem statusOf_of_answerOf {entry : Given Int} {f : Fault} (hwords : ∀ n ∈ words, IsWord n)
    (hentry : ∀ n, entry = .value n → Numeral.Writable n)
    (hanswer : answerOf settings words entry = .error f) : statusOf f = .ok 2 := by
  cases entry with
  | mark =>
    obtain rfl := Except.error.inj hanswer
    rfl
  | value n =>
    have hwritable := hentry n rfl
    dsimp only [answerOf] at hanswer
    split at hanswer
    · unfold Run.unobserved at hanswer
      split at hanswer
      · next e m hload =>
        obtain rfl := Except.error.inj hanswer
        have hword : Numeral.Writable (Run.entryOf
            { settings with entryPoint := some (UInt16.ofInt n) } n) :=
          Numeral.writable_of_isWord (Word.isWord_toNat _)
        have hreport := ImageError.writable_of_load hwords hword (congrArg Prod.fst hload)
        rw [Fault.ofImage, if_pos hreport]
        rfl
      · cases hanswer
    · obtain rfl := Except.error.inj hanswer
      rw [Fault.ofEntry, if_pos hwritable]
      rfl

theorem writable_chosenEntry (hentry : ∀ n, o.entry = some (.value n) → Numeral.Writable n) :
    ∀ n, chosenEntry o settings = .value n → Numeral.Writable n := by
  unfold chosenEntry
  intro n hn
  split at hn
  · next entry hgiven =>
    subst hn
    exact hentry n hgiven
  · cases hn
    exact Numeral.writable_of_isWord (Word.isWord_toNat _)
  · cases hn
    split <;> exact Numeral.writable_of_isWord (by decide)

/-- An invocation is the run of its image from the chosen entry point, whoever may observe that
run. It ends with the status 0 if the run is allowed, having printed the output if the settings let
it echo, and with the status 2 if not, having printed nothing. Debugging, the console and another
journal change neither the status nor what is printed. -/
theorem invocation_runs_image (hruns : Runs docs c h arguments o settings words) :
    ((∀ n, o.entry = some (.value n) → Numeral.Writable n) →
      ∀ (obs : Observer) (n : Int),
        let answer := (obs.image docs words n (settingsOfRun settings (chosenEntry o settings))).1
        ((invoke docs c h arguments).1 = .ok 0 ↔ ∃ run, answer = .ok run) ∧
        (∀ run, answer = .ok run →
          (invoke docs c h arguments).2.output =
            h.output ++ if settings.echo then run.outcome.output else "") ∧
        ((¬ ∃ run, answer = .ok run) →
          (invoke docs c h arguments).1 = .ok 2 ∧
            (invoke docs c h arguments).2.output = h.output)) ∧
    ∀ (debug console : Bool) (logfile : Given String) (arguments' : List String),
      Runs docs c h arguments' { o with debug := debug, console := console, logfile := logfile }
        settings words →
      (invoke docs c h arguments').1 = (invoke docs c h arguments).1 ∧
      (invoke docs c h arguments').2.output = (invoke docs c h arguments).2.output := by
  obtain ⟨hstatus, hprinted⟩ := invoke_eq hruns
  refine ⟨fun hentry obs n => ?_, fun debug console logfile arguments' hruns' => ?_⟩
  · have hwords : ∀ n ∈ words, IsWord n := by
      obtain ⟨⟨words, own⟩, himage, rfl⟩ := exists_of_map_eq_ok hruns.image
      exact isWord_of_imageOf himage
    have hanswer := image_settingsOfRun obs docs settings words (chosenEntry o settings) n
    have hreported : ∀ f, answerOf settings words (chosenEntry o settings) = .error f →
        statusOf f = .ok 2 :=
      fun f => statusOf_of_answerOf hwords (writable_chosenEntry hentry)
    dsimp only
    generalize (obs.image docs words n _).1 = answer at hanswer ⊢
    rw [← hanswer] at hstatus hprinted hreported
    rw [hstatus, hprinted]
    cases answer with
    | ok run =>
      refine ⟨⟨fun _ => ⟨run, rfl⟩, fun _ => rfl⟩, ?_, fun hnone => absurd ⟨run, rfl⟩ hnone⟩
      rintro run' hrun
      obtain rfl := Except.ok.inj hrun
      rfl
    | error f =>
      have htwo : statusOf f = .ok 2 := hreported f rfl
      dsimp only [Except.map]
      rw [htwo, String.append_empty]
      refine ⟨⟨fun hzero => ?_, ?_⟩, ?_, fun _ => ⟨rfl, rfl⟩⟩
      · exact absurd (Except.ok.inj hzero) (by decide)
      · rintro ⟨run, hrun⟩
        cases hrun
      · rintro run hrun
        cases hrun
  · obtain ⟨hstatus', hprinted'⟩ := invoke_eq hruns'
    exact ⟨hstatus'.trans hstatus.symm, hprinted'.trans hprinted.symm⟩

end

def letterFiles : Files :=
  ⟨[(["a.bin"], [0x04, 0x20, 0x00, 0x00, 0x41, 0x00, 0x05, 0x00])]⟩

def letterWords : List Int :=
  [0x2004, 0x0000, 0x0041, 0x0005]

theorem find_letterFiles : letterFiles.find (.ofText "a.bin") = .ok (.file ["a.bin"]) :=
  Files.find_ofText (by decide) rfl

theorem read_letterFiles :
    Image.read letterFiles "a.bin" = .ok [0x2004, 0x0000, 0x0041, 0x0005] := by
  have hbinary : (Path.ofText "a.bin").isBinary = true := by
    rw [Path.ofText_of_isName (by decide)]
    rfl
  unfold Image.read Image.ofFileBytes
  dsimp only
  rw [find_letterFiles, hbinary]
  rfl

theorem runs_letter {docs : Documents} {c : Convention} {arguments : List String} {o : Options}
    {log : String}
    (hparse : parse c arguments = .ok o) (himage : o.image = some "a.bin")
    (hrunning : o.disasm = false) (hconfig : o.config = none) (hlogfile : o.logfile = .value log)
    (hname : Path.IsName log) (hup : log ≠ "..")
    (hplace : letterFiles.resolve [log] = .ok (.absent [log])) (hother : log ≠ "a.bin") :
    Runs docs c (.ofFiles letterFiles) arguments o .default letterWords where
  parsed := hparse
  running := hrunning
  found := by
    unfold configOf
    rw [hconfig]
    rfl
  image := by
    rw [imageOf_of_path himage (by decide)]
    dsimp only [Host.ofFiles]
    rw [read_letterFiles]
    rfl
  journal := by
    refine ⟨{ Host.ofFiles (letterFiles.put [log] []) with
      journal := some ⟨o.debug, o.debug && o.console, some [log], 0⟩ }, ?_, ?_⟩
    · exact openJournal_of_absent hlogfile (Path.collapse_ofText hname hup) hname.2.2.2 hplace
        o.debug
    · intro path hnamed p hfind
      rw [himage] at hnamed
      obtain rfl := Option.some.inj hnamed
      dsimp only [Host.ofFiles] at hfind
      rw [find_letterFiles] at hfind
      obtain rfl := Found.file.inj (Except.ok.inj hfind)
      exact fun hsame => hother (List.head_eq_of_cons_eq (Option.some.inj hsame))

/-- The letter is printed from the entry point on the command line, and once more while debugging
with another journal. -/
theorem invocation_runs_image_letter :
    let h := Host.ofFiles letterFiles
    let o : Options := { image := some "a.bin", entry := some (.value 0) }
    let arguments := ["a.bin", "--entry", "0"]
    let debugging := ["--debug", "--console", "--logfile", "run.log", "--entry=0", "a.bin"]
    Runs .yaml .older h arguments o .default letterWords ∧
    Runs .yaml .older h debugging
      { o with debug := true, console := true, logfile := .value "run.log" } .default letterWords ∧
    chosenEntry o .default = .value 0 ∧ Numeral.Writable 0 ∧
    (invoke .yaml .older h arguments).1 = .ok 0 ∧
    (invoke .yaml .older h arguments).2.output = "A" ∧
    (invoke .yaml .older h debugging).1 = .ok 0 ∧
    (invoke .yaml .older h debugging).2.output = "A" := by
  intro h o arguments debugging
  have hruns : Runs .yaml .older h arguments o .default letterWords :=
    runs_letter rfl rfl rfl rfl rfl (by decide) (by decide) rfl (by decide)
  have hruns' : Runs .yaml .older h debugging
      { o with debug := true, console := true, logfile := .value "run.log" } .default letterWords :=
    runs_letter rfl rfl rfl rfl rfl (by decide) (by decide) rfl (by decide)
  have hwritable : Numeral.Writable 0 := Numeral.writable_of_isWord (by decide)
  have hanswer : (Observer.patient.image .yaml letterWords 0
      (settingsOfRun .default (.value 0))).1.map Run.outcome = .ok ⟨"A", 2, .halted⟩ := by
    decide +kernel
  obtain ⟨run, hrun, houtcome⟩ := exists_of_map_eq_ok hanswer
  obtain ⟨hruns_image, hdebugging⟩ := invocation_runs_image hruns
  obtain ⟨hzero, hprinted, -⟩ := hruns_image (fun n hn => by cases hn; exact hwritable) .patient 0
  have hstatus := hzero.mpr ⟨run, hrun⟩
  have houtput := hprinted run hrun
  rw [houtcome] at houtput
  obtain ⟨hstatus', houtput'⟩ := hdebugging true true (.value "run.log") debugging hruns'
  exact ⟨hruns, hruns', rfl, hwritable, hstatus, houtput, hstatus'.trans hstatus,
    houtput'.trans houtput⟩

end CommandLine

end WordMachine
