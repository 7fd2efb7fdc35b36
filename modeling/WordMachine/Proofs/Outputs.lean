import WordMachine.Proofs.Precedence

/-!
Which files an invocation changes. It opens a log once there are settings, and from then on writes
into the log and nowhere else, until a run that is debugged is over and leaves its artifacts in the
working directory. Every other file is as it was, however the invocation ends.
-/
namespace WordMachine

/-- Where a place is that lies in the tree. -/
def Place.path? : Place → Option Path
  | .file p => some p
  | .directory p => some p
  | .absent p => some p
  | _ => none

/-- A path that is collapsed goes up nowhere. -/
theorem Path.up_notMem_collapse {path p : Path} (h : path.collapse = some p) : ".." ∉ p := by
  unfold collapse at h
  refine List.foldlRecOn path _ (motive := fun done => ∀ d, done = some d → ".." ∉ d) ?_ ?_ p h
  · rintro d hd
    obtain rfl := Option.some.inj hd
    exact List.not_mem_nil
  · rintro done hdone name - d hd
    obtain ⟨before, rfl, hstep⟩ := Option.bind_eq_some_iff.mp hd
    have hbefore : ".." ∉ before := hdone before rfl
    split at hstep
    · split at hstep
      · cases hstep
      · obtain rfl := Option.some.inj hstep
        exact fun hup => hbefore (List.mem_of_mem_dropLast hup)
    · next hname =>
      obtain rfl := Option.some.inj hstep
      rw [List.mem_append, List.mem_singleton, not_or]
      exact ⟨hbefore, Ne.symm hname⟩

namespace Files

variable {places places' : Path → Prop} {files files' files'' : Files} {path p : Path}

theorem eq_of_path?_locate (hdirect : ".." ∉ path) (h : (files.locate path).path? = some p) :
    p = path := by
  induction path using List.reverseRecOn generalizing p with
  | nil => exact (Option.some.inj h).symm
  | append_singleton path name ih =>
    have hlocate : files.locate (path ++ [name]) = files.follow (files.locate path) name :=
      List.foldl_append
    rw [List.mem_append, List.mem_singleton, not_or] at hdirect
    obtain ⟨hpath, hname⟩ := hdirect
    rw [hlocate] at h
    cases hplace : files.locate path with
    | directory q =>
      obtain rfl : q = path := ih hpath (congrArg Place.path? hplace)
      rw [hplace, follow_directory, if_neg (Ne.symm hname)] at h
      split at h
      · cases h
      · split at h
        · exact (Option.some.inj h).symm
        · split at h <;> exact (Option.some.inj h).symm
    | above levels =>
      rw [hplace] at h
      change Place.path? (if _ then _ else if _ then _ else _) = _ at h
      rw [if_neg (Ne.symm hname)] at h
      split at h <;> cases h
    | _ =>
      rw [hplace] at h
      cases h

theorem eq_of_create (hdirect : ".." ∉ path) (h : files.create path = .ok (some p, files')) :
    p = path := by
  unfold create resolve at h
  dsimp only at h
  split at h
  · cases h
  · split at h
    · cases h
    · have hpath : (files.locate path).path? = some p := by
        cases hplace : files.locate path <;> rw [hplace] at h <;> cases h <;> rfl
      exact eq_of_path?_locate hdirect hpath

/-- All files are as they were, but for those at some places. -/
def SameBut (places : Path → Prop) (files files' : Files) : Prop :=
  ∀ p, ¬ places p → files'.read? p = files.read? p

namespace SameBut

theorem refl (places : Path → Prop) (files : Files) : SameBut places files files :=
  fun _ _ => rfl

theorem trans (h : SameBut places files files') (h' : SameBut places files' files'') :
    SameBut places files files'' :=
  fun p hp => (h' p hp).trans (h p hp)

theorem mono (h : SameBut places files files') (hplaces : ∀ p, places p → places' p) :
    SameBut places' files files' :=
  fun p hp => h p fun hplace => hp (hplaces p hplace)

theorem put (places : Path → Prop) (files : Files) (hp : places p) (bytes : List UInt8) :
    SameBut places files (files.put p bytes) := by
  intro q hq
  have hother : p ≠ q := by
    rintro rfl
    exact hq hp
  rw [read?_put, if_neg hother]

end SameBut

/-- What is created is one file. -/
theorem sameBut_create {place : Option Path} (h : files.create path = .ok (place, files')) :
    SameBut (place = some ·) files files' := by
  rcases create_ok h with ⟨-, rfl⟩ | ⟨p, rfl, -, rfl⟩
  · exact .refl _ _
  · exact .put (some p = some ·) files rfl []

theorem sameBut_write {text : String} (hdirect : ".." ∉ path)
    (h : files.write path text = .ok files') : SameBut (· = path) files files' := by
  obtain ⟨⟨place, created⟩, hcreate, rfl⟩ := exists_of_map_eq_ok h
  have hplace : ∀ p, place = some p → p = path := by
    rintro p rfl
    exact eq_of_create hdirect hcreate
  have hsame := (sameBut_create hcreate).mono hplace
  cases place with
  | none => exact hsame
  | some p => exact hsame.trans (.put (· = path) created (hplace p rfl) _)

end Files

open Files (SameBut)

namespace Host

def logFile (h : Host) : Option Path :=
  h.journal.bind (·.file)

theorem logFile_debug (h : Host) (messages : List Message) :
    (h.debug messages).logFile = h.logFile := by
  obtain ⟨files, output, errors, journal⟩ := h
  cases journal <;> rfl

theorem sameBut_debug (h : Host) (messages : List Message) :
    SameBut (fun p => h.logFile = some p) h.files (h.debug messages).files := by
  obtain ⟨files, output, errors, journal⟩ := h
  cases journal with
  | none => exact .refl _ _
  | some j =>
    obtain ⟨debug, console, file, written⟩ := j
    unfold Host.debug log
    dsimp only
    cases file with
    | none => exact .refl _ _
    | some p =>
      dsimp only
      split
      · exact .refl _ _
      · exact .put (some p = some ·) files rfl _

end Host

namespace Run

/-- The files that show an image and the memory that its run leaves. -/
def artifactFiles : List Path :=
  [["out.hex"], ["memory_dump.txt"]]

theorem sameBut_writeArtifacts (files : Files) (words : List Int) (m : Machine) :
    SameBut (· ∈ artifactFiles) files (writeArtifacts files "." words m).2 := by
  have hwrite : ∀ {files files' : Files} {p : Path} {text : String}, p ∈ artifactFiles →
      files.write p text = .ok files' → SameBut (· ∈ artifactFiles) files files' := by
    intro files files' p text hp h
    have hdirect : ∀ p ∈ artifactFiles, ".." ∉ p := by decide
    refine (Files.sameBut_write (hdirect p hp) h).mono ?_
    rintro q rfl
    exact hp
  have hdirectory : Path.ofText "." = [] := by decide +kernel
  unfold writeArtifacts
  dsimp only
  rw [hdirectory, List.nil_append, List.nil_append]
  split
  · exact .refl _ _
  · next files' hlisting =>
    have hfirst := hwrite (by decide) hlisting
    split
    · exact hfirst
    · next files'' hdump => exact hfirst.trans (hwrite (by decide) hdump)

theorem sameBut_leaveArtifacts (h : Host) (words : List Int) (m : Machine) :
    (leaveArtifacts h "." words m).2.logFile = h.logFile ∧
    SameBut (fun p => h.logFile = some p ∨ p ∈ artifactFiles) h.files
      (leaveArtifacts h "." words m).2.files := by
  have hwritten : SameBut (fun p => h.logFile = some p ∨ p ∈ artifactFiles) h.files
      (writeArtifacts h.files "." words m).2 :=
    (sameBut_writeArtifacts h.files words m).mono fun _ => .inr
  unfold leaveArtifacts
  dsimp only
  split
  · exact ⟨rfl, hwritten⟩
  · exact ⟨rfl, hwritten⟩
  · refine ⟨Host.logFile_debug _ _, hwritten.trans ?_⟩
    exact (Host.sameBut_debug _ _).mono fun _ => .inl

/-- A run that is refused leaves its host as it is. One that is not writes into the journal, and
its artifacts if they are asked for. -/
theorem image_files (docs : Documents) (h : Host) (words : List Int) (entry : Int)
    (settings : Value) (streaming debug : Bool) :
    let r := image docs h words entry settings streaming (if debug then some "." else none)
    (∃ f, r = (.error f, h)) ∨
      (∃ run, r.1 = .ok run) ∧ r.2.logFile = h.logFile ∧
        SameBut (fun p => h.logFile = some p ∨ p ∈ artifactFiles ∧ debug = true) h.files
          r.2.files := by
  unfold image
  dsimp only
  split
  · exact .inl ⟨_, rfl⟩
  · split
    · exact .inl ⟨_, rfl⟩
    · next outcome s _ =>
      right
      let logged := h.debug (s.log.toList.map Event.message)
      have hlogged : SameBut (fun p => h.logFile = some p ∨ p ∈ artifactFiles ∧ debug = true)
          h.files logged.files := (h.sameBut_debug _).mono fun _ => .inl
      have hsame : logged.logFile = h.logFile := h.logFile_debug _
      cases debug with
      | false => exact ⟨⟨_, rfl⟩, hsame, hlogged⟩
      | true =>
        rw [if_pos rfl]
        dsimp only
        split
        · have hdirectory : (Path.ofText ".").hasNull = false := Path.hasNull_ofText (by decide)
          obtain ⟨hleft, hfiles⟩ := sameBut_leaveArtifacts logged words s.machine
          rw [hsame] at hleft hfiles
          refine ⟨?_, hleft, hlogged.trans (hfiles.mono fun p hp => hp.imp_right fun h => ⟨h, rfl⟩)⟩
          rw [leaveArtifacts_fst, hdirectory]
          exact ⟨_, rfl⟩
        · exact ⟨⟨_, rfl⟩, hsame, hlogged⟩

end Run

namespace CommandLine

/-- The file of the log. A path that leaves the tree leads to none of its files. -/
def logPath (o : Options) : Option Path :=
  match o.logfile with
  | .mark => none
  | .value path => Path.collapse (.ofText path)

/-- The image is there, and its run comes to an end. -/
def Completes (docs : Documents) (h : Host) (o : Options) : Prop :=
  ∃ settings ready words own outcome, Ready docs h o settings ready ∧
    imageOf ready o = .ok (words, own) ∧
    answerOf settings words (entryOf o settings own) = .ok outcome

variable {docs : Documents} {c : Convention} {h ready : Host} {arguments : List String}
  {o : Options} {settings : Settings}

theorem Ready.unique {settings' : Settings} {ready' : Host} (hready : Ready docs h o settings ready)
    (hready' : Ready docs h o settings' ready') : settings' = settings ∧ ready' = ready := by
  obtain ⟨hfound, hjournal⟩ := hready
  obtain ⟨hfound', hjournal'⟩ := hready'
  obtain rfl : settings' = settings := Except.ok.inj (hfound'.symm.trans hfound)
  exact ⟨rfl, Except.ok.inj (hjournal'.symm.trans hjournal)⟩

theorem logPath_of_openJournal {debug : Bool} (hopen : openJournal h o debug = .ok ready) {p : Path}
    (hp : ready.logFile = some p) : logPath o = some p := by
  obtain ⟨path, hlogfile, hjournal⟩ := exists_of_openJournal hopen
  unfold logPath
  rw [hlogfile]
  dsimp only
  unfold Host.openJournal at hjournal
  cases hpath : Path.collapse (.ofText path) with
  | none =>
    rw [hpath] at hjournal
    obtain rfl := Except.ok.inj hjournal
    cases hp
  | some q =>
    rw [hpath] at hjournal
    obtain ⟨⟨place, files⟩, hcreate, rfl⟩ := exists_of_map_eq_ok hjournal
    obtain rfl : place = some p := hp
    rw [Files.eq_of_create (Path.up_notMem_collapse hpath) hcreate]

theorem sameBut_openJournal {debug : Bool} (hopen : openJournal h o debug = .ok ready) :
    SameBut (logPath o = some ·) h.files ready.files := by
  obtain ⟨path, -, hjournal⟩ := exists_of_openJournal hopen
  rcases (Host.openJournal_ok hjournal).2 with hsame | ⟨p, hp, -, hput⟩
  · rw [hsame]
    exact .refl _ _
  · rw [hput]
    exact .put (logPath o = some ·) h.files (logPath_of_openJournal hopen hp) []

theorem files_report (h : Host) (what : String) (f : Fault) :
    (report h what f).2.files = h.files := by
  cases f <;> rfl

theorem files_printListing (h : Host) (words : List Int) (entry : Given Int) :
    (printListing h words entry).2.files = h.files := by
  unfold printListing
  split
  · rfl
  · split <;> rfl

theorem runImage_files (docs : Documents) (h : Host) (o : Options) (settings : Settings)
    (words : List Int) (entry : Given Int) :
    (runImage docs h o settings words entry).2.files = h.files ∨
      (∃ outcome, answerOf settings words entry = .ok outcome) ∧
        SameBut (fun p => h.logFile = some p ∨ p ∈ Run.artifactFiles ∧ o.debug = true) h.files
          (runImage docs h o settings words entry).2.files := by
  let obs := observer h o settings
  have hanswer := image_settingsOfRun obs docs settings words entry 0
  have hfiles := Run.image_files docs h words 0 (settingsOfRun settings entry) settings.echo o.debug
  dsimp only at hfiles
  rcases hended : obs.image docs words 0 (settingsOfRun settings entry) with ⟨result, after⟩
  have hrun : Run.image docs h words 0
      (.map (settings.toEntries.put (.text "entry_point") (entry.toValue .int))) settings.echo
      (if o.debug then some "." else none) = (result, after) := hended
  rw [hended] at hanswer
  unfold settingsOfRun at hfiles
  rw [hrun] at hfiles
  unfold runImage
  dsimp only
  rw [hrun, ← hanswer]
  rcases hfiles with ⟨f, hrefused⟩ | ⟨⟨run, hran⟩, hlog, hsame⟩
  · obtain ⟨rfl, rfl⟩ := Prod.mk.inj hrefused
    exact .inl (files_report _ _ f)
  · obtain rfl : result = .ok run := hran
    refine .inr ⟨⟨run.outcome, rfl⟩, hsame.trans ?_⟩
    refine ((after.print (run.stream.getD "")).sameBut_debug _).mono fun p hp => ?_
    exact .inl (hlog.symm.trans hp)

/-- What is done behind the opening of the journal changes nothing but the log, and the artifacts
while debugging a run that comes to its end. -/
theorem proceed_files (hready : Ready docs h o settings ready) :
    SameBut (fun p => logPath o = some p ∨ p ∈ Run.artifactFiles ∧ o.debug = true ∧
      o.disasm = false ∧ Completes docs h o) h.files (proceed docs ready o settings).2.files := by
  have hopened := sameBut_openJournal hready.journal
  refine (hopened.mono fun p => .inl).trans ?_
  unfold proceed
  cases himage : imageOf ready o with
  | error f =>
    dsimp only
    rw [files_report]
    exact .refl _ _
  | ok image =>
    obtain ⟨words, own⟩ := image
    dsimp only
    cases hdisasm : o.disasm with
    | true =>
      rw [if_pos rfl, files_printListing]
      exact .refl _ _
    | false =>
      rw [if_neg Bool.false_ne_true]
      rcases runImage_files docs ready o settings words (entryOf o settings own) with
        hsame | ⟨⟨outcome, hanswer⟩, hsame⟩
      · rw [hsame]
        exact .refl _ _
      · have hcompletes : Completes docs h o :=
          ⟨settings, ready, words, own, outcome, hready, himage, hanswer⟩
        refine hsame.mono fun p hp => hp.imp (logPath_of_openJournal hready.journal) ?_
        exact fun ⟨hartifact, hdebug⟩ => ⟨hartifact, hdebug, rfl, hcompletes⟩

theorem invoke_of_journal_error {f : Fault} (hparse : parse c arguments = .ok o)
    (hfound : settingsOf docs h o = .ok settings)
    (hjournal : openJournal h o settings.trace = .error f) :
    invoke docs c h arguments = (.error f, h) := by
  unfold settingsOf configOf at hfound
  unfold invoke execute
  rw [hparse]
  dsimp only
  obtain ⟨s, hvalue, rfl⟩ := exists_of_map_eq_ok hfound
  rw [hvalue]
  dsimp only
  rw [hjournal]

theorem files_invoke_of_stop {stop : Stop} (hparse : parse c arguments = .error stop) :
    (invoke docs c h arguments).2.files = h.files := by
  unfold invoke
  rw [hparse]
  cases stop <;> rfl

/-- An invocation changes no file but its log, and the two artifacts, these only while debugging a
run that comes to its end. It changes none if the arguments or the settings are wrong, and only the
log if the image is, if the run is refused, if there is a listing instead, and if there is no
debugging, whatever the settings trace. -/
theorem invoke_touches (docs : Documents) (c : Convention) (h : Host) (arguments : List String) :
    let after := (invoke docs c h arguments).2.files
    (∀ stop, parse c arguments = .error stop → after = h.files) ∧
    ∀ o, parse c arguments = .ok o →
      let OnlyLog := SameBut (logPath o = some ·) h.files after
      (∀ f, Settings.ofValue docs h.files (configOf o) = .error f → after = h.files) ∧
      SameBut (fun p => logPath o = some p ∨ p ∈ Run.artifactFiles ∧ o.debug = true ∧
        o.disasm = false ∧ Completes docs h o) h.files after ∧
      (∀ settings ready, Ready docs h o settings ready →
        (∀ f, imageOf ready o = .error f → OnlyLog) ∧
        ∀ words own f, imageOf ready o = .ok (words, own) →
          answerOf settings words (entryOf o settings own) = .error f → OnlyLog) ∧
      (o.disasm = true → OnlyLog) ∧
      (o.debug = false → OnlyLog) := by
  intro after
  refine ⟨fun stop hparse => files_invoke_of_stop hparse, fun o hparse => ?_⟩
  intro OnlyLog
  have hbad : ∀ f, Settings.ofValue docs h.files (configOf o) = .error f → after = h.files := by
    intro f hsettings
    unfold after
    rw [invoke_of_settings_error hparse hsettings, files_report]
  have htouches : SameBut (fun p => logPath o = some p ∨ p ∈ Run.artifactFiles ∧ o.debug = true ∧
      o.disasm = false ∧ Completes docs h o) h.files after := by
    cases hvalue : Settings.ofValue docs h.files (configOf o) with
    | error f =>
      rw [hbad f hvalue]
      exact .refl _ _
    | ok s =>
      have hfound :
          settingsOf docs h o = .ok (if o.debug then { s with trace := true } else s) := by
        unfold settingsOf
        rw [hvalue]
        rfl
      cases hjournal : openJournal h o (if o.debug then { s with trace := true } else s).trace with
      | error f =>
        unfold after
        rw [invoke_of_journal_error hparse hfound hjournal]
        exact .refl _ _
      | ok ready =>
        have hready : Ready docs h o _ ready := ⟨hfound, hjournal⟩
        unfold after
        rw [invoke_of_ready hparse hready]
        exact proceed_files hready
  -- where the artifacts are ruled out the log is left
  have honly : ¬ (o.debug = true ∧ o.disasm = false ∧ Completes docs h o) → OnlyLog :=
    fun hnone => htouches.mono fun p hp => hp.resolve_right fun hartifact => hnone hartifact.2
  refine ⟨hbad, htouches, fun settings ready hready => ⟨?_, ?_⟩, ?_, ?_⟩
  · rintro f himage
    refine honly ?_
    rintro ⟨-, -, settings', ready', words, own, outcome, hready', himage', -⟩
    obtain ⟨rfl, rfl⟩ := hready.unique hready'
    cases himage.symm.trans himage'
  · rintro words own f himage hanswer
    refine honly ?_
    rintro ⟨-, -, settings', ready', words', own', outcome, hready', himage', hanswer'⟩
    obtain ⟨rfl, rfl⟩ := hready.unique hready'
    cases himage.symm.trans himage'
    cases hanswer.symm.trans hanswer'
  · exact fun hlisting => honly fun hartifact => by simp [hlisting] at hartifact
  · exact fun hquiet => honly fun hartifact => by simp [hquiet] at hartifact

/-- An image that pokes a letter is debugged, and stays what it was. Listed, or run from an entry
point that is none, it leaves a log only, and so does an image that is missing. -/
theorem invoke_touches_letter :
    let h := Host.ofFiles letterFiles
    let after (arguments : List String) := (invoke .yaml .older h arguments).2.files
    let OnlyLog := SameBut (· = [defaultLogfile]) letterFiles
    let debugging : Options := { image := some "a.bin", debug := true }
    let refused : Options := { debugging with entry := some (.value 65536) }
    let missing : Options := { debugging with image := some "b.bin" }
    (parse .older ["--bad"] = .error (.usage (.unrecognized ["--bad"])) ∧
      after ["--bad"] = letterFiles) ∧
    (parse .older ["--config", "a.yaml"] = .ok { config := some (.value "a.yaml") } ∧
      Settings.ofValue .yaml letterFiles (.text "a.yaml") =
        .error (.settings (.notFound "a.yaml")) ∧
      after ["--config", "a.yaml"] = letterFiles) ∧
    (parse .older ["--debug", "a.bin"] = .ok debugging ∧ Completes .yaml h debugging ∧
      (after ["--debug", "a.bin"]).read? ["a.bin"] = letterFiles.read? ["a.bin"]) ∧
    OnlyLog (after ["--debug", "--disasm", "a.bin"]) ∧
    OnlyLog (after ["a.bin"]) ∧
    (¬ Completes .yaml h refused ∧ OnlyLog (after ["--debug", "--entry=65536", "a.bin"])) ∧
    (¬ Completes .yaml h missing ∧ OnlyLog (after ["--debug", "b.bin"])) := by
  intro h after OnlyLog debugging refused missing
  have hlog : Path.collapse (.ofText defaultLogfile) = some [defaultLogfile] :=
    Path.collapse_ofText (by decide) (by decide)
  have honly : ∀ {files}, SameBut (logPath debugging = some ·) letterFiles files → OnlyLog files :=
    fun hsame => hsame.mono fun p hp => Option.some.inj (hp.symm.trans hlog)
  let ready : Host := { Host.ofFiles (letterFiles.put [defaultLogfile] []) with
    journal := some ⟨true, false, some [defaultLogfile], 0⟩ }
  let traced : Settings := { Settings.default with trace := true }
  have hready : ∀ {o : Options}, o.config = none → o.debug = true → o.console = false →
      o.logfile = .value defaultLogfile → Ready .yaml h o traced ready := by
    intro o hconfig hdebug hconsole hlogfile
    constructor
    · unfold settingsOf configOf
      rw [hconfig, hdebug]
      rfl
    · rw [openJournal_of_absent hlogfile hlog (by decide) rfl, hconsole]
      rfl
  have himage : imageOf ready debugging = .ok (letterWords, 0) := by
    have htakes : letterFiles.Takes [defaultLogfile] :=
      .absent (p := []) rfl (by decide) rfl
    have hapart : ∀ q, letterFiles.find (.ofText "a.bin") = .ok (.file q) →
        [defaultLogfile] ≠ q := by
      intro q hfind
      rw [find_letterFiles] at hfind
      obtain rfl := Found.file.inj (Except.ok.inj hfind)
      decide
    rw [imageOf_of_path rfl (by decide)]
    dsimp only [ready, Host.ofFiles]
    rw [Image.read_put htakes read_letterFiles hapart []]
    rfl
  have hmissing : imageOf ready missing = .error (.image (.notFound "b.bin")) := by
    have hpath : Path.ofText "b.bin" = ["b.bin"] := by decide +kernel
    have hnull : Path.hasNull ["b.bin"] = false := Path.hasNull_inside (by decide) []
    rw [imageOf_of_path rfl (by decide)]
    unfold Image.read
    dsimp only
    rw [hpath, Files.find_of_absent hnull rfl]
    rfl
  have hsettings : Settings.ofValue .yaml letterFiles (.text "a.yaml") =
      .error (.settings (.notFound "a.yaml")) := by
    have hpath : Path.ofText "a.yaml" = ["a.yaml"] := by decide +kernel
    have hnull : Path.hasNull ["a.yaml"] = false := Path.hasNull_inside (by decide) []
    change Settings.ofFile .yaml letterFiles "a.yaml" = _
    unfold Settings.ofFile
    rw [hpath, Files.find_of_absent hnull rfl]
  have hanswer : answerOf traced letterWords (.value 0) = .ok ⟨"A", 2, .halted⟩ := by
    decide +kernel
  have hrefused : answerOf traced letterWords (.value 65536) = .error (.ofEntry 65536) := rfl
  have hincomplete : ∀ {o : Options} (f : Fault), Ready .yaml h o traced ready →
      ((imageOf ready o).bind fun image => answerOf traced image.1 (entryOf o traced image.2)) =
        .error f → ¬ Completes .yaml h o := by
    rintro o f hready hfails ⟨settings, ready', words, own, outcome, hready', himage', hanswer'⟩
    obtain ⟨rfl, rfl⟩ := hready.unique hready'
    rw [himage'] at hfails
    cases hfails.symm.trans hanswer'
  have hbad : parse .older ["--bad"] = .error (.usage (.unrecognized ["--bad"])) := rfl
  have hconfig :
      parse .older ["--config", "a.yaml"] = .ok { config := some (.value "a.yaml") } := rfl
  have hdebug : parse .older ["--debug", "a.bin"] = .ok debugging := rfl
  have hlist :
      parse .older ["--debug", "--disasm", "a.bin"] = .ok { debugging with disasm := true } := rfl
  have hquiet : parse .older ["a.bin"] = .ok { image := some "a.bin" } := rfl
  have hrefuse : parse .older ["--debug", "--entry=65536", "a.bin"] = .ok refused := rfl
  have hmiss : parse .older ["--debug", "b.bin"] = .ok missing := rfl
  refine ⟨⟨hbad, (invoke_touches .yaml .older h _).1 _ hbad⟩, ⟨hconfig, hsettings, ?_⟩,
    ⟨hdebug, ?_, ?_⟩, ?_, ?_, ⟨?_, ?_⟩, ?_, ?_⟩
  · exact ((invoke_touches .yaml .older h _).2 _ hconfig).1 _ hsettings
  · exact ⟨traced, ready, letterWords, 0, _, hready rfl rfl rfl rfl, himage, hanswer⟩
  · refine ((invoke_touches .yaml .older h _).2 _ hdebug).2.1 _ ?_
    rintro (hplace | ⟨hartifact, -⟩)
    · exact absurd (hlog.symm.trans hplace) (by decide)
    · exact absurd hartifact (by decide)
  · exact honly (((invoke_touches .yaml .older h _).2 _ hlist).2.2.2.1 rfl)
  · exact honly (((invoke_touches .yaml .older h _).2 _ hquiet).2.2.2.2 rfl)
  · refine hincomplete (.ofEntry 65536) (hready rfl rfl rfl rfl) ?_
    rw [show imageOf ready refused = _ from himage]
    exact hrefused
  · have hready' : Ready .yaml h refused traced ready := hready rfl rfl rfl rfl
    exact honly
      ((((invoke_touches .yaml .older h _).2 _ hrefuse).2.2.1 _ _ hready').2 _ _ _ himage hrefused)
  · exact hincomplete _ (hready rfl rfl rfl rfl) (congrArg (Except.bind · _) hmissing)
  · have hready' : Ready .yaml h missing traced ready := hready rfl rfl rfl rfl
    exact honly ((((invoke_touches .yaml .older h _).2 _ hmiss).2.2.1 _ _ hready').1 _ hmissing)

end CommandLine

end WordMachine
