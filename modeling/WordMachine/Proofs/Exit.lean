import WordMachine.Proofs.Labels

/-!
The exit status of an invocation with an image. What is wrong with an image is reported, which is
status 2, and an image that is read is run or listed, which is a status too. Only an image that is
not legible has a fault that passes through.
-/
namespace WordMachine.CommandLine

section

variable {docs : Documents} {c : Convention} {h ready : Host} {arguments : List String}
  {o : Options} {settings : Settings} {path : String}

theorem imageOf_of_path (hpath : o.image = some path) (hnamed : path ≠ "") :
    imageOf h o = (Image.read h.files path).map fun words =>
      (words.map fun w => (w.toNat : Int), 0) := by
  unfold imageOf
  rw [hpath]
  dsimp only
  rw [if_neg (fun hempty => hnamed (String.isEmpty_iff.mp hempty))]

theorem invoke_of_read_error {f : Fault} (hparse : parse c arguments = .ok o)
    (hready : Ready docs h o settings ready) (hpath : o.image = some path) (hnamed : path ≠ "")
    (hread : Image.read ready.files path = .error f) :
    invoke docs c h arguments = report ready "Bad image:" f := by
  rw [invoke_of_ready hparse hready]
  unfold proceed
  rw [imageOf_of_path hpath hnamed, hread]
  rfl

/-- The entry point that is given, if one is, is a number that can be written. -/
def Plain (o : Options) : Prop :=
  ∀ g ∈ o.entry, ∃ n, g = .value n ∧ Numeral.Writable n

theorem entryOf_of_plain (hplain : Plain o) (settings : Settings) :
    ∃ n, entryOf o settings 0 = .value n ∧ Numeral.Writable n := by
  unfold Plain at hplain
  unfold entryOf
  cases hentry : o.entry with
  | some g => exact hplain g hentry
  | none =>
    refine ⟨Run.entryOf settings 0, rfl, Numeral.writable_of_isWord ?_⟩
    unfold Run.entryOf
    split
    · exact Word.isWord_toNat _
    · decide

theorem exists_status_of_words (hparse : parse c arguments = .ok o)
    (hready : Ready docs h o settings ready) (hplain : Plain o) {words : List Int}
    (himage : imageOf ready o = .ok (words, 0)) (hlength : Numeral.Writable words.length) :
    ∃ status, (status = 0 ∨ status = 2) ∧ (invoke docs c h arguments).1 = .ok status := by
  have hwords := isWord_of_imageOf himage
  obtain ⟨n, hentry, hwritable⟩ := entryOf_of_plain hplain settings
  rw [invoke_of_ready hparse hready]
  unfold proceed
  rw [himage]
  dsimp only
  rw [hentry]
  split
  · obtain ⟨text, htext⟩ := exists_text_rowsFrom hwords hlength (.inr hwritable)
    exact ⟨0, .inl rfl, congrArg Prod.fst (printListing_of_text htext ready)⟩
  · apply exists_status_runImage docs ready o settings hwords
    intro n' hn'
    cases hn'
    exact hwritable

end

/-- Reading answers exactly for what is legible, and so do invocations. What is wrong with an image
is reported with the status 2, and where it is not legible the fault of reading passes through. -/
theorem status_iff_legible (files : Files) (path : String) :
    (Image.Answers (Image.read files path) ↔ Image.Legible files path) ∧
    ∀ (docs : Documents) (c : Convention) (h ready : Host) (arguments : List String) (o : Options)
      (settings : Settings),
      parse c arguments = .ok o → o.image = some path → path ≠ "" →
      Ready docs h o settings ready → ready.files = files →
      (∀ e, Image.read files path = .error (.image e) →
        invoke docs c h arguments =
          (.ok 2, ready.printError ("Bad image: " ++ e.message ++ "\n"))) ∧
      (¬ Image.Legible files path →
        ∃ f, Image.read files path = .error f ∧ invoke docs c h arguments = (.error f, ready)) ∧
      (Plain o → (∀ ws, Image.read files path = .ok ws → Numeral.Writable ws.length) →
        ((∃ status, (status = 0 ∨ status = 2) ∧ (invoke docs c h arguments).1 = .ok status) ↔
          Image.Legible files path)) := by
  refine ⟨Image.answers_read_iff files path, ?_⟩
  rintro docs c h ready arguments o settings hparse hpath hnamed hready rfl
  have hreported : ∀ e, Image.read ready.files path = .error (.image e) →
      invoke docs c h arguments = (.ok 2, ready.printError ("Bad image: " ++ e.message ++ "\n")) :=
    fun e hread => invoke_of_read_error hparse hready hpath hnamed hread
  have hescapes : ¬ Image.Legible ready.files path →
      ∃ f, Image.read ready.files path = .error f ∧
        invoke docs c h arguments = (.error f, ready) := by
    intro hlegible
    rcases Image.fault_of_not_legible hlegible with ⟨e, hread⟩ | ⟨e, hread⟩
    · exact ⟨_, hread, invoke_of_read_error hparse hready hpath hnamed hread⟩
    · exact ⟨_, hread, invoke_of_read_error hparse hready hpath hnamed hread⟩
  refine ⟨hreported, hescapes, fun hplain hlength => ⟨?_, ?_⟩⟩
  · rintro ⟨status, -, hstatus⟩
    by_contra hlegible
    obtain ⟨f, -, hinvoke⟩ := hescapes hlegible
    rw [hinvoke] at hstatus
    cases hstatus
  · intro hlegible
    rcases Image.answers_of_legible hlegible with ⟨ws, hread, -⟩ | ⟨e, hread⟩
    · have himage := imageOf_of_path (h := ready) hpath hnamed
      rw [hread] at himage
      apply exists_status_of_words hparse hready hplain himage
      rw [List.length_map]
      exact hlength ws hread
    · exact ⟨2, .inr rfl, congrArg Prod.fst (hreported e hread)⟩

/-- An odd number of bytes is reported. -/
theorem status_iff_legible_odd :
    let files : Files := ⟨[(["odd.bin"], [0x05])]⟩
    let o : Options := { image := some "odd.bin" }
    (parse .older ["odd.bin"] = .ok o ∧ o.image = some "odd.bin" ∧ "odd.bin" ≠ "" ∧
      Ready .yaml (.ofFiles files) o .default (opened files)) ∧
    Image.read (opened files).files "odd.bin" = .error (.image (.oddLength 1)) ∧ Plain o ∧
    invoke .yaml .older (.ofFiles files) ["odd.bin"] =
      (.ok 2, (opened files).printError
        ("Bad image: " ++ (ImageError.oddLength 1).message ++ "\n")) ∧
    Image.Legible (opened files).files "odd.bin" := by
  intro files o
  have hparse : parse .older ["odd.bin"] = .ok o := rfl
  have hnamed : "odd.bin" ≠ "" := by decide
  have hready : Ready .yaml (.ofFiles files) o .default (opened files) :=
    ready_opened rfl rfl rfl rfl
  have hread : Image.read (opened files).files "odd.bin" = .error (.image (.oddLength 1)) := by
    have hpath : Path.ofText "odd.bin" = ["odd.bin"] := Path.ofText_of_isName (by decide)
    have hnull : Path.hasNull ["odd.bin"] = false := Path.hasNull_inside (by decide) []
    rw [Image.read_of_file hpath hnull rfl]
    rfl
  have hplain : Plain o := fun g hg => nomatch hg
  obtain ⟨hreported, -, hstatus⟩ :=
    (status_iff_legible (opened files).files "odd.bin").2 _ _ _ _ _ o _ hparse rfl hnamed hready rfl
  have hinvoke := hreported _ hread
  refine ⟨⟨hparse, rfl, hnamed, hready⟩, hread, hplain, hinvoke, ?_⟩
  refine (hstatus hplain ?_).mp ⟨2, .inr rfl, congrArg Prod.fst hinvoke⟩
  intro ws hws
  rw [hread] at hws
  cases hws

/-- A byte that is no text passes through as a fault. -/
theorem undecodable_image_passes_through :
    let files : Files := ⟨[(["i.hex"], [0xFF])]⟩
    let f : Fault := .undecodable ⟨0, 1, 0xFF, .invalidStart⟩
    Image.read files "i.hex" = .error f ∧ ¬ Image.Answers (Image.read files "i.hex") ∧
    invoke .yaml .older (.ofFiles files) ["i.hex"] = (.error f, opened files) := by
  intro files f
  have hpath : Path.ofText "i.hex" = ["i.hex"] := Path.ofText_of_isName (by decide)
  have hnull : Path.hasNull ["i.hex"] = false := Path.hasNull_inside (by decide) []
  have hbytes : Image.ofFileBytes ["i.hex"] [0xFF] = .error f := by decide +kernel
  have hread : Image.read files "i.hex" = .error f := by
    rw [Image.read_of_file hpath hnull rfl]
    exact hbytes
  have hready : Ready .yaml (.ofFiles files) { image := some "i.hex" } .default (opened files) :=
    ready_opened rfl rfl rfl rfl
  have hopened : Image.read (opened files).files "i.hex" = .error f := by
    rw [Image.read_of_file hpath hnull rfl]
    exact hbytes
  refine ⟨hread, ?_, invoke_of_read_error rfl hready rfl (by decide) hopened⟩
  rw [hread]
  exact Image.not_answers_error fun _ h => nomatch h

end WordMachine.CommandLine
