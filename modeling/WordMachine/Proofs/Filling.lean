import WordMachine.Proofs.Updating

/-!
Which records are filled in. If nothing stands under `expect`, or a mapping, a record whose run can
be made is filled in and written, and is then found in its file if it is read as it was written.
What is no mapping under `expect` stops the update before anything is written. Null is among that,
although it stands for no expectations elsewhere.
-/
namespace WordMachine.Record

variable {docs : Documents} {files : Files} {path : String} {p : Path} {record : Entries}
  {e : Expectations}

/-- Without a mapping under `expect` nothing is written. -/
theorem update_of_not_mapping (hfind : files.find (.ofText path) = .ok (.file p))
    (hholds : Holds docs files p (.map record))
    (hkey : Entries.hasKey record (.text "image") = true)
    (hexpect : ∀ expect, expectOf record ≠ .map expect) :
    update docs files path =
      (.error (.noAttribute (expectOf record).kindName "update"), files) := by
  have hfill : fill docs files (.map record) =
      .error (.noAttribute (expectOf record).kindName "update") := by
    unfold fill
    dsimp only
    split
    · next expect h => exact absurd h (hexpect expect)
    · rfl
  unfold update
  rw [hfind]
  dsimp only
  rw [filled_eq hholds hkey, hfill]
  rfl

theorem save_done_iff (docs : Documents) (files : Files) (p : Path) (v : Value) :
    (save docs files p v).1 = .ok .done ↔ (docs.write v).fault = none := by
  rw [save_eq]
  cases (docs.write v).fault <;> simp

/-- A record with an image whose run can be made is filled in if there is a mapping or nothing under
`expect`. The update is done if the record is written without a fault, and its file then holds the
record with all that is expected if it is read as it was written. If there is something else under
`expect`, null too, the update fails and no file is touched. -/
theorem update_fills_mappings (hfind : files.find (.ofText path) = .ok (.file p))
    (hholds : Holds docs files p (.map record))
    (hkey : Entries.hasKey record (.text "image") = true)
    (he : expectations docs files record = .ok e) :
    ((∀ expect, expectOf record ≠ .map expect) →
      update docs files path =
        (.error (.noAttribute (expectOf record).kindName "update"), files)) ∧
    ∀ expect, expectOf record = .map expect →
      ∃ new, FilledWith e record new ∧ filled docs files p = .ok (some (.map new)) ∧
        (update docs files path).2.read? p = some (docs.write (.map new)).bytes ∧
        ((update docs files path).1 = .ok .done ↔ (docs.write (.map new)).fault = none) ∧
        ((update docs files path).1 = .ok .done → docs.Keeps (.map new) →
          Holds docs (update docs files path).2 p (.map new)) := by
  refine ⟨update_of_not_mapping hfind hholds hkey, fun expect hexpect => ?_⟩
  have hfilled := filled_of_holds hholds hkey (fill_of_expectations hexpect he)
  rw [update_of_find hfind hfilled]
  refine ⟨_, filledWith_put hexpect e, hfilled, ?_, save_done_iff docs files p _, ?_⟩
  · rw [save_eq, Files.read?_put, if_pos rfl]
  · intro hdone hkeeps
    have hwritten := (save_done_iff docs files p _).mp hdone
    rw [save_eq]
    exact holds_put hkeeps hwritten files p

def haltRecord : Entries :=
  [(.text "image", .text "5")]

def openRecord : Entries :=
  [(.text "expect", .null), (.text "image", .text "5")]

/-- The records in two files. -/
def recordFiles : Files := ⟨[
  (["halt.yaml"], Text.Utf8.encode "image: '5'\n"),
  (["open.yaml"], Text.Utf8.encode "expect:\nimage: '5'\n")]⟩

theorem asks_haltRecord : Asks docs recordFiles haltRecord [0x0005] 0 .default where
  image := rfl
  entry := rfl
  settings := rfl

theorem asks_openRecord : Asks docs recordFiles openRecord [0x0005] 0 .default where
  image := rfl
  entry := rfl
  settings := rfl

/-- Null stands for no expectations, but it is not filled in. -/
theorem null_is_not_filled :
    recordFiles.find (.ofText "open.yaml") = .ok (.file ["open.yaml"]) ∧
    Holds .yaml recordFiles ["open.yaml"] (.map openRecord) ∧
    expectOf openRecord = .null ∧ (∃ e, expectations .yaml recordFiles openRecord = .ok e) ∧
    update .yaml recordFiles "open.yaml" =
      (.error (.noAttribute "NoneType" "update"), recordFiles) := by
  have hfind : recordFiles.find (.ofText "open.yaml") = .ok (.file ["open.yaml"]) :=
    Files.find_ofText (by decide) rfl
  have hholds : Holds .yaml recordFiles ["open.yaml"] (.map openRecord) :=
    (Document.ofBytes_encode String.toList_ofList (by decide +kernel)).trans (by decide +kernel)
  refine ⟨hfind, hholds, rfl, ⟨_, expectations_halt asks_openRecord⟩, ?_⟩
  exact update_of_not_mapping hfind hholds rfl (fun _ => nofun)

theorem update_fills_mappings_halt :
    let new : Entries := [
      (.text "image", .text "5"),
      (.text "expect", .map [
        (.text "out_stdout", .text ""), (.text "steps", .int 1), (.text "state", .text "halted"),
        (.text "pc", .int 1), (.text "memory", .map []),
        (.text "out_code_hex", .text "0 - 0005 - HALT\n")])]
    Holds .yaml recordFiles ["halt.yaml"] (.map haltRecord) ∧
    (∃ e, expectations .yaml recordFiles haltRecord = .ok e ∧ FilledWith e haltRecord new) ∧
    (update .yaml recordFiles "halt.yaml").1 = .ok .done ∧
    Holds .yaml (update .yaml recordFiles "halt.yaml").2 ["halt.yaml"] (.map new) := by
  intro new
  have hfind : recordFiles.find (.ofText "halt.yaml") = .ok (.file ["halt.yaml"]) :=
    Files.find_ofText (by decide) rfl
  have hholds : Holds .yaml recordFiles ["halt.yaml"] (.map haltRecord) :=
    (Document.ofBytes_encode String.toList_ofList (by decide +kernel)).trans (by decide +kernel)
  have hasks : Asks .yaml recordFiles haltRecord [0x0005] 0 .default := asks_haltRecord
  have he := expectations_halt hasks
  have hfilled : filled .yaml recordFiles ["halt.yaml"] = .ok (some (.map new)) := by
    rw [filled_of_holds hholds rfl (fill_of_expectations rfl he)]
    rfl
  obtain ⟨written, hset, hnew, -, hdone, hkept⟩ :=
    (update_fills_mappings hfind hholds rfl he).2 [] rfl
  obtain rfl : new = written := by simpa using hfilled.symm.trans hnew
  have hupdated := hdone.mpr (Documents.fault_yaml_write (by decide +kernel))
  have hkeeps : Documents.yaml.Keeps (.map new) :=
    Documents.keeps_yaml (by decide +kernel) (by decide +kernel)
  exact ⟨hholds, ⟨_, he, hset⟩, hupdated, hkept hupdated hkeeps⟩

end WordMachine.Record
