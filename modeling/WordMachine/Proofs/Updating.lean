import WordMachine.Proofs.Expectations
import WordMachine.Proofs.Places
import WordMachine.Proofs.Portions

/-!
Records that are filled in where they are. An update that fails leaves every file as it was, as
long as what it would write can be written. One that is done sets the entries of the expectations
and no others, and as a record does not ask for anything that stands under `expect`, a second
update finds what it would write.
-/
namespace WordMachine

namespace Settings

/-- The file that settings are read from, if they are given as its path. -/
def sourceOf? (files : Files) : Value → Option Path
  | .scalar (.text path) =>
    match path.string?.map fun name => files.find (.ofText name) with
    | some (.ok (.file q)) => some q
    | _ => none
  | _ => none

theorem ofValue_put {files : Files} {p : Path} {v : Value}
    (hthere : (files.read? p).isSome = true) (hsource : sourceOf? files v ≠ some p)
    (docs : Documents) (bytes : List UInt8) :
    ofValue docs (files.put p bytes) v = ofValue docs files v := by
  cases v with
  | list items => rfl
  | map entries => rfl
  | scalar s =>
    cases s with
    | text path =>
      unfold sourceOf? at hsource
      unfold ofValue
      dsimp only at hsource ⊢
      cases hname : path.string? with
      | none => rfl
      | some name =>
        rw [hname] at hsource
        dsimp only [Option.map] at hsource ⊢
        unfold ofFile
        rw [Files.find_put_of_isSome hthere]
        rcases hfound : files.find (.ofText name) with e | (q | _ | _)
        · rfl
        · rw [hfound] at hsource
          have hother : p ≠ q := fun h => hsource (congrArg some h.symm)
          dsimp only
          rw [Files.read?_put, if_neg hother]
        · rfl
        · rfl
    | _ => rfl

end Settings

namespace Documents

theorem fault_yaml_write {v : Value} (h : Document.isWritable v = true) :
    (yaml.write v).fault = none :=
  congrArg Written.fault (if_pos h)

/-- A value is kept if the text that is written of it is short and read as the same value. -/
theorem keeps_yaml {v : Value} (hshort : Document.IsShort (Document.textOf v))
    (hread : Document.read ⟨Document.textOf v, none⟩ = .ok v) : yaml.Keeps v := by
  intro hwritten
  have hwrite : yaml.write v =
      ⟨Text.Utf8.encode (String.ofList (Document.textOf v)), none⟩ := by
    change Document.write v = _
    change (Document.write v).fault = none at hwritten
    unfold Document.write at hwritten ⊢
    split
    · rfl
    · next h =>
      rw [if_neg h] at hwritten
      cases hwritten
  rw [hwrite]
  exact (Document.ofBytes_encode String.toList_ofList hshort).trans hread

end Documents

namespace Record

def expectKey : Scalar :=
  .text "expect"

/-- The entries under `expect`, none of which have to be there. -/
def expectOf (record : Entries) : Value :=
  (record.get? expectKey).getD (.map [])

/-- `new` is a record with the entries of its expectations set under `expect`. -/
def FilledWith (e : Expectations) (record new : Entries) : Prop :=
  ∃ expect expect', expectOf record = .map expect ∧ Entries.Sets e.toEntries expect expect' ∧
    Entries.Sets [(expectKey, .map expect')] record new

variable {docs : Documents} {files : Files} {path : String} {p : Path}

theorem sets_expectations (e : Expectations) (expect : Entries) :
    Entries.Sets e.toEntries expect (expect.update e.toEntries) := by
  apply Entries.sets_update
  simp only [Expectations.toEntries, List.pairwise_cons, List.forall_mem_cons]
  decide

theorem filledWith_put {record expect : Entries} (hexpect : expectOf record = .map expect)
    (e : Expectations) :
    FilledWith e record (record.put expectKey (.map (expect.update e.toEntries))) :=
  ⟨expect, expect.update e.toEntries, hexpect, sets_expectations e expect,
    Entries.sets_update (List.pairwise_singleton _ _) record⟩

theorem fill_ok {v filled : Value} (h : fill docs files v = .ok filled) :
    ∃ record expect e, v = .map record ∧ expectOf record = .map expect ∧
      expectations docs files record = .ok e ∧
      filled =
        .map (Entries.put expectKey (.map (Entries.update expect e.toEntries)) record) := by
  cases v with
  | scalar s => cases h
  | list items => cases h
  | map record =>
    unfold fill at h
    dsimp only at h
    split at h
    · next expect hexpect =>
      obtain ⟨e, he, hfilled⟩ := exists_of_bind_eq_ok h
      exact ⟨record, expect, e, rfl, hexpect, he, (Except.ok.inj hfilled).symm⟩
    · cases h

/-- A record asks for nothing that stands under `expect`, and for no file but that of its
settings. -/
theorem expectations_put {record : Entries} (hthere : (files.read? p).isSome = true)
    (hsource : Settings.sourceOf? files (configOf record) ≠ some p) (v : Value)
    (bytes : List UInt8) :
    expectations docs (files.put p bytes) (record.put expectKey v) =
      expectations docs files record := by
  have hget : ∀ key : String, Scalar.isSameKey expectKey (.text key) = false →
      (record.put expectKey v).get? (.text key) = record.get? (.text key) := by
    intro key hkey
    rw [Entries.get?_put, if_neg (by simp [hkey])]
  have himage : imageOf (record.put expectKey v) = imageOf record := by
    unfold imageOf
    rw [hget "image" (by decide)]
  have hsettings := Settings.ofValue_put hthere hsource docs bytes
  unfold configOf at hsettings
  unfold expectations
  rw [himage, hget "entry" (by decide), hget "config" (by decide), hsettings]

theorem fill_of_expectations {record expect : Entries} {e : Expectations}
    (hexpect : expectOf record = .map expect) (he : expectations docs files record = .ok e) :
    fill docs files (.map record) =
      .ok (.map (record.put expectKey (.map (expect.update e.toEntries)))) := by
  unfold expectOf expectKey at hexpect
  unfold fill
  dsimp only
  rw [hexpect]
  dsimp only
  rw [he]
  rfl

theorem fill_fill {record : Entries} {e : Expectations} (hthere : (files.read? p).isSome = true)
    (hsource : Settings.sourceOf? files (configOf record) ≠ some p)
    (he : expectations docs files record = .ok e) (expect : Entries) (bytes : List UInt8) :
    let new := record.put expectKey (.map (expect.update e.toEntries))
    fill docs (files.put p bytes) (.map new) = .ok (.map new) := by
  intro new
  have hself : expectKey.isSameKey expectKey = true := rfl
  have hfound : new.get? expectKey = some (.map (expect.update e.toEntries)) := by
    rw [Entries.get?_put, if_pos hself]
  have hexpect : expectOf new = .map (expect.update e.toEntries) := by
    unfold expectOf
    rw [hfound]
    rfl
  -- the values that are expected are there already
  have hsame : Entries.update (expect.update e.toEntries) e.toEntries =
      expect.update e.toEntries :=
    Entries.update_of_get? (sets_expectations e expect).values
  have hagain : expectations docs (files.put p bytes) new = .ok e := by
    rw [expectations_put hthere hsource, he]
  rw [fill_of_expectations hexpect hagain, hsame, Entries.put_of_get? hfound]

/-- A file with a value in it. -/
def Holds (docs : Documents) (files : Files) (p : Path) (v : Value) : Prop :=
  docs.read ((files.read? p).getD []) = .ok v

theorem readFile_of_holds {record : Entries} (h : Holds docs files p (.map record)) :
    readFile docs files p = .ok (.map record) := by
  unfold readFile
  rw [h]
  cases record <;> rfl

theorem filled_some {v : Value} (h : filled docs files p = .ok (some v)) :
    ∃ record, Holds docs files p (.map record) ∧ Entries.hasKey record (.text "image") = true ∧
      fill docs files (.map record) = .ok v := by
  unfold filled at h
  obtain ⟨read, hread, hrest⟩ := exists_of_bind_eq_ok h
  obtain ⟨image, himage, hrest⟩ := exists_of_bind_eq_ok hrest
  cases image with
  | false => cases hrest
  | true =>
    rw [if_pos rfl] at hrest
    obtain ⟨new, hfill, hnew⟩ := exists_of_bind_eq_ok hrest
    obtain rfl : new = v := by simpa using Except.ok.inj hnew
    obtain ⟨record, -, -, rfl, -⟩ := fill_ok hfill
    have hkey : Entries.hasKey record (.text "image") = true := by
      rw [Entries.hasKey_eq]
      exact Except.ok.inj himage
    unfold readFile at hread
    obtain ⟨w, hw, hrecord⟩ := exists_of_bind_eq_ok hread
    replace hrecord : ofValue w = .map record := Except.ok.inj hrecord
    unfold ofValue at hrecord
    split at hrecord
    · exact ⟨record, hrecord ▸ hw, hkey, hfill⟩
    · obtain rfl : [] = record := Value.map.inj hrecord
      cases hkey

theorem filled_eq {record : Entries} (hholds : Holds docs files p (.map record))
    (hkey : Entries.hasKey record (.text "image") = true) :
    filled docs files p = (fill docs files (.map record)).map some := by
  have himage : hasImage (.map record) = .ok true := by
    rw [Entries.hasKey_eq] at hkey
    exact congrArg Except.ok hkey
  unfold filled
  rw [readFile_of_holds hholds]
  dsimp only [bind, Except.bind]
  rw [himage]
  dsimp only
  rw [if_pos rfl]
  cases fill docs files (.map record) <;> rfl

theorem filled_of_holds {record : Entries} {v : Value} (hholds : Holds docs files p (.map record))
    (hkey : Entries.hasKey record (.text "image") = true)
    (hfill : fill docs files (.map record) = .ok v) : filled docs files p = .ok (some v) := by
  rw [filled_eq hholds hkey, hfill]
  rfl

/-- Of a record that is saved its file has what is written of it, whether this is all or not. -/
theorem save_eq (docs : Documents) (files : Files) (p : Path) (v : Value) :
    save docs files p v = ((docs.write v).fault.elim (.ok .done) .error,
      files.put p (docs.write v).bytes) := by
  unfold save
  dsimp only
  rw [Files.put_put]
  cases (docs.write v).fault <;> rfl

theorem update_of_find (h : files.find (.ofText path) = .ok (.file p)) {v : Value}
    (hfilled : filled docs files p = .ok (some v)) :
    update docs files path = save docs files p v := by
  unfold update
  rw [h]
  dsimp only
  rw [hfilled]

theorem update_cases (docs : Documents) (files : Files) (path : String) :
    (update docs files path).1 ≠ .ok .done ∧ (update docs files path).2 = files ∨
      ∃ p v, files.find (.ofText path) = .ok (.file p) ∧ filled docs files p = .ok (some v) := by
  unfold update
  rcases files.find (.ofText path) with e | (p | _ | _)
  · exact .inl ⟨fun h => (nomatch h), rfl⟩
  · dsimp only
    rcases hfilled : filled docs files p with f | (_ | v)
    · exact .inl ⟨fun h => (nomatch h), rfl⟩
    · exact .inl ⟨fun h => (nomatch h), rfl⟩
    · exact .inr ⟨p, v, rfl, hfilled⟩
  · exact .inl ⟨fun h => (nomatch h), rfl⟩
  · exact .inl ⟨fun h => (nomatch h), rfl⟩

theorem holds_put {v : Value} (hkeeps : docs.Keeps v) (hwritten : (docs.write v).fault = none)
    (files : Files) (p : Path) : Holds docs (files.put p (docs.write v).bytes) p v := by
  unfold Holds
  rw [Files.read?_put, if_pos rfl]
  exact hkeeps hwritten

theorem update_update {record expect : Entries} {e : Expectations}
    (hfind : files.find (.ofText path) = .ok (.file p))
    (hkey : Entries.hasKey record (.text "image") = true)
    (hsource : Settings.sourceOf? files (configOf record) ≠ some p)
    (he : expectations docs files record = .ok e) :
    let new := record.put expectKey (.map (expect.update e.toEntries))
    let saved := files.put p (docs.write (.map new)).bytes
    Holds docs saved p (.map new) → (docs.write (.map new)).fault = none →
    update docs saved path = (.ok .done, saved) := by
  intro new saved hholds hwritten
  have hthere := Files.isSome_read?_of_find hfind
  have hfind' : saved.find (.ofText path) = .ok (.file p) := by
    rw [Files.find_put_of_isSome hthere, hfind]
  have hkey' : Entries.hasKey new (.text "image") = true := by
    rw [Entries.hasKey_eq] at hkey ⊢
    rw [Entries.get?_put, if_neg (by decide), hkey]
  have hfill : fill docs saved (.map new) = .ok (.map new) :=
    fill_fill hthere hsource he expect _
  rw [update_of_find hfind' (filled_of_holds hholds hkey' hfill), save_eq, hwritten,
    Files.put_put]
  rfl

/-- An update that fails leaves all files as they are, unless the record has been filled in and its
writing fails, when its file has what was written up to then. A record that is done has the entries
of its expectations set and is otherwise as it was, and no other file is touched. If the record is
read as it was written, a second update leaves the files as the first one does. -/
theorem update_transactional (docs : Documents) (files : Files) (path : String) :
    let updated := (update docs files path).2
    ((update docs files path).1 ≠ .ok .done →
      updated = files ∨
      ∃ p v f, files.find (.ofText path) = .ok (.file p) ∧ filled docs files p = .ok (some v) ∧
        (docs.write v).fault = some f ∧ (update docs files path).1 = .error f ∧
        updated = files.put p (docs.write v).bytes) ∧
    ((update docs files path).1 = .ok .done →
      ∃ p record e new, files.find (.ofText path) = .ok (.file p) ∧
        Holds docs files p (.map record) ∧ expectations docs files record = .ok e ∧
        FilledWith e record new ∧ filled docs files p = .ok (some (.map new)) ∧
        updated.read? p = some (docs.write (.map new)).bytes ∧
        (∀ q, q ≠ p → updated.read? q = files.read? q) ∧
        (docs.Keeps (.map new) →
          Holds docs updated p (.map new) ∧
          (Settings.sourceOf? files (configOf record) ≠ some p →
            update docs updated path = (.ok .done, updated)))) := by
  rcases update_cases docs files path with ⟨hnot, hsame⟩ | ⟨p, v, hfind, hfilled⟩
  · exact ⟨fun _ => .inl hsame, fun h => absurd h hnot⟩
  · obtain ⟨record, hholds, hkey, hfill⟩ := filled_some hfilled
    obtain ⟨_, expect, e, hrecord, hexpect, he, rfl⟩ := fill_ok hfill
    obtain rfl := Value.map.inj hrecord
    rw [update_of_find hfind hfilled, save_eq]
    -- from here on nothing but the writing can fail
    cases hwritten : (docs.write _).fault with
    | some f =>
      refine ⟨fun _ => .inr ⟨p, _, f, hfind, hfilled, hwritten, rfl, rfl⟩, fun h => ?_⟩
      cases h
    | none =>
      refine ⟨fun h => absurd rfl h, fun _ => ?_⟩
      refine ⟨p, record, e, _, hfind, hholds, he, filledWith_put hexpect e, hfilled, ?_, ?_, ?_⟩
      · rw [Files.read?_put, if_pos rfl]
      · intro q hq
        rw [Files.read?_put, if_neg (Ne.symm hq)]
      · intro hkeeps
        have hread := holds_put hkeeps hwritten files p
        exact ⟨hread, fun hsource => update_update hfind hkey hsource he hread hwritten⟩

theorem nonzeroFrom_fill {ws : List Word} (h : ws.length ≤ 65536) :
    (Memory.zero.fill 0 ws).nonzeroFrom ws.length = [] := by
  apply List.eq_nil_iff_forall_not_mem.mpr
  intro c hc
  obtain ⟨hle, hlt, hne, hread⟩ := Memory.mem_nonzeroFrom_iff.mp hc
  have haddress : (UInt16.ofNat c.1 - 0).toNat = c.1 := by
    rw [UInt16.sub_zero, UInt16.toNat_ofNat']
    exact Nat.mod_eq_of_lt hlt
  rw [Memory.read_fill _ _ _ _ h, haddress, List.getElem?_eq_none hle, Option.getD_none,
    Memory.read_zero] at hread
  exact hne hread.symm

theorem expectations_halt {record : Entries}
    (hasks : Asks docs files record [0x0005] 0 .default) :
    expectations docs files record = .ok {
      outcome := ⟨"", 1, .halted⟩
      pc := 1
      memory := []
      listing := "0 - 0005 - HALT\n" } := by
  let m : Machine := { Machine.fresh with memory := Memory.zero.fill 0 [0x0005] }
  have hread : m.memory.read 0 = 0x0005 := Memory.read_fill _ _ _ _ (by decide)
  have hinstruction : m.instruction = .decode 0x0005 := congrArg Instruction.decode hread
  have hhalt : m.instruction.operation = .halt := by
    rw [hinstruction]
    rfl
  obtain ⟨hrun, hexecuted, hhalted⟩ := Machine.run_of_halt 99 rfl hhalt
  have hmemory : (m.run 100).memory.nonzeroFrom 1 = [] := by
    rw [hrun, Machine.step_memory, hinstruction]
    have hlength : [(0x0005 : Word)].length ≤ 65536 := by decide
    exact nonzeroFrom_fill hlength
  have hpc : (m.run 100).pc = 1 := by
    have hjumps : ¬ m.Jumps := by
      rw [Machine.Jumps, hhalt]
      exact fun h => nomatch h.1
    rw [hrun, Machine.step_pc, if_neg hjumps, hinstruction]
    rfl
  have houtcome : (⟨(m.run 100).output, m.executed 100, (m.run 100).ending⟩ : Session.Outcome) =
      ⟨"", 1, .halted⟩ := by
    have hemitted : m.step.emitted = #[] := by
      rw [Machine.step_emitted, hhalt]
      rfl
    rw [hrun, hexecuted, Machine.output, Machine.ending, hemitted, hhalted]
    rfl
  have hlisting : (Listing.text? (Listing.disassemble 0 [5])).getD "" ++ "\n" =
      "0 - 0005 - HALT\n" := by decide +kernel
  have hload : Machine.fresh.load (numbersOf [0x0005])
      (Run.entryOf { Settings.default with entryPoint := none } 0) 0 = (.ok (), m) := rfl
  have hrunOf : runOf .default [0x0005] 0 = .ok (⟨"", 1, .halted⟩, m.run 100) := by
    unfold runOf Run.unobserved
    rw [hload, ← houtcome]
    rfl
  rw [expectations_eq hasks, hrunOf]
  dsimp only [Except.map]
  unfold expected
  dsimp only [List.length_singleton]
  rw [hmemory, hpc]
  exact congrArg (fun listing => Except.ok (Expectations.mk _ 1 [] listing)) hlisting

/-- A record with an expectation that does not hold, and a note beside it. -/
theorem update_transactional_halt :
    let files : Files := .put .empty ["r.yaml"] (Text.Utf8.encode
      "expect: \x7bpc: 9, note: a\x7d\nimage: '0005'\n")
    let old : Entries := [
      (.text "expect", .map [(.text "pc", .int 9), (.text "note", .text "a")]),
      (.text "image", .text "0005")]
    let new : Entries := [
      (.text "expect", .map [(.text "pc", .int 1), (.text "note", .text "a"),
        (.text "out_stdout", .text ""), (.text "steps", .int 1), (.text "state", .text "halted"),
        (.text "memory", .map []), (.text "out_code_hex", .text "0 - 0005 - HALT\n")]),
      (.text "image", .text "0005")]
    let updated := (update .yaml files "r.yaml").2
    (update .yaml files "r.yaml").1 = .ok .done ∧ Holds .yaml files ["r.yaml"] (.map old) ∧
      (∃ e, expectations .yaml files old = .ok e ∧ FilledWith e old new) ∧
      Holds .yaml updated ["r.yaml"] (.map new) ∧
      update .yaml updated "r.yaml" = (.ok .done, updated) := by
  intro files old new updated
  have hfind : files.find (.ofText "r.yaml") = .ok (.file ["r.yaml"]) :=
    Files.find_ofText (by decide) rfl
  have hold : Holds .yaml files ["r.yaml"] (.map old) :=
    (Document.ofBytes_encode String.toList_ofList (by decide +kernel)).trans (by decide +kernel)
  have hasks : Asks .yaml files old [0x0005] 0 .default := ⟨rfl, rfl, rfl⟩
  have hexpect : expectOf old = .map [(.text "pc", .int 9), (.text "note", .text "a")] := rfl
  have hfill : fill .yaml files (.map old) = .ok (.map new) := by
    rw [fill_of_expectations hexpect (expectations_halt hasks)]
    rfl
  have hfilled : filled .yaml files ["r.yaml"] = .ok (some (.map new)) :=
    filled_of_holds hold rfl hfill
  have hkeeps : Documents.yaml.Keeps (.map new) :=
    Documents.keeps_yaml (by decide +kernel) (by decide +kernel)
  have hwritten : (Documents.yaml.write (.map new)).fault = none :=
    Documents.fault_yaml_write (by decide +kernel)
  have hupdate : update .yaml files "r.yaml" = (.ok .done,
      files.put ["r.yaml"] (Documents.yaml.write (.map new)).bytes) := by
    rw [update_of_find hfind hfilled, save_eq, hwritten]
    rfl
  obtain ⟨p, record, e, written, hp, hrecord, he, hset, hnew, -, -, hkept⟩ :=
    (update_transactional .yaml files "r.yaml").2 (congrArg Prod.fst hupdate)
  obtain rfl : ["r.yaml"] = p := by simpa using hfind.symm.trans hp
  obtain rfl : old = record := by simpa using hold.symm.trans hrecord
  obtain rfl : new = written := by simpa using hfilled.symm.trans hnew
  obtain ⟨hread, hagain⟩ := hkept hkeeps
  exact ⟨congrArg Prod.fst hupdate, hold, ⟨e, he, hset⟩, hread, hagain nofun⟩

end Record

end WordMachine
