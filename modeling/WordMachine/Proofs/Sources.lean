import WordMachine.Proofs.Places
import WordMachine.Proofs.Portions
import WordMachine.Proofs.Validation

/-!
Settings from a file and settings as a value. A mapping in a file is the same settings, or the same
fault, as the mapping itself, and an empty document stands for the defaults. Anything else in a file
should be refused, but what counts as false is taken for an empty mapping before it is looked at, so
that an empty list, an empty text, a zero and the truth value that is false give the defaults too.
-/
namespace WordMachine

namespace Value

/-- What counts as false and is neither null nor a mapping. -/
inductive IsVoid : Value → Prop
  | no : IsVoid (.bool false)
  | zero : IsVoid (.int 0)
  | floatZero (negative : Bool) (exponent : Int) :
      IsVoid (.scalar (.float (.finite negative 0 exponent)))
  | text : IsVoid (.text [])
  | list : IsVoid (.list [])

theorem isVoid_iff {v : Value} (hnull : v ≠ .null) (hmap : ∀ entries, v ≠ .map entries) :
    v.IsVoid ↔ v.isTrue = false := by
  constructor
  · intro h
    cases h <;> rfl
  · intro h
    cases v with
    | map entries => exact absurd rfl (hmap entries)
    | list items =>
      cases items with
      | nil => exact .list
      | cons v rest => cases h
    | scalar s =>
      cases s with
      | null => exact absurd rfl hnull
      | bool b =>
        obtain rfl : b = false := h
        exact .no
      | int n =>
        obtain rfl : n = 0 := by simpa [isTrue] using h
        exact .zero
      | float x =>
        cases x with
        | finite negative mantissa exponent =>
          obtain rfl : mantissa = 0 := by simpa [isTrue, Binary64.isZero] using h
          exact .floatZero negative exponent
        | _ => cases h
      | text s =>
        cases s with
        | nil => exact .text
        | cons c rest => cases h
      | _ => cases h

end Value

namespace Settings

variable {path : String}

theorem mappingOf_map (entries : Entries) : mappingOf path (.map entries) = .ok entries := by
  cases entries <;> rfl

theorem mappingOf_of_void {v : Value} (h : v.IsVoid) : mappingOf path v = .ok [] := by
  cases h <;> rfl

theorem mappingOf_of_true {v : Value} (h : v.isTrue = true) (hmap : ∀ entries, v ≠ .map entries) :
    mappingOf path v = .error (.settings (.notMapping path)) := by
  unfold mappingOf
  rw [h]
  cases v with
  | map entries => exact absurd rfl (hmap entries)
  | _ => rfl

theorem ofValue_of_read {docs : Documents} {files : Files} {text : Text} {p : Path} {v : Value}
    (hpath : text.string? = some path) (hfind : files.find (.ofText path) = .ok (.file p))
    (hread : docs.read ((files.read? p).getD []) = .ok v) :
    ofValue docs files (.text text) = (mappingOf path v).bind ofEntries := by
  rw [ofValue_eq, Value.text, given_text hpath, documentOf_of_read hfind hread]
  rfl

/-- A file with a mapping or with nothing in it is the same settings as what is in it. Whatever else
is in a file is refused because it is no mapping, unless it counts as false: then the file gives the
defaults. -/
theorem file_agrees_with_value {docs : Documents} {files : Files} {text : Text} {p : Path}
    {v : Value} (hpath : text.string? = some path)
    (hfind : files.find (.ofText path) = .ok (.file p))
    (hread : docs.read ((files.read? p).getD []) = .ok v) :
    (∀ entries, v = .map entries → ofValue docs files (.text text) = ofValue docs files v) ∧
    (v = .null → ofValue docs files (.text text) = .ok default) ∧
    (v ≠ .null → (∀ entries, v ≠ .map entries) →
      (v.IsVoid ∧ ofValue docs files (.text text) = .ok default) ∨
      (¬ v.IsVoid ∧ ofValue docs files (.text text) = .error (.settings (.notMapping path)))) := by
  have hnothing : ofEntries [] = .ok default := rfl
  rw [ofValue_of_read hpath hfind hread]
  refine ⟨?_, ?_, fun hnull hmap => ?_⟩
  · rintro entries rfl
    rw [mappingOf_map]
    rfl
  · rintro rfl
    exact hnothing
  · by_cases hvoid : v.IsVoid
    · rw [mappingOf_of_void hvoid]
      exact .inl ⟨hvoid, hnothing⟩
    · have htrue : v.isTrue = true := by
        rw [Value.isVoid_iff hnull hmap] at hvoid
        simpa using hvoid
      rw [mappingOf_of_true htrue hmap]
      exact .inr ⟨hvoid, rfl⟩

def documentFiles : Files := ⟨[
  (["list.yaml"], Text.Utf8.encode "- 1\n- 2\n"),
  (["void.yaml"], Text.Utf8.encode "[]\n"),
  (["vm.yaml"], Text.Utf8.encode "step_limit: 250\necho: false\n")]⟩

/-- An empty list is no mapping, but it is not refused. -/
theorem empty_list_gives_defaults :
    documentFiles.find (.ofText "void.yaml") = .ok (.file ["void.yaml"]) ∧
    Documents.yaml.read ((documentFiles.read? ["void.yaml"]).getD []) = .ok (.list []) ∧
    ofValue .yaml documentFiles (.text "void.yaml") = .ok default ∧
    ofValue .yaml documentFiles (.text "void.yaml") ≠
      .error (.settings (.notMapping "void.yaml")) := by
  have hfind : documentFiles.find (.ofText "void.yaml") = .ok (.file ["void.yaml"]) :=
    Files.find_ofText (by decide) rfl
  have hread : Documents.yaml.read ((documentFiles.read? ["void.yaml"]).getD []) = .ok (.list []) :=
    (Document.ofBytes_encode String.toList_ofList (by decide +kernel)).trans (by decide +kernel)
  have hvalue : ofValue .yaml documentFiles (.text "void.yaml") = .ok default :=
    ofValue_of_read rfl hfind hread
  refine ⟨hfind, hread, hvalue, ?_⟩
  rw [hvalue]
  exact nofun

theorem file_agrees_with_value_documentFiles :
    ofValue .yaml documentFiles (.text "list.yaml") = .error (.settings (.notMapping "list.yaml")) ∧
    ofValue .yaml documentFiles (.text "vm.yaml") = ofValue .yaml documentFiles
      (.map [(.text "step_limit", .int 250), (.text "echo", .bool false)]) := by
  constructor
  · have hpath : Text.string? "list.yaml" = some "list.yaml" := rfl
    have hfind : documentFiles.find (.ofText "list.yaml") = .ok (.file ["list.yaml"]) :=
      Files.find_ofText (by decide) rfl
    have hread : Documents.yaml.read ((documentFiles.read? ["list.yaml"]).getD []) =
        .ok (.list [.int 1, .int 2]) :=
      (Document.ofBytes_encode String.toList_ofList (by decide +kernel)).trans (by decide +kernel)
    rcases (file_agrees_with_value hpath hfind hread).2.2 nofun (fun _ => nofun) with
      ⟨hvoid, -⟩ | ⟨-, hrefused⟩
    · cases hvoid
    · exact hrefused
  · have hpath : Text.string? "vm.yaml" = some "vm.yaml" := rfl
    have hfind : documentFiles.find (.ofText "vm.yaml") = .ok (.file ["vm.yaml"]) :=
      Files.find_ofText (by decide) rfl
    have hread : Documents.yaml.read ((documentFiles.read? ["vm.yaml"]).getD []) =
        .ok (.map [(.text "step_limit", .int 250), (.text "echo", .bool false)]) :=
      (Document.ofBytes_encode String.toList_ofList (by decide +kernel)).trans (by decide +kernel)
    exact (file_agrees_with_value hpath hfind hread).1 _ rfl

end Settings

end WordMachine
