import Mathlib.Data.String.Basic
import WordMachine.Proofs.Places
import WordMachine.Run

/-!
What a run leaves behind beside its answer: messages in the journal and, while debugging, artifacts
in a directory. A host that does not debug takes no messages, and whether artifacts can be written
or not is no matter of the run, as long as their directory has a name that can stand in a path.
-/
namespace WordMachine

namespace Host

theorem debug_of_not_isDebugging {h : Host} (hquiet : h.isDebugging = false)
    (messages : List Message) : h.debug messages = h := by
  obtain ⟨files, output, errors, journal⟩ := h
  unfold debug log
  cases journal with
  | none =>
    have hnone : (messages.map fun m => Entry.mk .debug m).filter (·.level.isUrgent) = [] := by
      rw [List.filter_map, List.map_eq_nil_iff]
      exact List.filter_eq_nil_iff.mpr fun m _ => Bool.false_ne_true
    dsimp only
    rw [hnone]
    simp [printError, String.join]
  | some j =>
    have hdebug : j.debug = false := hquiet
    have hnone : (messages.map fun m => Entry.mk .debug m).filter j.accepts = [] := by
      rw [List.filter_map, List.map_eq_nil_iff]
      refine List.filter_eq_nil_iff.mpr fun m _ => ?_
      simp [Journal.accepts, hdebug]
    have hbytes : Text.Utf8.encode (String.join ([].map j.fileLine)) = [] := rfl
    dsimp only
    rw [hnone, hbytes]
    obtain ⟨debug, console, file, written⟩ := j
    cases file <;> simp [String.join]

theorem isDebugging_debug (h : Host) (messages : List Message) :
    (h.debug messages).isDebugging = h.isDebugging := by
  obtain ⟨files, output, errors, journal⟩ := h
  cases journal <;> rfl

end Host

namespace Path

theorem subset_of_mem_splitOnP {p : Char → Bool} {part text : List Char}
    (h : part ∈ text.splitOnP p) : part ⊆ text := by
  induction text generalizing part with
  | nil =>
    rw [List.splitOnP_nil, List.mem_singleton] at h
    exact h ▸ List.Subset.refl []
  | cons c rest ih =>
    rw [List.splitOnP_cons_eq_if_modifyHead] at h
    split at h
    · rcases List.mem_cons.mp h with rfl | hlater
      · exact List.nil_subset _
      · exact List.subset_cons_of_subset c (ih hlater)
    · cases hsplit : rest.splitOnP p with
      | nil => exact absurd hsplit (List.splitOnP_ne_nil p rest)
      | cons first later =>
        rw [hsplit] at h ih
        rw [List.modifyHead_cons] at h
        rcases List.mem_cons.mp h with rfl | hlater
        · exact List.cons_subset_cons c (ih List.mem_cons_self)
        · exact List.subset_cons_of_subset c (ih (List.mem_cons_of_mem first hlater))

theorem exists_mem_splitOnP {p : Char → Bool} {c : Char} {text : List Char} (hc : c ∈ text)
    (hp : p c = false) : ∃ part ∈ text.splitOnP p, c ∈ part := by
  induction text with
  | nil => cases hc
  | cons first rest ih =>
    rw [List.splitOnP_cons_eq_if_modifyHead]
    rcases List.mem_cons.mp hc with rfl | hrest
    · rw [if_neg (by simp [hp])]
      cases hsplit : rest.splitOnP p with
      | nil => exact absurd hsplit (List.splitOnP_ne_nil p rest)
      | cons part later =>
        rw [List.modifyHead_cons]
        exact ⟨c :: part, List.mem_cons_self, List.mem_cons_self⟩
    · obtain ⟨part, hpart, hmem⟩ := ih hrest
      split
      · exact ⟨part, List.mem_cons_of_mem [] hpart, hmem⟩
      · cases hsplit : rest.splitOnP p with
        | nil => exact absurd hsplit (List.splitOnP_ne_nil p rest)
        | cons head later =>
          rw [hsplit] at hpart
          rw [List.modifyHead_cons]
          rcases List.mem_cons.mp hpart with rfl | hlater
          · exact ⟨first :: part, List.mem_cons_self, List.mem_cons_of_mem first hmem⟩
          · exact ⟨part, List.mem_cons_of_mem _ hlater, hmem⟩

theorem hasNull_ofText {text : String} (h : Char.ofNat 0 ∉ text.toList) :
    (ofText text).hasNull = false := by
  unfold ofText hasNull
  rw [List.any_eq_false]
  intro name hname hnull
  rw [String.splitToList_of_valid] at hname
  obtain ⟨part, hpart, rfl⟩ := List.mem_map.mp (List.mem_of_mem_filter hname)
  exact h (subset_of_mem_splitOnP hpart (by simpa using hnull))

theorem hasNull_ofText_iff {text : String} :
    (ofText text).hasNull = true ↔ Char.ofNat 0 ∈ text.toList := by
  constructor
  · intro hnull
    by_contra hnone
    rw [hasNull_ofText hnone] at hnull
    cases hnull
  · intro hmem
    obtain ⟨part, hpart, hnull⟩ := exists_mem_splitOnP (p := (· = '/')) hmem (by decide)
    have hname : String.ofList part ∈ ofText text := by
      unfold ofText
      rw [String.splitToList_of_valid]
      apply List.mem_filter.mpr
      -- neither the empty name nor a single dot has a null
      have hother : ∀ text : String, Char.ofNat 0 ∉ text.toList → String.ofList part ≠ text := by
        intro text hnone hsame
        rw [← hsame, String.toList_ofList] at hnone
        exact hnone hnull
      have hempty := hother "" (by decide)
      have hdot := hother "." (by decide)
      exact ⟨List.mem_map.mpr ⟨part, hpart, rfl⟩, by simp [hempty, hdot]⟩
    unfold hasNull
    rw [List.any_eq_true]
    exact ⟨_, hname, by simpa using hnull⟩

end Path

namespace Files

theorem write_of_hasNull (files : Files) {p : Path} (h : p.hasNull = true) (text : String) :
    files.write p text = .error .nullByte := by
  unfold write create
  rw [if_pos h]
  rfl

/-- A path without a null may lead nowhere, but it is a path. -/
theorem write_ne_nullByte (files : Files) {p : Path} (h : p.hasNull = false) (text : String) :
    files.write p text ≠ .error .nullByte := by
  unfold write create resolve
  rw [if_neg (by simp [h])]
  dsimp only
  split
  · simp [bind, Except.bind, Except.map]
  · cases files.locate p <;> simp [bind, Except.bind, Except.map]

end Files

namespace Run

/-- Whatever else may prevent that artifacts are written, the null in the name of a directory is
told apart from it. -/
theorem writeArtifacts_fst_iff (files : Files) (directory : String) (words : List Int)
    (m : Machine) :
    (writeArtifacts files directory words m).1 = some .nullByte ↔
      (Path.ofText directory).hasNull = true := by
  have hlisting : Path.hasNull (Path.ofText directory ++ ["out.hex"]) =
      (Path.ofText directory).hasNull := Path.hasNull_inside (by decide) _
  have hdump : Path.hasNull (Path.ofText directory ++ ["memory_dump.txt"]) =
      (Path.ofText directory).hasNull := Path.hasNull_inside (by decide) _
  unfold writeArtifacts
  dsimp only
  cases hnull : (Path.ofText directory).hasNull with
  | true =>
    rw [hnull] at hlisting
    rw [Files.write_of_hasNull _ hlisting]
    simp
  | false =>
    rw [hnull] at hlisting hdump
    simp only [Bool.false_eq_true, iff_false]
    split
    · next e hfirst =>
      rintro ⟨⟩
      exact files.write_ne_nullByte hlisting _ hfirst
    · next files' _ =>
      split
      · next e hsecond =>
        rintro ⟨⟩
        exact files'.write_ne_nullByte hdump _ hsecond
      · rintro ⟨⟩

theorem leaveArtifacts_fst (h : Host) (directory : String) (words : List Int) (m : Machine) :
    (leaveArtifacts h directory words m).1 =
      if (Path.ofText directory).hasNull then .error (.file .nullByte) else .ok () := by
  have hfailure := writeArtifacts_fst_iff h.files directory words m
  unfold leaveArtifacts
  generalize writeArtifacts h.files directory words m = written at hfailure ⊢
  obtain ⟨failure, files⟩ := written
  dsimp only at hfailure ⊢
  split
  · rw [if_neg (by simp [← hfailure])]
  · rw [if_pos (hfailure.mp rfl)]
  · next e hother => rw [if_neg (fun hnull => hother (Option.some.inj (hfailure.mpr hnull)))]

end Run

end WordMachine
