import WordMachine.Image.Reading
import WordMachine.Proofs.Failure
import WordMachine.Proofs.Places
import WordMachine.Proofs.Spelling

/-!
Which images are answered for. What is found at a path is read as words or reported as a wrong
image, but for three cases: a path that cannot be followed, a directory, and a file that should be
text and is none.
-/
namespace WordMachine

namespace Image

theorem writable_of_ofText {text : Text} {e : ImageError} (h : ofText text = .error e) :
    e.Writable := by
  obtain ⟨token, line, rfl | rfl⟩ := exists_of_ofText_eq_error h
  · trivial
  · trivial

theorem writable_of_ofBytes {bytes : List UInt8} {e : ImageError} (h : ofBytes bytes = .error e) :
    e.Writable := by
  unfold ofBytes at h
  split at h
  · obtain rfl := Except.error.inj h
    trivial
  · cases h

/-- Words of sixteen bits, or a wrong image that is reported. -/
def Answers (r : Except Fault (List Word)) : Prop :=
  (∃ ws, r = .ok ws ∧ ∀ w ∈ ws, IsWord w.toNat) ∨ ∃ e, r = .error (.image e)

theorem answers_ok (ws : List Word) : Answers (.ok ws) :=
  .inl ⟨ws, rfl, fun w _ => Word.isWord_toNat w⟩

theorem answers_mapError {r : Except ImageError (List Word)}
    (h : ∀ e, r = .error e → e.Writable) : Answers (r.mapError .ofImage) := by
  cases r with
  | ok ws => exact answers_ok ws
  | error e => exact .inr ⟨e, congrArg Except.error (if_pos (h e rfl))⟩

theorem not_answers_error {f : Fault} (h : ∀ e, f ≠ .image e) : ¬ Answers (.error f) := by
  rintro (⟨ws, hws, -⟩ | ⟨e, he⟩)
  · cases hws
  · exact h e (Except.error.inj he)

/-- The path can be followed and does not end in a directory, and a file at its end is text unless
its name says that it is bytes. -/
def Legible (files : Files) (path : String) : Prop :=
  match files.find (.ofText path) with
  | .error _ => False
  | .ok .directory => False
  | .ok .nothing => True
  | .ok (.file p) =>
    (Path.ofText path).isBinary = true ∨
      ∃ text, Text.Utf8.decode ((files.read? p).getD []) = .ok text

theorem answers_of_legible {files : Files} {path : String} (h : Legible files path) :
    Answers (read files path) := by
  unfold Legible at h
  unfold read
  dsimp only
  generalize files.find (.ofText path) = found at h ⊢
  rcases found with e | (p | _ | _)
  · exact h.elim
  · dsimp only at h ⊢
    unfold ofFileBytes
    split
    · exact answers_mapError fun _ => writable_of_ofBytes
    · next hbinary =>
      obtain ⟨text, htext⟩ := h.resolve_left hbinary
      rw [htext, mapError_ok_bind]
      exact answers_mapError fun _ => writable_of_ofText
  · exact h.elim
  · exact .inr ⟨_, rfl⟩

theorem read_of_find {files : Files} {path : String} {q : Path}
    (hfind : files.find (.ofText path) = .ok (.file q)) :
    read files path = ofFileBytes (.ofText path) ((files.read? q).getD []) := by
  unfold read
  dsimp only
  rw [hfind]

theorem read_of_file {files : Files} {path : String} {p q : Path} (hpath : Path.ofText path = p)
    (hnull : p.hasNull = false) (hplace : files.resolve p = .ok (.file q)) :
    read files path = ofFileBytes p ((files.read? q).getD []) := by
  subst hpath
  exact read_of_find (Files.find_of_file hnull hplace)

/-- What is not legible fails in one of two other ways. -/
theorem fault_of_not_legible {files : Files} {path : String} (h : ¬ Legible files path) :
    (∃ e, read files path = .error (.file e)) ∨ ∃ e, read files path = .error (.undecodable e) := by
  unfold Legible at h
  unfold read
  dsimp only
  generalize files.find (.ofText path) = found at h ⊢
  rcases found with e | (p | _ | _)
  · exact .inl ⟨e, rfl⟩
  · dsimp only at h ⊢
    rw [not_or, not_exists] at h
    obtain ⟨hbinary, htext⟩ := h
    unfold ofFileBytes
    rw [if_neg hbinary]
    generalize Text.Utf8.decode ((files.read? p).getD []) = decoded at htext ⊢
    cases decoded with
    | ok text => exact absurd rfl (htext text)
    | error e => exact .inr ⟨e, rfl⟩
  · exact .inl ⟨_, rfl⟩
  · exact absurd trivial h

theorem answers_read_iff (files : Files) (path : String) :
    Answers (read files path) ↔ Legible files path := by
  refine ⟨fun hanswers => ?_, answers_of_legible⟩
  by_contra hlegible
  rcases fault_of_not_legible hlegible with ⟨e, he⟩ | ⟨e, he⟩
  · rw [he] at hanswers
    exact absurd hanswers (not_answers_error fun _ h => nomatch h)
  · rw [he] at hanswers
    exact absurd hanswers (not_answers_error fun _ h => nomatch h)

end Image

end WordMachine
