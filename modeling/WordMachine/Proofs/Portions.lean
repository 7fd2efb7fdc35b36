import WordMachine.Document.Reading
import WordMachine.Proofs.Encoding
import WordMachine.Proofs.Lines

/-!
Documents that are read in one portion. The bytes of a short text come in one piece, behind which
the stream is spent, and so the text of the document is what was written, if it has none but
characters of documents and no carriage return.
-/
namespace WordMachine

namespace Text

theorem unifyBreaksFrom_of_notMem {s : List Char} (h : '\r' ∉ s) : unifyBreaksFrom [] s = s := by
  induction s with
  | nil => rfl
  | cons c rest ih =>
    obtain ⟨hfirst, hrest⟩ := not_or.mp (mt List.mem_cons.mpr h)
    have hcons : unifyBreaksFrom [] (c :: rest) = unifyBreaksFrom [c] rest := by
      rw [unifyBreaksFrom, if_neg (Ne.symm hfirst)]
      rintro more rfl
      exact absurd rfl hfirst
    rw [hcons, unifyBreaksFrom_cons, ih hrest]

namespace Utf8

theorem length_encodeChar (c : Char) : 0 < (encodeChar c).length ∧ (encodeChar c).length ≤ 4 := by
  unfold encodeChar
  dsimp only
  split_ifs <;> simp

theorem length_flatMap_encodeChar_le (cs : List Char) :
    (cs.flatMap encodeChar).length ≤ 4 * cs.length := by
  induction cs with
  | nil => exact Nat.le_refl 0
  | cons c rest ih =>
    have hchar := (length_encodeChar c).2
    rw [List.flatMap_cons, List.length_append, List.length_cons]
    omega

theorem length_encode_le (s : String) : (encode s).length ≤ 4 * s.toList.length :=
  length_flatMap_encodeChar_le s.toList

theorem encode_ne_nil {s : String} (h : s.toList ≠ []) : encode s ≠ [] := by
  obtain ⟨c, rest, hs⟩ := List.exists_cons_of_ne_nil h
  have hchar := (length_encodeChar c).1
  rw [← List.length_pos_iff, encode, hs, List.flatMap_cons, List.length_append]
  omega

end Utf8

namespace Stream

/-- Nothing comes any more. -/
def spent : Stream :=
  ofBytes []

theorem nextPiece_of_end (pieceBytes pieceChars wanted : ℕ) :
    nextPiece ⟨[], [], false, [], pieceBytes, pieceChars⟩ wanted = .ok spent := by
  unfold nextPiece
  simp [Utf8.decode, Utf8.decodeFrom, unifyBreaksFrom, spent, ofBytes, bind, Except.bind,
    Except.map, pure, Except.pure]

theorem nextPiece_encode {s : String} (hsome : Utf8.encode s ≠ [])
    (hbytes : (Utf8.encode s).length ≤ 8192) (hreturn : '\r' ∉ s.toList) (wanted : ℕ) :
    ∃ pieceBytes pieceChars, (ofBytes (Utf8.encode s)).nextPiece wanted =
      .ok ⟨[], [], false, s.toList, pieceBytes, pieceChars⟩ := by
  have hsize : pieceSize (ofBytes (Utf8.encode s)) wanted = 8192 := by
    simp [pieceSize, ofBytes]
  have hopen : Utf8.decodeOpen (Utf8.encode s) = .ok (s, []) := by
    unfold Utf8.decodeOpen
    rw [Utf8.decode_encode]
  have hnonempty : (Utf8.encode s).isEmpty = false := List.isEmpty_eq_false_iff.mpr hsome
  have hlast : s.toList.getLast? ≠ some '\r' := fun h => hreturn (List.mem_of_getLast? h)
  unfold nextPiece
  rw [hsize]
  simp only [ofBytes, List.take_of_length_le hbytes, List.drop_of_length_le hbytes, hnonempty,
    List.nil_append, hopen, Bool.false_and, Bool.not_false, Bool.true_and, bind, Except.bind, pure,
    Except.pure, Bool.false_eq_true, if_false]
  have hheld : (if s.toList.isEmpty = true then false
      else decide (s.toList.getLast? = some '\r')) = false := by simp [hlast]
  rw [hheld, if_neg Bool.false_ne_true, unifyBreaksFrom_of_notMem hreturn]
  exact ⟨_, _, rfl⟩

section

variable {s next : Stream} {wanted fuel : ℕ}

theorem takeFrom_of_end (hready : s.ready.length < wanted) (hbytes : s.bytes = [])
    (hnext : ({ s with ready := [] } : Stream).nextPiece (wanted - s.ready.length) = .ok next)
    (hempty : next.ready = []) : takeFrom (fuel + 1) s wanted = .ok (s.ready, next) := by
  unfold takeFrom
  dsimp only
  rw [List.take_of_length_le hready.le, List.drop_of_length_le hready.le, if_neg hready.ne, hnext]
  dsimp only [bind, Except.bind]
  rw [hbytes, hempty]
  rfl

theorem takeFrom_of_next (hready : s.ready.length < wanted) (hbytes : s.bytes ≠ [])
    (hnext : ({ s with ready := [] } : Stream).nextPiece (wanted - s.ready.length) = .ok next) :
    takeFrom (fuel + 1) s wanted =
      (takeFrom fuel next (wanted - s.ready.length)).map fun r => (s.ready ++ r.1, r.2) := by
  have hempty : s.bytes.isEmpty = false := List.isEmpty_eq_false_iff.mpr hbytes
  rw [takeFrom]
  dsimp only
  rw [List.take_of_length_le hready.le, List.drop_of_length_le hready.le, if_neg hready.ne, hnext]
  dsimp only [bind, Except.bind]
  rw [hempty]
  cases takeFrom fuel next (wanted - s.ready.length) <;> rfl

theorem take_spent (h : 0 < wanted) : spent.take wanted = .ok ([], spent) :=
  takeFrom_of_end h rfl (nextPiece_of_end 0 0 wanted) rfl

theorem take_of_piece {bytes : List UInt8} {chars : List Char} {pieceBytes pieceChars : ℕ}
    (hbytes : bytes ≠ []) (hchars : chars.length < wanted)
    (hpiece : (ofBytes bytes).nextPiece wanted =
      .ok ⟨[], [], false, chars, pieceBytes, pieceChars⟩) :
    (ofBytes bytes).take wanted = .ok (chars, spent) := by
  have hlast : takeFrom (bytes.length + 2) ⟨[], [], false, chars, pieceBytes, pieceChars⟩ wanted =
      .ok (chars, spent) :=
    takeFrom_of_end hchars rfl (nextPiece_of_end _ _ _) rfl
  calc (ofBytes bytes).take wanted
      = (takeFrom (bytes.length + 2) ⟨[], [], false, chars, pieceBytes, pieceChars⟩ wanted).map
          fun r => ([] ++ r.1, r.2) :=
        takeFrom_of_next (Nat.zero_lt_of_lt hchars) hbytes hpiece
    _ = .ok (chars, spent) := by
        rw [hlast]
        rfl

end

end Stream

end Text

namespace Document

/-- Characters that fit into one portion, all of them such as documents have. -/
def IsShort (chars : List Char) : Prop :=
  chars ≠ [] ∧ chars.length ≤ 2048 ∧ chars.all (fun c => isAllowed c && c != '\r') = true

instance (chars : List Char) : Decidable (IsShort chars) :=
  inferInstanceAs (Decidable (_ ∧ _))

namespace Source

theorem gather_spent (fuel : ℕ) (done : List (List Char)) :
    gather (fuel + 1) done .spent = ⟨done.reverse.flatten, none⟩ := by
  have hlast : nextPortion .spent = .ok ([], .spent) := by
    unfold nextPortion
    rw [Text.Stream.take_spent (by decide)]
    rfl
  rw [gather, hlast]

theorem ofBytes_of_take {bytes : List UInt8} {chars : List Char}
    (htake : (Text.Stream.ofBytes bytes).take portionSize = .ok (chars, .spent))
    (hchars : chars.all isAllowed = true) : ofBytes bytes = ⟨chars, none⟩ := by
  have hcheck : check (chars ++ []) = .ok () := by
    rw [check, List.append_nil, if_pos hchars]
  have hfirst : firstPortion (.ofBytes bytes) = .ok (chars, .spent) := by
    unfold firstPortion
    rw [htake]
    dsimp only [Except.mapError, bind, Except.bind]
    rw [Text.Stream.take_spent (by decide)]
    dsimp only
    rw [hcheck, List.append_nil]
    rfl
  unfold ofBytes
  rw [hfirst]
  dsimp only
  rw [gather_spent]
  simp

theorem ofBytes_encode {s : String} (h : IsShort s.toList) :
    ofBytes (Text.Utf8.encode s) = ⟨s.toList, none⟩ := by
  obtain ⟨hsome, hlength, hall⟩ := h
  have hchars : ∀ c ∈ s.toList, isAllowed c = true ∧ c ≠ '\r' := by simpa using hall
  have hbytes : (Text.Utf8.encode s).length ≤ 8192 :=
    (Text.Utf8.length_encode_le s).trans (by omega)
  have hreturn : '\r' ∉ s.toList := fun hmem => (hchars _ hmem).2 rfl
  have hportion : s.toList.length < portionSize := Nat.lt_of_le_of_lt hlength (by decide)
  have hnonempty := Text.Utf8.encode_ne_nil hsome
  obtain ⟨pieceBytes, pieceChars, hpiece⟩ :=
    Text.Stream.nextPiece_encode hnonempty hbytes hreturn portionSize
  exact ofBytes_of_take (Text.Stream.take_of_piece hnonempty hportion hpiece)
    (List.all_eq_true.mpr fun c hc => (hchars c hc).1)

end Source

/-- The document in a short text. Literals are the texts of their characters. -/
theorem ofBytes_encode {s : String} {chars : List Char} (hs : s.toList = chars)
    (h : IsShort chars) : ofBytes (Text.Utf8.encode s) = read ⟨chars, none⟩ := by
  subst hs
  rw [ofBytes, Source.ofBytes_encode h]

end Document

end WordMachine
