import WordMachine.Proofs.Artifacts
import WordMachine.Proofs.Encoding
import WordMachine.Proofs.Layout
import WordMachine.Proofs.Legible
import WordMachine.Proofs.Spelling
import WordMachine.Record

/-!
The two formats of an image. Words that are stored as bytes are read from a binary file, and words
that are spelled are read from any other. What is read from a file of text is what is read from the
text itself, be it words or what is wrong with it and in which line.
-/
namespace WordMachine.Image

theorem ofText_unifyBreaks (s : String) : ofText (Text.unifyBreaks s : String) = ofText s := by
  unfold ofText
  rw [Text.lines_unifyBreaks]

theorem mapError_ofText (text : Text) :
    (ofText text).mapError Fault.ofImage = (ofText text).mapError .image := by
  cases hread : ofText text with
  | ok words => rfl
  | error e => exact congrArg Except.error (if_pos (writable_of_ofText hread))

theorem ofFileBytes_encode {p : Path} (hp : p.isBinary = false) (s : String) :
    ofFileBytes p (Text.Utf8.encode s) = (ofText s).mapError .image := by
  unfold ofFileBytes
  rw [hp, if_neg Bool.false_ne_true, Text.Utf8.decode_encode, mapError_ok_bind, ofText_unifyBreaks,
    mapError_ofText]

/-- The same words are read from the bytes that store them and from any text that spells them. What
is read from a file of text, the wrong token and its line among it, is what is read from the text
itself, also as that of a record. -/
theorem formats_agree {files : Files} {path : String} {p : Path}
    (hfile : files.find (.ofText path) = .ok (.file p)) :
    ((Path.ofText path).isBinary = true → ∀ words : List Word,
      files.read? p = some (toBytes (words.map fun w => (w.toNat : Int))) →
        read files path = .ok words) ∧
    ((Path.ofText path).isBinary = false → ∀ s : String,
      files.read? p = some (Text.Utf8.encode s) →
        (∀ words, Spells s.toList words → read files path = .ok words) ∧
        read files path = (ofText s).mapError .image ∧
        ∀ record : Entries, record.get? (.text "image") = some (.text s) →
          Record.imageOf record = read files path) := by
  refine ⟨fun hbinary words hbytes => ?_, fun htext s hbytes => ?_⟩
  · rw [read_of_find hfile, hbytes, Option.getD_some]
    unfold ofFileBytes
    rw [hbinary, if_pos rfl, ofBytes_toBytes]
    rfl
  · have hread : read files path = (ofText s).mapError .image := by
      rw [read_of_find hfile, hbytes, Option.getD_some, ofFileBytes_encode htext]
    refine ⟨fun words hspells => ?_, hread, fun record himage => ?_⟩
    · rw [hread, hspells.ofText]
      rfl
    · unfold Record.imageOf
      rw [hread, himage]
      exact mapError_ofText _

/-- Two words as bytes and behind a remark, and a text whose third line is wrong. -/
theorem formats_agree_mixed :
    let spelled := "#a\r\n1a,\t0005"
    let wrong := "1\r\n\rzz"
    let files : Files := ⟨[(["a.bin"], toBytes [0x1A, 5]), (["a.txt"], Text.Utf8.encode spelled),
      (["b.txt"], Text.Utf8.encode wrong)]⟩
    let words : List Word := [0x1A, 5]
    let record : Entries := [(.text "image", .text wrong)]
    (files.find (.ofText "a.bin") = .ok (.file ["a.bin"]) ∧
      (Path.ofText "a.bin").isBinary = true ∧ read files "a.bin" = .ok words) ∧
    (files.find (.ofText "a.txt") = .ok (.file ["a.txt"]) ∧
      (Path.ofText "a.txt").isBinary = false ∧ Spells spelled.toList words ∧
      read files "a.txt" = .ok words) ∧
    (files.find (.ofText "b.txt") = .ok (.file ["b.txt"]) ∧
      (Path.ofText "b.txt").isBinary = false ∧
      read files "b.txt" = .error (.image (.badWord "zz" 3)) ∧
      Record.imageOf record = .error (.image (.badWord "zz" 3))) := by
  intro spelled wrong files words record
  have hbin : files.find (.ofText "a.bin") = .ok (.file ["a.bin"]) :=
    Files.find_ofText (by decide) rfl
  have htxt : files.find (.ofText "a.txt") = .ok (.file ["a.txt"]) :=
    Files.find_ofText (by decide) rfl
  have hbad : files.find (.ofText "b.txt") = .ok (.file ["b.txt"]) :=
    Files.find_ofText (by decide) rfl
  have hspells : Spells spelled.toList words := by
    have hrest : Spells (['0', '0', '0', '5'] ++ []) [5] :=
      .word _ (by decide) (by decide) (fun _ hc => nomatch hc) .done
    have hword : Spells (['1', 'a'] ++ ',' :: '\t' :: ['0', '0', '0', '5']) [0x1A, 5] := by
      refine .word _ (by decide) (by decide) ?_ (.gap (by decide) (.gap (by decide) hrest))
      rintro _ ⟨⟩
      exact .inl (by decide)
    have hbreak : Spells ('\r' :: '\n' :: '1' :: 'a' :: ',' :: '\t' :: ['0', '0', '0', '5'])
        [0x1A, 5] := .gap (by decide) (.gap (by decide) hword)
    have hchars : spelled.toList =
        ['#', 'a', '\r', '\n', '1', 'a', ',', '\t', '0', '0', '0', '5'] := String.toList_ofList
    rw [hchars]
    refine .remark ['a'] (List.forall_mem_singleton.mpr (by decide)) ?_ hbreak
    rintro _ ⟨⟩
    decide
  have hwrong : ofText wrong = .error (.badWord "zz" 3) := by decide +kernel
  have hbinary : (Path.ofText "a.bin").isBinary = true := by
    rw [Path.ofText_of_isName (by decide)]
    rfl
  have htext : (Path.ofText "a.txt").isBinary = false := by
    rw [Path.ofText_of_isName (by decide)]
    rfl
  have htext' : (Path.ofText "b.txt").isBinary = false := by
    rw [Path.ofText_of_isName (by decide)]
    rfl
  obtain ⟨hwords, -, -⟩ := (formats_agree htxt).2 htext spelled rfl
  obtain ⟨-, hread, hrecord⟩ := (formats_agree hbad).2 htext' wrong rfl
  rw [hwrong] at hread
  refine ⟨⟨hbin, hbinary, (formats_agree hbin).1 hbinary words rfl⟩,
    ⟨htxt, htext, hspells, hwords words hspells⟩, hbad, htext', hread, ?_⟩
  exact (hrecord record rfl).trans hread

end WordMachine.Image
