import Mathlib.Tactic.IntervalCases
import WordMachine.Text.Utf8

/-!
Text as bytes and back. A character is known by its first byte, which says how many bytes follow and
over what the next one ranges, and so the bytes of a text are read as that text.
-/
namespace WordMachine.Text.Utf8

section

variable {k d low high value right count : ℕ} {rest : List UInt8}

theorem lead?_one (hk : k < 0x80) : lead? (UInt8.ofNat k) = some ⟨0, k, 0x80, 0xBF⟩ := by
  have hbyte : (UInt8.ofNat k).toNat = k := Nat.mod_eq_of_lt (by omega)
  unfold lead?
  rw [hbyte, if_pos hk]

theorem lead?_two (hk : 2 ≤ k) (hk' : k < 32) :
    lead? (UInt8.ofNat (0xC0 + k)) = some ⟨1, k, 0x80, 0xBF⟩ := by
  interval_cases k <;> rfl

/-- Behind the first of three bytes the range leaves out overlong sequences and surrogates. -/
theorem lead?_three (hk : k < 16) : lead? (UInt8.ofNat (0xE0 + k)) =
    some ⟨2, k, if k = 0 then 0xA0 else 0x80, if k = 13 then 0x9F else 0xBF⟩ := by
  interval_cases k <;> rfl

/-- Behind the first of four bytes it leaves out what is overlong or past the last character. -/
theorem lead?_four (hk : k < 5) : lead? (UInt8.ofNat (0xF0 + k)) =
    some ⟨3, k, if k = 0 then 0x90 else 0x80, if k = 4 then 0x8F else 0xBF⟩ := by
  interval_cases k <;> rfl

theorem codePoint_cons (hd : d < 64) (hlow : low ≤ 0x80 + d) (hhigh : 0x80 + d ≤ high) :
    codePoint low high value right (count + 1) (UInt8.ofNat (0x80 + d) :: rest) =
      codePoint 0x80 0xBF (value * 64 + d) (right + 1) count rest := by
  have hbyte : (UInt8.ofNat (0x80 + d)).toNat = 0x80 + d := Nat.mod_eq_of_lt (by omega)
  rw [codePoint, hbyte, if_pos ⟨hlow, hhigh⟩, Nat.add_sub_cancel_left]

/-- A byte that follows in its full range. -/
theorem codePoint_follow (hd : d < 64) :
    codePoint 0x80 0xBF value right (count + 1) (UInt8.ofNat (0x80 + d) :: rest) =
      codePoint 0x80 0xBF (value * 64 + d) (right + 1) count rest :=
  codePoint_cons hd (by omega) (by omega)

end

theorem decodeFrom_cons {b : UInt8} {lead : Lead} {c : Char} {more : List UInt8}
    (hlead : lead? b = some lead) (hcount : more.length = lead.count) (rest : List UInt8)
    (hpoint : codePoint lead.low lead.high lead.bits 0 lead.count (more ++ rest) = .ok c.toNat)
    (position : ℕ) (done : String) :
    decodeFrom position done (b :: more ++ rest) =
      decodeFrom (position + 1 + lead.count) (done.push c) rest := by
  rw [List.cons_append, decodeFrom, hlead]
  dsimp only
  rw [hpoint]
  dsimp only
  rw [Char.ofNat_toNat, List.drop_left' hcount]

theorem decodeFrom_encodeChar (c : Char) (rest : List UInt8) (position : ℕ) (done : String) :
    ∃ next, decodeFrom position done (encodeChar c ++ rest) =
      decodeFrom next (done.push c) rest := by
  have hvalid : c.toNat < 0xD800 ∨ 0xDFFF < c.toNat ∧ c.toNat < 0x110000 := c.valid
  generalize hn : c.toNat = n at hvalid
  unfold encodeChar
  rw [hn]
  dsimp only
  by_cases hone : n < 0x80
  · rw [if_pos hone]
    exact ⟨_, decodeFrom_cons (lead?_one hone) rfl rest (by rw [hn]; rfl) position done⟩
  · rw [if_neg hone]
    by_cases htwo : n < 0x800
    · rw [if_pos htwo]
      refine ⟨_, decodeFrom_cons (lead?_two (by omega) (by omega)) rfl rest ?_ position done⟩
      rw [hn]
      change codePoint 0x80 0xBF (n / 64) 0 1 (_ :: rest) = _
      rw [codePoint_follow (by omega), codePoint]
      congr 1
      omega
    · rw [if_neg htwo]
      by_cases hthree : n < 0x10000
      · rw [if_pos hthree]
        refine ⟨_, decodeFrom_cons (lead?_three (by omega)) rfl rest ?_ position done⟩
        rw [hn]
        change codePoint (if n / 4096 = 0 then 0xA0 else 0x80)
          (if n / 4096 = 13 then 0x9F else 0xBF) (n / 4096) 0 2 (_ :: _ :: rest) = _
        rw [codePoint_cons (by omega) (by split <;> omega) (by split <;> omega),
          codePoint_follow (by omega), codePoint]
        congr 1
        omega
      · rw [if_neg hthree]
        refine ⟨_, decodeFrom_cons (lead?_four (by omega)) rfl rest ?_ position done⟩
        rw [hn]
        change codePoint (if n / 262144 = 0 then 0x90 else 0x80)
          (if n / 262144 = 4 then 0x8F else 0xBF) (n / 262144) 0 3 (_ :: _ :: _ :: rest) = _
        rw [codePoint_cons (by omega) (by split <;> omega) (by split <;> omega),
          codePoint_follow (by omega), codePoint_follow (by omega), codePoint]
        congr 1
        omega

theorem decodeFrom_flatMap (cs : List Char) (position : ℕ) (done : String) :
    decodeFrom position done (cs.flatMap encodeChar) = .ok (done ++ String.ofList cs) := by
  induction cs generalizing position done with
  | nil => simp [decodeFrom]
  | cons c rest ih =>
    obtain ⟨next, hchar⟩ := decodeFrom_encodeChar c (rest.flatMap encodeChar) position done
    have htext : done.push c ++ String.ofList rest = done ++ String.ofList (c :: rest) := by
      rw [← String.toList_inj]
      simp
    rw [List.flatMap_cons, hchar, ih, htext]

theorem decode_encode (s : String) : decode (encode s) = .ok s := by
  unfold decode encode
  rw [decodeFrom_flatMap, String.empty_append, String.ofList_toList]

end WordMachine.Text.Utf8
