import WordMachine.Numeral.Reading
import WordMachine.Proofs.Mnemonic

/-!
Numbers and words in a text. The digits of a number denote it, in decimal and in hexadecimal, so no
two numbers are written the same, and the words of a text are found again whatever blanks stand
between them.
-/
namespace WordMachine

namespace Numeral

def figure? (base : ℕ) (s : List Char) : Option ℕ :=
  s.foldlM (fun n c => (digit? base c).map (n * base + ·)) 0

theorem figure?_zeros {base : ℕ} (hzero : digit? base '0' = some 0) (count : ℕ) (s : List Char) :
    figure? base (List.replicate count '0' ++ s) = figure? base s := by
  induction count with
  | zero => rfl
  | succ count ih =>
    rw [← ih]
    unfold figure?
    rw [List.replicate_succ, List.cons_append, List.foldlM_cons, hzero]
    simp

theorem bounds_of_digit? {base : ℕ} {c : Char} (h : (digit? base c).isSome = true) :
    0x30 ≤ c.toNat ∧ c.toNat ≤ 0x7A := by
  have hbetween : ∀ {low high : Char}, low ≤ c ∧ c ≤ high →
      low.toNat ≤ c.toNat ∧ c.toNat ≤ high.toNat :=
    fun hrange => hrange
  obtain ⟨d, hd⟩ := Option.isSome_iff_exists.mp h
  obtain ⟨hd, -⟩ := Option.filter_eq_some_iff.mp hd
  split at hd
  · next hdigit =>
    have hrange : '0'.toNat ≤ c.toNat ∧ c.toNat ≤ '9'.toNat := by
      simpa [Char.isDigit, UInt32.le_iff_toNat_le] using hdigit
    exact ⟨hrange.1, Nat.le_trans hrange.2 (by decide)⟩
  · split at hd
    · next hletter =>
      obtain ⟨hlow, hhigh⟩ := hbetween hletter
      exact ⟨Nat.le_trans (by decide) hlow, hhigh⟩
    · split at hd
      · next hletter =>
        obtain ⟨hlow, hhigh⟩ := hbetween hletter
        exact ⟨Nat.le_trans (by decide) hlow, Nat.le_trans hhigh (by decide)⟩
      · cases hd

theorem ne_of_digit? {base : ℕ} {c x : Char} (h : (digit? base c).isSome = true)
    (hx : digit? base x = none) : c ≠ x := by
  rintro rfl
  rw [hx] at h
  cases h

theorem isBlank_of_digit? {base : ℕ} {c : Char} (h : (digit? base c).isSome = true) :
    Text.isBlank c = false := by
  have hbounds := bounds_of_digit? h
  unfold Text.isBlank
  simp only [Bool.or_eq_false_iff, Bool.and_eq_false_iff, decide_eq_false_iff_not,
    beq_eq_false_iff_ne]
  omega

theorem foldlM_digit? {base : ℕ} {s : List Char} {k n : ℕ}
    (h : s.foldlM (fun n c => (digit? base c).map (n * base + ·)) k = some n) :
    (∀ c ∈ s, (digit? base c).isSome = true) ∧
      (s.filterMap (digit? base)).foldl (fun n d => n * base + d) k = n := by
  induction s generalizing k with
  | nil => exact ⟨by simp, Option.some.inj h⟩
  | cons c s ih =>
    rw [List.foldlM_cons] at h
    obtain ⟨m, hm, hrest⟩ := Option.bind_eq_some_iff.mp h
    obtain ⟨d, hd, rfl⟩ := Option.map_eq_some_iff.mp hm
    obtain ⟨hdigits, hvalue⟩ := ih hrest
    refine ⟨List.forall_mem_cons.mpr ⟨by rw [hd]; rfl, hdigits⟩, ?_⟩
    rw [List.filterMap_cons_some hd, List.foldl_cons, hvalue]

theorem figure?_toDigits {base : ℕ} (hbase : 1 < base) {shown : Char → Char}
    (hshown : ∀ d < base, digit? base (shown (Nat.digitChar d)) = some d) (n : ℕ) :
    figure? base ((Nat.toDigits base n).map shown) = some n := by
  induction n using Nat.strongRecOn with
  | ind n ih =>
    unfold figure? at ih ⊢
    rw [Nat.toDigits_eq_if hbase]
    by_cases hsmall : n < base
    · rw [if_pos hsmall, List.map_singleton, List.foldlM_cons, hshown n hsmall]
      simp
    · have hless : n / base < n := Nat.div_lt_self (by omega) hbase
      have hlast : n % base < base := Nat.mod_lt n (by omega)
      have hparts : n / base * base + n % base = n := Nat.div_add_mod' n base
      rw [if_neg hsmall, List.map_append, List.foldlM_append, ih (n / base) hless,
        List.map_singleton]
      simp [hshown _ hlast, hparts]

theorem figure?_toDigits_ten (n : ℕ) : figure? 10 (Nat.toDigits 10 n) = some n := by
  have hdigit : ∀ d < 10, digit? 10 (id (Nat.digitChar d)) = some d := by decide
  simpa using figure?_toDigits (by decide) hdigit n

theorem figure?_upperHexDigits (n : ℕ) : figure? 16 (upperHexDigits n) = some n := by
  have hdigit : ∀ d < 16, digit? 16 (Nat.digitChar d).toUpper = some d := by decide
  exact figure?_toDigits (by decide) hdigit n

theorem figure?_padLeft {base : ℕ} (hzero : digit? base '0' = some 0) (width : ℕ) (s : String) :
    figure? base (padLeft width '0' s).toList = figure? base s.toList := by
  unfold padLeft
  rw [String.toList_append, String.toList_ofList, figure?_zeros hzero]

theorem sign_natCast (n : ℕ) : sign n = "" :=
  if_neg (by omega)

theorem figure?_decimal (n : ℕ) : figure? 10 (decimal n).toList = some n := by
  unfold decimal
  rw [sign_natCast, String.empty_append, String.toList_ofList, Int.natAbs_natCast]
  exact figure?_toDigits_ten n

theorem figure?_hex (w : Word) : figure? 16 w.hex.toList = some w.toNat := by
  unfold Word.hex hex4
  rw [sign_natCast, String.empty_append, Int.natAbs_natCast, figure?_padLeft (by decide),
    String.toList_ofList]
  exact figure?_upperHexDigits w.toNat

/-- The integer that figures denote, with a sign in front of them if it is negative. -/
def signed? (base : ℕ) (s : String) : Option Int :=
  match s.toList with
  | '-' :: figures => (figure? base figures).map fun n : ℕ => -(n : Int)
  | figures => (figure? base figures).map fun n : ℕ => (n : Int)

theorem signed?_sign_append {base : ℕ} {n : Int} {figures : String}
    (h : figure? base figures.toList = some n.natAbs) :
    signed? base (sign n ++ figures) = some n := by
  unfold signed?
  rw [String.toList_append]
  by_cases hneg : n < 0
  · have hsign : (sign n).toList = ['-'] := by rw [sign, if_pos hneg]; rfl
    rw [hsign, List.singleton_append]
    change (figure? base _).map (fun n : ℕ => -(n : Int)) = _
    rw [h, Option.map_some, Int.ofNat_natAbs_of_nonpos (by omega), Int.neg_neg]
  · have hsign : (sign n).toList = [] := by rw [sign, if_neg hneg]; rfl
    rw [hsign, List.nil_append]
    split
    · next minus hminus =>
      -- no figure is a hyphen
      rw [hminus] at h
      cases h
    · rw [h, Option.map_some, Int.natAbs_of_nonneg (by omega)]

theorem signed?_decimal (n : Int) : signed? 10 (decimal n) = some n := by
  apply signed?_sign_append
  rw [String.toList_ofList]
  exact figure?_toDigits_ten n.natAbs

theorem signed?_hex4 (n : Int) : signed? 16 (hex4 n) = some n := by
  apply signed?_sign_append
  rw [figure?_padLeft (by decide), String.toList_ofList]
  exact figure?_upperHexDigits n.natAbs

theorem decimal_injective : Function.Injective decimal := by
  intro m n h
  have hread := signed?_decimal m
  rw [h, signed?_decimal n] at hread
  exact (Option.some.inj hread).symm

theorem hex4_injective : Function.Injective hex4 := by
  intro m n h
  have hread := signed?_hex4 m
  rw [h, signed?_hex4 n] at hread
  exact (Option.some.inj hread).symm

theorem hex_injective : Function.Injective Word.hex :=
  fun _ _ h => UInt16.toNat_inj.mp (Int.ofNat_inj.mp (hex4_injective h))

end Numeral

namespace Text

/-- Text without blanks, and not none. -/
def Solid (s : String) : Prop :=
  s ≠ "" ∧ ∀ c ∈ s.toList, isBlank c = false

instance (s : String) : Decidable (Solid s) :=
  @instDecidableAnd _ _ _ (List.decidableBAll _ s.toList)

theorem solid_append {s t : String} (hs : Solid s) (ht : Solid t) : Solid (s ++ t) := by
  constructor
  · intro hempty
    exact hs.1 (String.append_eq_empty_iff.mp hempty).1
  · intro c hc
    rw [String.toList_append, List.mem_append] at hc
    exact hc.elim (hs.2 c) (ht.2 c)

def Blanks (s : String) : Prop :=
  ∀ c ∈ s.toList, isBlank c = true

instance (s : String) : Decidable (Blanks s) :=
  List.decidableBAll _ s.toList

theorem blanks_append {s t : String} (hs : Blanks s) (ht : Blanks t) : Blanks (s ++ t) := by
  intro c hc
  rw [String.toList_append, List.mem_append] at hc
  exact hc.elim (hs c) (ht c)

theorem blanks_replicate (count : ℕ) : Blanks (String.ofList (List.replicate count ' ')) := by
  intro c hc
  rw [String.toList_ofList] at hc
  rw [List.eq_of_mem_replicate hc]
  rfl

theorem wordsFrom_eq (done : List Text) (current s : Text) :
    wordsFrom done current s = done.reverse ++ wordsFrom [] current s := by
  have hadd : ∀ done current, addWord done current = addWord [] current ++ done := by
    intro done current
    unfold addWord
    split <;> rfl
  induction s generalizing done current with
  | nil =>
    unfold wordsFrom
    rw [hadd, List.reverse_append]
  | cons c rest ih =>
    unfold wordsFrom
    split
    · rw [ih (addWord done current), ih (addWord [] current), hadd done, List.reverse_append,
        List.append_assoc]
    · exact ih done (c :: current)

theorem wordsFrom_append {t : Text} (ht : ∀ c ∈ t, isBlank c.toChar = false) (done : List Text)
    (current rest : Text) :
    wordsFrom done current (t ++ rest) = wordsFrom done (t.reverse ++ current) rest := by
  induction t generalizing current with
  | nil => rfl
  | cons c t ih =>
    obtain ⟨hc, ht⟩ := List.forall_mem_cons.mp ht
    rw [List.cons_append, wordsFrom, hc, if_neg (by decide), ih ht, List.reverse_cons,
      List.append_assoc]
    rfl

theorem words_of_blanks {b : Text} (hb : ∀ c ∈ b, isBlank c.toChar = true) (rest : Text) :
    words (b ++ rest) = words rest := by
  induction b with
  | nil => rfl
  | cons c b ih =>
    obtain ⟨hc, hb⟩ := List.forall_mem_cons.mp hb
    unfold words at ih ⊢
    rw [List.cons_append, wordsFrom, hc, if_pos rfl]
    exact ih hb

/-- A blank ends a word, and the words behind it are read afresh. -/
theorem wordsFrom_blank {c : CodePoint} (hc : isBlank c.toChar = true) (done : List Text)
    (current s rest : Text) :
    wordsFrom done current (s ++ c :: rest) = wordsFrom done current s ++ words rest := by
  induction s generalizing done current with
  | nil =>
    have hnext : wordsFrom done current (c :: rest) = wordsFrom (addWord done current) [] rest := by
      rw [wordsFrom, if_pos hc]
    rw [List.nil_append, hnext, wordsFrom_eq]
    rfl
  | cons d s ih =>
    rw [List.cons_append, wordsFrom, wordsFrom]
    split
    · exact ih _ _
    · exact ih _ _

theorem words_of_not_blank {t : Text} (hne : t ≠ []) (ht : ∀ c ∈ t, isBlank c.toChar = false) :
    words t = [t] := by
  have hword := wordsFrom_append ht [] [] []
  rw [List.append_nil, List.append_nil, wordsFrom, addWord, if_neg (by simpa using hne),
    List.reverse_reverse] at hword
  exact hword

theorem words_append {t rest : Text} (hne : t ≠ []) (ht : ∀ c ∈ t, isBlank c.toChar = false)
    (hrest : ∀ c ∈ rest.head?, isBlank c.toChar = true) : words (t ++ rest) = t :: words rest := by
  have hword := words_of_not_blank hne ht
  cases rest with
  | nil =>
    rw [List.append_nil, hword]
    rfl
  | cons c rest =>
    have hblank : isBlank c.toChar = true := hrest c rfl
    have hskip : words (c :: rest) = words rest :=
      words_of_blanks (List.forall_mem_singleton.mpr hblank) rest
    have hapart : words (t ++ c :: rest) = words t ++ words rest :=
      wordsFrom_blank hblank [] [] t rest
    rw [hapart, hword, hskip]
    rfl

theorem chars_ofString (s : String) : (ofString s).map CodePoint.toChar = s.toList := by
  unfold ofString ofChars
  rw [List.map_map]
  exact List.map_id s.toList

theorem ofString_injective : Function.Injective ofString := by
  intro s t h
  have hchars := congrArg (List.map CodePoint.toChar) h
  rw [chars_ofString, chars_ofString] at hchars
  exact String.toList_inj.mp hchars

theorem mem_ofString {s : String} {c : CodePoint} (h : c ∈ ofString s) :
    c.toChar ∈ s.toList := by
  obtain ⟨x, hx, rfl⟩ := List.mem_map.mp h
  exact hx

theorem Solid.ofString_ne_nil {t : String} (ht : Solid t) : ofString t ≠ [] :=
  fun h => ht.1 (String.toList_eq_nil_iff.mp (List.map_eq_nil_iff.mp h))

theorem Solid.isBlank_of_mem {t : String} (ht : Solid t) :
    ∀ c ∈ ofString t, isBlank c.toChar = false :=
  fun _ hc => ht.2 _ (mem_ofString hc)

theorem words_of_solid {t : String} (ht : Solid t) : words (ofString t) = [ofString t] :=
  words_of_not_blank ht.ofString_ne_nil ht.isBlank_of_mem

theorem words_apart {gap : String} (hgap : Blanks gap) (hne : gap ≠ "") (s t : String) :
    words (s ++ (gap ++ t) : String) = words s ++ words t := by
  have hblanks : ∀ c ∈ ofString gap, isBlank c.toChar = true := fun c hc => hgap _ (mem_ofString hc)
  obtain ⟨d, more, hcons⟩ : ∃ d more, ofString gap = d :: more := by
    refine List.exists_cons_of_ne_nil fun h => hne (String.toList_eq_nil_iff.mp ?_)
    exact List.map_eq_nil_iff.mp h
  rw [hcons] at hblanks
  obtain ⟨hd, hmore⟩ := List.forall_mem_cons.mp hblanks
  rw [ofString_append, ofString_append, hcons, List.cons_append]
  calc
    words (ofString s ++ d :: (more ++ ofString t)) = words s ++ words (more ++ ofString t) :=
      wordsFrom_blank hd [] [] _ _
    _ = words s ++ words t := by rw [words_of_blanks hmore]

theorem words_of_solid_append {t gap : String} (ht : Solid t) (hgap : Blanks gap) (hne : gap ≠ "")
    (rest : String) : words (t ++ (gap ++ rest) : String) = ofString t :: words rest := by
  rw [words_apart hgap hne, words_of_solid ht]
  rfl

theorem flatMap_words_of_solid {parts : List String} (h : ∀ part ∈ parts, Solid part) :
    (parts.map ofString).flatMap words = parts.map ofString := by
  induction parts with
  | nil => rfl
  | cons part parts ih =>
    obtain ⟨hpart, hparts⟩ := List.forall_mem_cons.mp h
    rw [List.map_cons, List.flatMap_cons, words_of_solid hpart, ih hparts]
    rfl

/-- The words of texts with one blank between any two of them. -/
theorem words_intercalate (parts : List String) :
    words (" ".intercalate parts : String) = (parts.map ofString).flatMap words := by
  induction parts with
  | nil => rfl
  | cons part parts ih =>
    cases parts with
    | nil => simp
    | cons next parts =>
      rw [String.intercalate_cons_cons, String.append_assoc, words_apart (by decide) (by decide),
        ih]
      rfl

end Text

namespace Numeral

open Text

theorem solid_decimal (n : Int) : Solid (decimal n) := by
  refine ⟨fun hnone => ?_, forall_mem_decimal (by decide) (by decide) n⟩
  have hchars := congrArg String.toList hnone
  rw [decimal, String.toList_append, String.toList_ofList] at hchars
  exact Nat.toDigits_ne_nil (List.append_eq_nil_iff.mp hchars).2

theorem solid_hex4 (n : Int) : Solid (hex4 n) := by
  refine ⟨fun hnone => ?_, forall_mem_hex4 (by decide) (by decide) n⟩
  have hchars := congrArg String.toList hnone
  rw [hex4, padLeft, String.toList_append, String.toList_append, String.toList_ofList,
    String.toList_ofList] at hchars
  have hdigits := (List.append_eq_nil_iff.mp (List.append_eq_nil_iff.mp hchars).2).2
  exact Nat.toDigits_ne_nil (List.map_eq_nil_iff.mp hdigits)

theorem solid_padLeft {s : String} {fill : Char} (hfill : isBlank fill = false) (hs : Solid s)
    {width : ℕ} : Solid (padLeft width fill s) := by
  refine ⟨fun hnone => hs.1 (String.append_eq_empty_iff.mp hnone).2, ?_⟩
  intro c hc
  rw [padLeft, String.toList_append, String.toList_ofList, List.mem_append] at hc
  rcases hc with hc | hc
  · rw [List.eq_of_mem_replicate hc]
    exact hfill
  · exact hs.2 c hc

theorem solid_hex (w : Word) : Solid w.hex :=
  solid_hex4 w.toNat

theorem words_hex (ws : List Word) :
    words (" ".intercalate (ws.map Word.hex) : String) = (ws.map Word.hex).map ofString := by
  rw [words_intercalate]
  exact flatMap_words_of_solid (List.forall_mem_map.mpr fun w _ => solid_hex w)

end Numeral

end WordMachine
