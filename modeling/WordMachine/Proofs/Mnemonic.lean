import Mathlib.Data.Nat.Notation
import WordMachine.Listing

/-!
Which characters the text of an instruction has. Numbers are shown in digits, the rest is names,
brackets and arrows, and so the text of an instruction with all its words is never that of a
truncated one.
-/
namespace WordMachine

namespace Text

/-- The characters of numbers, names, brackets and arrows, and what separates them. No break of a
line, no angle that opens and no upper-case X is among them. -/
def isPlain (c : Char) : Bool :=
  c ≠ 'X' && (c.isAlphanum
    || ['\t', ' ', ',', '-', ':', '=', '(', ')', '>', '[', ']', '_', '.'].contains c)

def Plain (s : String) : Prop :=
  ∀ c ∈ s.toList, isPlain c = true

instance (s : String) : Decidable (Plain s) :=
  List.decidableBAll _ s.toList

theorem plain_append {s t : String} (hs : Plain s) (ht : Plain t) : Plain (s ++ t) := by
  intro c hc
  rw [String.toList_append, List.mem_append] at hc
  exact hc.elim (hs c) (ht c)

theorem plain_ofList {cs : List Char} (h : ∀ c ∈ cs, isPlain c = true) :
    Plain (String.ofList cs) := by
  unfold Plain
  rw [String.toList_ofList]
  exact h

/-- What holds of texts and of nothing, and is kept by appending, holds of the texts in a row. -/
theorem intercalate_of_append {P : String → Prop} (hnone : P "")
    (happend : ∀ {s t}, P s → P t → P (s ++ t)) {sep : String} {parts : List String} (hsep : P sep)
    (hparts : ∀ part ∈ parts, P part) : P (sep.intercalate parts) := by
  induction parts with
  | nil => exact hnone
  | cons part parts ih =>
    obtain ⟨hpart, hlater⟩ := List.forall_mem_cons.mp hparts
    cases parts with
    | nil => simpa using hpart
    | cons next parts =>
      rw [String.intercalate_cons_cons]
      exact happend (happend hpart hsep) (ih hlater)

theorem plain_intercalate {sep : String} {parts : List String} (hsep : Plain sep)
    (hparts : ∀ part ∈ parts, Plain part) : Plain (sep.intercalate parts) :=
  intercalate_of_append (by decide) plain_append hsep hparts

end Text

namespace Numeral

open Text

/-- The digits of a number are those of its quotient by the base and a last one. -/
theorem exists_digitChar_of_mem_toDigits {base n : ℕ} {c : Char} (hbase : 1 < base)
    (h : c ∈ Nat.toDigits base n) : ∃ d < base, c = Nat.digitChar d := by
  induction n using Nat.strongRecOn with
  | ind n ih =>
    rw [Nat.toDigits_eq_if hbase] at h
    by_cases hsmall : n < base
    · rw [if_pos hsmall, List.mem_singleton] at h
      exact ⟨n, hsmall, h⟩
    · rw [if_neg hsmall, List.mem_append, List.mem_singleton] at h
      have hless : n / base < n := Nat.div_lt_self (by omega) hbase
      rcases h with hfront | hlast
      · exact ih (n / base) hless hfront
      · exact ⟨n % base, Nat.mod_lt n (by omega), hlast⟩

theorem mem_sign {n : Int} {c : Char} (h : c ∈ (sign n).toList) : c = '-' := by
  unfold sign at h
  split at h
  · simpa using h
  · simp at h

theorem forall_mem_digits {P : Char → Prop} (hdigit : ∀ d < 10, P (Nat.digitChar d)) (n : ℕ) :
    ∀ c ∈ (String.ofList (Nat.toDigits 10 n)).toList, P c := by
  intro c hc
  rw [String.toList_ofList] at hc
  obtain ⟨d, hd, rfl⟩ := exists_digitChar_of_mem_toDigits (by decide) hc
  exact hdigit d hd

theorem forall_mem_hexDigits {P : Char → Prop} (hdigit : ∀ d < 16, P (Nat.digitChar d).toUpper)
    (width n : ℕ) : ∀ c ∈ (padLeft width '0' (String.ofList (upperHexDigits n))).toList, P c := by
  intro c hc
  unfold padLeft at hc
  rw [String.toList_append, String.toList_ofList, String.toList_ofList] at hc
  rcases List.mem_append.mp hc with hzero | hc
  · rw [List.eq_of_mem_replicate hzero]
    exact hdigit 0 (by decide)
  · obtain ⟨x, hx, rfl⟩ := List.mem_map.mp hc
    obtain ⟨d, hd, rfl⟩ := exists_digitChar_of_mem_toDigits (by decide) hx
    exact hdigit d hd

theorem forall_mem_sign_append {P : Char → Prop} (hsign : P '-') {n : Int} {figures : String}
    (hfigures : ∀ c ∈ figures.toList, P c) : ∀ c ∈ (sign n ++ figures).toList, P c := by
  intro c hc
  rw [String.toList_append] at hc
  rcases List.mem_append.mp hc with hc | hc
  · rw [mem_sign hc]
    exact hsign
  · exact hfigures c hc

theorem forall_mem_decimal {P : Char → Prop} (hsign : P '-')
    (hdigit : ∀ d < 10, P (Nat.digitChar d)) (n : Int) : ∀ c ∈ (decimal n).toList, P c :=
  forall_mem_sign_append hsign (forall_mem_digits hdigit n.natAbs)

theorem forall_mem_hex4 {P : Char → Prop} (hsign : P '-')
    (hdigit : ∀ d < 16, P (Nat.digitChar d).toUpper) (n : Int) : ∀ c ∈ (hex4 n).toList, P c :=
  forall_mem_sign_append hsign (forall_mem_hexDigits hdigit _ n.natAbs)

theorem plain_decimal (n : Int) : Plain (decimal n) :=
  forall_mem_decimal (by decide) (by decide) n

theorem plain_hex4 (n : Int) : Plain (hex4 n) :=
  forall_mem_hex4 (by decide) (by decide) n

theorem plain_padLeft {s : String} {fill : Char} (hfill : isPlain fill = true) (hs : Plain s)
    (width : ℕ) : Plain (padLeft width fill s) := by
  refine plain_append (plain_ofList ?_) hs
  intro c hc
  rw [List.eq_of_mem_replicate hc]
  exact hfill

theorem plain_padRight {s : String} {fill : Char} (hfill : isPlain fill = true) (hs : Plain s)
    (width : ℕ) : Plain (padRight width fill s) := by
  refine plain_append hs (plain_ofList ?_)
  intro c hc
  rw [List.eq_of_mem_replicate hc]
  exact hfill

end Numeral

namespace Instruction

open Text Numeral

theorem plain_name (o : Operation) : Plain o.name := by
  cases o <;> decide

/-- What stands around the numbers of an instruction. -/
def marks : List String :=
  ["", " ", "0x", "[0x", "]", "[in", "-> [0x"]

section

variable {P : String → Prop} (happend : ∀ {s t}, P s → P t → P (s ++ t))
  (hmarks : ∀ mark ∈ marks, P mark) (hdecimal : ∀ n, P (decimal n)) (hhex : ∀ n, P (hex4 n))

include happend hmarks hdecimal hhex

theorem slotText_of_append {slot : ℕ} {indirect : Bool} {operand : Option Int} {text : String}
    (h : slotText slot indirect operand = some text) : P text := by
  cases operand with
  | none =>
    cases indirect with
    | false => simp [slotText] at h
    | true =>
      obtain rfl : _ = text := Option.some.inj h
      exact happend (happend (hmarks "[in" (by decide)) (hdecimal slot)) (hmarks "]" (by decide))
  | some n =>
    obtain rfl : _ = text := Option.some.inj h
    cases indirect with
    | false => exact happend (hmarks "0x" (by decide)) (hhex n)
    | true => exact happend (happend (hmarks "[0x" (by decide)) (hhex n)) (hmarks "]" (by decide))

/-- What holds of names, marks and numbers, and is kept by appending, holds of the text of an
instruction. -/
theorem mnemonic_of_append (hname : ∀ o : Operation, P o.name) (i : Instruction)
    (operands : List Int) (target : Int) : P (i.mnemonic operands target) := by
  refine intercalate_of_append (hmarks "" (by decide)) happend (hmarks " " (by decide)) ?_
  intro part hpart
  unfold slotTexts targetTexts at hpart
  simp only [List.mem_append, List.mem_filterMap, List.mem_map, List.mem_cons, id_eq] at hpart
  rcases hpart with rfl | (⟨text, (rfl | rfl | hnone), htext⟩ | ⟨n, -, rfl⟩) | htarget
  · exact hname i.operation
  · exact slotText_of_append happend hmarks hdecimal hhex htext
  · exact slotText_of_append happend hmarks hdecimal hhex htext
  · exact absurd hnone List.not_mem_nil
  · exact happend (hmarks "0x" (by decide)) (hhex n)
  · split at htarget
    · obtain rfl := List.mem_singleton.mp htarget
      exact happend (happend (hmarks "-> [0x" (by decide)) (hhex target)) (hmarks "]" (by decide))
    · exact absurd htarget List.not_mem_nil

end

theorem plain_mnemonic (i : Instruction) (operands : List Int) (target : Int) :
    Plain (i.mnemonic operands target) :=
  mnemonic_of_append plain_append (by decide) plain_decimal plain_hex4 plain_name i operands target

theorem angle_notMem_mnemonic (i : Instruction) (operands : List Int) (target : Int) :
    '<' ∉ (i.mnemonic operands target).toList :=
  fun h => absurd (plain_mnemonic i operands target '<' h) (by decide)

end Instruction

end WordMachine
