import Mathlib.Algebra.Order.Field.Power
import Mathlib.Data.Rat.Floor
import WordMachine.Proofs.Validation

/-!
The integers that values stand for. A number stands for what it is without its fraction, a truth
value for one or zero, and a text for the number that it denotes; null, dates, lists and maps stand
for none. A floating-point number of 64 bits stays so small without its fraction that it can be
written.
-/
namespace WordMachine

/-- What is left of a number without its fraction. -/
def wholePart (q : ℚ) : ℤ :=
  if q < 0 then ⌈q⌉ else ⌊q⌋

theorem wholePart_of_nonneg {q : ℚ} (h : 0 ≤ q) : wholePart q = ⌊q⌋ :=
  if_neg (not_lt.mpr h)

theorem wholePart_neg_of_nonneg {q : ℚ} (h : 0 ≤ q) : wholePart (-q) = -⌊q⌋ := by
  unfold wholePart
  rcases h.lt_or_eq with hpos | rfl
  · rw [if_pos (neg_lt_zero.mpr hpos), Int.ceil_neg]
  · rfl

namespace Binary64

/-- The number that a mantissa and an exponent are. -/
def rational (negative : Bool) (mantissa : ℕ) (exponent : ℤ) : ℚ :=
  (if negative then -1 else 1) * (mantissa * 2 ^ exponent)

theorem floor_mantissa (mantissa : ℕ) (exponent : ℤ) :
    ⌊(mantissa * 2 ^ exponent : ℚ)⌋ = truncate false mantissa exponent := by
  unfold truncate
  by_cases hwhole : 0 ≤ exponent
  · obtain ⟨k, rfl⟩ := Int.eq_ofNat_of_zero_le hwhole
    have hcast : (mantissa * 2 ^ ((k : ℕ) : ℤ) : ℚ) = ((mantissa * 2 ^ k : ℕ) : ℚ) := by
      push_cast [zpow_natCast]
      rfl
    rw [if_pos hwhole, hcast]
    exact Int.floor_natCast _
  · obtain ⟨k, hk⟩ := Int.eq_ofNat_of_zero_le (by omega : 0 ≤ -exponent)
    obtain rfl : exponent = -(k : ℤ) := by omega
    have hcast : (mantissa * 2 ^ (-(k : ℤ)) : ℚ) = (mantissa : ℚ) / ((2 ^ k : ℕ) : ℚ) := by
      rw [zpow_neg, zpow_natCast, div_eq_mul_inv]
      push_cast
      rfl
    rw [if_neg hwhole, hcast, Rat.floor_natCast_div_natCast]
    rw [neg_neg]
    rfl

theorem wholePart_rational (negative : Bool) (mantissa : ℕ) (exponent : ℤ) :
    wholePart (rational negative mantissa exponent) = truncate negative mantissa exponent := by
  have hnonneg : (0 : ℚ) ≤ mantissa * 2 ^ exponent := by positivity
  unfold rational
  cases negative with
  | false =>
    rw [if_neg Bool.false_ne_true, one_mul, wholePart_of_nonneg hnonneg, floor_mantissa]
  | true =>
    rw [if_pos rfl, neg_one_mul, wholePart_neg_of_nonneg hnonneg, floor_mantissa]
    rfl

/-- A finite number, its mantissa and exponent within what 64 bits have room for. -/
def IsFinite : Binary64 → Prop
  | finite _ mantissa exponent => mantissa < Nat.pow 2 53 ∧ exponent ≤ 971
  | _ => False

theorem natAbs_truncate_lt (negative : Bool) {mantissa p q : ℕ} {exponent : ℤ}
    (hmantissa : mantissa < 2 ^ p) (hexponent : exponent ≤ q) :
    (truncate negative mantissa exponent).natAbs < 2 ^ (p + q) := by
  unfold truncate
  have habs (k : ℕ) : (if negative then -(k : ℤ) else k).natAbs = k := by
    cases negative
    · exact Int.natAbs_natCast k
    · exact (Int.natAbs_neg _).trans (Int.natAbs_natCast k)
  refine (habs _).trans_lt ?_
  split
  · calc mantissa * Nat.pow 2 exponent.toNat
        < 2 ^ p * 2 ^ exponent.toNat := Nat.mul_lt_mul_of_pos_right hmantissa (pow_pos two_pos _)
      _ ≤ 2 ^ p * 2 ^ q := Nat.mul_le_mul_left _ (pow_le_pow_right₀ one_le_two (by omega))
      _ = 2 ^ (p + q) := (pow_add 2 p q).symm
  · calc mantissa / Nat.pow 2 (-exponent).toNat
        ≤ mantissa := Nat.div_le_self _ _
      _ < 2 ^ p := hmantissa
      _ ≤ 2 ^ (p + q) := pow_le_pow_right₀ one_le_two (Nat.le_add_right p q)

theorem IsFinite.writable {negative : Bool} {mantissa : ℕ} {exponent : ℤ}
    (h : (finite negative mantissa exponent).IsFinite) :
    Numeral.Writable (truncate negative mantissa exponent) := by
  have hlong (k : ℕ) (hk : 53 + 971 ≤ k) :
      (truncate negative mantissa exponent).natAbs < Nat.pow 10 k :=
    calc (truncate negative mantissa exponent).natAbs
        < 2 ^ (53 + 971) := natAbs_truncate_lt negative h.1 h.2
      _ ≤ 10 ^ (53 + 971) := pow_le_pow_left₀ (Nat.zero_le 2) (by decide) _
      _ ≤ Nat.pow 10 k := pow_le_pow_right₀ (by decide) hk
  apply hlong
  decide

end Binary64

namespace Value

/-- The value stands for an integer. -/
inductive StandsFor (radix : Numeral.Radix) : Value → ℤ → Prop
  | bool (b : Bool) : StandsFor radix (.bool b) (if b then 1 else 0)
  | int (n : ℤ) : StandsFor radix (.int n) n
  | float (negative : Bool) (mantissa : ℕ) (exponent : ℤ) :
      StandsFor radix (.scalar (.float (.finite negative mantissa exponent)))
        (wholePart (Binary64.rational negative mantissa exponent))
  | text {s : Text} {n : ℤ} (h : Numeral.read radix s = .ok n) : StandsFor radix (.text s) n

variable {radix : Numeral.Radix} {v : Value} {n : ℤ}

theorem toInt_eq_ok_iff : v.toInt radix = .ok n ↔ v.StandsFor radix n := by
  constructor
  · intro h
    cases v with
    | list items => cases h
    | map entries => cases h
    | scalar s =>
      cases s with
      | bool b =>
        obtain rfl : (b.toNat : ℤ) = n := Except.ok.inj h
        have hvalue := @StandsFor.bool radix b
        cases b <;> exact hvalue
      | int k =>
        obtain rfl : k = n := Except.ok.inj h
        exact .int k
      | float x =>
        cases x with
        | finite negative mantissa exponent =>
          obtain rfl := Except.ok.inj h
          rw [← Binary64.wholePart_rational]
          exact .float negative mantissa exponent
        | _ => cases h
      | text s =>
        change (Numeral.read radix s).mapError _ = _ at h
        cases hread : Numeral.read radix s with
        | error e =>
          rw [hread] at h
          cases h
        | ok k =>
          rw [hread] at h
          obtain rfl : k = n := Except.ok.inj h
          exact .text hread
      | _ => cases h
  · intro h
    cases h with
    | bool b => cases b <;> rfl
    | int n => rfl
    | float negative mantissa exponent =>
      rw [Binary64.wholePart_rational]
      rfl
    | text h =>
      change (Numeral.read radix _).mapError _ = _
      rw [h]
      rfl

theorem StandsFor.unique {k : ℤ} (h : v.StandsFor radix n) (h' : v.StandsFor radix k) : n = k := by
  rw [← toInt_eq_ok_iff] at h h'
  exact Except.ok.inj (h.symm.trans h')

/-- No number in the value is infinite, and no integer in it is too long to be written, however it
is written there. -/
def IsPlain : Value → Prop
  | .scalar (.int n) => Numeral.Writable n
  | .scalar (.float x) => x.IsFinite
  | .scalar (.text s) => ∀ n, Numeral.read .marked s = .ok n → Numeral.Writable n
  | _ => True

theorem IsPlain.writable (h : v.IsPlain) (hvalue : v.StandsFor .marked n) :
    Numeral.Writable n := by
  cases hvalue with
  | bool b => exact Numeral.writable_of_isWord (by cases b <;> decide)
  | int n => exact h
  | float negative mantissa exponent =>
    rw [Binary64.wholePart_rational]
    exact Binary64.IsFinite.writable h
  | text hread => exact h n hread

theorem IsPlain.toInt_ne_infinite (h : v.IsPlain) : v.toInt radix ≠ .error .infinite := by
  rw [ne_eq, Settings.toInt_eq_infinite_iff]
  rintro ⟨negative, rfl⟩
  exact h

end Value

end WordMachine
