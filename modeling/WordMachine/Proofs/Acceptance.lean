import Mathlib.Data.List.Lex
import Mathlib.Data.List.Sort
import WordMachine.Proofs.Conversion

/-!
Which mappings are settings. A mapping is accepted if its step limit and its entry point stand for
numbers in their ranges and it has no key but the four; otherwise the first of its defects is
reported, in the order of the checks. As it is told without the checks what the settings are and
which defect comes first, the order of the entries does not matter, and an entry that is a default
can as well be left out.
-/
namespace WordMachine

theorem CodePoint.toNat_injective : Function.Injective toNat := by
  have hother (c : Char) (i : Fin 2048) : toNat (.char c) ≠ toNat (.surrogate i) := by
    have hvalid : c.toNat < 0xD800 ∨ 0xDFFF < c.toNat ∧ c.toNat < 0x110000 := c.valid
    intro h
    have hnumber : c.toNat = 0xD800 + i.val := h
    omega
  intro c d h
  cases c with
  | char c =>
    cases d with
    | char d => exact congrArg char (Char.toNat_inj.mp h)
    | surrogate j => exact absurd h (hother c j)
  | surrogate i =>
    cases d with
    | char d => exact absurd h.symm (hother d i)
    | surrogate j => exact congrArg surrogate (Fin.ext (Nat.add_left_cancel h))

namespace Text

/-- Texts in the order of their code points. -/
def Before (s t : Text) : Prop :=
  List.Lex (· < ·) (s.map CodePoint.toNat) (t.map CodePoint.toNat)

theorem precedes_iff (s t : Text) : precedes s t = true ↔ ¬ Before t s := by
  unfold precedes Before
  rw [Bool.not_eq_true', ← Bool.not_eq_true, List.lex_eq_true_iff_lt]
  exact Iff.rfl

instance : Std.Asymm Before where
  asymm s t := lt_asymm (a := s.map CodePoint.toNat) (b := t.map CodePoint.toNat)

theorem before_of_precedes {s t : Text} (h : precedes s t = true) (hne : s ≠ t) : Before s t := by
  rw [precedes_iff] at h
  have hcodes : s.map CodePoint.toNat ≠ t.map CodePoint.toNat := fun heq =>
    hne (List.map_injective_iff.mpr CodePoint.toNat_injective heq)
  exact lt_of_le_of_ne (not_lt.mp h) hcodes

theorem precedes_trans (s t u : Text) (hst : precedes s t = true) (htu : precedes t u = true) :
    precedes s u = true := by
  rw [precedes_iff] at *
  have hfirst : s.map CodePoint.toNat ≤ t.map CodePoint.toNat := not_lt.mp hst
  exact not_lt.mpr (hfirst.trans (not_lt.mp htu))

theorem precedes_total (s t : Text) : (precedes s t || precedes t s) = true := by
  rw [Bool.or_eq_true, precedes_iff, precedes_iff]
  exact (le_total (s.map CodePoint.toNat) (t.map CodePoint.toNat)).imp not_lt.mpr not_lt.mpr

/-- Texts without repetitions are sorted into a strict order. -/
theorem pairwise_before_mergeSort {names : List Text} (h : names.Nodup) :
    (names.mergeSort precedes).Pairwise Before := by
  have hsorted := List.pairwise_mergeSort precedes_trans precedes_total names
  have hnodup := (List.mergeSort_perm names precedes).nodup_iff.mpr h
  exact (hsorted.and hnodup).imp fun h => before_of_precedes h.1 h.2

end Text

theorem Scalar.isSameKey_text_iff (s t : Text) :
    (Scalar.text s).isSameKey (.text t) = true ↔ s = t := by
  rw [isSameKey_iff]
  exact ⟨Scalar.text.inj, congrArg Scalar.text⟩

namespace Settings

/-- Entries under distinct texts, as plain as values are in documents. -/
structure Plain (entries : Entries) : Prop where
  distinct : entries.Distinct
  texts : ∀ e ∈ entries, ∃ key : Text, e.1 = .text key
  values : ∀ e ∈ entries, e.2.IsPlain

/-- The value that is given under a key, or the other one if there is none. -/
def chosen (entries : Entries) (key : String) (v : Value) : Value :=
  (entries.get? (.text key)).getD v

def limitValue (entries : Entries) : Value :=
  chosen entries "step_limit" (.int 100)

def entryValue (entries : Entries) : Value :=
  chosen entries "entry_point" .null

/-- A value is the entry point: null, or it stands for a number. -/
inductive IsEntry : Value → Option ℤ → Prop
  | null : IsEntry .null none
  | number {v : Value} {n : ℤ} (h : v.StandsFor .marked n) : IsEntry v (some n)

/-- All keys are keys of settings. -/
def Known (entries : Entries) : Prop :=
  ∀ e ∈ entries, ∃ key ∈ keys, e.1 = .text key

/-- A mapping is accepted as settings. -/
structure Accepted (entries : Entries) (s : Settings) : Prop where
  limit : (limitValue entries).StandsFor .decimal s.stepLimit
  entry : IsEntry (entryValue entries) (s.entryPoint.map fun w => (w.toNat : ℤ))
  known : Known entries
  trace : s.trace = (chosen entries "trace" (.bool false)).isTrue
  echo : s.echo = (chosen entries "echo" (.bool true)).isTrue

/-- The keys that are no keys of settings, each once and in their order. -/
structure Foreign (entries : Entries) (names : List Text) : Prop where
  ascending : names.Pairwise Text.Before
  mem_iff : ∀ name, name ∈ names ↔ (∃ v, (.text name, v) ∈ entries) ∧ ∀ key ∈ keys, name ≠ key

inductive Check
  | limit
  | entry
  | negative
  | range
  | keys

/-- The checks in the order in which they are made. -/
def Check.place : Check → ℕ
  | limit => 0
  | entry => 1
  | negative => 2
  | range => 3
  | keys => 4

/-- What is wrong with a mapping for each of the checks, whatever it is for the others, and how it
is reported. -/
inductive Defect (entries : Entries) : Check → SettingsError → Prop
  | limit {e : ConversionError} (h : (limitValue entries).toInt .decimal = .error e) :
      Defect entries .limit (.badTypes e)
  | entry {e : ConversionError} (hnull : entryValue entries ≠ .null)
      (h : (entryValue entries).toInt .marked = .error e) : Defect entries .entry (.badTypes e)
  | negative {n : ℤ} (h : (limitValue entries).StandsFor .decimal n) (hneg : n < 0) :
      Defect entries .negative .negativeLimit
  | range {n : ℤ} (h : IsEntry (entryValue entries) (some n)) (hwide : ¬ IsWord n) :
      Defect entries .range (.badEntry n)
  | keys {names : List Text} (h : Foreign entries names) (hsome : names ≠ []) :
      Defect entries .keys (.unknownKeys (names.map Text.shown))

/-- The report tells of the defect that no other comes before. -/
def FirstDefect (entries : Entries) (e : SettingsError) : Prop :=
  ∃ c, Defect entries c e ∧ ∀ c' e', Defect entries c' e' → c.place ≤ c'.place

theorem entryOf_eq_ok_iff {v : Value} {entry : Option ℤ} :
    entryOf v = .ok entry ↔ IsEntry v entry := by
  unfold entryOf
  split
  · constructor
    · intro h
      obtain rfl := Except.ok.inj h
      exact .null
    · intro h
      cases h with
      | null => rfl
      | number h => cases h
  · next hnull =>
    constructor
    · intro h
      cases hvalue : v.toInt .marked with
      | error e =>
        rw [hvalue] at h
        cases h
      | ok n =>
        rw [hvalue] at h
        obtain rfl := Except.ok.inj h
        exact .number (Value.toInt_eq_ok_iff.mp hvalue)
    · intro h
      cases h with
      | null => exact absurd rfl hnull
      | number h =>
        rw [Value.toInt_eq_ok_iff.mpr h]
        rfl

theorem IsEntry.standsFor {v : Value} {n : ℤ} (h : IsEntry v (some n)) :
    v.StandsFor .marked n := by
  cases h with
  | number h => exact h

theorem IsEntry.unique {v : Value} {entry entry' : Option ℤ} (h : IsEntry v entry)
    (h' : IsEntry v entry') : entry = entry' := by
  rw [← entryOf_eq_ok_iff] at h h'
  exact Except.ok.inj (h.symm.trans h')

theorem entryOf_eq_error_iff {v : Value} {e : ConversionError} :
    entryOf v = .error e ↔ v ≠ .null ∧ v.toInt .marked = .error e := by
  unfold entryOf
  split
  · simp [Value.null]
  · next hnull =>
    have hother : v ≠ .null := hnull
    cases v.toInt .marked <;> simp [Except.map, hother]

variable {entries : Entries}

theorem valueOf_eq (h : entries.Distinct) (key : String) :
    valueOf entries key =
      ((entries.get? (.text key)).or (default.toEntries.get? (.text key))).getD .null := by
  unfold valueOf
  rw [Entries.get?_update h]

theorem valueOf_eq_chosen (h : entries.Distinct) {key : String} {v : Value}
    (hdefault : default.toEntries.get? (.text key) = some v) :
    valueOf entries key = chosen entries key v := by
  rw [valueOf_eq h, hdefault]
  unfold chosen
  cases entries.get? (.text key) <;> rfl

theorem valueOf_limit (h : entries.Distinct) :
    valueOf entries "step_limit" = limitValue entries :=
  valueOf_eq_chosen h rfl

theorem valueOf_entry (h : entries.Distinct) :
    valueOf entries "entry_point" = entryValue entries :=
  valueOf_eq_chosen h rfl

theorem limitOf_valueOf_iff (h : entries.Distinct) {n : ℤ} :
    limitOf (valueOf entries "step_limit") = .ok n ↔ (limitValue entries).StandsFor .decimal n := by
  rw [valueOf_limit h]
  exact Value.toInt_eq_ok_iff

theorem entryOf_valueOf_iff (h : entries.Distinct) {entry : Option ℤ} :
    entryOf (valueOf entries "entry_point") = .ok entry ↔ IsEntry (entryValue entries) entry := by
  rw [valueOf_entry h]
  exact entryOf_eq_ok_iff

theorem foreignKeys_update (h : entries.Distinct) :
    foreignKeys (default.toEntries.update entries) = foreignKeys entries := by
  unfold foreignKeys
  rw [(Entries.sets_update h default.toEntries).keys, List.filter_append, List.filter_filter]
  have hdefaults : (default.toEntries.map Prod.fst).filter
      (fun key => !keys.any fun k => key.isSameKey (.text k)) = [] := by decide
  rw [hdefaults, List.nil_append]
  apply List.filter_congr
  intro key _
  have hkeys : default.toEntries.hasKey key = keys.any fun k => key.isSameKey (.text k) := by
    simp only [Scalar.isSameKey_comm key]
    rfl
  rw [hkeys, Bool.and_self]

def foreignNames (entries : Entries) : List Text :=
  ((foreignKeys entries).filterMap textOf?).mergeSort Text.precedes

theorem textOf?_eq_some_iff {key : Scalar} {name : Text} :
    textOf? key = some name ↔ key = .text name := by
  cases key <;> simp [textOf?]

theorem mem_foreignKeys_iff {key : Scalar} : key ∈ foreignKeys entries ↔
    (∃ v, (key, v) ∈ entries) ∧ ∀ k ∈ keys, key.isSameKey (.text k) = false := by
  simp [foreignKeys]

theorem mem_foreignNames_iff {name : Text} : name ∈ foreignNames entries ↔
    (∃ v, (.text name, v) ∈ entries) ∧ ∀ key ∈ keys, name ≠ key := by
  unfold foreignNames
  simp only [List.mem_mergeSort, List.mem_filterMap, textOf?_eq_some_iff, exists_eq_right,
    mem_foreignKeys_iff, ← Bool.not_eq_true, Scalar.isSameKey_text_iff, ne_eq]

theorem foreign_foreignNames (h : entries.Distinct) : Foreign entries (foreignNames entries) := by
  refine ⟨Text.pairwise_before_mergeSort ?_, fun name => mem_foreignNames_iff⟩
  have hkeys : (foreignKeys entries).Pairwise fun k k' => k.isSameKey k' = false :=
    List.Pairwise.filter _ (List.pairwise_map.mpr h)
  refine List.pairwise_filterMap.mpr (hkeys.imp fun {k k'} hother name hname name' hname' => ?_)
  rw [textOf?_eq_some_iff] at hname hname'
  rintro rfl
  rw [hname, hname', (Scalar.isSameKey_text_iff name name).mpr rfl] at hother
  cases hother

theorem Foreign.unique {names names' : List Text} (h : Foreign entries names)
    (h' : Foreign entries names') : names = names' :=
  h.ascending.eq_of_mem_iff h'.ascending fun name => (h.mem_iff name).trans (h'.mem_iff name).symm

theorem checkKeys_of_texts (h : ∀ e ∈ entries, ∃ key : Text, e.1 = .text key) :
    checkKeys entries = if foreignNames entries = [] then .ok ()
      else .error (.settings (.unknownKeys ((foreignNames entries).map Text.shown))) := by
  have htext : ∀ key ∈ foreignKeys entries, ∃ name, textOf? key = some name := by
    intro key hkey
    obtain ⟨⟨v, hmem⟩, -⟩ := mem_foreignKeys_iff.mp hkey
    obtain ⟨name, rfl⟩ := h _ hmem
    exact ⟨name, rfl⟩
  have hfind : (foreignKeys entries).find? (fun key => (textOf? key).isNone) = none := by
    refine List.find?_eq_none.mpr fun key hkey => ?_
    obtain ⟨name, hname⟩ := htext key hkey
    simp [hname]
  have hempty : foreignNames entries = [] ↔ foreignKeys entries = [] := by
    unfold foreignNames
    rw [← List.length_eq_zero_iff, List.length_mergeSort, List.length_eq_zero_iff,
      List.filterMap_eq_nil_iff]
    refine ⟨fun hnone => List.eq_nil_iff_forall_not_mem.mpr fun key hkey => ?_, ?_⟩
    · obtain ⟨name, hname⟩ := htext key hkey
      rw [hnone key hkey] at hname
      cases hname
    · intro hnil key hkey
      rw [hnil] at hkey
      cases hkey
  unfold checkKeys
  dsimp only
  rw [hfind]
  simp only [List.isEmpty_iff, hempty]
  rfl

theorem foreignNames_eq_nil_iff (h : ∀ e ∈ entries, ∃ key : Text, e.1 = .text key) :
    foreignNames entries = [] ↔ Known entries := by
  rw [List.eq_nil_iff_forall_not_mem]
  constructor
  · rintro hnone ⟨key, v⟩ hmem
    obtain ⟨name, rfl⟩ := h _ hmem
    by_contra hforeign
    refine hnone name (mem_foreignNames_iff.mpr ⟨⟨v, hmem⟩, ?_⟩)
    rintro k hk rfl
    exact hforeign ⟨k, hk, rfl⟩
  · intro hknown name hname
    obtain ⟨⟨v, hmem⟩, hforeign⟩ := mem_foreignNames_iff.mp hname
    obtain ⟨k, hk, hkey⟩ := hknown _ hmem
    exact hforeign k hk (Scalar.text.inj hkey)

theorem checkKeys_update (h : Plain entries) : checkKeys (default.toEntries.update entries) =
    if foreignNames entries = [] then .ok ()
    else .error (.settings (.unknownKeys ((foreignNames entries).map Text.shown))) := by
  have hsame : checkKeys (default.toEntries.update entries) = checkKeys entries := by
    unfold checkKeys
    rw [foreignKeys_update h.distinct]
  rw [hsame, checkKeys_of_texts h.texts]

theorem right_iff_accepted (h : Plain entries) {s : Settings} :
    Right entries s ↔ Accepted entries s := by
  have hkeys : checkKeys (default.toEntries.update entries) = .ok () ↔ Known entries := by
    rw [checkKeys_update h, ← foreignNames_eq_nil_iff h.texts]
    split <;> simp [*]
  have htrace : valueOf entries "trace" = chosen entries "trace" (.bool false) :=
    valueOf_eq_chosen h.distinct rfl
  have hecho : valueOf entries "echo" = chosen entries "echo" (.bool true) :=
    valueOf_eq_chosen h.distinct rfl
  constructor
  · rintro ⟨hl, he, hk, ht, ho⟩
    exact ⟨(limitOf_valueOf_iff h.distinct).mp hl, (entryOf_valueOf_iff h.distinct).mp he,
      hkeys.mp hk, htrace ▸ ht.symm, hecho ▸ ho.symm⟩
  · rintro ⟨hl, he, hk, ht, ho⟩
    exact ⟨(limitOf_valueOf_iff h.distinct).mpr hl, (entryOf_valueOf_iff h.distinct).mpr he,
      hkeys.mpr hk, htrace ▸ ht.symm, hecho ▸ ho.symm⟩

/-! What the checks before have passed is not the first defect. -/

section

variable {c : Check} {e : SettingsError} {limit : ℤ} {entry : Option ℤ}

theorem Defect.place_of_limit (h : Defect entries c e)
    (hlimit : (limitValue entries).StandsFor .decimal limit) : 1 ≤ c.place := by
  cases h with
  | limit h =>
    rw [Value.toInt_eq_ok_iff.mpr hlimit] at h
    cases h
  | _ => decide

theorem Defect.place_of_entry (h : Defect entries c e)
    (hlimit : (limitValue entries).StandsFor .decimal limit)
    (hentry : IsEntry (entryValue entries) entry) : 2 ≤ c.place := by
  cases h with
  | limit h => exact absurd (place_of_limit (.limit h) hlimit) (by decide)
  | entry hnull h =>
    have herror := entryOf_eq_error_iff.mpr ⟨hnull, h⟩
    rw [entryOf_eq_ok_iff.mpr hentry] at herror
    cases herror
  | _ => decide

theorem Defect.place_of_nonneg (h : Defect entries c e)
    (hlimit : (limitValue entries).StandsFor .decimal limit) (hnonneg : 0 ≤ limit)
    (hentry : IsEntry (entryValue entries) entry) : 3 ≤ c.place := by
  have hplace := h.place_of_entry hlimit hentry
  cases h with
  | limit h => exact absurd hplace (by decide)
  | entry hnull h => exact absurd hplace (by decide)
  | negative h hneg =>
    obtain rfl := h.unique hlimit
    omega
  | _ => decide

theorem Defect.place_of_word (h : Defect entries c e)
    (hlimit : (limitValue entries).StandsFor .decimal limit) (hnonneg : 0 ≤ limit)
    (hentry : IsEntry (entryValue entries) entry) (hword : ∀ n ∈ entry, IsWord n) :
    4 ≤ c.place := by
  have hplace := h.place_of_nonneg hlimit hnonneg hentry
  cases h with
  | range h hwide =>
    obtain rfl := hentry.unique h
    exact absurd (hword _ rfl) hwide
  | keys h hsome => decide
  | _ => exact absurd hplace (by decide)

theorem Defect.unique {e' : SettingsError} (h : Defect entries c e) (h' : Defect entries c e') :
    e = e' := by
  cases h with
  | limit h =>
    cases h' with
    | limit h' => exact congrArg _ (Except.error.inj (h.symm.trans h'))
  | entry hnull h =>
    cases h' with
    | entry hnull' h' => exact congrArg _ (Except.error.inj (h.symm.trans h'))
  | negative h hneg =>
    cases h' with
    | negative h' hneg' => rfl
  | range h hwide =>
    cases h' with
    | range h' hwide' => exact congrArg _ (Option.some.inj (h.unique h'))
  | keys h hsome =>
    cases h' with
    | keys h' hsome' => rw [h.unique h']

theorem Check.eq_of_place {c c' : Check} (h : c.place = c'.place) : c = c' := by
  cases c <;> cases c' <;> first | rfl | cases h

theorem FirstDefect.unique {e' : SettingsError} (h : FirstDefect entries e)
    (h' : FirstDefect entries e') : e = e' := by
  obtain ⟨c, hdefect, hfirst⟩ := h
  obtain ⟨c', hdefect', hfirst'⟩ := h'
  obtain rfl := Check.eq_of_place (le_antisymm (hfirst c' e' hdefect') (hfirst' c e hdefect))
  exact hdefect.unique hdefect'

theorem Accepted.not_defect {s : Settings} (h : Accepted entries s) : ¬ Defect entries c e := by
  intro hdefect
  have hword : ∀ n ∈ s.entryPoint.map fun w => (w.toNat : ℤ), IsWord n := by
    intro n hn
    obtain ⟨w, -, rfl⟩ := Option.map_eq_some_iff.mp hn
    exact Word.isWord_toNat w
  have hplace := hdefect.place_of_word h.limit (Int.natCast_nonneg _) h.entry hword
  cases hdefect with
  | keys hforeign hsome =>
    obtain ⟨name, hname⟩ := List.exists_mem_of_ne_nil _ hsome
    obtain ⟨⟨v, hmem⟩, hother⟩ := (hforeign.mem_iff name).mp hname
    obtain ⟨key, hkey, heq⟩ := h.known _ hmem
    exact hother key hkey (Scalar.text.inj heq)
  | _ => exact absurd hplace (by decide)

end

theorem Plain.isPlain_chosen (h : Plain entries) (key : String) {v : Value} (hv : v.IsPlain) :
    (chosen entries key v).IsPlain := by
  unfold chosen
  cases hget : entries.get? (.text key) with
  | none => exact hv
  | some v' =>
    obtain ⟨k, hmem, -⟩ := Entries.exists_mem_of_get? hget
    exact h.values _ hmem

theorem Wrong.firstDefect (h : Plain entries) {f : Fault} (hwrong : Wrong entries f) :
    ∃ e, f = .settings e ∧ FirstDefect entries e := by
  have hlimitPlain : (limitValue entries).IsPlain :=
    h.isPlain_chosen _ (Numeral.writable_of_isWord (by decide))
  have hentryPlain : (entryValue entries).IsPlain := h.isPlain_chosen _ trivial
  -- what a check has passed before the one that fails rules out the defects before it
  cases hwrong with
  | @limit e herror =>
    rw [valueOf_limit h.distinct] at herror
    have hfinite : e ≠ .infinite := by
      rintro rfl
      exact hlimitPlain.toInt_ne_infinite herror
    exact ⟨_, if_neg hfinite, .limit, .limit herror, fun _ _ _ => Nat.zero_le _⟩
  | @entry limit e hlimit herror =>
    rw [valueOf_entry h.distinct, entryOf_eq_error_iff] at herror
    have hfinite : e ≠ .infinite := by
      rintro rfl
      exact hentryPlain.toInt_ne_infinite herror.2
    have hlimit := (limitOf_valueOf_iff h.distinct).mp hlimit
    exact ⟨_, if_neg hfinite, .entry, .entry herror.1 herror.2, fun _ _ hother =>
      hother.place_of_limit hlimit⟩
  | negative hlimit hentry hneg =>
    have hlimit := (limitOf_valueOf_iff h.distinct).mp hlimit
    have hentry := (entryOf_valueOf_iff h.distinct).mp hentry
    exact ⟨_, rfl, .negative, .negative hlimit hneg, fun _ _ hother =>
      hother.place_of_entry hlimit hentry⟩
  | @range limit n hlimit hnonneg hentry hwide =>
    have hlimit := (limitOf_valueOf_iff h.distinct).mp hlimit
    have hentry := (entryOf_valueOf_iff h.distinct).mp hentry
    have hwritable := hentryPlain.writable hentry.standsFor
    exact ⟨_, if_pos hwritable, .range, .range hentry hwide, fun _ _ hother =>
      hother.place_of_nonneg hlimit hnonneg hentry⟩
  | keys hlimit hnonneg hentry hword hkeys =>
    have hlimit := (limitOf_valueOf_iff h.distinct).mp hlimit
    have hentry := (entryOf_valueOf_iff h.distinct).mp hentry
    rw [checkKeys_update h] at hkeys
    split at hkeys
    · cases hkeys
    · next hsome =>
      obtain rfl := Except.error.inj hkeys
      exact ⟨_, rfl, .keys, .keys (foreign_foreignNames h.distinct) hsome, fun _ _ hother =>
        hother.place_of_word hlimit hnonneg hentry hword⟩

theorem ofEntries_eq_error_iff_firstDefect (h : Plain entries) {f : Fault} :
    ofEntries entries = .error f ↔ ∃ e, f = .settings e ∧ FirstDefect entries e := by
  constructor
  · exact fun hwrong => (ofEntries_eq_error_iff.mp hwrong).firstDefect h
  · rintro ⟨e, rfl, hfirst⟩
    rcases right_or_wrong entries with ⟨s, hright⟩ | ⟨f, hwrong⟩
    · obtain ⟨c, hdefect, -⟩ := hfirst
      exact absurd hdefect ((right_iff_accepted h).mp hright).not_defect
    · obtain ⟨e', rfl, hfirst'⟩ := hwrong.firstDefect h
      rw [hfirst.unique hfirst']
      exact ofEntries_of_wrong hwrong

theorem exists_accepted_iff : (∃ s, Accepted entries s) ↔
    (∃ limit, (limitValue entries).StandsFor .decimal limit ∧ 0 ≤ limit) ∧
    (∃ entry, IsEntry (entryValue entries) entry ∧ ∀ n ∈ entry, IsWord n) ∧ Known entries := by
  constructor
  · rintro ⟨s, hlimit, hentry, hknown, -, -⟩
    refine ⟨⟨_, hlimit, Int.natCast_nonneg _⟩, ⟨_, hentry, fun n hn => ?_⟩, hknown⟩
    obtain ⟨w, -, rfl⟩ := Option.map_eq_some_iff.mp hn
    exact Word.isWord_toNat w
  · rintro ⟨⟨limit, hlimit, hnonneg⟩, ⟨entry, hentry, hword⟩, hknown⟩
    refine ⟨⟨limit.toNat, entry.map UInt16.ofInt, _, _⟩, ?_, ?_, hknown, rfl, rfl⟩
    · rwa [Int.toNat_of_nonneg hnonneg]
    · cases entry with
      | none => exact hentry
      | some n =>
        rw [Option.map_some, Option.map_some, Word.toNat_ofInt_of_isWord (hword n rfl)]
        exact hentry

/-! Defaults that are written out, and entries in another order. -/

theorem or_get?_of_subset {written all : Entries} (hall : all.Distinct) (hsub : written ⊆ all)
    (key : Scalar) : (written.get? key).or (all.get? key) = all.get? key := by
  cases hget : written.get? key with
  | none => rfl
  | some v =>
    obtain ⟨k, hmem, hsame⟩ := Entries.exists_mem_of_get? hget
    exact ((Entries.get?_eq_some_iff hall).mpr ⟨k, hsub hmem, hsame⟩).symm

theorem ofEntries_congr {entries' : Entries}
    (hvalue : ∀ key, valueOf entries key = valueOf entries' key)
    (hkeys : checkKeys (default.toEntries.update entries) =
      checkKeys (default.toEntries.update entries')) :
    ofEntries entries = ofEntries entries' := by
  unfold valueOf at hvalue
  unfold ofEntries
  simp only [hvalue, hkeys]

theorem plain_default : Plain default.toEntries where
  distinct := by decide
  texts e he := by
    simp only [toEntries, List.mem_cons, List.not_mem_nil, or_false] at he
    rcases he with rfl | rfl | rfl | rfl <;> exact ⟨_, rfl⟩
  values e he := by
    simp only [toEntries, List.mem_cons, List.not_mem_nil, or_false] at he
    rcases he with rfl | rfl | rfl | rfl
    · exact Numeral.writable_of_isWord (by decide)
    all_goals trivial

section

variable {entries' written : Entries}

/-- Entries stay plain if some of the defaults are written out, and in any order. -/
theorem Plain.of_perm (h : Plain entries) (hwritten : written.Sublist default.toEntries)
    (hnew : ∀ e ∈ written, entries.hasKey e.1 = false)
    (hperm : entries'.Perm (entries ++ written)) : Plain entries' := by
  have hmem : ∀ e ∈ entries', e ∈ entries ∨ e ∈ default.toEntries := fun e he =>
    (List.mem_append.mp (hperm.mem_iff.mp he)).imp_right fun h => hwritten.subset h
  constructor
  · have hdistinct := plain_default.distinct.sublist hwritten
    refine Entries.Distinct.perm (List.pairwise_append.mpr ⟨h.distinct, hdistinct, ?_⟩) hperm
    intro e he f hf
    exact Bool.eq_false_iff.mpr (List.any_eq_false.mp (hnew f hf) e he)
  · exact fun e he => (hmem e he).elim (h.texts e) (plain_default.texts e)
  · exact fun e he => (hmem e he).elim (h.values e) (plain_default.values e)

theorem foreignNames_of_perm (h : Plain entries) (hwritten : written.Sublist default.toEntries)
    (hnew : ∀ e ∈ written, entries.hasKey e.1 = false)
    (hperm : entries'.Perm (entries ++ written)) :
    foreignNames entries' = foreignNames entries := by
  have h' := foreign_foreignNames (h.of_perm hwritten hnew hperm).distinct
  refine Foreign.unique ⟨h'.ascending, fun name => ?_⟩ (foreign_foreignNames h.distinct)
  have hknown : Known default.toEntries := by
    unfold Known
    decide
  rw [h'.mem_iff]
  refine and_congr_left fun hother => exists_congr fun v => ?_
  rw [hperm.mem_iff, List.mem_append, or_iff_left]
  intro hmem
  obtain ⟨key, hkey, hname⟩ := hknown _ (hwritten.subset hmem)
  exact hother key hkey (Scalar.text.inj hname)

theorem ofEntries_of_perm (h : Plain entries) (hwritten : written.Sublist default.toEntries)
    (hnew : ∀ e ∈ written, entries.hasKey e.1 = false)
    (hperm : entries'.Perm (entries ++ written)) : ofEntries entries' = ofEntries entries := by
  have h' := h.of_perm hwritten hnew hperm
  have happend : (entries ++ written).Distinct := h'.distinct.perm hperm.symm
  apply ofEntries_congr
  · intro key
    rw [valueOf_eq h'.distinct, valueOf_eq h.distinct, Entries.get?_perm happend hperm,
      Entries.get?_append, Option.or_assoc,
      or_get?_of_subset plain_default.distinct hwritten.subset]
  · rw [checkKeys_update h', checkKeys_update h, foreignNames_of_perm h hwritten hnew hperm]

end

/-- A plain mapping is accepted as the settings that its values stand for, exactly if its limit is
not negative, its entry point a word or null and its keys known; otherwise its first defect is
reported. Its entries may stand in any order, and defaults may be written out among them. -/
theorem accepts_exactly (docs : Documents) (files : Files) (h : Plain entries) :
    (∀ s, ofValue docs files (.map entries) = .ok s ↔ Accepted entries s) ∧
    (∀ f, ofValue docs files (.map entries) = .error f ↔
      ∃ e, f = .settings e ∧ FirstDefect entries e) ∧
    ((∃ s, ofValue docs files (.map entries) = .ok s) ↔
      (∃ limit, (limitValue entries).StandsFor .decimal limit ∧ 0 ≤ limit) ∧
      (∃ entry, IsEntry (entryValue entries) entry ∧ ∀ n ∈ entry, IsWord n) ∧ Known entries) ∧
    ∀ written entries', written.Sublist default.toEntries →
      (∀ e ∈ written, entries.hasKey e.1 = false) → entries'.Perm (entries ++ written) →
      ofValue docs files (.map entries') = ofValue docs files (.map entries) := by
  have hmap (entries : Entries) : ofValue docs files (.map entries) = ofEntries entries := rfl
  simp only [hmap]
  have hok (s : Settings) : ofEntries entries = .ok s ↔ Accepted entries s :=
    ofEntries_eq_ok_iff.trans (right_iff_accepted h)
  refine ⟨hok, fun f => ofEntries_eq_error_iff_firstDefect h, ?_, ?_⟩
  · rw [← exists_accepted_iff]
    exact exists_congr hok
  · exact fun written entries' hwritten hnew hperm => ofEntries_of_perm h hwritten hnew hperm

def looseEntries : Entries := [
  (.text "trace", .int 1),
  (.text "entry_point", .text " 0x0_F "),
  (.text "step_limit", .scalar (.float (.finite false 5629499534213120 (-51))))]

def spoiltEntries : Entries := [
  (.text "b", .null),
  (.text "entry_point", .int 65536),
  (.text "step_limit", .int (-1)),
  (.text "a", .list [])]

theorem plain_looseEntries : Plain looseEntries where
  distinct := by decide
  texts := by
    intro e he
    simp only [looseEntries, List.mem_cons, List.not_mem_nil, or_false] at he
    rcases he with rfl | rfl | rfl <;> exact ⟨_, rfl⟩
  values := by
    intro e he
    simp only [looseEntries, List.mem_cons, List.not_mem_nil, or_false] at he
    rcases he with rfl | rfl | rfl
    · exact Numeral.writable_of_isWord (by decide)
    · have hread : Numeral.read .marked " 0x0_F " = .ok 15 := by decide +kernel
      intro n hn
      obtain rfl := Except.ok.inj (hread.symm.trans hn)
      exact Numeral.writable_of_isWord (by decide)
    · exact ⟨by decide, by decide⟩

theorem plain_spoiltEntries : Plain spoiltEntries where
  distinct := by decide
  texts := by
    intro e he
    simp only [spoiltEntries, List.mem_cons, List.not_mem_nil, or_false] at he
    rcases he with rfl | rfl | rfl | rfl <;> exact ⟨_, rfl⟩
  values := by
    intro e he
    simp only [spoiltEntries, List.mem_cons, List.not_mem_nil, or_false] at he
    rcases he with rfl | rfl | rfl | rfl
    · trivial
    · exact Numeral.writable_of_le (by decide)
    · exact Numeral.writable_of_le (by decide)
    · trivial

/-- Of the defects the negative limit is the first. -/
theorem accepts_exactly_loose_and_spoilt :
    Accepted looseEntries ⟨2, some 15, true, true⟩ ∧
    FirstDefect spoiltEntries .negativeLimit := by
  constructor
  · exact ((accepts_exactly .yaml .empty plain_looseEntries).1 _).mp (by decide +kernel)
  · obtain ⟨e, he, hfirst⟩ := ((accepts_exactly .yaml .empty plain_spoiltEntries).2.1
      (.settings .negativeLimit)).mp rfl
    obtain rfl := Fault.settings.inj he
    exact hfirst

end Settings

end WordMachine
