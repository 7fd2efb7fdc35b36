import WordMachine.Document.Writing
import WordMachine.Proofs.Failure
import WordMachine.Proofs.Loading
import WordMachine.Proofs.Mapping
import WordMachine.Proofs.Places
import WordMachine.Proofs.Portions

/-!
How settings are checked. The checks come in a fixed order, and the first that fails decides the
fault, so that a mapping is either right and gives its settings or is wrong in exactly one way.
Faults that are not reported as wrong settings have few causes: an infinite number, an entry point
that is too long to be written, a key that is no text, and, before any check, a path that cannot be
followed or a document that cannot be read.
-/
namespace WordMachine

namespace Numeral

theorem writable_of_le {n : Int} (h : n.natAbs ≤ 65536) : Writable n := by
  have hlong (k : ℕ) (hk : 5 ≤ k) : 65536 < Nat.pow 10 k :=
    Nat.lt_of_lt_of_le (by decide) (Nat.pow_le_pow_right (by decide) hk)
  apply Nat.lt_of_le_of_lt h
  apply hlong
  decide

theorem writable_of_isWord {n : Int} (h : IsWord n) : Writable n := by
  unfold IsWord at h
  exact writable_of_le (by omega)

end Numeral

namespace Documents

/-- The format with a reader that finds no fault but a document that is malformed or no text. -/
def plain (docs : Documents) : Documents where
  read bytes := (docs.read bytes).mapError fun
    | .undecodable e => .undecodable e
    | _ => .malformedDocument
  write := docs.write

theorem plain_read {docs : Documents} {bytes : List UInt8} {v : Value}
    (h : docs.read bytes = .ok v) : docs.plain.read bytes = .ok v := by
  unfold plain
  dsimp only
  rw [h]
  rfl

theorem isOrderly_plain (docs : Documents) : docs.plain.IsOrderly := by
  intro bytes f h
  unfold plain at h
  dsimp only at h
  cases hread : docs.read bytes with
  | ok v =>
    rw [hread] at h
    cases h
  | error e =>
    rw [hread] at h
    obtain rfl := Except.error.inj h
    cases e with
    | undecodable e => exact .inr ⟨e, rfl⟩
    | _ => exact .inl rfl

end Documents

namespace Fault

/-- The faults that are reported as wrong settings. -/
def IsSettings (f : Fault) : Prop :=
  ∃ e, f = .settings e

theorem isSettings_ofConversion_iff (e : ConversionError) :
    (ofConversion e).IsSettings ↔ e ≠ .infinite := by
  unfold ofConversion
  split
  · next h => exact ⟨fun ⟨_, h'⟩ => (nomatch h'), fun h' => absurd h h'⟩
  · next h => exact ⟨fun _ => h, fun _ => ⟨_, rfl⟩⟩

theorem isSettings_ofEntry_iff (n : Int) : (ofEntry n).IsSettings ↔ Numeral.Writable n := by
  unfold ofEntry
  split
  · next h => exact ⟨fun _ => h, fun _ => ⟨_, rfl⟩⟩
  · next h => exact ⟨fun ⟨_, h'⟩ => (nomatch h'), fun h' => absurd h' h⟩

end Fault

namespace Scalar

theorem textOf?_keyForm (key : Scalar) : Settings.textOf? key.keyForm = Settings.textOf? key := by
  cases key with
  | float x =>
    unfold keyForm
    dsimp only
    generalize x.toInt? = n
    cases n <;> rfl
  | _ => rfl

theorem textOf?_congr {s t : Scalar} (h : s.isSameKey t = true) :
    Settings.textOf? s = Settings.textOf? t := by
  rw [← textOf?_keyForm s, ← textOf?_keyForm t, (isSameKey_iff s t).mp h]

end Scalar

namespace Settings

def isNoText (key : Scalar) : Bool :=
  (textOf? key).isNone

def firstNoText (entries : Entries) : Option Scalar :=
  (entries.map (·.1)).find? isNoText

theorem firstNoText_cons (e : Scalar × Value) (rest : Entries) :
    firstNoText (e :: rest) = if isNoText e.1 then some e.1 else firstNoText rest := by
  unfold firstNoText
  rw [List.map_cons, List.find?_cons]
  cases isNoText e.1 <;> rfl

theorem firstNoText_put (key : Scalar) (v : Value) (entries : Entries) :
    firstNoText (entries.put key v) = (firstNoText entries).or (firstNoText [(key, v)]) := by
  induction entries with
  | nil => rfl
  | cons e rest ih =>
    rw [Entries.put]
    split
    · next hsame =>
      have hkey : isNoText e.1 = isNoText key := congrArg Option.isNone (Scalar.textOf?_congr hsame)
      simp only [firstNoText_cons, ← hkey]
      cases isNoText e.1 <;> simp [firstNoText]
    · simp only [firstNoText_cons e, ih]
      cases isNoText e.1 <;> rfl

theorem firstNoText_update (old new : Entries) :
    firstNoText (old.update new) = (firstNoText old).or (firstNoText new) := by
  induction new generalizing old with
  | nil => exact Option.or_none.symm
  | cons e rest ih =>
    have hnext : old.update (e :: rest) = (old.put e.1 e.2).update rest := rfl
    rw [hnext, ih, firstNoText_put, Option.or_assoc, firstNoText_cons e rest, firstNoText_cons]
    cases isNoText e.1 <;> rfl

/-- A key that is no text is no key of settings. -/
theorem find?_foreignKeys (entries : Entries) :
    (foreignKeys entries).find? isNoText = firstNoText entries := by
  unfold foreignKeys firstNoText
  rw [List.find?_filter]
  congr 1
  funext key
  cases hkey : isNoText key with
  | false => simp
  | true =>
    have hforeign : keys.any (fun k => key.isSameKey (.text k)) = false := by
      rw [List.any_eq_false]
      intro k _ hsame
      unfold isNoText at hkey
      rw [Scalar.textOf?_congr hsame] at hkey
      cases hkey
    simp [hforeign]

/-- What settings are under a key, as they are given or else by default. -/
def valueOf (entries : Entries) (key : String) : Value :=
  ((default.toEntries.update entries).get? (.text key)).getD .null

/-- The mapping is right, and these are its settings. -/
structure Right (entries : Entries) (s : Settings) : Prop where
  limit : limitOf (valueOf entries "step_limit") = .ok (s.stepLimit : Int)
  entry : entryOf (valueOf entries "entry_point") = .ok (s.entryPoint.map fun w => (w.toNat : Int))
  keys : checkKeys (default.toEntries.update entries) = .ok ()
  trace : (valueOf entries "trace").isTrue = s.trace
  echo : (valueOf entries "echo").isTrue = s.echo

/-- The ways in which a mapping is wrong, in the order of the checks. Each is met only where the
checks before it are passed. -/
inductive Wrong (entries : Entries) : Fault → Prop
  | limit {e : ConversionError} (h : limitOf (valueOf entries "step_limit") = .error e) :
      Wrong entries (.ofConversion e)
  | entry {limit : Int} {e : ConversionError}
      (hlimit : limitOf (valueOf entries "step_limit") = .ok limit)
      (h : entryOf (valueOf entries "entry_point") = .error e) : Wrong entries (.ofConversion e)
  | negative {limit : Int} {entry : Option Int}
      (hlimit : limitOf (valueOf entries "step_limit") = .ok limit)
      (hentry : entryOf (valueOf entries "entry_point") = .ok entry)
      (h : limit < 0) : Wrong entries (.settings .negativeLimit)
  | range {limit n : Int} (hlimit : limitOf (valueOf entries "step_limit") = .ok limit)
      (hnonneg : 0 ≤ limit) (hentry : entryOf (valueOf entries "entry_point") = .ok (some n))
      (h : ¬ IsWord n) : Wrong entries (.ofEntry n)
  | keys {limit : Int} {entry : Option Int} {f : Fault}
      (hlimit : limitOf (valueOf entries "step_limit") = .ok limit) (hnonneg : 0 ≤ limit)
      (hentry : entryOf (valueOf entries "entry_point") = .ok entry)
      (hword : ∀ n ∈ entry, IsWord n)
      (h : checkKeys (default.toEntries.update entries) = .error f) : Wrong entries f

variable {entries : Entries}

theorem ofEntries_of_right {s : Settings} (h : Right entries s) : ofEntries entries = .ok s := by
  obtain ⟨hlimit, hentry, hkeys, htrace, hecho⟩ := h
  obtain ⟨limit, entry, trace, echo⟩ := s
  unfold valueOf at hlimit hentry htrace hecho
  unfold ofEntries
  dsimp only at *
  rw [hlimit, hentry, hkeys, htrace, hecho]
  have hnonneg : ¬ (limit : Int) < 0 := by omega
  cases entry with
  | none => simp only [Except.mapError, bind, Except.bind, hnonneg, if_false]; rfl
  | some w =>
    have hword := Word.isWord_toNat w
    simp only [Except.mapError, bind, Except.bind, hnonneg, if_false, Option.map_some, hword,
      not_true_eq_false, Word.ofInt_toNat]
    rfl

theorem ofEntries_of_wrong {f : Fault} (h : Wrong entries f) : ofEntries entries = .error f := by
  unfold ofEntries
  dsimp only
  cases h with
  | limit h =>
    unfold valueOf at h
    rw [h]
    rfl
  | entry hlimit h =>
    unfold valueOf at hlimit h
    rw [hlimit, h]
    rfl
  | negative hlimit hentry h =>
    unfold valueOf at hlimit hentry
    rw [hlimit, hentry]
    simp only [Except.mapError, bind, Except.bind, if_pos h]
    rfl
  | range hlimit hnonneg hentry h =>
    unfold valueOf at hlimit hentry
    rw [hlimit, hentry]
    simp only [Except.mapError, bind, Except.bind, Int.not_lt.mpr hnonneg, if_false, if_pos h]
    rfl
  | @keys limit entry f hlimit hnonneg hentry hword h =>
    unfold valueOf at hlimit hentry
    rw [hlimit, hentry, h]
    cases entry with
    | none => simp only [Except.mapError, bind, Except.bind, Int.not_lt.mpr hnonneg, if_false]
    | some n =>
      simp only [Except.mapError, bind, Except.bind, Int.not_lt.mpr hnonneg, if_false,
        hword n rfl, not_true_eq_false]

theorem right_or_wrong (entries : Entries) : (∃ s, Right entries s) ∨ ∃ f, Wrong entries f := by
  cases hlimit : limitOf (valueOf entries "step_limit") with
  | error e => exact .inr ⟨_, .limit hlimit⟩
  | ok limit =>
    cases hentry : entryOf (valueOf entries "entry_point") with
    | error e => exact .inr ⟨_, .entry hlimit hentry⟩
    | ok entry =>
      by_cases hnegative : limit < 0
      · exact .inr ⟨_, .negative hlimit hentry hnegative⟩
      have hnonneg := Int.not_lt.mp hnegative
      by_cases hword : ∀ n ∈ entry, IsWord n
      · cases hkeys : checkKeys (default.toEntries.update entries) with
        | error f => exact .inr ⟨f, .keys hlimit hnonneg hentry hword hkeys⟩
        | ok u =>
          refine .inl ⟨⟨limit.toNat, entry.map UInt16.ofInt, _, _⟩, ?_, ?_, hkeys, rfl, rfl⟩
          · rw [hlimit, Int.toNat_of_nonneg hnonneg]
          · rw [hentry]
            cases entry with
            | none => rfl
            | some n =>
              simp [Word.toNat_ofInt_of_isWord (hword n rfl)]
      · simp only [not_forall] at hword
        obtain ⟨n, hn, hwide⟩ := hword
        obtain rfl : entry = some n := hn
        exact .inr ⟨_, .range hlimit hnonneg hentry hwide⟩

theorem ofEntries_eq_ok_iff {s : Settings} : ofEntries entries = .ok s ↔ Right entries s := by
  refine ⟨fun h => ?_, ofEntries_of_right⟩
  rcases right_or_wrong entries with ⟨s', hright⟩ | ⟨f, hwrong⟩
  · rw [ofEntries_of_right hright] at h
    exact Except.ok.inj h ▸ hright
  · rw [ofEntries_of_wrong hwrong] at h
    cases h

theorem ofEntries_eq_error_iff {f : Fault} : ofEntries entries = .error f ↔ Wrong entries f := by
  refine ⟨fun h => ?_, ofEntries_of_wrong⟩
  rcases right_or_wrong entries with ⟨s, hright⟩ | ⟨f', hwrong⟩
  · rw [ofEntries_of_right hright] at h
    cases h
  · rw [ofEntries_of_wrong hwrong] at h
    exact Except.error.inj h ▸ hwrong

/-- An infinite number is the only value of which it is told that it is infinite. -/
theorem toInt_eq_infinite_iff (radix : Numeral.Radix) (v : Value) :
    v.toInt radix = .error .infinite ↔ ∃ negative, v = .scalar (.float (.infinite negative)) := by
  constructor
  · intro h
    cases v with
    | list items => cases h
    | map entries => cases h
    | scalar s =>
      cases s with
      | float x =>
        cases x with
        | infinite negative => exact ⟨negative, rfl⟩
        | _ => cases h
      | text s =>
        change (Numeral.read radix s).mapError _ = _ at h
        cases hread : Numeral.read radix s with
        | error e =>
          rw [hread] at h
          cases h
        | ok n =>
          rw [hread] at h
          cases h
      | _ => cases h
  · rintro ⟨negative, rfl⟩
    rfl

theorem entryOf_eq_infinite_iff (v : Value) :
    entryOf v = .error .infinite ↔ ∃ negative, v = .scalar (.float (.infinite negative)) := by
  rw [← toInt_eq_infinite_iff .marked]
  unfold entryOf
  split
  · constructor <;> intro h <;> cases h
  · cases v.toInt .marked <;> simp [Except.map]

/-- Of the keys of a mapping only one that is no text is not reported. -/
theorem checkKeys_escape_iff (entries : Entries) (f : Fault) :
    checkKeys entries = .error f ∧ ¬ f.IsSettings ↔
      ∃ key, firstNoText entries = some key ∧ f = .keyNotText key.kindName := by
  have hfind := find?_foreignKeys entries
  unfold isNoText at hfind
  unfold checkKeys
  dsimp only
  rw [hfind]
  cases firstNoText entries with
  | some key =>
    constructor
    · rintro ⟨⟨⟩, -⟩
      exact ⟨key, rfl, rfl⟩
    · rintro ⟨key', hkey, rfl⟩
      obtain rfl : key = key' := Option.some.inj hkey
      exact ⟨rfl, fun ⟨e, he⟩ => nomatch he⟩
  | none =>
    constructor
    · rintro ⟨herror, hother⟩
      dsimp only at herror
      split at herror
      · cases herror
      · obtain rfl := Except.error.inj herror
        exact absurd ⟨_, rfl⟩ hother
    · rintro ⟨key, hkey, -⟩
      cases hkey

/-- The faults of a mapping that are not reported, each with its cause. -/
inductive Escape (entries : Entries) : Fault → Prop
  | limit {negative : Bool}
      (h : valueOf entries "step_limit" = .scalar (.float (.infinite negative))) :
      Escape entries (.conversion .infinite)
  | entry {limit : Int} {negative : Bool}
      (hlimit : limitOf (valueOf entries "step_limit") = .ok limit)
      (h : valueOf entries "entry_point" = .scalar (.float (.infinite negative))) :
      Escape entries (.conversion .infinite)
  | range {limit n : Int} (hlimit : limitOf (valueOf entries "step_limit") = .ok limit)
      (hnonneg : 0 ≤ limit) (hentry : entryOf (valueOf entries "entry_point") = .ok (some n))
      (h : ¬ Numeral.Writable n) : Escape entries .unwritable
  | key {limit : Int} {entry : Option Int} {key : Scalar}
      (hlimit : limitOf (valueOf entries "step_limit") = .ok limit) (hnonneg : 0 ≤ limit)
      (hentry : entryOf (valueOf entries "entry_point") = .ok entry)
      (hword : ∀ n ∈ entry, IsWord n) (h : firstNoText entries = some key) :
      Escape entries (.keyNotText key.kindName)

theorem escape_iff (entries : Entries) (f : Fault) :
    Escape entries f ↔ ofEntries entries = .error f ∧ ¬ f.IsSettings := by
  rw [ofEntries_eq_error_iff]
  have hdefault : firstNoText (default.toEntries.update entries) = firstNoText entries := by
    rw [firstNoText_update]
    rfl
  have hkeys := checkKeys_escape_iff (default.toEntries.update entries)
  rw [hdefault] at hkeys
  have hinfinite : ¬ (Fault.ofConversion .infinite).IsSettings := by
    rw [Fault.isSettings_ofConversion_iff]
    exact fun h => h rfl
  constructor
  · intro h
    cases h with
    | limit h =>
      have herror := (toInt_eq_infinite_iff .decimal _).mpr ⟨_, h⟩
      exact ⟨.limit herror, hinfinite⟩
    | entry hlimit h =>
      have herror := (entryOf_eq_infinite_iff _).mpr ⟨_, h⟩
      exact ⟨.entry hlimit herror, hinfinite⟩
    | @range limit n hlimit hnonneg hentry h =>
      -- what has too many digits to be told is no address
      have hwide : ¬ IsWord n := fun hword => h (Numeral.writable_of_isWord hword)
      have hfault : Fault.ofEntry n = .unwritable := if_neg h
      refine ⟨hfault ▸ .range hlimit hnonneg hentry hwide, ?_⟩
      rw [← hfault, Fault.isSettings_ofEntry_iff]
      exact h
    | key hlimit hnonneg hentry hword h =>
      obtain ⟨hcheck, hother⟩ := (hkeys _).mpr ⟨_, h, rfl⟩
      exact ⟨.keys hlimit hnonneg hentry hword hcheck, hother⟩
  · rintro ⟨hwrong, hother⟩
    cases hwrong with
    | @limit e h =>
      rw [Fault.isSettings_ofConversion_iff, not_not] at hother
      obtain rfl := hother
      obtain ⟨negative, hvalue⟩ := (toInt_eq_infinite_iff .decimal _).mp h
      exact .limit hvalue
    | @entry limit e hlimit h =>
      rw [Fault.isSettings_ofConversion_iff, not_not] at hother
      obtain rfl := hother
      obtain ⟨negative, hvalue⟩ := (entryOf_eq_infinite_iff _).mp h
      exact .entry hlimit hvalue
    | negative hlimit hentry h => exact absurd ⟨_, rfl⟩ hother
    | @range limit n hlimit hnonneg hentry h =>
      rw [Fault.isSettings_ofEntry_iff] at hother
      have hfault : Fault.ofEntry n = .unwritable := if_neg hother
      exact hfault ▸ .range hlimit hnonneg hentry hother
    | keys hlimit hnonneg hentry hword h =>
      obtain ⟨key, hkey, rfl⟩ := (hkeys _).mp ⟨h, hother⟩
      exact .key hlimit hnonneg hentry hword hkey

theorem isSettings_of_mappingOf {path : String} {v : Value} {f : Fault}
    (h : mappingOf path v = .error f) : f.IsSettings := by
  unfold mappingOf at h
  split at h
  · cases h
  · split at h
    · cases h
    · exact ⟨_, (Except.error.inj h).symm⟩

/-- What a document lacks is reported, if its path can be followed and the reader says so. -/
theorem documentOf_escape {docs : Documents} {files : Files} {path : String} {f : Fault}
    (h : documentOf docs files path = .error f) (hother : ¬ f.IsSettings) :
    (∃ e, files.find (.ofText path) = .error e ∧ f = .file e) ∨
      ∃ p, files.find (.ofText path) = .ok (.file p) ∧
        docs.read ((files.read? p).getD []) = .error f ∧ f ≠ .malformedDocument := by
  unfold documentOf at h
  split at h
  · next e hfind => exact .inl ⟨e, hfind, (Except.error.inj h).symm⟩
  · next p hfind =>
    split at h
    · exact absurd ⟨_, (Except.error.inj h).symm⟩ hother
    · next e hwell hread =>
      obtain rfl := Except.error.inj h
      exact .inr ⟨p, hfind, hread, hwell⟩
    · cases h
  · exact absurd ⟨_, (Except.error.inj h).symm⟩ hother
  · exact absurd ⟨_, (Except.error.inj h).symm⟩ hother

theorem documentOf_of_read {docs : Documents} {files : Files} {path : String} {p : Path} {v : Value}
    (hfind : files.find (.ofText path) = .ok (.file p))
    (hread : docs.read ((files.read? p).getD []) = .ok v) :
    documentOf docs files path = .ok v := by
  unfold documentOf
  rw [hfind]
  dsimp only
  rw [hread]

theorem given_text {text : Text} {path : String} (h : text.string? = some path)
    (docs : Documents) (files : Files) : given docs files (.scalar (.text text)) =
      (documentOf docs files path).bind (mappingOf path) := by
  unfold given
  dsimp only
  rw [h]

/-- The faults of settings that are not reported, wherever the settings come from. -/
inductive Escapes (docs : Documents) (files : Files) : Value → Fault → Prop
  | path {text : Text} {path : String} {e : FileError} (hpath : text.string? = some path)
      (h : files.find (.ofText path) = .error e) :
      Escapes docs files (.scalar (.text text)) (.file e)
  | document {text : Text} {path : String} {p : Path} {f : Fault}
      (hpath : text.string? = some path) (hfile : files.find (.ofText path) = .ok (.file p))
      (h : docs.read ((files.read? p).getD []) = .error f)
      (hwell : f ≠ .malformedDocument) (hother : ¬ f.IsSettings) :
      Escapes docs files (.scalar (.text text)) f
  | mapping {v : Value} {entries : Entries} {f : Fault} (hgiven : given docs files v = .ok entries)
      (h : Escape entries f) : Escapes docs files v f

/-- Where there is no mapping, either its path or its document is the cause or the fault is
reported. -/
theorem escapes_of_given {docs : Documents} {files : Files} {v : Value} {f : Fault}
    (h : given docs files v = .error f) (hother : ¬ f.IsSettings) : Escapes docs files v f := by
  have hreported : ∀ e, Except.error (.settings e) ≠ (Except.error f : Except Fault Entries) :=
    fun e he => hother ⟨e, (Except.error.inj he).symm⟩
  cases v with
  | list items => exact absurd h (hreported _)
  | map entries => cases h
  | scalar s =>
    cases s with
    | null => cases h
    | text text =>
      cases hpath : text.string? with
      | none =>
        unfold given at h
        dsimp only at h
        rw [hpath] at h
        exact absurd h (hreported _)
      | some path =>
        rw [given_text hpath] at h
        rcases error_of_bind h with hdocument | ⟨v, -, hmapping⟩
        · rcases documentOf_escape hdocument hother with ⟨e, hfind, rfl⟩ | ⟨p, hfile, hread, hwell⟩
          · exact .path hpath hfind
          · exact .document hpath hfile hread hwell hother
        · exact absurd (isSettings_of_mappingOf hmapping) hother
    | _ => exact absurd h (hreported _)

theorem ofValue_of_escapes {docs : Documents} {files : Files} {v : Value} {f : Fault}
    (h : Escapes docs files v f) : ofValue docs files v = .error f ∧ ¬ f.IsSettings := by
  rw [ofValue_eq]
  cases h with
  | @path text path e hpath h =>
    rw [given_text hpath]
    unfold documentOf
    rw [h]
    exact ⟨rfl, fun ⟨_, h'⟩ => nomatch h'⟩
  | @document text path p f hpath hfile h hwell hother =>
    refine ⟨?_, hother⟩
    rw [given_text hpath]
    unfold documentOf
    rw [hfile]
    dsimp only
    rw [h]
    cases f <;> first | rfl | exact absurd rfl hwell
  | @mapping v entries f hgiven h =>
    rw [hgiven]
    exact (escape_iff entries f).mp h

/-- The kinds of these faults, if reading a document gives a value or finds no document or no
text. -/
inductive Passes : Fault → Prop
  | path (e : FileError) : Passes (.file e)
  | document (e : Text.Utf8.Error) : Passes (.undecodable e)
  | infinite : Passes (.conversion .infinite)
  | range : Passes .unwritable
  | key (kindName : String) : Passes (.keyNotText kindName)

theorem passes_of_escapes {docs : Documents} {files : Files} {v : Value} {f : Fault}
    (hdocs : docs.IsOrderly) (h : Escapes docs files v f) : Passes f := by
  cases h with
  | path hpath h => exact .path _
  | document hpath hfile h hwell hother =>
    rcases hdocs _ _ h with rfl | ⟨e, rfl⟩
    · exact absurd rfl hwell
    · exact .document e
  | mapping hgiven h =>
    cases h with
    | limit h => exact .infinite
    | entry hlimit h => exact .infinite
    | range hlimit hnonneg hentry h => exact .range
    | key hlimit hnonneg hentry hword h => exact .key _

/-- Settings are found or reported as wrong, unless one of the causes is there, each with the fault
that passes through then. Whatever the reader of documents is, nothing else passes through than what
the path, the bytes of the file, an infinite number, an entry point of too many digits or a key that
is no text is at fault for, if the reader has no faults of its own. -/
theorem reported_iff_no_escape (docs : Documents) (files : Files) (v : Value) :
    (∀ f, Escapes docs files v f ↔ ofValue docs files v = .error f ∧ ¬ f.IsSettings) ∧
    (((∃ s, ofValue docs files v = .ok s) ∨ ∃ e, ofValue docs files v = .error (.settings e)) ↔
      ¬ ∃ f, Escapes docs files v f) ∧
    (docs.IsOrderly → ∀ f, Escapes docs files v f → Passes f) := by
  have hescapes (f : Fault) :
      Escapes docs files v f ↔ ofValue docs files v = .error f ∧ ¬ f.IsSettings := by
    refine ⟨ofValue_of_escapes, ?_⟩
    rintro ⟨herror, hother⟩
    rw [ofValue_eq] at herror
    rcases error_of_bind herror with hgiven | ⟨entries, hgiven, hentries⟩
    · exact escapes_of_given hgiven hother
    · exact .mapping hgiven ((escape_iff entries f).mpr ⟨hentries, hother⟩)
  refine ⟨hescapes, ?_, fun hdocs f => passes_of_escapes hdocs⟩
  simp only [hescapes]
  constructor
  · rintro (⟨s, hs⟩ | ⟨e, he⟩) ⟨f, hf, hother⟩
    · rw [hs] at hf
      cases hf
    · rw [he] at hf
      exact hother ⟨e, (Except.error.inj hf).symm⟩
  · intro hnone
    cases hvalue : ofValue docs files v with
    | ok s => exact .inl ⟨s, rfl⟩
    | error f =>
      by_cases hsettings : f.IsSettings
      · obtain ⟨e, rfl⟩ := hsettings
        exact .inr ⟨e, rfl⟩
      · exact absurd ⟨f, hvalue, hsettings⟩ hnone

def endlessFiles : Files :=
  ⟨[(["vm.yaml"], Text.Utf8.encode "step_limit: .inf\n")]⟩

theorem escapes_endlessFiles :
    Escapes Documents.yaml.plain endlessFiles (.text "vm.yaml") (.conversion .infinite) := by
  have hpath : Text.string? "vm.yaml" = some "vm.yaml" := rfl
  have hfind : endlessFiles.find (.ofText "vm.yaml") = .ok (.file ["vm.yaml"]) :=
    Files.find_ofText (by decide) rfl
  have hread : Document.ofBytes ((endlessFiles.read? ["vm.yaml"]).getD []) =
      .ok (.map [(.text "step_limit", .scalar (.float (.infinite false)))]) :=
    (Document.ofBytes_encode String.toList_ofList (by decide +kernel)).trans (by decide +kernel)
  have hgiven : given Documents.yaml.plain endlessFiles (.text "vm.yaml") =
      .ok [(.text "step_limit", .scalar (.float (.infinite false)))] := by
    rw [Value.text, given_text hpath, documentOf_of_read hfind (Documents.plain_read hread)]
    rfl
  exact .mapping hgiven (.limit rfl)

/-- It is neither found nor reported. -/
theorem infinite_limit_passes_through :
    Documents.yaml.plain.IsOrderly ∧
    ofValue Documents.yaml.plain endlessFiles (.text "vm.yaml") = .error (.conversion .infinite) ∧
    ¬ ((∃ s, ofValue Documents.yaml.plain endlessFiles (.text "vm.yaml") = .ok s) ∨
      ∃ e, ofValue Documents.yaml.plain endlessFiles (.text "vm.yaml") = .error (.settings e)) := by
  have hfault := (ofValue_of_escapes escapes_endlessFiles).1
  refine ⟨Documents.isOrderly_plain _, hfault, ?_⟩
  rw [hfault]
  rintro (⟨s, hs⟩ | ⟨e, he⟩)
  · cases hs
  · cases he

theorem reported_iff_no_escape_endlessFiles :
    Documents.yaml.plain.IsOrderly ∧
    Escapes Documents.yaml.plain endlessFiles (.text "vm.yaml") (.conversion .infinite) ∧
    Passes (.conversion .infinite) := by
  have horderly := Documents.isOrderly_plain Documents.yaml
  obtain ⟨-, -, hpasses⟩ :=
    reported_iff_no_escape Documents.yaml.plain endlessFiles (.text "vm.yaml")
  exact ⟨horderly, escapes_endlessFiles, hpasses horderly _ escapes_endlessFiles⟩

end Settings

end WordMachine
