import WordMachine.Proofs.Validation
import WordMachine.Run

/-!
Settings in normal form. A mapping that is accepted becomes one with the four keys of settings and
nothing else, a value of its kind under each. Such a mapping is accepted as it is, so that nothing
depends on how often settings are normalised, and it stays one if its entry point is replaced by an
address or its trace is switched on.
-/
namespace WordMachine

namespace Settings

/-- The settings that a value gives, as a mapping again. -/
def normalise (docs : Documents) (files : Files) (v : Value) : Except Fault Entries :=
  (ofValue docs files v).map toEntries

/-- A mapping with the keys of settings in their order: a limit that is not negative, an address or
null for the entry point, and two truth values. -/
structure Normal (c : Entries) : Prop where
  keys : c.map Prod.fst = keys.map fun key => .text key
  limit : ∃ n : Int, c.get? (.text "step_limit") = some (.int n) ∧ 0 ≤ n
  entry : c.get? (.text "entry_point") = some .null ∨
    ∃ n : Int, c.get? (.text "entry_point") = some (.int n) ∧ IsWord n
  trace : ∃ b, c.get? (.text "trace") = some (.bool b)
  echo : ∃ b, c.get? (.text "echo") = some (.bool b)

theorem exists_values {c : Entries} (hkeys : c.map Prod.fst = keys.map fun key => .text key) :
    ∃ limit entry trace echo, c = [
      (.text "step_limit", limit), (.text "entry_point", entry),
      (.text "trace", trace), (.text "echo", echo)] := by
  simp only [keys, List.map_cons, List.map_nil, List.map_eq_cons_iff, List.map_eq_nil_iff] at hkeys
  obtain ⟨⟨_, limit⟩, _, rfl, rfl, ⟨_, entry⟩, _, rfl, rfl, ⟨_, trace⟩, _, rfl, rfl,
    ⟨_, echo⟩, _, rfl, rfl, rfl⟩ := hkeys
  exact ⟨limit, entry, trace, echo, rfl⟩

theorem normal_toEntries (s : Settings) : Normal s.toEntries where
  keys := rfl
  limit := ⟨s.stepLimit, rfl, Int.natCast_nonneg _⟩
  entry := by
    obtain ⟨limit, entry, trace, echo⟩ := s
    cases entry with
    | none => exact .inl rfl
    | some w => exact .inr ⟨w.toNat, rfl, Word.isWord_toNat w⟩
  trace := ⟨s.trace, rfl⟩
  echo := ⟨s.echo, rfl⟩

theorem Normal.exists_toEntries {c : Entries} (h : Normal c) : ∃ s : Settings, s.toEntries = c := by
  obtain ⟨hkeys, ⟨limit, hlimit, hnonneg⟩, hentry, ⟨trace, htrace⟩, ⟨echo, hecho⟩⟩ := h
  obtain ⟨_, entry, _, _, rfl⟩ := exists_values hkeys
  obtain rfl := Option.some.inj hlimit
  obtain rfl := Option.some.inj htrace
  obtain rfl := Option.some.inj hecho
  have hcast : ((limit.toNat : ℕ) : Int) = limit := Int.toNat_of_nonneg hnonneg
  rcases hentry with hnull | ⟨n, hn, hword⟩
  · obtain rfl : entry = .null := Option.some.inj hnull
    refine ⟨⟨limit.toNat, none, trace, echo⟩, ?_⟩
    unfold toEntries
    rw [hcast]
    rfl
  · obtain rfl : entry = .int n := Option.some.inj hn
    refine ⟨⟨limit.toNat, some (UInt16.ofInt n), trace, echo⟩, ?_⟩
    unfold toEntries
    rw [hcast, Option.map_some, Word.toNat_ofInt_of_isWord hword]
    rfl

theorem toEntries_put_entry (s : Settings) {n : Int} (h : IsWord n) :
    s.toEntries.put (.text "entry_point") (.int n) =
      { s with entryPoint := some (UInt16.ofInt n) }.toEntries := by
  unfold toEntries
  rw [Option.map_some, Word.toNat_ofInt_of_isWord h]
  rfl

theorem toEntries_put_trace (s : Settings) (b : Bool) :
    s.toEntries.put (.text "trace") (.bool b) = { s with trace := b }.toEntries := rfl

theorem right_toEntries (s : Settings) : Right s.toEntries s where
  limit := rfl
  entry := by
    obtain ⟨limit, entry, trace, echo⟩ := s
    cases entry <;> rfl
  keys := rfl
  trace := rfl
  echo := rfl

theorem normalise_toEntries (docs : Documents) (files : Files) (s : Settings) :
    normalise docs files (.map s.toEntries) = .ok s.toEntries :=
  congrArg (Except.map toEntries) (ofEntries_of_right s.right_toEntries)

theorem normalise_of_normal {c : Entries} (h : Normal c) (docs : Documents) (files : Files) :
    normalise docs files (.map c) = .ok c := by
  obtain ⟨s, rfl⟩ := h.exists_toEntries
  exact normalise_toEntries docs files s

namespace Normal

variable {c : Entries}

theorem put_entry (h : Normal c) {n : Int} (hword : IsWord n) :
    Normal (c.put (.text "entry_point") (.int n)) := by
  obtain ⟨s, rfl⟩ := h.exists_toEntries
  rw [toEntries_put_entry s hword]
  exact normal_toEntries _

theorem put_trace (h : Normal c) (b : Bool) : Normal (c.put (.text "trace") (.bool b)) := by
  obtain ⟨s, rfl⟩ := h.exists_toEntries
  rw [toEntries_put_trace]
  exact normal_toEntries _

end Normal

theorem foreignKeys_of_checkKeys {entries : Entries} (h : checkKeys entries = .ok ()) :
    foreignKeys entries = [] := by
  unfold checkKeys at h
  dsimp only at h
  split at h
  · cases h
  · split at h
    · next hempty => exact List.isEmpty_iff.mp hempty
    · cases h

theorem keys_of_right {entries : Entries} {s : Settings} (h : Right entries s) :
    (default.toEntries.update entries).map Prod.fst = keys.map fun key => .text key := by
  obtain ⟨more, hkeys, hmore⟩ := Entries.exists_keys_update default.toEntries entries
  cases more with
  | nil => exact hkeys.trans (List.append_nil _)
  | cons key rest =>
    have hforeign : key ∈ foreignKeys (default.toEntries.update entries) := by
      unfold foreignKeys
      rw [hkeys]
      refine List.mem_filter.mpr ⟨List.mem_append_right _ List.mem_cons_self, ?_⟩
      have habsent : keys.any (fun k => Scalar.isSameKey (.text k) key) = false :=
        hmore key List.mem_cons_self
      simpa only [Scalar.isSameKey_comm key, Bool.not_eq_true'] using habsent
    rw [foreignKeys_of_checkKeys h.keys] at hforeign
    cases hforeign

/-- Once the values of settings are put into the mapping that they come from, it is theirs. -/
theorem update_toEntries_of_right {entries : Entries} {s : Settings} (h : Right entries s) :
    (default.toEntries.update entries).update s.toEntries = s.toEntries := by
  obtain ⟨limit, entry, trace, echo, hvalues⟩ := exists_values (keys_of_right h)
  rw [hvalues]
  rfl

end Settings

namespace Run

theorem image_congr {docs : Documents} {h : Host} {v v' : Value}
    (hsettings : Settings.ofValue docs h.files v = Settings.ofValue docs h.files v')
    (words : List Int) (entry : Int) (streaming : Bool) (artifacts : Option String) :
    image docs h words entry v streaming artifacts =
      image docs h words entry v' streaming artifacts := by
  unfold image
  rw [hsettings]

end Run

namespace Settings

/-- Normalising is done once and for all. A mapping that comes out of it is in normal form, being
the given entries over the defaults with the converted values put in place, and it is what comes out
of it again. A run cannot tell it from what it came out of. With any address for its entry point and
the trace on it still is what comes out of it. -/
theorem normalise_idempotent {docs : Documents} {files : Files} {v : Value} {c : Entries}
    (h : normalise docs files v = .ok c) :
    Normal c ∧
    (∃ entries, given docs files v = .ok entries ∧
      (default.toEntries.update entries).update c = c) ∧
    (∀ files', normalise docs files' (.map c) = .ok c) ∧
    (∀ (host : Host) (words : List Int) (entry : Int) (streaming : Bool)
      (artifacts : Option String), host.files = files →
      Run.image docs host words entry (.map c) streaming artifacts =
        Run.image docs host words entry v streaming artifacts) ∧
    ∀ (n : Int) (files' : Files), IsWord n →
      let patched := (c.put (.text "entry_point") (.int n)).put (.text "trace") (.bool true)
      normalise docs files' (.map patched) = .ok patched := by
  obtain ⟨s, hs, rfl⟩ := exists_of_map_eq_ok h
  have hnormal := normal_toEntries s
  obtain ⟨entries, hgiven, hentries⟩ : ∃ entries, given docs files v = .ok entries ∧
      ofEntries entries = .ok s := by
    rw [ofValue_eq] at hs
    exact exists_of_bind_eq_ok hs
  refine ⟨hnormal, ⟨entries, hgiven, ?_⟩, ?_, ?_, ?_⟩
  · exact update_toEntries_of_right (ofEntries_eq_ok_iff.mp hentries)
  · exact normalise_of_normal hnormal docs
  · rintro host words entry streaming artifacts rfl
    apply Run.image_congr
    rw [hs]
    exact ofEntries_of_right s.right_toEntries
  · intro n files' hword
    exact normalise_of_normal ((hnormal.put_entry hword).put_trace true) docs files'

def looseSettings : Value :=
  .map [(.text "trace", .int 1), (.text "entry_point", .text " 0x0_F"),
    (.text "step_limit", .scalar (.float (.finite false 5 (-1))))]

def tidySettings : Entries := [
  (.text "step_limit", .int 2), (.text "entry_point", .int 15),
  (.text "trace", .bool true), (.text "echo", .bool true)]

/-- The second time nothing is left to be normalised, and another entry point is put in place. -/
theorem normalise_idempotent_loose :
    normalise .yaml .empty looseSettings = .ok tidySettings ∧
    normalise .yaml .empty (.map tidySettings) = .ok tidySettings ∧
    Run.image .yaml (.ofFiles .empty) [0x0005] 0 (.map tidySettings) true none =
      Run.image .yaml (.ofFiles .empty) [0x0005] 0 looseSettings true none ∧
    IsWord 35 ∧
    let patched : Entries := [
      (.text "step_limit", .int 2), (.text "entry_point", .int 35),
      (.text "trace", .bool true), (.text "echo", .bool true)]
    normalise .yaml .empty (.map patched) = .ok patched := by
  have hloose : normalise .yaml .empty looseSettings = .ok tidySettings := by decide +kernel
  have hword : IsWord 35 := by decide
  obtain ⟨-, -, hagain, hrun, hpatched⟩ := normalise_idempotent hloose
  exact ⟨hloose, hagain _, hrun _ _ _ _ _ rfl, hword, hpatched 35 .empty hword⟩

end Settings

end WordMachine
