import WordMachine.Proofs.Entries
import WordMachine.Settings.Source

/-!
Settings as a mapping. However settings are given, there is a mapping behind them, and nothing but
its entries decides what they are. The trace is one entry among them: without it settings are as
right or wrong, and otherwise the same, as with it.
-/
namespace WordMachine

namespace Settings

def traceKey : Scalar :=
  .text "trace"

/-- Settings with the trace off. -/
def untraced (s : Settings) : Settings :=
  { s with trace := false }

theorem foreignKeys_erase (entries : Entries) :
    foreignKeys (entries.erase traceKey) = foreignKeys entries := by
  have hknown : ∀ key : Scalar, key.isSameKey traceKey = true →
      keys.any (fun k => key.isSameKey (.text k)) = true := by
    intro key hkey
    exact List.any_eq_true.mpr ⟨"trace", by decide, hkey⟩
  induction entries with
  | nil => rfl
  | cons e rest ih =>
    obtain ⟨k, v⟩ := e
    unfold foreignKeys at ih ⊢
    cases hkey : k.isSameKey traceKey with
    | true =>
      rw [Entries.erase_cons_of_same hkey, ih, List.map_cons,
        List.filter_cons_of_neg (by simp [hknown k hkey])]
    | false => rw [Entries.erase_cons_of_other hkey, List.map_cons, List.map_cons,
        List.filter_cons, List.filter_cons, ih]

theorem map_untraced_ofEntries {given given' : Entries}
    (h : given.erase traceKey = given'.erase traceKey) :
    (ofEntries given).map untraced = (ofEntries given').map untraced := by
  let entries := default.toEntries.update given
  let entries' := default.toEntries.update given'
  have herase : entries.erase traceKey = entries'.erase traceKey := by
    rw [Entries.erase_update, Entries.erase_update, h]
  have hget : ∀ key : String, Scalar.isSameKey (.text key) traceKey = false →
      entries.get? (.text key) = entries'.get? (.text key) := by
    intro key hkey
    rw [← Entries.get?_erase hkey, herase, Entries.get?_erase hkey]
  have hkeys : checkKeys entries = checkKeys entries' := by
    unfold checkKeys
    rw [← foreignKeys_erase, herase, foreignKeys_erase]
  have hlimit := hget "step_limit" (by decide)
  have hentry := hget "entry_point" (by decide)
  have hecho := hget "echo" (by decide)
  unfold ofEntries
  dsimp only
  rw [hlimit, hentry, hecho, hkeys]
  -- what is left of the mappings is the trace, which stands in the result only
  generalize Except.mapError Fault.ofConversion (limitOf _) = limit
  generalize Except.mapError Fault.ofConversion (entryOf _) = entry
  generalize checkKeys entries' = check
  cases limit with
  | error f => rfl
  | ok limit =>
    cases entry with
    | error f => rfl
    | ok entry =>
      by_cases hnegative : limit < 0
      · simp only [bind, Except.bind, hnegative, if_true]
        rfl
      · simp only [bind, Except.bind, hnegative, if_false]
        cases entry with
        | none => cases check <;> rfl
        | some n =>
          by_cases hword : IsWord n
          · simp only [hword, not_true_eq_false, if_false]
            cases check <;> rfl
          · simp only [hword, not_false_eq_true, if_true]
            rfl

/-- The mapping in a document. Whatever counts as false is an empty one. -/
def mappingOf (path : String) (v : Value) : Except Fault Entries :=
  if !v.isTrue then .ok []
  else match v with
    | .map entries => .ok entries
    | _ => .error (.settings (.notMapping path))

def documentOf (docs : Documents) (files : Files) (path : String) : Except Fault Value :=
  match files.find (.ofText path) with
  | .error e => .error (.file e)
  | .ok (.file p) =>
    match docs.read ((files.read? p).getD []) with
    | .error .malformedDocument => .error (.settings (.unreadable path))
    | .error e => .error e
    | .ok v => .ok v
  | .ok .directory => .error (.settings (.unreadable path))
  | .ok .nothing => .error (.settings (.notFound path))

/-- The mapping that settings are given as. Null is an empty one, and a text is the path of a
document. -/
def given (docs : Documents) (files : Files) : Value → Except Fault Entries
  | .scalar .null => .ok []
  | .map entries => .ok entries
  | .scalar (.text path) =>
    match path.string? with
    | some path => (documentOf docs files path).bind (mappingOf path)
    | none => .error (.settings (.notFound path.shown))
  | _ => .error (.settings .unsupported)

theorem ofDocument_eq (path : String) (v : Value) :
    ofDocument path v = (mappingOf path v).bind ofEntries := by
  unfold ofDocument mappingOf
  split
  · rfl
  · cases v <;> rfl

theorem ofFile_eq (docs : Documents) (files : Files) (path : String) :
    ofFile docs files path =
      ((documentOf docs files path).bind (mappingOf path)).bind ofEntries := by
  unfold ofFile documentOf ofBytes
  rcases files.find (.ofText path) with e | (p | _ | _)
  · rfl
  · dsimp only
    cases docs.read ((files.read? p).getD []) with
    | error f => cases f <;> rfl
    | ok v => exact ofDocument_eq path v
  · rfl
  · rfl

theorem ofValue_eq (docs : Documents) (files : Files) (v : Value) :
    ofValue docs files v = (given docs files v).bind ofEntries := by
  cases v with
  | list items => rfl
  | map entries => rfl
  | scalar s =>
    cases s with
    | text path =>
      unfold ofValue given
      dsimp only
      cases path.string? with
      | some path => exact ofFile_eq docs files path
      | none => rfl
    | _ => rfl

/-- Wherever the mappings come from. -/
theorem map_untraced_ofValue {docs : Documents} {files files' : Files} {v v' : Value}
    (h : (given docs files v).map (Entries.erase traceKey) =
      (given docs files' v').map (Entries.erase traceKey)) :
    (ofValue docs files v).map untraced = (ofValue docs files' v').map untraced := by
  rw [ofValue_eq, ofValue_eq]
  cases hgiven : given docs files v with
  | error f =>
    cases hgiven' : given docs files' v' with
    | error f' =>
      rw [hgiven, hgiven'] at h
      obtain rfl : f = f' := Except.error.inj h
      rfl
    | ok entries' =>
      rw [hgiven, hgiven'] at h
      cases h
  | ok entries =>
    cases hgiven' : given docs files' v' with
    | error f' =>
      rw [hgiven, hgiven'] at h
      cases h
    | ok entries' =>
      rw [hgiven, hgiven'] at h
      exact map_untraced_ofEntries (Except.ok.inj h)

end Settings

end WordMachine
