import Mathlib.Data.Nat.Notation
import WordMachine.Document.Value

/-!
Entries that are put over others. A key that is there keeps its place and takes the new value, a new
one comes last, and every other key is left as it is. Where keys are distinct, an entry is found
wherever it stands.
-/
namespace WordMachine

theorem Scalar.isSameKey_iff (s t : Scalar) : s.isSameKey t = true ↔ s.keyForm = t.keyForm := by
  unfold isSameKey
  exact decide_eq_true_iff

/-- Keys that are the same are the same as the same keys. -/
theorem Scalar.isSameKey_congr {s t : Scalar} (h : s.isSameKey t = true) (key : Scalar) :
    s.isSameKey key = t.isSameKey key := by
  unfold isSameKey
  rw [(isSameKey_iff s t).mp h]

theorem Scalar.isSameKey_comm (s t : Scalar) : s.isSameKey t = t.isSameKey s := by
  rw [Bool.eq_iff_iff, isSameKey_iff, isSameKey_iff]
  exact eq_comm

namespace Entries

def hasKey (entries : Entries) (key : Scalar) : Bool :=
  entries.any fun e => e.1.isSameKey key

/-- The entries of all other keys. -/
def erase (key : Scalar) (entries : Entries) : Entries :=
  entries.filter fun e => !e.1.isSameKey key

theorem erase_cons_of_same {key k : Scalar} (h : k.isSameKey key = true) (v : Value)
    (rest : Entries) : erase key ((k, v) :: rest) = erase key rest :=
  List.filter_cons_of_neg (by simp [h])

theorem erase_cons_of_other {key k : Scalar} (h : k.isSameKey key = false) (v : Value)
    (rest : Entries) : erase key ((k, v) :: rest) = (k, v) :: erase key rest :=
  List.filter_cons_of_pos (by simp [h])

theorem erase_put_of_same {key k : Scalar} (h : k.isSameKey key = true) (v : Value)
    (entries : Entries) : erase key (put k v entries) = erase key entries := by
  induction entries with
  | nil => exact erase_cons_of_same h v []
  | cons e rest ih =>
    obtain ⟨k', v'⟩ := e
    rw [put]
    split
    · next hplace =>
      have hkey : k'.isSameKey key = true := (Scalar.isSameKey_congr hplace key).trans h
      rw [erase_cons_of_same hkey, erase_cons_of_same hkey]
    · cases hkey : k'.isSameKey key with
      | true => rw [erase_cons_of_same hkey, erase_cons_of_same hkey, ih]
      | false => rw [erase_cons_of_other hkey, erase_cons_of_other hkey, ih]

theorem erase_put_of_other {key k : Scalar} (h : k.isSameKey key = false) (v : Value)
    (entries : Entries) : erase key (put k v entries) = put k v (erase key entries) := by
  induction entries with
  | nil => exact erase_cons_of_other h v []
  | cons e rest ih =>
    obtain ⟨k', v'⟩ := e
    rw [put]
    split
    · next hplace =>
      have hkey : k'.isSameKey key = false := (Scalar.isSameKey_congr hplace key).trans h
      rw [erase_cons_of_other hkey, erase_cons_of_other hkey, put, if_pos hplace]
    · next hplace =>
      cases hkey : k'.isSameKey key with
      | true => rw [erase_cons_of_same hkey, erase_cons_of_same hkey, ih]
      | false => rw [erase_cons_of_other hkey, erase_cons_of_other hkey, put, if_neg hplace, ih]

/-- Entries without a key are put over entries without it. -/
theorem erase_update (key : Scalar) (old new : Entries) :
    erase key (update old new) = update (erase key old) (erase key new) := by
  induction new generalizing old with
  | nil => rfl
  | cons e rest ih =>
    obtain ⟨k, v⟩ := e
    have hnext : ∀ entries, update entries ((k, v) :: rest) = update (put k v entries) rest :=
      fun _ => rfl
    rw [hnext, ih]
    cases hkey : k.isSameKey key with
    | true => rw [erase_put_of_same hkey, erase_cons_of_same hkey]
    | false =>
      rw [erase_put_of_other hkey, erase_cons_of_other hkey]
      rfl

theorem get?_erase {key k : Scalar} (h : k.isSameKey key = false) (entries : Entries) :
    (erase key entries).get? k = entries.get? k := by
  unfold get? erase
  rw [List.find?_filter]
  congr 2
  funext e
  cases hk : e.1.isSameKey k with
  | false => simp
  | true => simp [(Scalar.isSameKey_congr hk key).trans h]

theorem get?_put (key k : Scalar) (v : Value) (entries : Entries) :
    (put key v entries).get? k = if key.isSameKey k then some v else entries.get? k := by
  induction entries with
  | nil =>
    unfold put get?
    rw [List.find?_cons]
    cases key.isSameKey k <;> rfl
  | cons e rest ih =>
    unfold get? at ih ⊢
    rw [put]
    split
    · next hplace =>
      have hkey := Scalar.isSameKey_congr hplace k
      rw [List.find?_cons, List.find?_cons, ← hkey]
      cases e.1.isSameKey k <;> rfl
    · next hplace =>
      rw [List.find?_cons, List.find?_cons]
      cases hfirst : e.1.isSameKey k with
      | false => exact ih
      | true =>
        have hother : key.isSameKey k = false := by
          refine Bool.eq_false_iff.mpr fun hsame => hplace ?_
          rw [Scalar.isSameKey_iff] at hfirst hsame ⊢
          rw [hfirst, hsame]
        rw [hother]
        rfl

theorem hasKey_eq (entries : Entries) (key : Scalar) :
    entries.hasKey key = (entries.get? key).isSome := by
  unfold hasKey get?
  rw [Option.isSome_map, Bool.eq_iff_iff, List.find?_isSome, List.any_eq_true]

theorem update_cons (old : Entries) (key : Scalar) (v : Value) (rest : Entries) :
    update old ((key, v) :: rest) = update (put key v old) rest := rfl

theorem keys_put (key : Scalar) (v : Value) (entries : Entries) :
    (put key v entries).map Prod.fst =
      entries.map Prod.fst ++ if entries.hasKey key then [] else [key] := by
  induction entries with
  | nil => rfl
  | cons e rest ih =>
    unfold hasKey at ih ⊢
    rw [put, List.any_cons]
    by_cases hsame : e.1.isSameKey key = true
    · simp [hsame]
    · rw [if_neg hsame, List.map_cons, ih, Bool.eq_false_iff.mpr hsame]
      rfl

/-- Keys that are new come behind those that are there. -/
theorem exists_keys_update (old given : Entries) :
    ∃ more : List Scalar, (update old given).map Prod.fst = old.map Prod.fst ++ more ∧
      ∀ key ∈ more, old.hasKey key = false := by
  induction given generalizing old with
  | nil => exact ⟨[], (List.append_nil _).symm, fun _ hkey => nomatch hkey⟩
  | cons e rest ih =>
    obtain ⟨key, v⟩ := e
    obtain ⟨more, hkeys, hmore⟩ := ih (put key v old)
    have hnew : ∀ k ∈ more, old.hasKey k = false := by
      intro k hk
      have habsent := hmore k hk
      rw [hasKey_eq, get?_put] at habsent
      rw [hasKey_eq]
      split at habsent
      · cases habsent
      · exact habsent
    rw [update_cons, hkeys, keys_put, List.append_assoc]
    cases hkey : old.hasKey key with
    | true => exact ⟨more, rfl, hnew⟩
    | false => exact ⟨key :: more, rfl, List.forall_mem_cons.mpr ⟨hkey, hnew⟩⟩

/-- The entries of the keys that are not given. -/
def outside (entries given : Entries) : Entries :=
  entries.filter fun e => !given.hasKey e.1

/-- `new` is `old` with the given entries set. Keys that are there keep their places, new ones come
behind them, and the entries of all other keys are as they were. -/
structure Sets (given old new : Entries) : Prop where
  keys : new.map Prod.fst =
    old.map Prod.fst ++ (given.map Prod.fst).filter fun key => !old.hasKey key
  values : ∀ e ∈ given, new.get? e.1 = some e.2
  others : new.outside given = old.outside given

theorem put_of_get? {key : Scalar} {v : Value} {entries : Entries}
    (h : entries.get? key = some v) : put key v entries = entries := by
  induction entries with
  | nil => cases h
  | cons e rest ih =>
    unfold get? at h ih
    rw [List.find?_cons] at h
    rw [put]
    cases hsame : e.1.isSameKey key with
    | true =>
      rw [hsame] at h
      obtain rfl : e.2 = v := Option.some.inj h
      rfl
    | false =>
      rw [hsame] at h
      rw [ih h]
      rfl

theorem get?_update_of_other {given : Entries} {key : Scalar}
    (h : given.hasKey key = false) (old : Entries) :
    (update old given).get? key = old.get? key := by
  induction given generalizing old with
  | nil => rfl
  | cons g rest ih =>
    obtain ⟨k, v⟩ := g
    obtain ⟨hfirst, hrest⟩ : k.isSameKey key = false ∧ Entries.hasKey rest key = false := by
      simpa [hasKey] using h
    rw [update_cons, ih hrest, get?_put, if_neg (by simp [hfirst])]

theorem update_of_get? {given entries : Entries}
    (h : ∀ e ∈ given, entries.get? e.1 = some e.2) : update entries given = entries := by
  induction given with
  | nil => rfl
  | cons g rest ih =>
    have hfirst := h g List.mem_cons_self
    rw [update_cons, put_of_get? hfirst]
    exact ih fun e he => h e (List.mem_cons_of_mem g he)

theorem outside_cons (key : Scalar) (v : Value) (rest entries : Entries) :
    outside entries ((key, v) :: rest) = outside (erase key entries) rest := by
  unfold outside erase
  rw [List.filter_filter]
  apply List.filter_congr
  intro e _
  have hkeys : hasKey ((key, v) :: rest) e.1 = (key.isSameKey e.1 || hasKey rest e.1) := rfl
  rw [hkeys, Bool.not_or, Scalar.isSameKey_comm, Bool.and_comm]

theorem outside_erase (key : Scalar) (entries given : Entries) :
    outside (erase key entries) given = erase key (outside entries given) := by
  unfold outside erase
  rw [List.filter_filter, List.filter_filter]
  apply List.filter_congr
  intro e _
  exact Bool.and_comm _ _

theorem sets_update {given : Entries}
    (hdistinct : given.Pairwise fun e f => e.1.isSameKey f.1 = false) (old : Entries) :
    Sets given old (update old given) := by
  induction given generalizing old with
  | nil => exact ⟨(List.append_nil _).symm, fun _ he => (List.not_mem_nil he).elim, rfl⟩
  | cons g rest ih =>
    obtain ⟨key, v⟩ := g
    obtain ⟨hfirst, hrest⟩ := List.pairwise_cons.mp hdistinct
    have hset := ih hrest (put key v old)
    rw [update_cons]
    constructor
    · have hkeys : ((rest.map Prod.fst).filter fun k => !(put key v old).hasKey k) =
          (rest.map Prod.fst).filter fun k => !old.hasKey k := by
        apply List.filter_congr
        intro k hk
        obtain ⟨e, he, rfl⟩ := List.mem_map.mp hk
        rw [hasKey_eq, hasKey_eq, get?_put, if_neg (by simp [hfirst e he])]
      rw [hset.keys, hkeys, keys_put, List.map_cons, List.filter_cons, List.append_assoc]
      cases old.hasKey key <;> rfl
    · intro e he
      rcases List.mem_cons.mp he with rfl | he
      · have habsent : Entries.hasKey rest key = false := by
          refine List.any_eq_false.mpr fun e he => ?_
          rw [Scalar.isSameKey_comm]
          exact Bool.eq_false_iff.mp (hfirst e he)
        have hself : key.isSameKey key = true := (Scalar.isSameKey_iff key key).mpr rfl
        rw [get?_update_of_other habsent, get?_put, if_pos hself]
      · exact hset.values e he
    · have hself : key.isSameKey key = true := (Scalar.isSameKey_iff key key).mpr rfl
      rw [outside_cons, outside_cons, outside_erase, hset.others, ← outside_erase,
        erase_put_of_same hself]

def Distinct (entries : Entries) : Prop :=
  entries.Pairwise fun e f => e.1.isSameKey f.1 = false

instance (entries : Entries) : Decidable entries.Distinct :=
  inferInstanceAs (Decidable (List.Pairwise _ _))

theorem Distinct.perm {entries entries' : Entries} (h : entries.Distinct)
    (hperm : entries'.Perm entries) : entries'.Distinct := by
  refine (hperm.pairwise_iff fun {e f} hother => ?_).mpr h
  rw [Scalar.isSameKey_comm]
  exact hother

theorem get?_congr {key key' : Scalar} (h : key.isSameKey key' = true) (entries : Entries) :
    entries.get? key = entries.get? key' := by
  unfold get?
  congr 2
  funext e
  rw [Scalar.isSameKey_comm, Scalar.isSameKey_congr h, Scalar.isSameKey_comm]

theorem exists_mem_of_get? {entries : Entries} {key : Scalar} {v : Value}
    (h : entries.get? key = some v) : ∃ k, (k, v) ∈ entries ∧ k.isSameKey key = true := by
  obtain ⟨⟨k, v⟩, hfind, rfl⟩ := Option.map_eq_some_iff.mp h
  have hsame := List.find?_some hfind
  exact ⟨k, List.mem_of_find?_eq_some hfind, hsame⟩

theorem get?_eq_some_iff {entries : Entries} (h : entries.Distinct) {key : Scalar} {v : Value} :
    entries.get? key = some v ↔ ∃ k, (k, v) ∈ entries ∧ k.isSameKey key = true := by
  refine ⟨exists_mem_of_get?, ?_⟩
  rintro ⟨k, hmem, hsame⟩
  induction entries with
  | nil => cases hmem
  | cons e rest ih =>
    obtain ⟨hfirst, hrest⟩ := List.pairwise_cons.mp h
    unfold get? at ih ⊢
    rw [List.find?_cons]
    rcases List.mem_cons.mp hmem with rfl | hmem
    · rw [hsame]
      rfl
    · have hother : e.1.isSameKey key = false := by
        rw [Scalar.isSameKey_comm, ← Scalar.isSameKey_congr hsame, Scalar.isSameKey_comm]
        exact hfirst _ hmem
      rw [hother]
      exact ih hrest hmem

theorem get?_perm {entries entries' : Entries} (h : entries.Distinct)
    (hperm : entries'.Perm entries) (key : Scalar) : entries'.get? key = entries.get? key := by
  ext v
  rw [get?_eq_some_iff h, get?_eq_some_iff (h.perm hperm)]
  simp only [hperm.mem_iff]

theorem get?_append (entries more : Entries) (key : Scalar) :
    Entries.get? (entries ++ more) key = (entries.get? key).or (more.get? key) := by
  unfold get?
  rw [List.find?_append]
  cases entries.find? fun e => e.1.isSameKey key <;> rfl

/-- A value is the one that is given, and else the one that was there. -/
theorem get?_update {given : Entries} (h : given.Distinct) (old : Entries) (key : Scalar) :
    (update old given).get? key = (given.get? key).or (old.get? key) := by
  cases hget : given.get? key with
  | none =>
    have habsent : given.hasKey key = false := by
      rw [hasKey_eq, hget]
      rfl
    exact get?_update_of_other habsent old
  | some v =>
    obtain ⟨k, hmem, hsame⟩ := (get?_eq_some_iff h).mp hget
    rw [← get?_congr hsame]
    exact (sets_update h old).values _ hmem

end Entries

end WordMachine
