import Mathlib.Data.String.Basic
import WordMachine.Files

/-!
Where paths lead after a file was written. A file takes the place of one that is there, or of
nothing in a directory that is there, and so it makes no directory. A path that led to a file leads
there still, and if the file was there before every path leads where it led.
-/
namespace WordMachine

namespace Path

variable {name : String}

theorem hasNull_inside (h : Char.ofNat 0 ∉ name.toList) (p : Path) :
    hasNull (p ++ [name]) = p.hasNull := by
  simp [hasNull, h]

def IsName (name : String) : Prop :=
  name ≠ "" ∧ name ≠ "." ∧ '/' ∉ name.toList ∧ Char.ofNat 0 ∉ name.toList

instance (name : String) : Decidable (IsName name) :=
  inferInstanceAs (Decidable (_ ∧ _))

theorem ofText_of_isName (h : IsName name) : ofText name = [name] := by
  obtain ⟨hempty, hdot, hslash, -⟩ := h
  have hnone : ∀ c ∈ name.toList, decide (c = '/') = false :=
    fun c hc => decide_eq_false fun hsame => hslash (hsame ▸ hc)
  unfold ofText
  rw [String.splitToList_of_valid, List.splitOnP_eq_singleton hnone]
  simp [hempty, hdot]

theorem collapse_ofText (h : IsName name) (hup : name ≠ "..") :
    collapse (.ofText name) = some [name] := by
  rw [ofText_of_isName h]
  simp [collapse, hup]

end Path

namespace Files

variable {files : Files} {p q path : Path}

theorem any_contents_iff (files : Files) (p : Path) :
    (files.contents.any fun e => decide (e.1 = p)) = (files.read? p).isSome := by
  unfold read?
  rw [Option.isSome_map, Bool.eq_iff_iff, List.find?_isSome, List.any_eq_true]

theorem put_of_isSome (h : (files.read? p).isSome = true) (bytes : List UInt8) :
    files.put p bytes = ⟨files.contents.map fun e => if e.1 = p then (p, bytes) else e⟩ := by
  unfold put
  rw [any_contents_iff, if_pos h]

theorem put_of_none (h : files.read? p = none) (bytes : List UInt8) :
    files.put p bytes = ⟨files.contents ++ [(p, bytes)]⟩ := by
  unfold put
  rw [any_contents_iff, h]
  rfl

theorem read?_put (files : Files) (p q : Path) (bytes : List UInt8) :
    (files.put p bytes).read? q = if p = q then some bytes else files.read? q := by
  cases hfile : files.read? p with
  | some old =>
    have hsome : (files.read? p).isSome = true := by rw [hfile]; rfl
    rw [put_of_isSome hsome]
    have hkeys : ((fun e : Path × List UInt8 => decide (e.1 = q)) ∘
        fun e => if e.1 = p then (p, bytes) else e) = fun e => decide (e.1 = q) := by
      funext e
      by_cases he : e.1 = p
      · simp [he]
      · simp [he]
    unfold read?
    rw [List.find?_map, hkeys]
    by_cases hpq : p = q
    · subst hpq
      obtain ⟨e, he, -⟩ := Option.map_eq_some_iff.mp hfile
      have hplace : e.1 = p := by simpa using List.find?_some he
      simp [he, hplace]
    · rw [if_neg hpq]
      cases he : files.contents.find? (fun e => decide (e.1 = q)) with
      | none => rfl
      | some e =>
        have hplace : e.1 = q := by simpa using List.find?_some he
        have hother : e.1 ≠ p := fun h => hpq (h.symm.trans hplace)
        simp [hother]
  | none =>
    rw [put_of_none hfile]
    unfold read? at hfile ⊢
    dsimp only
    rw [List.find?_append, Option.map_or]
    by_cases hpq : p = q
    · subst hpq
      rw [hfile]
      simp
    · simp [hpq]

theorem put_put (files : Files) (p : Path) (old new : List UInt8) :
    (files.put p old).put p new = files.put p new := by
  have hthere : ((files.put p old).read? p).isSome = true := by
    rw [read?_put, if_pos rfl]
    rfl
  rw [put_of_isSome hthere]
  cases hfile : files.read? p with
  | some bytes =>
    have hsome : (files.read? p).isSome = true := by rw [hfile]; rfl
    rw [put_of_isSome hsome, put_of_isSome hsome, List.map_map]
    congr 2
    funext e
    by_cases he : e.1 = p
    · simp [he]
    · simp [he]
  | none =>
    have hothers : ∀ e ∈ files.contents, e.1 ≠ p := by
      rw [← Option.not_isSome_iff_eq_none, ← any_contents_iff, List.any_eq_true] at hfile
      exact fun e he hplace => hfile ⟨e, he, decide_eq_true hplace⟩
    have hsame :
        (files.contents.map fun e => if e.1 = p then (p, new) else e) = files.contents := by
      refine (List.map_congr_left fun e he => if_neg (hothers e he)).trans (List.map_id' _)
    rw [put_of_none hfile, put_of_none hfile, List.map_append, hsame]
    simp

theorem isDirectory_iff (files : Files) (p : Path) :
    files.isDirectory p = true ↔ p = [] ∨ ∃ q, (files.read? q).isSome ∧ p <+: q ∧ p ≠ q := by
  have hproper : ∀ q : Path, (p.isPrefixOf q && decide (p.length < q.length)) = true ↔
      p <+: q ∧ p ≠ q := by
    intro q
    rw [Bool.and_eq_true, List.isPrefixOf_iff_prefix, decide_eq_true_iff]
    constructor
    · rintro ⟨hbegins, hlength⟩
      refine ⟨hbegins, ?_⟩
      rintro rfl
      exact Nat.lt_irrefl _ hlength
    · rintro ⟨hbegins, hne⟩
      exact ⟨hbegins, Nat.lt_of_le_of_ne hbegins.length_le
        fun h => hne (hbegins.eq_of_length h)⟩
  unfold isDirectory
  rw [Bool.or_eq_true, List.isEmpty_iff, List.any_eq_true]
  refine or_congr_right ⟨?_, ?_⟩
  · rintro ⟨e, he, hin⟩
    refine ⟨e.1, ?_, (hproper e.1).mp hin⟩
    rw [← any_contents_iff, List.any_eq_true]
    exact ⟨e, he, by simp⟩
  · rintro ⟨q, hq, hin⟩
    rw [← any_contents_iff, List.any_eq_true] at hq
    obtain ⟨e, he, hplace⟩ := hq
    obtain rfl : e.1 = q := by simpa using hplace
    exact ⟨e, he, (hproper e.1).mpr hin⟩

theorem isDirectory_of_prefix (h : files.isDirectory p = true) (hq : q <+: p) :
    files.isDirectory q = true := by
  rw [isDirectory_iff] at h ⊢
  rcases h with rfl | ⟨r, hr, hbegins, hne⟩
  · exact .inl (List.prefix_nil.mp hq)
  · refine .inr ⟨r, hr, hq.trans hbegins, ?_⟩
    rintro rfl
    exact hne (hbegins.eq_of_length (Nat.le_antisymm hbegins.length_le hq.length_le))

/-- A file can stand at a path: one is there, or there is nothing and a directory above. -/
inductive Takes (files : Files) : Path → Prop
  | file {p : Path} (h : (files.read? p).isSome = true) : Takes files p
  | absent {p : Path} {name : String} (hnone : files.read? (p ++ [name]) = none)
      (hfree : files.isDirectory (p ++ [name]) = false) (habove : files.isDirectory p = true) :
      Takes files (p ++ [name])

theorem isDirectory_put (h : files.Takes p) (bytes : List UInt8) (q : Path) :
    (files.put p bytes).isDirectory q = files.isDirectory q := by
  have habove : q <+: p → q ≠ p → files.isDirectory q = true := by
    intro hbegins hne
    cases h with
    | file hp => exact (isDirectory_iff files q).mpr (.inr ⟨p, hp, hbegins, hne⟩)
    | absent hnone hfree hdirectory =>
      rcases List.prefix_concat_iff.mp hbegins with hsame | hin
      · exact absurd (by simpa using hsame) hne
      · exact isDirectory_of_prefix hdirectory hin
  rw [Bool.eq_iff_iff]
  constructor
  · intro hq
    rcases (isDirectory_iff _ q).mp hq with hroot | ⟨r, hr, hbegins, hne⟩
    · exact (isDirectory_iff files q).mpr (.inl hroot)
    · rw [read?_put] at hr
      by_cases hpr : p = r
      · subst hpr
        exact habove hbegins hne
      · rw [if_neg hpr] at hr
        exact (isDirectory_iff files q).mpr (.inr ⟨r, hr, hbegins, hne⟩)
  · intro hq
    rcases (isDirectory_iff files q).mp hq with hroot | ⟨r, hr, hbegins, hne⟩
    · exact (isDirectory_iff _ q).mpr (.inl hroot)
    · refine (isDirectory_iff _ q).mpr (.inr ⟨r, ?_, hbegins, hne⟩)
      rw [read?_put]
      split
      · rfl
      · exact hr

/-- What is known of a place that a path leads to. -/
def Knows (files : Files) : Place → Prop
  | .file p => (files.read? p).isSome = true
  | .directory p => files.isDirectory p = true
  | .absent p => files.Takes p ∧ files.read? p = none
  | _ => True

theorem follow_directory (files : Files) (p : Path) (name : String) :
    files.follow (.directory p) name =
      if name = ".." then if p.isEmpty then .above 1 else .directory p.dropLast
      else if isLongName name then .tooLong
      else if (files.read? (p ++ [name])).isSome then .file (p ++ [name])
      else if files.isDirectory (p ++ [name]) then .directory (p ++ [name])
      else .absent (p ++ [name]) := rfl

theorem knows_follow {place : Place} (h : files.Knows place) (name : String) :
    files.Knows (files.follow place name) := by
  cases place with
  | directory p =>
    rw [follow_directory]
    by_cases hup : name = ".."
    · rw [if_pos hup]
      split
      · trivial
      · exact isDirectory_of_prefix h (List.dropLast_prefix p)
    · rw [if_neg hup]
      split
      · trivial
      · by_cases hfile : (files.read? (p ++ [name])).isSome = true
        · rw [if_pos hfile]
          exact hfile
        · rw [if_neg hfile]
          have hnone : files.read? (p ++ [name]) = none := by simpa using hfile
          by_cases hdirectory : files.isDirectory (p ++ [name]) = true
          · rw [if_pos hdirectory]
            exact hdirectory
          · rw [if_neg hdirectory]
            exact ⟨.absent hnone (by simpa using hdirectory) h, hnone⟩
  | above levels =>
    change files.Knows (if _ then _ else if _ then _ else _)
    split
    · trivial
    · split <;> trivial
  | _ => trivial

theorem knows_locate (files : Files) (path : Path) : files.Knows (files.locate path) := by
  have hfold : ∀ place, files.Knows place → files.Knows (path.foldl files.follow place) := by
    induction path with
    | nil => exact fun place h => h
    | cons name rest ih => exact fun place h => ih _ (knows_follow h name)
  exact hfold (.directory []) ((isDirectory_iff files []).mpr (.inl rfl))

theorem follow_put (h : files.Takes p) (bytes : List UInt8) (place : Place) (name : String) :
    (files.put p bytes).follow place name =
      if files.follow place name = .absent p then .file p else files.follow place name := by
  cases place with
  | directory d =>
    rw [follow_directory, follow_directory]
    by_cases hup : name = ".."
    · by_cases hroot : d.isEmpty = true
      · simp [hup, hroot]
      · simp [hup, hroot]
    · rw [if_neg hup, if_neg hup]
      by_cases hlong : isLongName name = true
      · rw [if_pos hlong, if_pos hlong, if_neg (fun h => nomatch h)]
      · rw [if_neg hlong, if_neg hlong]
        rw [isDirectory_put h, read?_put]
        by_cases hplace : p = d ++ [name]
        · rw [← hplace]
          cases h with
          | file hp => simp [hp]
          | absent hnone hfree habove => simp [hnone, hfree]
        · rw [if_neg hplace]
          by_cases hfile : (files.read? (d ++ [name])).isSome = true
          · simp [hfile]
          · by_cases hdirectory : files.isDirectory (d ++ [name]) = true
            · simp [hfile, hdirectory]
            · simp [hfile, hdirectory, Ne.symm hplace]
  | above levels =>
    have hsame : (files.put p bytes).follow (.above levels) name =
        files.follow (.above levels) name := rfl
    have hother : files.follow (.above levels) name ≠ .absent p := by
      change (if _ then _ else if _ then _ else _) ≠ _
      split
      · exact fun habsent => nomatch habsent
      · split <;> exact fun habsent => nomatch habsent
    rw [hsame, if_neg hother]
  | _ => rfl

theorem foldl_follow_lost (files : Files) (names : List String) :
    names.foldl files.follow .lost = .lost := by
  induction names with
  | nil => rfl
  | cons name rest ih => exact ih

theorem foldl_follow_put (h : files.Takes p) (bytes : List UInt8) {names : List String}
    {place : Place} (hfile : names.foldl files.follow place = .file q) :
    names.foldl (files.put p bytes).follow place = .file q := by
  induction names generalizing place with
  | nil => exact hfile
  | cons name rest ih =>
    rw [List.foldl_cons] at hfile ⊢
    rw [follow_put h]
    split
    · next habsent =>
      -- nothing is found behind what is absent
      rw [habsent] at hfile
      cases rest with
      | nil => cases hfile
      | cons next rest =>
        change rest.foldl files.follow .lost = .file q at hfile
        rw [foldl_follow_lost] at hfile
        cases hfile
    · exact ih hfile

/-- Where all paths lead alike, the same is found. -/
theorem find_congr {files' : Files} (h : files'.locate path = files.locate path) :
    files'.find path = files.find path := by
  unfold find resolve
  rw [h]

theorem locate_of_find (h : files.find path = .ok (.file q)) : files.locate path = .file q := by
  unfold find resolve at h
  split at h
  · cases h
  · dsimp only at h
    split at h
    · cases h
    · cases hplace : files.locate path <;> rw [hplace] at h <;> cases h
      rfl

theorem find_put_of_find_eq_file (htakes : files.Takes p) (bytes : List UInt8)
    (h : files.find path = .ok (.file q)) : (files.put p bytes).find path = .ok (.file q) := by
  have hplace := locate_of_find h
  rw [← h]
  apply find_congr
  rw [hplace]
  exact foldl_follow_put htakes bytes hplace

theorem find_put_of_isSome (h : (files.read? p).isSome = true) (bytes : List UInt8)
    (path : Path) : (files.put p bytes).find path = files.find path := by
  have hfollow : ∀ place, files.Knows place → ∀ name,
      (files.put p bytes).follow place name = files.follow place name := by
    intro place hknows name
    rw [follow_put (.file h), if_neg]
    intro habsent
    have hnone := knows_follow hknows name
    rw [habsent] at hnone
    rw [hnone.2] at h
    cases h
  have hfold : ∀ place, files.Knows place →
      path.foldl (files.put p bytes).follow place = path.foldl files.follow place := by
    induction path with
    | nil => exact fun _ _ => rfl
    | cons name rest ih =>
      intro place hknows
      rw [List.foldl_cons, List.foldl_cons, hfollow place hknows]
      exact ih _ (knows_follow hknows name)
  exact find_congr (hfold (.directory []) ((isDirectory_iff files []).mpr (.inl rfl)))

theorem isSome_read?_of_find (h : files.find path = .ok (.file q)) :
    (files.read? q).isSome = true := by
  have hknows := knows_locate files path
  rw [locate_of_find h] at hknows
  exact hknows

theorem find_of_file (hnull : path.hasNull = false)
    (hplace : files.resolve path = .ok (.file p)) : files.find path = .ok (.file p) := by
  unfold find
  rw [hnull, hplace]
  rfl

theorem find_ofText {name : String} (h : Path.IsName name)
    (hplace : files.resolve [name] = .ok (.file [name])) :
    files.find (.ofText name) = .ok (.file [name]) := by
  rw [Path.ofText_of_isName h]
  exact find_of_file (Path.hasNull_inside h.2.2.2 []) hplace

theorem find_of_absent (hnull : path.hasNull = false)
    (hplace : files.resolve path = .ok (.absent p)) : files.find path = .ok .nothing := by
  unfold find
  rw [hnull, hplace]
  rfl

/-- A file that is created stands where one can, empty, or beyond the tree. -/
theorem create_ok {place : Option Path} {files' : Files}
    (h : files.create path = .ok (place, files')) :
    place = none ∧ files' = files ∨
      ∃ p, place = some p ∧ files.Takes p ∧ files' = files.put p [] := by
  have hknows := knows_locate files path
  unfold create resolve at h
  dsimp only at h
  split at h
  · cases h
  · split at h
    · cases h
    · cases hplace : files.locate path with
      | file p =>
        rw [hplace] at h hknows
        cases h
        exact .inr ⟨p, rfl, .file hknows, rfl⟩
      | absent p =>
        rw [hplace] at h hknows
        cases h
        exact .inr ⟨p, rfl, hknows.1, rfl⟩
      | beyond =>
        rw [hplace] at h
        cases h
        exact .inl ⟨rfl, rfl⟩
      | _ =>
        rw [hplace] at h
        cases h

end Files

end WordMachine
