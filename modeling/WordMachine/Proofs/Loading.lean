import Mathlib.Data.List.TakeWhile
import WordMachine.Image.Loading

/-!
What a successful load leaves behind. The words of an image stand in consecutive cells, every
other cell is as it was, and only the program counter changes besides.
-/
namespace WordMachine

namespace Word

theorem toNat_ofInt (n : Int) : ((UInt16.ofInt n).toNat : Int) = n % 65536 := by
  unfold UInt16.ofInt
  rw [UInt16.toNat_ofNat']
  omega

theorem ofInt_toNat (w : Word) : UInt16.ofInt w.toNat = w := by
  have hw := UInt16.toNat_lt w
  apply UInt16.toNat_inj.mp
  have hcast := toNat_ofInt w.toNat
  omega

theorem map_ofInt_toNat (words : List Word) :
    (words.map fun w => (w.toNat : Int)).map UInt16.ofInt = words := by
  rw [List.map_map]
  exact List.map_id'' ofInt_toNat words

theorem isWord_toNat (w : Word) : IsWord w.toNat := by
  have hw := UInt16.toNat_lt w
  unfold IsWord
  omega

theorem isWord_of_mem_map {words : List Word} {n : Int}
    (h : n ∈ words.map fun w => (w.toNat : Int)) : IsWord n := by
  obtain ⟨w, -, rfl⟩ := List.mem_map.mp h
  exact isWord_toNat w

theorem toNat_ofInt_of_isWord {n : Int} (h : IsWord n) : ((UInt16.ofInt n).toNat : Int) = n := by
  have hcast := toNat_ofInt n
  unfold IsWord at h
  omega

theorem ofNat_ne {i : ℕ} {a : Word} (h : i < a.toNat) : UInt16.ofNat i ≠ a := by
  intro hsame
  have hnat := congrArg UInt16.toNat hsame
  have ha := UInt16.toNat_lt a
  rw [UInt16.toNat_ofNat'] at hnat
  omega

/-- The distance from one address on to another, going on by one. -/
theorem toNat_sub_add_one {a b : Word} (h : b ≠ a) :
    (b - a).toNat = (b - (a + 1)).toNat + 1 := by
  have hne : b.toNat ≠ a.toNat := fun e => h (UInt16.toNat_inj.mp e)
  have ha := UInt16.toNat_lt a
  have hb := UInt16.toNat_lt b
  have hone : (1 : Word).toNat = 1 := rfl
  simp only [UInt16.toNat_sub, UInt16.toNat_add, hone]
  omega

end Word

/-- A cell holds the word that is stored so far from the base, if there is one. -/
theorem Memory.read_fill (m : Memory) (a b : Word) (ws : List Word) (h : ws.length ≤ 65536) :
    (m.fill a ws).read b = (ws[(b - a).toNat]?).getD (m.read b) := by
  induction ws generalizing m a with
  | nil => rfl
  | cons w rest ih =>
    have hrest : rest.length < 65536 := h
    rw [fill, ih (m.write a w) (a + 1) (by omega), read_write]
    by_cases hab : b = a
    · subst hab
      -- the words do not come round to the cell that was written first
      have hlast : (b - (b + 1)).toNat = 65535 := by
        have hb := UInt16.toNat_lt b
        have hone : (1 : Word).toNat = 1 := rfl
        simp only [UInt16.toNat_sub, UInt16.toNat_add, hone]
        omega
      rw [hlast, List.getElem?_eq_none (by omega), UInt16.sub_self]
      simp
    · rw [Word.toNat_sub_add_one hab, List.getElem?_cons_succ, if_neg (Ne.symm hab)]

theorem Machine.load_ok {before m : Machine} {words : List Int} {entry base : Int}
    (h : before.load words entry base = (.ok (), m)) :
    0 ≤ base ∧ base + words.length ≤ 65536 ∧ IsWord entry ∧ (∀ n ∈ words, IsWord n) ∧
    m = { before with
      memory := before.memory.fill (UInt16.ofInt base) (words.map UInt16.ofInt)
      pc := UInt16.ofInt entry } := by
  unfold load at h
  split at h
  · simp at h
  · next hfit =>
    split at h
    · simp at h
    · next hentry =>
      simp only at h
      split at h
      · simp at h
      · next hall =>
        have hlength : (words.takeWhile IsWord).length = words.length := by
          have hle := (List.takeWhile_prefix (fun n => decide (IsWord n)) (l := words)).length_le
          have hge := List.getElem?_eq_none_iff.mp hall
          omega
        have hwords : words.takeWhile IsWord = words :=
          (List.takeWhile_prefix _).eq_of_length hlength
        have hsize : (cellCount : Int) = 65536 := rfl
        rw [hwords] at h
        simp only [Prod.mk.injEq, true_and] at h
        refine ⟨by omega, by omega, by simpa using hentry, ?_, h.symm⟩
        intro n hn
        have hgood := List.takeWhile_eq_self_iff.mp hwords n hn
        simpa using hgood

theorem Machine.exists_load_ok (before : Machine) {words : List Int} {entry base : Int}
    (hbase : 0 ≤ base) (hfit : base + words.length ≤ 65536) (hentry : IsWord entry)
    (hwords : ∀ n ∈ words, IsWord n) : ∃ m, before.load words entry base = (.ok (), m) := by
  have hsize : (cellCount : Int) = 65536 := rfl
  have hall : words.takeWhile IsWord = words := by
    apply List.takeWhile_eq_self_iff.mpr
    simpa using hwords
  unfold load
  rw [if_neg (by omega), if_neg (not_not.mpr hentry), hall]
  dsimp only
  rw [List.getElem?_eq_none (Nat.le_refl _)]
  exact ⟨_, rfl⟩

end WordMachine
