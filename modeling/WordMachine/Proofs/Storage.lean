import WordMachine.Fault
import WordMachine.Proofs.Requests
import WordMachine.Proofs.Loading

/-!
Where a load stores its words, and where it does not. An image that is accepted stands from its base
on. One that is refused for a number that is no word stands there up to that number, and one that is
refused for another reason not at all. The other cells keep what they hold.
-/
namespace WordMachine

/-- Words fit between a base and the end of memory. -/
def Fits (words : List Int) (base : Int) : Prop :=
  0 ≤ base ∧ base + words.length ≤ 65536

/-- The first of the numbers that is no word. -/
structure FirstWrong (words : List Int) (i : ℕ) (n : Int) : Prop where
  at_index : words[i]? = some n
  wrong : ¬ IsWord n
  right_before : ∀ k ∈ words.take i, IsWord k

theorem exists_firstWrong {words : List Int} (h : ¬ ∀ n ∈ words, IsWord n) :
    ∃ i n, FirstWrong words i n := by
  induction words with
  | nil => simp at h
  | cons word rest ih =>
    by_cases hword : IsWord word
    · have hrest : ¬ ∀ n ∈ rest, IsWord n := by
        intro hall
        apply h
        intro n hn
        rcases List.mem_cons.mp hn with rfl | hlater
        · exact hword
        · exact hall n hlater
      obtain ⟨i, n, hat, hwrong, hbefore⟩ := ih hrest
      refine ⟨i + 1, n, hat, hwrong, ?_⟩
      intro k hk
      rcases List.mem_cons.mp hk with rfl | hlater
      · exact hword
      · exact hbefore k hlater
    · refine ⟨0, word, rfl, hword, ?_⟩
      intro k hk
      simp at hk

theorem FirstWrong.lt {words : List Int} {i : ℕ} {n : Int} (h : FirstWrong words i n) :
    i < words.length := by
  obtain ⟨hi, -⟩ := List.getElem?_eq_some_iff.mp h.at_index
  exact hi

theorem FirstWrong.takeWhile_eq {words : List Int} {i : ℕ} {n : Int} (h : FirstWrong words i n) :
    words.takeWhile IsWord = words.take i := by
  obtain ⟨hi, hn⟩ := List.getElem?_eq_some_iff.mp h.at_index
  have hsplit : words = words.take i ++ n :: words.drop (i + 1) := by
    rw [← hn, ← List.drop_eq_getElem_cons hi, List.take_append_drop]
  conv_lhs => rw [hsplit]
  rw [List.takeWhile_append_of_pos (by simpa using h.right_before),
    List.takeWhile_cons_of_neg (by simpa using h.wrong), List.append_nil]

/-- Of the words, the first `count` stand in memory from the base on. -/
structure Memory.Stores (before after : Memory) (words : List Int) (base : Int) (count : ℕ) :
    Prop where
  inside : ∀ a : Word, base ≤ a.toNat → a.toNat < base + count →
    words[(a.toNat - base).toNat]? = some ((after.read a).toNat : Int)
  outside : ∀ a : Word, ¬ (base ≤ a.toNat ∧ a.toNat < base + count) → after.read a = before.read a

section

variable {words : List Int} {base : Int} {count : ℕ}

theorem Word.toNat_sub_ofInt {a : Word} (hbase : 0 ≤ base) (hle : base ≤ a.toNat) :
    (a - UInt16.ofInt base).toNat = (a.toNat - base).toNat := by
  have hcast := toNat_ofInt base
  have ha := UInt16.toNat_lt a
  rw [UInt16.toNat_sub]
  omega

/-- From the base a cell in front of it is further than words that fit reach. -/
theorem Word.le_toNat_sub_ofInt {a : Word} (hlt : a.toNat < base) (hfit : base + count ≤ 65536) :
    count ≤ (a - UInt16.ofInt base).toNat := by
  have hcast := toNat_ofInt base
  have ha := UInt16.toNat_lt a
  rw [UInt16.toNat_sub]
  omega

theorem Memory.stores_fill (m : Memory) (hbase : 0 ≤ base) (hfit : base + count ≤ 65536)
    (hcount : count ≤ words.length) (hwords : ∀ n ∈ words.take count, IsWord n) :
    m.Stores (m.fill (UInt16.ofInt base) ((words.take count).map UInt16.ofInt)) words base
      count := by
  have hlength : ((words.take count).map UInt16.ofInt).length = count := by
    rw [List.length_map, List.length_take]
    omega
  constructor
  · intro a hle hlt
    have hindex : (a.toNat - base).toNat < count := by omega
    have hat : words[(a.toNat - base).toNat]? = some words[(a.toNat - base).toNat] :=
      List.getElem?_eq_getElem (by omega)
    have hword : IsWord words[(a.toNat - base).toNat] := by
      apply hwords
      apply List.mem_of_getElem?
      exact (List.getElem?_take_of_lt hindex).trans hat
    rw [read_fill _ _ _ _ (by omega), Word.toNat_sub_ofInt hbase hle, List.getElem?_map,
      List.getElem?_take_of_lt hindex, hat, Option.map_some, Option.getD_some,
      Word.toNat_ofInt_of_isWord hword]
  · intro a hout
    have hbeyond : count ≤ (a - UInt16.ofInt base).toNat := by
      by_cases hle : base ≤ a.toNat
      · rw [Word.toNat_sub_ofInt hbase hle]
        omega
      · exact Word.le_toNat_sub_ofInt (by omega) hfit
    rw [read_fill _ _ _ _ (by omega), List.getElem?_eq_none (by omega), Option.getD_none]

end

namespace Machine

variable {words : List Int} {entry base : Int}

theorem load_of_not_fits (m : Machine) (h : ¬ Fits words base) :
    m.load words entry base = (.error (.doesNotFit words.length base), m) := by
  have hsize : (cellCount : Int) = 65536 := rfl
  unfold Fits at h
  unfold load
  rw [if_pos (by omega)]

theorem load_of_not_isWord (m : Machine) (hfits : Fits words base) (h : ¬ IsWord entry) :
    m.load words entry base = (.error (.badEntry entry), m) := by
  have hsize : (cellCount : Int) = 65536 := rfl
  unfold Fits at hfits
  unfold load
  rw [if_neg (by omega), if_pos h]

theorem load_of_firstWrong (m : Machine) (hfits : Fits words base) (hentry : IsWord entry) {i : ℕ}
    {n : Int} (h : FirstWrong words i n) :
    m.load words entry base = (.error (.badCell i n), { m with
      memory := m.memory.fill (UInt16.ofInt base) ((words.take i).map UInt16.ofInt) }) := by
  have hsize : (cellCount : Int) = 65536 := rfl
  have hi := h.lt
  unfold Fits at hfits
  have hlength : (words.take i).length = i := by
    rw [List.length_take]
    omega
  unfold load
  rw [if_neg (by omega), if_neg (not_not.mpr hentry), h.takeWhile_eq]
  dsimp only
  rw [hlength, h.at_index]

theorem load_of_words (m : Machine) (hfits : Fits words base) (hentry : IsWord entry)
    (hwords : ∀ n ∈ words, IsWord n) :
    m.load words entry base = (.ok (),
      { m with
        memory := m.memory.fill (UInt16.ofInt base) (words.map UInt16.ofInt)
        pc := UInt16.ofInt entry }) := by
  obtain ⟨later, hload⟩ := m.exists_load_ok hfits.1 hfits.2 hentry hwords
  obtain ⟨-, -, -, -, hlater⟩ := load_ok hload
  rw [hload, hlater]

theorem load_fst_eq_ok_iff (m : Machine) (words : List Int) (entry base : Int) :
    (m.load words entry base).1 = .ok () ↔
      Fits words base ∧ IsWord entry ∧ ∀ n ∈ words, IsWord n := by
  constructor
  · intro hok
    obtain ⟨hbase, hfit, hentry, hwords, -⟩ := load_ok (Prod.ext hok rfl)
    exact ⟨⟨hbase, hfit⟩, hentry, hwords⟩
  · intro ⟨hfits, hentry, hwords⟩
    rw [load_of_words m hfits hentry hwords]

theorem stores_load_of_words (m : Machine) (hfits : Fits words base) (hentry : IsWord entry)
    (hwords : ∀ n ∈ words, IsWord n) :
    m.memory.Stores (m.load words entry base).2.memory words base words.length := by
  have hstores :=
    m.memory.stores_fill hfits.1 hfits.2 (Nat.le_refl _) (by simpa using hwords)
  rw [List.take_length] at hstores
  rw [load_of_words m hfits hentry hwords]
  exact hstores

theorem stores_load_of_firstWrong (m : Machine) (hfits : Fits words base) (hentry : IsWord entry)
    {i : ℕ} {n : Int} (h : FirstWrong words i n) :
    m.memory.Stores (m.load words entry base).2.memory words base i := by
  have hi := h.lt
  have hfit := hfits.2
  rw [load_of_firstWrong m hfits hentry h]
  exact m.memory.stores_fill hfits.1 (by omega) (by omega) h.right_before

theorem read_load_of_outside (m : Machine) (words : List Int) (entry base : Int) {a : Word}
    (h : ¬ (base ≤ a.toNat ∧ a.toNat < base + words.length)) :
    (m.load words entry base).2.memory.read a = m.memory.read a := by
  by_cases hfits : Fits words base
  · by_cases hentry : IsWord entry
    · by_cases hwords : ∀ n ∈ words, IsWord n
      · exact (m.stores_load_of_words hfits hentry hwords).outside a h
      · obtain ⟨i, n, hfirst⟩ := exists_firstWrong hwords
        have hi := hfirst.lt
        exact (m.stores_load_of_firstWrong hfits hentry hfirst).outside a (by omega)
    · rw [load_of_not_isWord m hfits hentry]
  · rw [load_of_not_fits m hfits]

end Machine

namespace Session

variable {s : Session} {words : List Int} {entry base : Int} {m : Machine}

theorem load_of_error {e : ImageError} (h : s.machine.load words entry base = (.error e, m)) :
    s.load words entry base = (.error e, { s with machine := m }) := by
  have hemitted : m.emitted = s.machine.emitted := by
    have hsame := congrArg Machine.emitted (s.machine.load_eq words entry base)
    rwa [h] at hsame
  rw [load_eq]
  unfold Machine.loadRemark?
  rw [h]
  exact congrArg (Prod.mk _) (s.after_nil hemitted)

theorem exists_load_of_words (s : Session) (hfits : Fits words base) (hentry : IsWord entry)
    (hwords : ∀ n ∈ words, IsWord n) :
    ∃ later, s.load words entry base = (.ok (), later) ∧
      later.machine = { s.machine with
        memory := s.machine.memory.fill (UInt16.ofInt base) (words.map UInt16.ofInt)
        pc := UInt16.ofInt entry } := by
  have hload := s.machine.load_of_words hfits hentry hwords
  refine ⟨(s.load words entry base).2, Prod.ext ?_ rfl, ?_⟩
  · rw [load_answer, hload]
  · rw [load_machine, hload]

/-- A load stores its words as far as they are words. It succeeds if they all are, fit from the base
on, and the entry point is an address. Otherwise it is refused for what is wrong first, which is
said if it can be written; the memory has changed then only if the fit and the entry point are
right, and the program counter not at all. -/
theorem load_stores_prefix (s : Session) (words : List Int) (entry base : Int) :
    let r := s.load words entry base
    (r.1 = .ok () ↔ Fits words base ∧ IsWord entry ∧ ∀ n ∈ words, IsWord n) ∧
    (r.1 = .ok () →
      s.machine.memory.Stores r.2.machine.memory words base words.length ∧
        (r.2.machine.pc.toNat : Int) = entry) ∧
    (¬ Fits words base →
      r.1.mapError Fault.ofImage = .error
        (if Numeral.Writable base then .image (.doesNotFit words.length base) else .unwritable) ∧
      r.2 = s) ∧
    (Fits words base → ¬ IsWord entry →
      r.1.mapError Fault.ofImage = .error
        (if Numeral.Writable entry then .image (.badEntry entry) else .unwritable) ∧
      r.2 = s) ∧
    (Fits words base → IsWord entry → ∀ i n, FirstWrong words i n →
      r.1.mapError Fault.ofImage = .error
        (if Numeral.Writable n then .image (.badCell i n) else .unwritable) ∧
      s.machine.memory.Stores r.2.machine.memory words base i ∧
      r.2.machine.pc = s.machine.pc) ∧
    (∀ a : Word, ¬ (base ≤ a.toNat ∧ a.toNat < base + words.length) →
      r.2.machine.memory.read a = s.machine.memory.read a) ∧
    r.2.machine =
      { s.machine with memory := r.2.machine.memory, pc := r.2.machine.pc } ∧
    r.2.stream = s.stream := by
  intro r
  have hmachine : r.2.machine = (s.machine.load words entry base).2 :=
    s.load_machine words entry base
  have haccepted : r.1 = .ok () ↔ Fits words base ∧ IsWord entry ∧ ∀ n ∈ words, IsWord n := by
    rw [← s.machine.load_fst_eq_ok_iff, ← s.load_answer]
  refine ⟨haccepted, ?_, ?_, ?_, ?_, ?_, ?_, s.load_stream words entry base⟩
  · intro hok
    obtain ⟨hfits, hentry, hwords⟩ := haccepted.mp hok
    rw [hmachine]
    refine ⟨s.machine.stores_load_of_words hfits hentry hwords, ?_⟩
    rw [s.machine.load_of_words hfits hentry hwords]
    exact Word.toNat_ofInt_of_isWord hentry
  · intro hfits
    have hload : r = _ := load_of_error (s.machine.load_of_not_fits hfits)
    rw [hload]
    exact ⟨rfl, rfl⟩
  · intro hfits hentry
    have hload : r = _ := load_of_error (s.machine.load_of_not_isWord hfits hentry)
    rw [hload]
    exact ⟨rfl, rfl⟩
  · intro hfits hentry i n hfirst
    have hload : r = _ := load_of_error (s.machine.load_of_firstWrong hfits hentry hfirst)
    refine ⟨?_, ?_, ?_⟩
    · rw [hload]
      rfl
    · rw [hmachine]
      exact s.machine.stores_load_of_firstWrong hfits hentry hfirst
    · rw [hload]
  · intro a ha
    rw [hmachine]
    exact s.machine.read_load_of_outside words entry base ha
  · rw [hmachine]
    exact s.machine.load_eq words entry base

/-- Three numbers reach the last cell. Of these the second is no word, so the first is stored
alone; without it the other two are stored up to that cell. -/
theorem load_stores_prefix_to_last_cell :
    let s := start false false true
    let refused := s.load [0x41, 70000, 0x42] 9 65533
    let accepted := s.load [0x41, 0x42] 65534 65534
    Fits [0x41, 70000, 0x42] 65533 ∧ FirstWrong [0x41, 70000, 0x42] 1 70000 ∧
    refused.1.mapError Fault.ofImage = .error (.image (.badCell 1 70000)) ∧
    refused.2.machine.memory.read 65533 = 0x41 ∧ refused.2.machine.memory.read 65534 = 0 ∧
    refused.2.machine.pc = 0 ∧
    accepted.1 = .ok () ∧ accepted.2.machine.memory.read 65535 = 0x42 ∧
    (accepted.2.machine.pc.toNat : Int) = 65534 := by
  intro s refused accepted
  have hzero : ∀ a, s.machine.memory.read a = 0 := Memory.read_zero
  have hfits : Fits [0x41, 70000, 0x42] 65533 := by
    unfold Fits
    decide
  have hfirst : FirstWrong [0x41, 70000, 0x42] 1 70000 := ⟨rfl, by decide, by decide⟩
  obtain ⟨-, -, -, -, hstops, -, -, -⟩ := s.load_stores_prefix [0x41, 70000, 0x42] 9 65533
  obtain ⟨hreported, hstores, hpc⟩ := hstops hfits (by decide) 1 70000 hfirst
  rw [if_pos (by decide +kernel)] at hreported
  obtain ⟨haccepts, hplaces, -⟩ := s.load_stores_prefix [0x41, 0x42] 65534 65534
  have haccepted : accepted.1 = .ok () := by
    apply haccepts.mpr
    refine ⟨?_, by decide, by decide⟩
    unfold Fits
    decide
  obtain ⟨hboth, hentry⟩ := hplaces haccepted
  refine ⟨hfits, hfirst, hreported, ?_, ?_, hpc, haccepted, ?_, hentry⟩
  · have hcell := hstores.inside 65533 (by decide) (by decide)
    apply UInt16.toNat_inj.mp
    exact_mod_cast (Option.some_inj.mp hcell).symm
  · exact (hstores.outside 65534 (by decide)).trans (hzero _)
  · have hcell := hboth.inside 65535 (by decide) (by decide)
    apply UInt16.toNat_inj.mp
    exact_mod_cast (Option.some_inj.mp hcell).symm

end Session

end WordMachine
