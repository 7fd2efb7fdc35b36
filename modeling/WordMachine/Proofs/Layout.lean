import WordMachine.Image.Binary
import WordMachine.Proofs.Slices
import WordMachine.Proofs.Storage

/-!
Images as bytes and bytes in memory. Both have the low byte of a word first, so the bytes of a
binary image stand in memory as they are, from twice the base on, and nothing else is touched.
-/
namespace WordMachine

namespace Image

theorem toBytes_eq (words : List Int) :
    toBytes words = words.flatMap fun n => [UInt8.ofInt n, UInt8.ofInt (n / 256)] := by
  unfold toBytes
  simp only [Word.low_ofInt, Word.high_ofInt]

theorem toBytes_cons (n : Int) (words : List Int) :
    toBytes (n :: words) = UInt8.ofInt n :: UInt8.ofInt (n / 256) :: toBytes words := by
  rw [toBytes_eq, toBytes_eq, List.flatMap_cons]
  rfl

theorem length_toBytes (words : List Int) : (toBytes words).length = 2 * words.length := by
  unfold toBytes
  rw [List.length_flatMap]
  simp [Nat.mul_comm]

theorem pairs_toBytes (words : List Int) : pairs (toBytes words) = words.map UInt16.ofInt := by
  induction words with
  | nil => rfl
  | cons n words ih =>
    rw [toBytes_cons, pairs, ih, ← Word.low_ofInt, ← Word.high_ofInt, Word.ofBytes_low_high,
      List.map_cons]

theorem ofBytes_toBytes_eq_map (words : List Int) :
    ofBytes (toBytes words) = .ok (words.map UInt16.ofInt) := by
  unfold ofBytes
  rw [length_toBytes, if_neg (by omega), pairs_toBytes]

theorem ofBytes_toBytes (words : List Word) :
    ofBytes (toBytes (words.map fun w => (w.toNat : Int))) = .ok words := by
  rw [ofBytes_toBytes_eq_map, Word.map_ofInt_toNat]

theorem toBytes_pairs (bytes : List UInt8) (h : bytes.length % 2 = 0) :
    toBytes ((pairs bytes).map fun w => (w.toNat : Int)) = bytes := by
  fun_induction pairs bytes with
  | case1 low high rest ih =>
    have hrest : rest.length % 2 = 0 := by
      simp only [List.length_cons] at h
      omega
    rw [List.map_cons, toBytes_cons, ih hrest, ← Word.low_ofInt, ← Word.high_ofInt,
      Word.ofInt_toNat, Word.low_ofBytes, Word.high_ofBytes]
  | case2 bytes hshort =>
    match bytes, hshort with
    | [], _ => rfl
    | [_], _ => simp at h
    | low :: high :: rest, hshort => exact (hshort low high rest rfl).elim

theorem ofBytes_eq_error_iff (bytes : List UInt8) (e : ImageError) :
    ofBytes bytes = .error e ↔ bytes.length % 2 = 1 ∧ e = .oddLength bytes.length := by
  unfold ofBytes
  by_cases hodd : bytes.length % 2 = 1
  · rw [if_pos hodd, Except.error.injEq]
    exact ⟨fun h => ⟨hodd, h.symm⟩, fun h => h.2.symm⟩
  · rw [if_neg hodd]
    constructor
    · intro hread
      cases hread
    · rintro ⟨hlength, -⟩
      exact absurd hlength hodd

theorem ofBytes_of_even {bytes : List UInt8} (h : bytes.length % 2 = 0) :
    ofBytes bytes = .ok (pairs bytes) := by
  unfold ofBytes
  rw [if_neg (by omega)]

end Image

theorem Memory.bytes_fill (m : Memory) {words : List Int} {base : Int} (h : Fits words base) :
    (m.fill (UInt16.ofInt base) (words.map UInt16.ofInt)).bytes.toList =
      m.bytes.toList.take (2 * base).toNat ++ Image.toBytes words ++
        m.bytes.toList.drop ((2 * base).toNat + (Image.toBytes words).length) := by
  induction words generalizing m base with
  | nil => simp [fill, Image.toBytes]
  | cons n rest ih =>
    obtain ⟨hbase, hfit⟩ := h
    rw [List.length_cons] at hfit
    have hrest : Fits rest (base + 1) := ⟨by omega, by omega⟩
    have hnext : UInt16.ofInt base + 1 = UInt16.ofInt (base + 1) := by
      rw [UInt16.ofInt_add, UInt16.ofInt_one]
    have hplace : 2 * (UInt16.ofInt base).toNat = (2 * base).toNat := by
      have hcast := Word.toNat_ofInt base
      omega
    have hwrite := m.bytes_write (UInt16.ofInt base) (UInt16.ofInt n)
    rw [hplace, Word.low_ofInt, Word.high_ofInt] at hwrite
    -- the bytes of the first word and those in front of it are where the other words begin
    have hfront : (m.bytes.toList.take (2 * base).toNat ++
        [UInt8.ofInt n, UInt8.ofInt (n / 256)]).length = (2 * (base + 1)).toNat := by
      rw [List.length_append, List.length_take, m.length_bytes]
      simp only [List.length_cons, List.length_nil]
      omega
    have hbehind : (2 * base).toNat + (Image.toBytes (n :: rest)).length =
        (2 * base).toNat + 2 + (Image.toBytes rest).length := by
      simp only [Image.toBytes_cons, List.length_cons]
      omega
    rw [List.map_cons, fill, hnext, ih _ hrest, hwrite, List.take_left' hfront, ← List.drop_drop,
      List.drop_left' hfront, List.drop_drop, hbehind, Image.toBytes_cons]
    simp only [List.append_assoc, List.cons_append, List.nil_append]

theorem Machine.bytes_load (m : Machine) {words : List Int} {entry base : Int}
    (hfits : Fits words base) (hentry : IsWord entry) (hwords : ∀ n ∈ words, IsWord n) :
    (m.load words entry base).2.memory.bytes.toList =
      m.memory.bytes.toList.take (2 * base).toNat ++ Image.toBytes words ++
        m.memory.bytes.toList.drop ((2 * base).toNat + (Image.toBytes words).length) := by
  rw [load_of_words m hfits hentry hwords]
  exact m.memory.bytes_fill hfits

/-- The bytes of an image store each word with its low byte first, whatever integer it is given as,
and are read as these words again. Bytes are refused exactly if their number is odd. All others are
stored again as they were read, and a load puts them in the place of as many bytes of memory, from
twice its base on, and changes no other byte. -/
theorem Image.bytes_lie_in_memory :
    (∀ words : List Int,
      toBytes words = words.flatMap (fun n => [UInt8.ofInt n, UInt8.ofInt (n / 256)]) ∧
      (ofBytes (toBytes words)).map (List.map fun w => (w.toNat : Int)) =
        .ok (words.map (· % 65536))) ∧
    ∀ bytes : List UInt8,
      (∀ e, ofBytes bytes = .error e ↔ bytes.length % 2 = 1 ∧ e = .oddLength bytes.length) ∧
      (bytes.length % 2 = 0 → ∃ words : List Word,
        let numbers := words.map fun w => (w.toNat : Int)
        ofBytes bytes = .ok words ∧ toBytes numbers = bytes ∧
        ∀ (s : Session) (entry base : Int),
          0 ≤ base → base + (bytes.length / 2 : ℕ) ≤ 65536 → IsWord entry →
          let before := s.machine.memory.bytes.toList
          let loaded := s.load numbers entry base
          loaded.1 = .ok () ∧
          loaded.2.machine.memory.bytes.toList =
            before.take (2 * base).toNat ++ bytes ++
              before.drop ((2 * base).toNat + bytes.length)) := by
  refine ⟨?_, ?_⟩
  · intro words
    refine ⟨toBytes_eq words, ?_⟩
    rw [ofBytes_toBytes_eq_map, Except.map, List.map_map]
    congr 2
    funext n
    exact Word.toNat_ofInt n
  · intro bytes
    refine ⟨ofBytes_eq_error_iff bytes, ?_⟩
    intro heven
    have hstored := toBytes_pairs bytes heven
    refine ⟨pairs bytes, ofBytes_of_even heven, hstored, ?_⟩
    intro s entry base hbase hfit hentry before loaded
    have hlength := length_toBytes ((pairs bytes).map fun w => (w.toNat : Int))
    have hwords : ∀ n ∈ (pairs bytes).map fun w => (w.toNat : Int), IsWord n :=
      fun _ hn => Word.isWord_of_mem_map hn
    rw [hstored] at hlength
    have hfits : Fits ((pairs bytes).map fun w => (w.toNat : Int)) base := ⟨hbase, by omega⟩
    refine ⟨?_, ?_⟩
    · rw [s.load_answer, s.machine.load_fst_eq_ok_iff]
      exact ⟨hfits, hentry, hwords⟩
    · rw [s.load_machine, s.machine.bytes_load hfits hentry hwords, hstored]

/-- Four bytes end at the last byte of memory. A negative number and one that is too large are
stored as the words that they name. -/
theorem Image.bytes_lie_in_memory_to_last_byte :
    let bytes : List UInt8 := [0x41, 0, 5, 0xFF]
    let loaded := (Session.start false false false).load [0x41, 0xFF05] 0 65534
    (ofBytes (toBytes [-1, 0x12345])).map (List.map fun w => (w.toNat : Int)) =
      .ok [65535, 0x2345] ∧
    (bytes.dropLast.length % 2 = 1 ∧ ofBytes bytes.dropLast = .error (.oddLength 3)) ∧
    bytes.length % 2 = 0 ∧ (65534 : Int) + (bytes.length / 2 : ℕ) ≤ 65536 ∧ IsWord 0 ∧
    ofBytes bytes = .ok [0x41, 0xFF05] ∧ toBytes [0x41, 0xFF05] = bytes ∧
    loaded.1 = .ok () ∧
    loaded.2.machine.memory.bytes.toList = List.replicate 131068 0 ++ bytes := by
  intro bytes loaded
  obtain ⟨hintegers, hbytes⟩ := bytes_lie_in_memory
  obtain ⟨-, hread⟩ := hintegers [-1, 0x12345]
  obtain ⟨hodd, -⟩ := hbytes bytes.dropLast
  obtain ⟨-, heven⟩ := hbytes bytes
  have hlength : bytes.length % 2 = 0 := by decide
  obtain ⟨words, hwords, hstored, hloads⟩ := heven hlength
  have hpairs : ofBytes bytes = .ok [0x41, 0xFF05] :=
    (ofBytes_of_even hlength).trans (congrArg Except.ok (by decide))
  obtain rfl : [0x41, 0xFF05] = words := Except.ok.inj (hpairs.symm.trans hwords)
  have hfit : (65534 : Int) + (bytes.length / 2 : ℕ) ≤ 65536 := by decide
  have hentry : IsWord 0 := by decide
  obtain ⟨haccepted, hmemory⟩ :=
    hloads (Session.start false false false) 0 65534 (by decide) hfit hentry
  refine ⟨hread, ⟨by decide, (hodd _).mpr ⟨by decide, rfl⟩⟩, hlength, hfit, hentry, hpairs, hstored,
    haccepted, ?_⟩
  have hblank : (Session.start false false false).machine.memory.bytes.toList =
      List.replicate 131072 0 := Vector.toList_replicate
  rw [hblank, List.take_replicate, List.drop_replicate] at hmemory
  exact hmemory.trans (List.append_nil _)

end WordMachine
