import Mathlib.Data.List.Lemmas
import WordMachine.Proofs.Expectations
import WordMachine.Proofs.Reads
import WordMachine.Proofs.Storage

/-!
What a run leaves behind. A cell that steps write to holds the word of the last of them, and any
other cell what it held before. So the memory that is expected of a record tells the last writes
outside of its image, as far as they are not of zero: these cells were zero before, and as each step
writes to one cell there are no more of them than steps.
-/
namespace WordMachine

namespace Machine

variable {m : Machine} {n : ℕ} {a w : Word}

/-- The last of the next `n` steps that writes to a cell stores a word in it. -/
def LastWrites (m : Machine) (n : ℕ) (a w : Word) : Prop :=
  ∃ i < n, (step^[i] m).StoresAt a ∧ (step^[i] m).result = w ∧
    ∀ j, i < j → j < n → ¬ (step^[j] m).StoresAt a

theorem lastWrites_succ_iff : m.LastWrites (n + 1) a w ↔
    if (step^[n] m).StoresAt a then (step^[n] m).result = w else m.LastWrites n a w := by
  split
  · next hstores =>
    constructor
    · rintro ⟨i, hi, -, hresult, hlast⟩
      rcases Nat.lt_succ_iff_lt_or_eq.mp hi with hlt | rfl
      · exact absurd hstores (hlast n hlt (Nat.lt_succ_self n))
      · exact hresult
    · intro hresult
      exact ⟨n, Nat.lt_succ_self n, hstores, hresult, fun j hj hj' => by omega⟩
  · next hnone =>
    constructor
    · rintro ⟨i, hi, hstores, hresult, hlast⟩
      rcases Nat.lt_succ_iff_lt_or_eq.mp hi with hlt | rfl
      · exact ⟨i, hlt, hstores, hresult, fun j hj hj' => hlast j hj (by omega)⟩
      · exact absurd hstores hnone
    · rintro ⟨i, hi, hstores, hresult, hlast⟩
      refine ⟨i, by omega, hstores, hresult, fun j hj hj' => ?_⟩
      rcases Nat.lt_succ_iff_lt_or_eq.mp hj' with hlt | rfl
      · exact hlast j hj hlt
      · exact hnone

theorem LastWrites.read_iterate (h : m.LastWrites n a w) : (step^[n] m).memory.read a = w := by
  induction n with
  | zero =>
    obtain ⟨i, hi, -⟩ := h
    omega
  | succ n ih =>
    rw [lastWrites_succ_iff] at h
    rw [Function.iterate_succ_apply', read_step]
    split
    · next hstores => exact (if_pos hstores).mp h
    · next hnone => exact ih ((if_neg hnone).mp h)

theorem lastWrites_or_read_iterate (m : Machine) (n : ℕ) (a : Word) :
    m.LastWrites n a ((step^[n] m).memory.read a) ∨
      (step^[n] m).memory.read a = m.memory.read a := by
  induction n with
  | zero => exact .inr rfl
  | succ n ih =>
    rw [lastWrites_succ_iff, Function.iterate_succ_apply', read_step]
    split
    · exact .inl rfl
    · exact ih

/-- In a cell that was zero there is a word other than zero exactly if it was written last. -/
theorem read_iterate_eq_iff (hzero : m.memory.read a = 0) (hw : w ≠ 0) :
    (step^[n] m).memory.read a = w ↔ m.LastWrites n a w := by
  refine ⟨fun hread => ?_, LastWrites.read_iterate⟩
  rcases m.lastWrites_or_read_iterate n a with hlast | hkept
  · rwa [hread] at hlast
  · rw [hread, hzero] at hkept
    exact absurd hkept hw

theorem length_le_of_lastWrites {cells : List (ℕ × Word)}
    (hdistinct : (cells.map Prod.fst).Nodup)
    (hwritten : ∀ c ∈ cells, ∃ a : Word, a.toNat = c.1 ∧ ∃ w, m.LastWrites n a w) :
    cells.length ≤ n := by
  have hsubset : cells.map Prod.fst ⊆
      (List.range n).map fun i => (step^[i] m).next.target.toNat := by
    intro address hmem
    obtain ⟨c, hc, rfl⟩ := List.mem_map.mp hmem
    obtain ⟨a, ha, w, i, hi, hstores, -⟩ := hwritten c hc
    refine List.mem_map.mpr ⟨i, List.mem_range.mpr hi, ?_⟩
    rw [hstores.2, ha]
  have hlength := (hdistinct.subperm hsubset).length_le
  simpa using hlength

end Machine

namespace Memory

theorem getD_lookup_nonzeroFrom (m : Memory) {first : ℕ} {a : Word} (ha : first ≤ a.toNat) :
    ((m.nonzeroFrom first).lookup a.toNat).getD 0 = m.read a := by
  have hself : UInt16.ofNat a.toNat = a := UInt16.ofNat_toNat
  cases hfound : (m.nonzeroFrom first).lookup a.toNat with
  | none =>
    by_contra hne
    have hmem : (a.toNat, m.read a) ∈ m.nonzeroFrom first :=
      mem_nonzeroFrom_iff.mpr ⟨ha, UInt16.toNat_lt a, Ne.symm hne, congrArg m.read hself⟩
    have hother := List.lookup_eq_none_iff.mp hfound _ hmem
    simp at hother
  | some w =>
    obtain ⟨before, behind, hcells, -⟩ := List.lookup_eq_some_iff.mp hfound
    have hmem : (a.toNat, w) ∈ m.nonzeroFrom first := by simp [hcells]
    rw [Option.getD_some, ← (mem_nonzeroFrom_iff.mp hmem).2.2.2, hself]

end Memory

namespace Record

variable {docs : Documents} {files : Files} {record : Entries} {image : List Word} {entry : Int}
  {settings : Settings}

/-- A run of a record begins with its image in a memory that is zero elsewhere. -/
theorem exists_load_of_runOf {r : Session.Outcome × Machine}
    (h : runOf settings image entry = .ok r) :
    ∃ m, Machine.fresh.load (numbersOf image) entry 0 = (.ok (), m) ∧
      r.1.executed = m.executed settings.stepLimit ∧
      r.2 = Machine.step^[r.1.executed] m ∧
      ∀ a : Word, image.length ≤ a.toNat → m.memory.read a = 0 := by
  unfold runOf Run.unobserved Run.entryOf at h
  dsimp only at h
  split at h
  · cases h
  · next m hload =>
    obtain rfl := Except.ok.inj h
    refine ⟨m, hload, rfl, Machine.run_eq_iterate _ m, fun a ha => ?_⟩
    have houtside : ¬ ((0 : Int) ≤ a.toNat ∧ (a.toNat : Int) < 0 + (numbersOf image).length) := by
      unfold numbersOf
      rw [List.length_map]
      omega
    have hkept := Machine.fresh.read_load_of_outside (numbersOf image) entry 0 houtside
    rw [hload] at hkept
    rw [hkept]
    exact Memory.read_zero a

/-- The memory that is expected of a record has the last words written outside of its image, unless
they are zero, in the order of their cells. Every other cell outside of the image is zero after the
run, at the end of which the program counter is the one that is expected. The listing that is
expected is what is printed on request for the same image from the same entry point. -/
theorem memory_tells_last_writes {e : Expectations} (h : expectations docs files record = .ok e) :
    ∃ image entry settings m, Asks docs files record image entry settings ∧
      Machine.fresh.load (numbersOf image) entry 0 = (.ok (), m) ∧
      e.outcome.executed = m.executed settings.stepLimit ∧
      (let last := Machine.step^[e.outcome.executed] m
       e.pc = last.pc ∧
       ∀ a : Word, image.length ≤ a.toNat →
         last.memory.read a = (e.memory.lookup a.toNat).getD 0) ∧
      (e.memory.map Prod.fst).Pairwise (· < ·) ∧
      (∀ c ∈ e.memory, image.length ≤ c.1 ∧ c.1 ≤ 65535) ∧
      (∀ a w : Word, (a.toNat, w) ∈ e.memory ↔
        image.length ≤ a.toNat ∧ m.LastWrites e.outcome.executed a w ∧ w ≠ 0) ∧
      e.memory.length ≤ e.outcome.executed ∧
      ∀ (docs' : Documents) (c : CommandLine.Convention) (h ready : Host)
        (arguments : List String) (o : CommandLine.Options) (given : Settings) (own : Int),
        CommandLine.parse c arguments = .ok o → o.disasm = true →
        CommandLine.Ready docs' h o given ready →
        CommandLine.imageOf ready o = .ok (numbersOf image, own) →
        CommandLine.entryOf o given own = .value entry →
        CommandLine.invoke docs' c h arguments = (.ok 0, ready.print e.listing) := by
  obtain ⟨image, entry, settings, hasks⟩ := asks_of_expectations h
  rw [expectations_eq hasks] at h
  obtain ⟨r, hr, rfl⟩ := exists_of_map_eq_ok h
  obtain ⟨m, hload, hexecuted, hlast, hzero⟩ := exists_load_of_runOf hr
  obtain ⟨text, htext⟩ := exists_listing hr
  obtain ⟨-, hentry, -⟩ := Run.fits_of_unobserved_ok hr
  have hnonneg : 0 ≤ entry := hentry.1
  have hmem : ∀ a w : Word, (a.toNat, w) ∈ r.2.memory.nonzeroFrom image.length ↔
      image.length ≤ a.toNat ∧ m.LastWrites r.1.executed a w ∧ w ≠ 0 := by
    intro a w
    rw [Memory.mem_nonzeroFrom_iff, UInt16.ofNat_toNat, hlast]
    constructor
    · rintro ⟨ha, -, hw, hread⟩
      exact ⟨ha, (Machine.read_iterate_eq_iff (hzero a ha) hw).mp hread, hw⟩
    · rintro ⟨ha, hwrites, hw⟩
      exact ⟨ha, UInt16.toNat_lt a, hw, hwrites.read_iterate⟩
  have hbounds : ∀ c ∈ r.2.memory.nonzeroFrom image.length, image.length ≤ c.1 ∧ c.1 ≤ 65535 := by
    intro c hc
    obtain ⟨hle, hlt, -⟩ := Memory.mem_nonzeroFrom_iff.mp hc
    exact ⟨hle, Nat.le_of_lt_succ hlt⟩
  have hascending : ((r.2.memory.nonzeroFrom image.length).map Prod.fst).Pairwise (· < ·) :=
    List.pairwise_map.mpr (r.2.memory.ascending_nonzeroFrom image.length)
  refine ⟨image, entry, settings, m, hasks, hload, hexecuted, ⟨?_, ?_⟩, hascending, hbounds, hmem,
    ?_, ?_⟩
  · exact congrArg Machine.pc hlast
  · intro a ha
    unfold expected
    dsimp only
    rw [r.2.memory.getD_lookup_nonzeroFrom ha, ← hlast]
  · apply Machine.length_le_of_lastWrites (hascending.imp Nat.ne_of_lt)
    intro c hc
    have haddress : (UInt16.ofNat c.1).toNat = c.1 := by
      have hle := (hbounds c hc).2
      rw [UInt16.toNat_ofNat']
      omega
    refine ⟨UInt16.ofNat c.1, haddress, c.2, ((hmem _ _).mp ?_).2.1⟩
    rw [haddress]
    exact hc
  · intro docs' c h ready arguments o given own hparse hdisasm hready himage hchosen
    have hrows : Listing.text? (CommandLine.rowsFrom (numbersOf image) entry) = some text := by
      unfold CommandLine.rowsFrom CommandLine.wordsFrom
      rw [if_pos hnonneg]
      exact htext
    have hlisting : (expected image entry r).listing = text ++ "\n" := by
      unfold expected
      dsimp only
      rw [htext, Option.getD_some]
    rw [CommandLine.invoke_listing hparse hdisasm hready himage hchosen, hlisting]
    exact CommandLine.printListing_of_text hrows ready

def greetingRecord : Entries := [
  (.text "image", .text ("0048 0065 006C 006C 006F 002C 0020 0077 006F 0072 006C 0064 0021 "
    ++ "000A 0000 1401 007F 0000 1200 007F 0601 0080 2502 007F 0001 007F 2103 0023 0080 "
    ++ "2104 0000 0080 2003 0012 0000 0005")),
  (.text "entry", .int 15),
  (.text "config", .map [(.text "step_limit", .int 3)])]

theorem asks_greetingRecord :
    Asks .yaml .empty greetingRecord (Image.greeting.map UInt16.ofInt) 15
      { Settings.default with stepLimit := 3 } where
  image := by
    rw [greetingRecord, imageOf_cons, Text.ofString_ofList, Text.ofString_ofList,
      Text.ofString_ofList]
    decide +kernel
  entry := rfl
  settings := Settings.ofEntries_of_right ⟨rfl, rfl, rfl, rfl, rfl⟩

/-- The first of two writes is of zero and is not told. The listing is what is printed for the
greeting. -/
theorem memory_tells_last_writes_greeting :
    let arguments := ["--disasm"]
    let o : CommandLine.Options := { disasm := true }
    let h := Host.ofFiles .empty
    let ready := CommandLine.opened .empty
    CommandLine.parse .older arguments = .ok o ∧ CommandLine.Ready .yaml h o .default ready ∧
    CommandLine.imageOf ready o = .ok (Image.greeting, 15) ∧
    CommandLine.entryOf o .default 15 = .value 15 ∧
    ∃ e, expectations .yaml .empty greetingRecord = .ok e ∧ e.outcome.executed = 3 ∧
      (0x80, 0x48) ∈ e.memory ∧ (∀ w, (0x7F, w) ∉ e.memory) ∧ e.memory.length ≤ 3 ∧
      CommandLine.invoke .yaml .older h arguments = (.ok 0, ready.print e.listing) := by
  intro arguments o h ready
  let words : List Word := Image.greeting.map UInt16.ofInt
  let settings : Settings := { Settings.default with stepLimit := 3 }
  let start : Machine := { Machine.fresh with memory := Memory.zero.fill 0 words, pc := 15 }
  have hready : CommandLine.Ready .yaml h o .default ready :=
    CommandLine.ready_opened rfl rfl rfl rfl
  have hnumbers : numbersOf words = Image.greeting := by decide
  obtain ⟨r, hr⟩ : ∃ r, runOf settings words 15 = .ok r :=
    Run.exists_unobserved_ok (by decide) (by decide) (by decide)
  have he : expectations .yaml .empty greetingRecord = .ok (expected words 15 r) := by
    rw [expectations_eq asks_greetingRecord, hr]
    rfl
  obtain ⟨image, entry, given, m, hasks, hload, hexecuted, -, -, -, hmem, hcount, hprints⟩ :=
    memory_tells_last_writes he
  obtain rfl : words = image := Except.ok.inj (asks_greetingRecord.image.symm.trans hasks.image)
  obtain rfl : 15 = entry := Except.ok.inj hasks.entry
  obtain rfl : settings = given :=
    Except.ok.inj (asks_greetingRecord.settings.symm.trans hasks.settings)
  have hstart : Machine.fresh.load (numbersOf words) 15 0 = (.ok (), start) := by
    have hfits : Fits (numbersOf words) 0 := by
      unfold Fits
      decide
    exact Machine.fresh.load_of_words hfits (by decide) (by decide)
  obtain rfl : start = m := (Prod.mk.inj (hstart.symm.trans hload)).2
  have hthree : (expected words 15 r).outcome.executed = 3 := by
    rw [hexecuted]
    decide +kernel
  rw [hthree] at hmem hcount
  refine ⟨rfl, hready, rfl, rfl, _, he, hthree, ?_, ?_, hcount, ?_⟩
  · have hwrites : start.LastWrites 3 0x80 0x48 := by
      refine ⟨2, by decide, ?_, ?_, fun j hj hj' => by omega⟩
      · decide +kernel
      · decide +kernel
    exact (hmem 0x80 0x48).mpr ⟨by decide, hwrites, by decide⟩
  · intro w hw
    have hcleared : (Machine.step^[3] start).memory.read 0x7F = 0 := by decide +kernel
    obtain ⟨-, hwrites, hne⟩ := (hmem 0x7F w).mp hw
    exact hne (hwrites.read_iterate.symm.trans hcleared)
  · exact hprints .yaml .older h ready arguments o .default 15 rfl rfl hready
      (by rw [hnumbers]; rfl) rfl

end Record

end WordMachine
