import WordMachine.Proofs.Invocation
import WordMachine.Proofs.Sweep

/-!
What the labels of a listing tell. The words that a row shows are those of the image from some place
on, and its label is the place only where the listing begins at a place of the image. A listing from
a negative entry point begins so many words before the end, and no label in it is a place.
-/
namespace WordMachine

namespace Listing

theorem exists_mem_disassemble {ws : List Int} (h : ws ≠ []) (address : Int) :
    ∃ r ∈ disassemble address ws, r.address = address := by
  cases ws with
  | nil => exact absurd rfl h
  | cons w rest =>
    rw [disassemble]
    split
    · exact ⟨_, List.mem_cons_self, rfl⟩
    · exact ⟨_, List.mem_cons_self, rfl⟩

/-- A row shows the words of an image from the place on that is its label. -/
def Tells (words : List Int) (r : Row) : Prop :=
  0 ≤ r.address ∧ r.address < words.length ∧
    r.words = (words.drop r.address.toNat).take r.words.length

theorem cell_of_isWord {n : Int} (h : IsWord n) : cell n = n :=
  Word.toNat_ofInt_of_isWord h

/-- A row of a listing that begins somewhere among words shows the words that stand as far behind
that as its label says. -/
theorem words_of_mem_disassemble {words : List Int} (hwords : ∀ n ∈ words, IsWord n) {start : ℕ}
    {address : Int} {r : Row} (hr : r ∈ disassemble address (words.drop start)) :
    ∃ k : ℕ, r.address = address + k ∧ start + k < words.length ∧
      r.words = (words.drop (start + k)).take r.words.length := by
  obtain ⟨front, here, behind, hdrop, hhere, haddress, hcells⟩ := exists_of_mem_disassemble hr
  have hmem : ∀ n ∈ here, IsWord n := by
    intro n hn
    have hinside : n ∈ words.drop start := by
      rw [hdrop]
      exact List.mem_append_left behind (List.mem_append_right front hn)
    exact hwords n (List.mem_of_mem_drop hinside)
  have hself : r.words = here := by
    rw [hcells]
    exact (List.map_congr_left fun n hn => cell_of_isWord (hmem n hn)).trans (List.map_id here)
  have hcount := congrArg List.length hdrop
  have hpos := List.length_pos_iff.mpr hhere
  simp only [List.length_drop, List.length_append] at hcount
  refine ⟨front.length, haddress, by omega, ?_⟩
  rw [← List.drop_drop, hdrop, hself, List.append_assoc, List.drop_left, List.take_left]

end Listing

namespace CommandLine

/-- Where in an image a listing from an entry point begins. -/
def startOf (words : List Int) (entry : Int) : ℕ :=
  if 0 ≤ entry then entry.toNat else (words.length + entry).toNat

theorem wordsFrom_eq (words : List Int) (entry : Int) :
    wordsFrom words entry = words.drop (startOf words entry) := by
  unfold wordsFrom startOf
  split <;> rfl

/-- The rows of a listing of an image from an entry point on. -/
def rowsFrom (words : List Int) (entry : Int) : List Row :=
  Listing.disassemble entry (wordsFrom words entry)

section

variable {words : List Int} {entry : Int}

theorem tells_of_nonneg (hwords : ∀ n ∈ words, IsWord n) (hentry : 0 ≤ entry) {r : Row}
    (hr : r ∈ rowsFrom words entry) : Listing.Tells words r := by
  unfold rowsFrom at hr
  rw [wordsFrom_eq] at hr
  obtain ⟨k, haddress, hinside, hshown⟩ := Listing.words_of_mem_disassemble hwords hr
  have hstart : startOf words entry = entry.toNat := if_pos hentry
  have hplace : r.address.toNat = startOf words entry + k := by omega
  refine ⟨by omega, by omega, ?_⟩
  rw [hplace]
  exact hshown

theorem address_neg (hwords : ∀ n ∈ words, IsWord n) (hentry : entry < 0) {r : Row}
    (hr : r ∈ rowsFrom words entry) :
    entry ≤ r.address ∧ r.address < 0 ∧
      r.words =
        (words.drop (startOf words entry + (r.address - entry).toNat)).take r.words.length := by
  unfold rowsFrom at hr
  rw [wordsFrom_eq] at hr
  obtain ⟨k, haddress, hinside, hshown⟩ := Listing.words_of_mem_disassemble hwords hr
  have hstart : startOf words entry = (words.length + entry).toNat := if_neg (by omega)
  have hback : (r.address - entry).toNat = k := by omega
  refine ⟨by omega, by omega, ?_⟩
  rw [hback]
  exact hshown

theorem exists_mem_rowsFrom (hentry : entry < 0) (hsome : words ≠ []) :
    ∃ r ∈ rowsFrom words entry, r.address = entry := by
  have hpos := List.length_pos_iff.mpr hsome
  have hstart : startOf words entry = (words.length + entry).toNat := if_neg (by omega)
  have hbefore : startOf words entry < words.length := by omega
  have hleft : wordsFrom words entry ≠ [] := by
    rw [wordsFrom_eq]
    simpa using hbefore
  exact Listing.exists_mem_disassemble hleft entry

theorem rowsFrom_nil (entry : Int) : rowsFrom [] entry = [] := by
  unfold rowsFrom
  rw [wordsFrom_eq, List.drop_nil, Listing.disassemble]

theorem forall_tells_iff (hwords : ∀ n ∈ words, IsWord n) :
    (∀ r ∈ rowsFrom words entry, Listing.Tells words r) ↔ 0 ≤ entry ∨ words = [] := by
  constructor
  · intro htells
    by_contra hneither
    rw [not_or] at hneither
    obtain ⟨r, hr, haddress⟩ := exists_mem_rowsFrom (Int.not_le.mp hneither.1) hneither.2
    exact hneither.1 (haddress ▸ (htells r hr).1)
  · rintro (hnonneg | rfl) r hr
    · exact tells_of_nonneg hwords hnonneg hr
    · rw [rowsFrom_nil] at hr
      cases hr

/-- A listing has a text if its image can be counted and its entry point, should it be a label, can
be written. -/
theorem exists_text_rowsFrom (hwords : ∀ n ∈ words, IsWord n)
    (hlength : Numeral.Writable words.length)
    (hentry : (0 ≤ entry ∨ words = []) ∨ Numeral.Writable entry) :
    ∃ text, Listing.text? (rowsFrom words entry) = some text := by
  have hall : ∀ r ∈ rowsFrom words entry, Numeral.Writable r.address := by
    intro r hr
    by_cases hplace : 0 ≤ entry ∨ words = []
    · obtain ⟨hlow, hhigh, -⟩ := (forall_tells_iff hwords).mpr hplace r hr
      apply Nat.lt_trans _ hlength
      omega
    · have hneg : entry < 0 := Int.not_le.mp fun hnonneg => hplace (.inl hnonneg)
      obtain ⟨hlow, hhigh, -⟩ := address_neg hwords hneg hr
      apply Nat.lt_of_le_of_lt _ (hentry.resolve_left hplace)
      omega
  exact ⟨_, if_pos hall⟩

theorem printListing_of_text {text : String}
    (htext : Listing.text? (rowsFrom words entry) = some text) (h : Host) :
    printListing h words (.value entry) = (.ok 0, h.print (text ++ "\n")) := by
  unfold rowsFrom at htext
  unfold printListing
  dsimp only
  rw [htext]

theorem printListing_fst_ne (h : Host) (words : List Int) (entry : Given Int) :
    (printListing h words entry).1 ≠ .ok 2 := by
  unfold printListing
  split
  · exact fun hstatus => nomatch hstatus
  · split
    · exact fun hstatus => nomatch hstatus
    · exact fun hstatus => nomatch hstatus

theorem invoke_listing {docs : Documents} {c : Convention} {h ready : Host}
    {arguments : List String} {o : Options} {settings : Settings} {own : Int}
    (hparse : parse c arguments = .ok o) (hdisasm : o.disasm = true)
    (hready : Ready docs h o settings ready) (himage : imageOf ready o = .ok (words, own))
    (hentry : entryOf o settings own = .value entry) :
    invoke docs c h arguments = printListing ready words (.value entry) := by
  rw [invoke_of_ready hparse hready]
  unfold proceed
  rw [himage]
  dsimp only
  rw [hdisasm, if_pos rfl, hentry]

/-- A listing tells where words stand, or is refused, exactly where it begins at a place or the
image is empty. From a negative entry point on, where a run is refused, there is a listing too, and
its labels, none of which is a place, count on from the entry point while its words are the last
ones of the image. The number of words can always be written for what has room in some memory. -/
theorem listing_tells_iff {docs : Documents} {c : Convention} {h : Host}
    {arguments : List String} {o : Options}
    (hparse : parse c arguments = .ok o) (hdisasm : o.disasm = true) :
    (∀ e, Settings.ofValue docs h.files (configOf o) = .error (.settings e) →
      (invoke docs c h arguments).1 = .ok 2) ∧
    ∀ (settings : Settings) (ready : Host) (words : List Int) (own entry : Int),
      Ready docs h o settings ready → imageOf ready o = .ok (words, own) →
      entryOf o settings own = .value entry → Numeral.Writable words.length →
      (((invoke docs c h arguments).1 = .ok 2 ∨
        ∃ text, Listing.text? (rowsFrom words entry) = some text ∧
          invoke docs c h arguments = (.ok 0, ready.print (text ++ "\n")) ∧
          ∀ r ∈ rowsFrom words entry, Listing.Tells words r) ↔ 0 ≤ entry ∨ words = []) ∧
      (entry < 0 →
        (∀ r ∈ rowsFrom words entry, r.address < 0 ∧
          r.words =
            (words.drop (startOf words entry + (r.address - entry).toNat)).take r.words.length) ∧
        (Numeral.Writable entry →
          (runImage docs ready o settings words (.value entry)).1 = .ok 2 ∧
          ∃ text, Listing.text? (rowsFrom words entry) = some text ∧
            invoke docs c h arguments = (.ok 0, ready.print (text ++ "\n")))) := by
  constructor
  · intro e hsettings
    rw [invoke_of_settings_error hparse hsettings]
    rfl
  intro settings ready words own entry hready himage hentry hlength
  have hwords := isWord_of_imageOf himage
  have hinvoke := invoke_listing hparse hdisasm hready himage hentry
  have hprinted (hbegin : (0 ≤ entry ∨ words = []) ∨ Numeral.Writable entry) :
      ∃ text, Listing.text? (rowsFrom words entry) = some text ∧
        invoke docs c h arguments = (.ok 0, ready.print (text ++ "\n")) := by
    obtain ⟨text, htext⟩ := exists_text_rowsFrom hwords hlength hbegin
    exact ⟨text, htext, hinvoke.trans (printListing_of_text htext ready)⟩
  refine ⟨⟨?_, fun hplace => ?_⟩, fun hneg => ⟨?_, fun hwritable => ⟨?_, ?_⟩⟩⟩
  · rintro (hstatus | ⟨text, -, -, htells⟩)
    · rw [hinvoke] at hstatus
      exact absurd hstatus (printListing_fst_ne ready words _)
    · exact (forall_tells_iff hwords).mp htells
  · obtain ⟨text, htext, hprint⟩ := hprinted (.inl hplace)
    exact .inr ⟨text, htext, hprint, (forall_tells_iff hwords).mpr hplace⟩
  · exact fun r hr => (address_neg hwords hneg hr).2
  · have hoff : ¬ IsWord entry := fun hword => Int.not_le.mpr hneg hword.1
    exact congrArg Prod.fst (runImage_of_not_isWord docs ready o settings words hoff hwritable)
  · exact hprinted (.inr hwritable)

end

/-- The greeting is listed from its entry point on, and all labels tell. -/
theorem listing_tells_iff_greeting :
    let h := Host.ofFiles .empty
    let ready := opened .empty
    let o : Options := { disasm := true }
    parse .older ["--disasm"] = .ok o ∧ o.disasm = true ∧ Ready .yaml h o .default ready ∧
    imageOf ready o = .ok (Image.greeting, 15) ∧ entryOf o .default 15 = .value 15 ∧
    Numeral.Writable Image.greeting.length ∧
    ((invoke .yaml .older h ["--disasm"]).1 = .ok 2 ∨
      ∃ text, Listing.text? (rowsFrom Image.greeting 15) = some text ∧
        invoke .yaml .older h ["--disasm"] = (.ok 0, ready.print (text ++ "\n")) ∧
        ∀ r ∈ rowsFrom Image.greeting 15, Listing.Tells Image.greeting r) := by
  intro h ready o
  have hparse : parse .older ["--disasm"] = .ok o := rfl
  have hready : Ready .yaml h o .default ready := ready_opened rfl rfl rfl rfl
  have hlength : Numeral.Writable Image.greeting.length :=
    Numeral.writable_of_isWord (by decide)
  obtain ⟨htells, -⟩ :=
    (listing_tells_iff hparse rfl).2 .default ready Image.greeting 15 15 hready rfl rfl hlength
  exact ⟨hparse, rfl, hready, rfl, rfl, hlength, htells.mpr (.inl (by decide))⟩

/-- From the entry point -1 the last word of the greeting is listed, with a label that is no
place. -/
theorem listing_of_last_word :
    let h := Host.ofFiles .empty
    let ready := opened .empty
    let arguments := ["--disasm", "--entry", "-1"]
    let r : Row := ⟨-1, [0x0005], "HALT"⟩
    rowsFrom Image.greeting (-1) = [r] ∧ ¬ Listing.Tells Image.greeting r ∧
    invoke .yaml .older h arguments = (.ok 0, ready.print "-1 - 0005 - HALT\n") := by
  intro h ready arguments r
  let o : Options := { entry := some (.value (-1)), disasm := true }
  have hrows : rowsFrom Image.greeting (-1) = [r] := by decide +kernel
  have htext : Listing.text? (rowsFrom Image.greeting (-1)) = some "-1 - 0005 - HALT" := by
    rw [hrows]
    decide +kernel
  have hready : Ready .yaml h o .default ready := ready_opened rfl rfl rfl rfl
  have hinvoke :
      invoke .yaml .older h arguments = printListing ready Image.greeting (.value (-1)) :=
    invoke_listing rfl rfl hready rfl rfl
  refine ⟨hrows, fun htells => absurd htells.1 (by decide), ?_⟩
  rw [hinvoke]
  exact printListing_of_text htext ready

end CommandLine

end WordMachine
