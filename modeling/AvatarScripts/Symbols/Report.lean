import AvatarScripts.Symbols.Analyzer

/-! # The reports as a whole

`print_section_analysis()` prints the total number of symbols and then one row per entry of
`analyze_memory_layout()`, and `print_section_symbols()` one row per symbol of a section.  This
module says what these tables are, for every list of symbols:

* its rows are the entries of the layout, one for each section that has symbols, ordered by
  actual size, largest first, and entries of equal size in the order of the layout; their counts
  add up to the total printed above them (`printSectionAnalysis_rows`);
* for symbols parsed from a table, the start and end address of a row print as the address text,
  in lowercase, of the lowest and the highest symbol of its section
  (`printSectionAnalysis_addresses`);
* the rows of `print_section_symbols()` are the symbols `filter_by_section` returns, each once,
  in the order of `--sort` as Python's `sorted` gives it (`ListedBefore`), symbols with the same
  key (`SameKey`) in the order of the table, after a line with their number
  (`printSectionSymbols_rows`); this holds for whatever `str.lower` returns.

The counts add up because each pass of the layout's loop adds one to the count of one entry, or
appends an entry that counts one (`sum_count_layoutStep`). -/

namespace Avatar

namespace Symbols

/-! ### The counts of the layout -/

theorem count_infoStep (info? : Option SectionInfo) (x : Symbol) :
    (infoStep info? x).count = (info?.map SectionInfo.count).getD 0 + 1 := by
  cases info? <;> rfl

theorem sum_count_layoutStep (d : PyDict String SectionInfo) (x : Symbol) :
    ((layoutStep d x).values.map SectionInfo.count).sum =
      (d.values.map SectionInfo.count).sum + 1 := by
  have h := PyDict.sum_map_insert SectionInfo.count d x.sectionName
    (infoStep (d.find? x.sectionName) x)
  rw [count_infoStep] at h
  unfold layoutStep
  omega

theorem sum_count_analyzeMemoryLayout (symbols : List Symbol) :
    ((analyzeMemoryLayout symbols).values.map SectionInfo.count).sum = symbols.length := by
  suffices ∀ (l : List Symbol) d, ((l.foldl layoutStep d).values.map SectionInfo.count).sum =
      (d.values.map SectionInfo.count).sum + l.length from
    (this symbols PyDict.empty).trans (Nat.zero_add _)
  intro l
  induction l with
  | nil => intro d; rfl
  | cons x l ih =>
    intro d
    rw [List.foldl_cons, ih, sum_count_layoutStep, List.length_cons]
    omega

/-! ### The table -/

/-- **The section table.**  `print_section_analysis()` prints the number of symbols, then one row
for each section that has symbols, ordered by actual size, largest first, and sections of equal
size in the order of `analyze_memory_layout()`; the counts of the rows add up to the number of
symbols. -/
theorem printSectionAnalysis_rows (symbols : List Symbol) :
    ∃ rows : List (String × SectionInfo),
      (printSectionAnalysis symbols)[3]? = some ("\nTotal symbols: " ++ toString symbols.length) ∧
      (printSectionAnalysis symbols).drop 7 = rows.map sectionRow ∧
      rows.Perm (analyzeMemoryLayout symbols).items ∧
      (rows.map Prod.fst).Nodup ∧ (∀ s, s ∈ rows.map Prod.fst ↔ ∃ x ∈ symbols, x.sectionName = s) ∧
      rows.Sorted (fun a b => b.2.actualSize ≤ a.2.actualSize) ∧
      (∀ a b, List.Sublist [a, b] (analyzeMemoryLayout symbols).items →
        a.2.actualSize = b.2.actualSize → List.Sublist [a, b] rows) ∧
      (rows.map fun e => e.2.count).sum = symbols.length := by
  haveI : IsTotal (String × SectionInfo) fun a b => b.2.actualSize ≤ a.2.actualSize :=
    ⟨fun _ _ => le_total _ _⟩
  haveI : IsTrans (String × SectionInfo) fun a b => b.2.actualSize ≤ a.2.actualSize :=
    ⟨fun _ _ _ hab hbc => hbc.trans hab⟩
  have hperm := List.perm_insertionSort (fun a b : String × SectionInfo =>
    b.2.actualSize ≤ a.2.actualSize) (analyzeMemoryLayout symbols).items
  refine ⟨_, rfl, rfl, hperm, (hperm.map Prod.fst).nodup_iff.mpr (analyzeMemoryLayout symbols).nodup,
    fun s => ?_, List.sorted_insertionSort _ _, fun a b hab he => List.pair_sublist_insertionSort
      he.symm.le hab, ?_⟩
  · rw [(hperm.map Prod.fst).mem_iff, ← PyDict.keys, ← not_iff_not, ← PyDict.find?_eq_none,
      find?_analyzeMemoryLayout_eq_none]
    simp
  · rw [(hperm.map _).sum_eq, ← sum_count_analyzeMemoryLayout symbols, PyDict.values, List.map_map]
    rfl

/-! ### The address columns -/

/-- **The address columns.**  For symbols parsed from a table, each row of the section table
prints as start address the address text, in lowercase, of a symbol of its section with the
lowest address, and as end address that of a symbol with the highest. -/
theorem printSectionAnalysis_addresses (symbolLines : List String) :
    ∀ e ∈ (analyzeMemoryLayout (parseSymbols symbolLines).1).items,
      (∃ x ∈ (parseSymbols symbolLines).1, x.sectionName = e.1 ∧
        pyHex016 e.2.minAddr = pyLower x.addressStr ∧
        ∀ y ∈ (parseSymbols symbolLines).1, y.sectionName = e.1 → x.address ≤ y.address) ∧
      (∃ x ∈ (parseSymbols symbolLines).1, x.sectionName = e.1 ∧
        pyHex016 e.2.maxAddr = pyLower x.addressStr ∧
        ∀ y ∈ (parseSymbols symbolLines).1, y.sectionName = e.1 → y.address ≤ x.address) := by
  intro e he
  have hs := summarizes_of_find? (PyDict.find?_eq_some_iff.mpr he)
  -- an address of the section is that of one of its symbols, which prints back as its text
  have hmem : ∀ a ∈ ((parseSymbols symbolLines).1.filter fun x => x.sectionName = e.1).map
      Symbol.address, ∃ x ∈ (parseSymbols symbolLines).1, x.sectionName = e.1 ∧ x.address = a ∧
        pyHex016 a = pyLower x.addressStr := fun a ha => by
    obtain ⟨x, hx, rfl⟩ := List.mem_map.mp ha
    obtain ⟨hx, hxs⟩ := List.mem_filter.mp hx
    obtain ⟨_, _, hline⟩ := mem_parseFrom hx
    exact ⟨x, hx, of_decide_eq_true hxs, rfl, parseSymbolLine_address hline⟩
  have hsec : ∀ y ∈ (parseSymbols symbolLines).1, y.sectionName = e.1 →
      y.address ∈ ((parseSymbols symbolLines).1.filter fun x => x.sectionName = e.1).map
        Symbol.address := fun y hy hys =>
    List.mem_map_of_mem _ (List.mem_filter.mpr ⟨hy, decide_eq_true hys⟩)
  obtain ⟨x, hx, hxs, hxa, hxp⟩ := hmem _ hs.min_mem
  obtain ⟨z, hz, hzs, hza, hzp⟩ := hmem _ hs.max_mem
  exact ⟨⟨x, hx, hxs, hxp, fun y hy hys => hxa ▸ hs.min_le _ (hsec y hy hys)⟩,
    ⟨z, hz, hzs, hzp, fun y hy hys => hza ▸ hs.le_max _ (hsec y hy hys)⟩⟩

/-! ### The symbols of a section -/

/-- Whether `print_section_symbols` may list `a` before `b` under `--sort sortBy`: Python's
`sorted` puts `a` first unless the key of `b` is the smaller, and with `reverse=True`, for the
size, unless it is the larger. -/
def ListedBefore (lower : String → String) (sortBy : String) (a b : Symbol) : Prop :=
  if sortBy = "name" then pyStrLt (lower b.name) (lower a.name) = false
  else if sortBy = "size" then ¬ a.size < b.size
  else if sortBy = "flags" then pyStrLt b.flags a.flags = false
  else if sortBy = "type" then pyStrLt b.type a.type = false
  else ¬ b.address < a.address

/-- Whether `a` and `b` have the same key under `--sort sortBy`. -/
def SameKey (lower : String → String) (sortBy : String) (a b : Symbol) : Prop :=
  if sortBy = "name" then lower a.name = lower b.name
  else if sortBy = "size" then a.size = b.size
  else if sortBy = "flags" then a.flags = b.flags
  else if sortBy = "type" then a.type = b.type
  else a.address = b.address

/-- An insertion sort on a total, transitive relation that is `ListedBefore` and holds of equal
keys lists the symbols in that order, equal keys in the order they came in. -/
theorem insertionSort_listedBefore {lower : String → String} {sortBy : String}
    {r : Symbol → Symbol → Prop} [DecidableRel r] [IsTotal Symbol r] [IsTrans Symbol r]
    (hr : ∀ a b, r a b ↔ ListedBefore lower sortBy a b) (hsame : ∀ a b, SameKey lower sortBy a b → r a b)
    (l : List Symbol) :
    (l.insertionSort r).Pairwise (ListedBefore lower sortBy) ∧
      ∀ a b, List.Sublist [a, b] l → SameKey lower sortBy a b → List.Sublist [a, b] (l.insertionSort r) :=
  ⟨(List.sorted_insertionSort r l).imp fun h => (hr _ _).mp h,
    fun a b hab he => List.pair_sublist_insertionSort (hsame a b he) hab⟩

theorem sortSymbols_listedBefore (lower : String → String) (sortBy : String) (l : List Symbol) :
    (sortSymbols lower sortBy l).Pairwise (ListedBefore lower sortBy) ∧
      ∀ a b, List.Sublist [a, b] l → SameKey lower sortBy a b →
        List.Sublist [a, b] (sortSymbols lower sortBy l) := by
  have hstr : ∀ k : Symbol → String, IsTotal Symbol (fun a b => pyStrLt (k b) (k a) = false) ∧
      IsTrans Symbol (fun a b => pyStrLt (k b) (k a) = false) := fun k =>
    ⟨⟨fun a b => pyStrLt_eq_false_total (k a) (k b)⟩, ⟨fun _ _ _ => pyStrLt_eq_false_trans⟩⟩
  have hirr : ∀ {x y : String}, x = y → pyStrLt y x = false := fun e => e ▸ pyCharsLt_irrefl _
  unfold sortSymbols
  split_ifs with h1 h2 h3 h4
  · haveI := (hstr fun x => lower x.name).1
    haveI := (hstr fun x => lower x.name).2
    exact insertionSort_listedBefore (fun a b => by simp [ListedBefore, h1])
      (fun a b he => hirr (by simpa [SameKey, h1] using he)) l
  · haveI : IsTotal Symbol fun a b : Symbol => b.size ≤ a.size := ⟨fun _ _ => le_total _ _⟩
    haveI : IsTrans Symbol fun a b : Symbol => b.size ≤ a.size := ⟨fun _ _ _ h h' => h'.trans h⟩
    exact insertionSort_listedBefore (fun a b => by simp [ListedBefore, h1, h2])
      (fun a b he => by simp [SameKey, h1, h2] at he; exact he.symm.le) l
  · haveI := (hstr Symbol.flags).1
    haveI := (hstr Symbol.flags).2
    exact insertionSort_listedBefore (fun a b => by simp [ListedBefore, h1, h2, h3])
      (fun a b he => hirr (by simpa [SameKey, h1, h2, h3] using he)) l
  · haveI := (hstr Symbol.type).1
    haveI := (hstr Symbol.type).2
    exact insertionSort_listedBefore (fun a b => by simp [ListedBefore, h1, h2, h3, h4])
      (fun a b he => hirr (by simpa [SameKey, h1, h2, h3, h4] using he)) l
  · haveI : IsTotal Symbol fun a b : Symbol => a.address ≤ b.address := ⟨fun _ _ => le_total _ _⟩
    haveI : IsTrans Symbol fun a b : Symbol => a.address ≤ b.address := ⟨fun _ _ _ => le_trans⟩
    exact insertionSort_listedBefore (fun a b => by simp [ListedBefore, h1, h2, h3, h4])
      (fun a b he => by simp [SameKey, h1, h2, h3, h4] at he; exact he.le) l

/-- **The symbols of a section.**  When some symbol's section contains `sectionName`,
`print_section_symbols` prints how many there are and then one row for each of them, each once,
in the order `--sort` asks, symbols with the same key in the order of the table; for every
`str.lower`. -/
theorem printSectionSymbols_rows (lower : String → String) (symbols : List Symbol)
    (sectionName sortBy : String) (hne : filterBySection symbols sectionName ≠ []) :
    ∃ rows : List Symbol,
      (∃ head, printSectionSymbols lower symbols sectionName sortBy = head ++ rows.map symbolRow ∧
        "\nFound " ++ toString rows.length ++ " symbols in section '" ++ sectionName ++ "'" ∈ head) ∧
      rows.Perm (filterBySection symbols sectionName) ∧ rows.Pairwise (ListedBefore lower sortBy) ∧
      ∀ a b, List.Sublist [a, b] (filterBySection symbols sectionName) → SameKey lower sortBy a b →
        List.Sublist [a, b] rows := by
  have hperm : (sortSymbols lower sortBy (filterBySection symbols sectionName)).Perm
      (filterBySection symbols sectionName) := by
    unfold sortSymbols sortByAddress
    split_ifs <;> exact List.perm_insertionSort _ _
  refine ⟨_, ⟨_, by rw [printSectionSymbols, if_neg hne, List.append_assoc], ?_⟩, hperm,
    sortSymbols_listedBefore lower sortBy _⟩
  rw [hperm.length_eq]
  simp

/-- Two symbols of `.text`, the second with an uppercase address. -/
def twoTextLines : List String :=
  ["0000000040080000 g     F .text\t0000000000000010 main",
    "00000000400800AB l     F .text\t0000000000000010 helper"]

theorem printSectionAnalysis_addresses_text :
    let e : String × SectionInfo := (".text", ⟨0x40080000, 0x400800AB, 2, 0x20⟩)
    (∃ x ∈ (parseSymbols twoTextLines).1, x.sectionName = e.1 ∧
        pyHex016 e.2.minAddr = pyLower x.addressStr ∧
        ∀ y ∈ (parseSymbols twoTextLines).1, y.sectionName = e.1 → x.address ≤ y.address) ∧
      (∃ x ∈ (parseSymbols twoTextLines).1, x.sectionName = e.1 ∧
        pyHex016 e.2.maxAddr = pyLower x.addressStr ∧
        ∀ y ∈ (parseSymbols twoTextLines).1, y.sectionName = e.1 → y.address ≤ x.address) :=
  printSectionAnalysis_addresses twoTextLines _ (by decide)

theorem printSectionSymbols_rows_name :
    filterBySection (parseSymbols twoTextLines).1 ".text" ≠ [] ∧
    ∃ rows : List Symbol,
      (∃ head, printSectionSymbols pyLower (parseSymbols twoTextLines).1 ".text" "name" =
          head ++ rows.map symbolRow ∧
        "\nFound " ++ toString rows.length ++ " symbols in section '" ++ ".text" ++ "'" ∈ head) ∧
      rows.Perm (filterBySection (parseSymbols twoTextLines).1 ".text") ∧
      rows.Pairwise (ListedBefore pyLower "name") ∧
      ∀ a b, List.Sublist [a, b] (filterBySection (parseSymbols twoTextLines).1 ".text") →
        SameKey pyLower "name" a b → List.Sublist [a, b] rows :=
  ⟨by decide, printSectionSymbols_rows pyLower (parseSymbols twoTextLines).1 ".text" "name" (by decide)⟩

/-- Two symbols of the same size keep the order of the table under `--sort size`, and
`--sort name` lists them by their lowered names. -/
example : ((sortSymbols pyLower "size" (filterBySection (parseSymbols twoTextLines).1 ".text")).map
      Symbol.name) = ["main", "helper"] ∧
    ((sortSymbols pyLower "name" (filterBySection (parseSymbols twoTextLines).1 ".text")).map
      Symbol.name) = ["helper", "main"] := by
  decide

end Symbols

end Avatar
