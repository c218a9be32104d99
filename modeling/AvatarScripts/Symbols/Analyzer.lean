import AvatarScripts.Symbols.Parse

/-! # The symbol analyzer

`SymbolAnalyzer` of `avatar_symbols.py` over the parsed symbols, the three reports `main` can
print, and `main`.  Conventions:

* the `filter_by_*` methods are one definition, `filterBy`, over the field they test; each is
  the substring test `x in s[field]`, and `get_functions`, `get_objects`, `get_global_symbols`
  and `get_local_symbols` test the flags for `F`, `O`, `g` and `l`;
* `sorted(xs, key=k)` is Mathlib's `insertionSort` on `k a ≤ k b`, which keeps equal keys in
  their order as Python's sort does; `reverse=True` sorts on `k b ≤ k a`, which does too;
  strings compare by `pyStrLt`;
* `analyze_memory_layout()` is the fold of `layoutStep` into a dict; the `actual_size` its
  second loop adds to each entry is `SectionInfo.actualSize`;
* what is printed is the list of printed strings; `BrokenPipeError` is not modelled, nor are
  `search_symbols` (a regular expression given by the user), which no command calls, and the
  parsing of the command line, whose result `Args` is.

The entry of a section in the layout holds the count, the sum of the sizes and the least and
greatest address of exactly the symbols of that section (`analyzeMemoryLayout_find?`).  The
filters test substrings, so the count `list_available_sections()` prints for a section is the
layout's count exactly when no other section's name contains it
(`listAvailableSections_count_iff`), and a flag is found where whitespace splitting puts it:
on a line with two flag groups, `filter_by_flags` sees the first group only and
`filter_by_type` the second (`filterByFlags_objdump`).  `list_available_sections()` lists each
section once, in ascending order (`listAvailableSections_sorted`). -/

namespace Avatar

namespace Symbols

/-! ### Filters -/

/-- `[s for s in self.symbols if x in s[field]]`, the body of the `filter_by_*` methods. -/
def filterBy (field : Symbol → String) (symbols : List Symbol) (x : String) : List Symbol :=
  symbols.filter fun s => pyIn x (field s)

/-- `filter_by_section(section)`. -/
def filterBySection (symbols : List Symbol) (sec : String) : List Symbol :=
  filterBy Symbol.sectionName symbols sec

/-- `filter_by_flags(flag)`. -/
def filterByFlags (symbols : List Symbol) (flag : String) : List Symbol :=
  filterBy Symbol.flags symbols flag

/-- `filter_by_type(symbol_type)`. -/
def filterByType (symbols : List Symbol) (symbolType : String) : List Symbol :=
  filterBy Symbol.type symbols symbolType

/-- `get_functions()`. -/
def getFunctions (symbols : List Symbol) : List Symbol := filterByFlags symbols "F"

/-- `get_objects()`. -/
def getObjects (symbols : List Symbol) : List Symbol := filterByFlags symbols "O"

/-- `get_global_symbols()`. -/
def getGlobalSymbols (symbols : List Symbol) : List Symbol := filterByFlags symbols "g"

/-- `get_local_symbols()`. -/
def getLocalSymbols (symbols : List Symbol) : List Symbol := filterByFlags symbols "l"

@[simp] theorem mem_filterBy {field : Symbol → String} {symbols : List Symbol} {x : String}
    {s : Symbol} : s ∈ filterBy field symbols x ↔ s ∈ symbols ∧ x.data <:+: (field s).data := by
  simp [filterBy, pyIn]

theorem singleton_infix_iff {c : Char} {l : List Char} : [c] <:+: l ↔ c ∈ l :=
  ⟨fun h => h.subset (List.mem_singleton_self c), fun h => by
    obtain ⟨s, t, rfl⟩ := List.append_of_mem h
    exact ⟨s, t, by simp⟩⟩

/-- Where the flags and the type of a line with two flag groups come from: `filter_by_flags`
sees the first group only, `filter_by_type` the second. -/
theorem filterByFlags_objdump {line : String} {pre gap address g1 g2 sec size : List Char}
    {words : List (List Char)} (n : ℕ)
    (hline : line.data = pre ++ gap ++ [' '].intercalate words)
    (hpre : SplitsInto [address, g1, g2, sec, size] pre) (hgap : IsGap gap)
    (hwords : ∀ w ∈ words, IsWord w) (hne : words ≠ [])
    (haddress : isHex16 address = true) (hsize : isHex16 size = true) :
    ∃ sym, parseSymbolLine n line = some sym ∧ ∀ (symbols : List Symbol) (c : Char), sym ∈ symbols →
      (sym ∈ filterByFlags symbols ⟨[c]⟩ ↔ c ∈ g1) ∧ (sym ∈ filterByType symbols ⟨[c]⟩ ↔ c ∈ g2) := by
  obtain ⟨w, ws, rfl⟩ := List.exists_cons_of_ne_nil hne
  have hparts := reSplitWs_objdump hline hpre hgap hwords hne
  simp only [List.cons_append, List.nil_append] at hparts
  refine ⟨_, parseSymbolLine_six hparts haddress hsize, fun symbols c hsym => ?_⟩
  simp only [filterByFlags, filterByType, mem_filterBy, hsym, true_and, singleton_infix_iff]

theorem filterByFlags_objdump_main :
    ∃ sym, parseSymbolLine 1 "0000000040080000 g     F .text\t0000000000000010 main" = some sym ∧
      ∀ (symbols : List Symbol) (c : Char), sym ∈ symbols →
        (sym ∈ filterByFlags symbols ⟨[c]⟩ ↔ c ∈ "g".data) ∧
          (sym ∈ filterByType symbols ⟨[c]⟩ ↔ c ∈ "F".data) :=
  @filterByFlags_objdump _ "0000000040080000 g     F .text\t0000000000000010".data [' ']
    "0000000040080000".data "g".data "F".data ".text".data "0000000000000010".data ["main".data] 1
    (by decide)
    (@SplitsInto.cons _ [' '] _ _ (by decide) (by decide) <| @SplitsInto.cons _ "     ".data _ _
      (by decide) (by decide) <| @SplitsInto.cons _ [' '] _ _ (by decide) (by decide) <|
      @SplitsInto.cons _ ['\t'] _ _ (by decide) (by decide) <| .single (by decide))
    (by decide) (by decide) (by decide) (by decide) (by decide)

/-- `get_functions()` misses a function as `objdump` prints it: the `F` of the flag column
`g     F` is read as the symbol's type, and the flags are `g`; so does `get_objects()` an
object. -/
theorem getFunctions_main :
    (parseSymbols ["0000000040080000 g     F .text\t0000000000000010 main"]).1.map
        (fun s => (s.flags, s.type)) = [("g", "F")] ∧
      getFunctions (parseSymbols ["0000000040080000 g     F .text\t0000000000000010 main"]).1 = [] ∧
      getObjects (parseSymbols ["0000000040090000 g     O .data\t0000000000000008 counter"]).1 = [] := by
  decide

/-! ### Sorting -/

/-- `sort_by_address()`. -/
def sortByAddress (symbols : List Symbol) : List Symbol :=
  symbols.insertionSort fun a b => a.address ≤ b.address

/-- The order `print_section_symbols` lists the symbols in, for each choice of `--sort`; `lower`
is the interpreter's `str.lower`, which lowers every cased letter of Unicode and is left a
parameter. -/
def sortSymbols (lower : String → String) (sortBy : String) (symbols : List Symbol) : List Symbol :=
  if sortBy = "name" then
    symbols.insertionSort fun a b => pyStrLt (lower b.name) (lower a.name) = false
  else if sortBy = "size" then symbols.insertionSort fun a b => b.size ≤ a.size
  else if sortBy = "flags" then symbols.insertionSort fun a b => pyStrLt b.flags a.flags = false
  else if sortBy = "type" then symbols.insertionSort fun a b => pyStrLt b.type a.type = false
  else sortByAddress symbols

/-! ### The memory layout -/

/-- An entry of `analyze_memory_layout()`. -/
structure SectionInfo where
  minAddr : ℤ
  maxAddr : ℤ
  count : ℕ
  symbolSizeSum : ℤ
deriving DecidableEq

/-- `actual_size`: the address range, or the sum of the sizes where the range is one address. -/
def SectionInfo.actualSize (info : SectionInfo) : ℤ :=
  if info.minAddr = info.maxAddr then info.symbolSizeSum else info.maxAddr - info.minAddr

/-- The entry of a section after its symbol `symbol`, from its entry before, if any. -/
def infoStep (info? : Option SectionInfo) (symbol : Symbol) : SectionInfo :=
  let info := info?.getD ⟨symbol.address, symbol.address, 0, 0⟩
  ⟨min info.minAddr symbol.address, max info.maxAddr symbol.address, info.count + 1,
    info.symbolSizeSum + symbol.size⟩

/-- One pass of the first loop of `analyze_memory_layout()`. -/
def layoutStep (sections : PyDict String SectionInfo) (symbol : Symbol) :
    PyDict String SectionInfo :=
  sections.insert symbol.sectionName (infoStep (sections.find? symbol.sectionName) symbol)

/-- `analyze_memory_layout()`. -/
def analyzeMemoryLayout (symbols : List Symbol) : PyDict String SectionInfo :=
  symbols.foldl layoutStep PyDict.empty

/-! ### The layout, section by section -/

/-- The fold gives a section the entry the fold of `infoStep` over that section's symbols gives,
from its entry before. -/
theorem find?_foldl_layoutStep (s : String) : ∀ (l : List Symbol) (d : PyDict String SectionInfo),
    (l.foldl layoutStep d).find? s =
      (l.filter fun x => x.sectionName = s).foldl (fun o x => some (infoStep o x)) (d.find? s)
  | [], _ => rfl
  | x :: l, d => by
    rw [List.foldl_cons, find?_foldl_layoutStep s l, layoutStep, PyDict.find?_insert]
    by_cases h : x.sectionName = s
    · subst h
      simp
    · simp [h, Ne.symm h]

/-- `info` is the entry the symbols `l` of a section should give: their number, the sum of their
sizes, and their least and greatest address. -/
structure Summarizes (l : List Symbol) (info : SectionInfo) : Prop where
  count : info.count = l.length
  sum : info.symbolSizeSum = (l.map Symbol.size).sum
  min_mem : info.minAddr ∈ l.map Symbol.address
  min_le : ∀ a ∈ l.map Symbol.address, info.minAddr ≤ a
  max_mem : info.maxAddr ∈ l.map Symbol.address
  le_max : ∀ a ∈ l.map Symbol.address, a ≤ info.maxAddr

theorem summarizes_infoStep_none (x : Symbol) : Summarizes [x] (infoStep none x) :=
  ⟨rfl, by simp [infoStep], by simp [infoStep], by simp [infoStep], by simp [infoStep],
    by simp [infoStep]⟩

theorem Summarizes.snoc {l : List Symbol} {info : SectionInfo} (h : Summarizes l info) (x : Symbol) :
    Summarizes (l ++ [x]) (infoStep (some info) x) := by
  simp only [infoStep, Option.getD_some]
  refine ⟨by simp [h.count], by simp [h.sum], ?_, ?_, ?_, ?_⟩ <;>
    simp only [List.map_append, List.map_cons, List.map_nil, List.mem_append, List.mem_singleton]
  · rcases min_choice info.minAddr x.address with e | e <;> rw [e]
    exacts [Or.inl h.min_mem, Or.inr rfl]
  · rintro a (ha | rfl)
    exacts [min_le_of_left_le (h.min_le a ha), min_le_right _ _]
  · rcases max_choice info.maxAddr x.address with e | e <;> rw [e]
    exacts [Or.inl h.max_mem, Or.inr rfl]
  · rintro a (ha | rfl)
    exacts [le_max_of_le_left (h.le_max a ha), le_max_right _ _]

theorem foldl_infoStep_some : ∀ (l pre : List Symbol) (info : SectionInfo), Summarizes pre info →
    ∃ info', l.foldl (fun o x => some (infoStep o x)) (some info) = some info' ∧
      Summarizes (pre ++ l) info'
  | [], pre, info, h => ⟨info, rfl, by simpa using h⟩
  | x :: l, pre, _, h => by
    obtain ⟨info', h1, h2⟩ := foldl_infoStep_some l (pre ++ [x]) _ (h.snoc x)
    exact ⟨info', h1, by simpa using h2⟩

theorem foldl_infoStep_none (l : List Symbol) :
    (l.foldl (fun o x => some (infoStep o x)) none = none ↔ l = []) ∧
      ∀ info, l.foldl (fun o x => some (infoStep o x)) none = some info → Summarizes l info := by
  cases l with
  | nil => simp
  | cons x l =>
    obtain ⟨info', h1, h2⟩ := foldl_infoStep_some l [x] _ (summarizes_infoStep_none x)
    rw [List.foldl_cons, h1]
    exact ⟨by simp, by rintro _ ⟨⟩; exact h2⟩

theorem find?_analyzeMemoryLayout_eq_none {symbols : List Symbol} {s : String} :
    (analyzeMemoryLayout symbols).find? s = none ↔ ∀ x ∈ symbols, x.sectionName ≠ s := by
  rw [analyzeMemoryLayout, find?_foldl_layoutStep, PyDict.find?_empty, (foldl_infoStep_none _).1]
  simp

theorem summarizes_of_find? {symbols : List Symbol} {s : String} {info : SectionInfo}
    (h : (analyzeMemoryLayout symbols).find? s = some info) :
    Summarizes (symbols.filter fun x => x.sectionName = s) info := by
  rw [analyzeMemoryLayout, find?_foldl_layoutStep] at h
  exact (foldl_infoStep_none _).2 info h

/-- **The layout, section by section.**  `analyze_memory_layout()` has an entry for a section
exactly when some symbol is in it, and the entry holds the number of the symbols of that
section, the sum of their sizes, and their least and greatest address. -/
theorem analyzeMemoryLayout_find? (symbols : List Symbol) (s : String) :
    ((analyzeMemoryLayout symbols).find? s = none ↔ ∀ x ∈ symbols, x.sectionName ≠ s) ∧
      ∀ info, (analyzeMemoryLayout symbols).find? s = some info →
        Summarizes (symbols.filter fun x => x.sectionName = s) info :=
  ⟨find?_analyzeMemoryLayout_eq_none, fun _ => summarizes_of_find?⟩

/-! ### The reports -/

/-- `sorted(set(symbol['section'] for symbol in self.symbols))`. -/
def availableSections (symbols : List Symbol) : List String :=
  (symbols.foldl (fun s symbol => s.add symbol.sectionName) PySet.empty).elems.insertionSort
    fun a b => pyStrLt b a = false

/-- `list_available_sections()`: the sections, and what it prints. -/
def listAvailableSections (symbols : List Symbol) : List String × List String :=
  let sections := availableSections symbols
  (sections, "Available sections:" :: (sections.enumFrom 1).map fun (i, sec) =>
    "  " ++ pyRjust (toString i) 2 ++ ". " ++ pyLjust sec 20 ++ " (" ++
      toString (filterBySection symbols sec).length ++ " symbols)")

/-- The size column of `print_section_symbols`. -/
def symbolSizeText (symbol : Symbol) : String :=
  if 0 < symbol.size then
    if 1024 ≤ symbol.size then pyFormatTenths (roundToDouble symbol.size.toNat) 10 ++ " KB"
    else toString symbol.size ++ " bytes"
  else symbol.sizeStr

/-- A row of `print_section_symbols`. -/
def symbolRow (symbol : Symbol) : String :=
  "0x" ++ pyHex016 symbol.address ++ " | " ++ pyLjust symbol.flags 8 ++ " | " ++
    pyLjust symbol.type 6 ++ " | " ++ pyLjust (symbolSizeText symbol) 12 ++ " | " ++ symbol.name

/-- `print_section_symbols(section_name, sort_by)`: what it prints, with `lower` for `str.lower`. -/
def printSectionSymbols (lower : String → String) (symbols : List Symbol) (sectionName sortBy : String) :
    List String :=
  let sectionSymbols := filterBySection symbols sectionName
  if sectionSymbols = [] then ["No symbols found in section '" ++ sectionName ++ "'"]
  else
    [⟨List.replicate 100 '='⟩, "Symbols in Section: " ++ sectionName] ++
      (if sortBy ≠ "address" then ["Sorted by: " ++ sortBy] else []) ++
      [⟨List.replicate 100 '='⟩,
        "\nFound " ++ toString sectionSymbols.length ++ " symbols in section '" ++ sectionName ++ "'",
        "\n" ++ pyLjust "Address" 18 ++ " | " ++ pyLjust "Flags" 8 ++ " | " ++ pyLjust "Type" 6 ++
          " | " ++ pyLjust "Size" 12 ++ " | " ++ "Symbol Name",
        ⟨List.replicate 100 '-'⟩] ++
      (sortSymbols lower sortBy sectionSymbols).map symbolRow

/-- The size column of `print_section_analysis`. -/
def sectionSizeText (size : ℤ) : String :=
  if 1024 * 1024 ≤ size then pyFormatTenths (roundToDouble size.toNat) 20 ++ " MB"
  else if 1024 ≤ size then pyFormatTenths (roundToDouble size.toNat) 10 ++ " KB"
  else toString size ++ " bytes"

/-- A row of `print_section_analysis`. -/
def sectionRow (entry : String × SectionInfo) : String :=
  pyLjust entry.1 15 ++ " | " ++ pyRjust (toString entry.2.count) 8 ++ " | " ++ "0x" ++
    pyHex016 entry.2.minAddr ++ " | 0x" ++ pyHex016 entry.2.maxAddr ++ " | " ++
    pyRjust (sectionSizeText entry.2.actualSize) 12

/-- `print_section_analysis()`: what it prints, the sections by actual size, largest first. -/
def printSectionAnalysis (symbols : List Symbol) : List String :=
  [⟨List.replicate 90 '='⟩, "Avatar OS Symbol Table Section Analysis", ⟨List.replicate 90 '='⟩,
    "\nTotal symbols: " ++ toString symbols.length, "\nSection Statistics:",
    pyLjust "Section" 15 ++ " | " ++ pyRjust "Count" 8 ++ " | " ++ pyRjust "Start Address" 18 ++
      " | " ++ pyRjust "End Address" 18 ++ " | " ++ pyRjust "Size" 12,
    ⟨List.replicate 90 '-'⟩] ++
    ((analyzeMemoryLayout symbols).items.insertionSort
      fun a b => b.2.actualSize ≤ a.2.actualSize).map sectionRow

/-! ### Counting a section two ways -/

theorem mem_availableSections {symbols : List Symbol} {s : String} :
    s ∈ availableSections symbols ↔ ∃ x ∈ symbols, x.sectionName = s := by
  rw [availableSections, List.mem_insertionSort,
    @foldl_iff_of_step (PySet String) Symbol (fun s symbol => s.add symbol.sectionName)
      (fun b => s ∈ b.elems) (fun _ => True) (fun x => s = x.sectionName) (fun _ _ _ => trivial)
      (fun _ _ _ => PySet.mem_add) symbols PySet.empty trivial]
  simp [eq_comm]

/-- `sorted(set(...))` lists each section once, in ascending order. -/
theorem availableSections_pairwise (symbols : List Symbol) :
    (availableSections symbols).Pairwise fun a b => pyStrLt a b = true := by
  have hlt : ∀ a b : String, pyStrLt b a = false → a ≠ b → pyStrLt a b = true := fun a b h hne =>
    (pyCharsLt_trichotomy a.data b.data fun e => hne (String.ext e)).resolve_right fun h' =>
      absurd h (by simp [pyStrLt, h'])
  haveI : IsTotal String fun a b => pyStrLt b a = false := ⟨pyStrLt_eq_false_total⟩
  haveI : IsTrans String fun a b => pyStrLt b a = false := ⟨fun _ _ _ => pyStrLt_eq_false_trans⟩
  have hnd := (List.perm_insertionSort (fun a b : String => pyStrLt b a = false) _).nodup_iff.mpr
    (symbols.foldl (fun s symbol => s.add symbol.sectionName) PySet.empty).nodup
  exact ((List.sorted_insertionSort _ _).and hnd).imp fun h => hlt _ _ h.1 h.2

/-- **The sections listed.**  `list_available_sections()` returns each section of the symbols
once, in ascending order of `str`, and nothing else. -/
theorem listAvailableSections_sorted (symbols : List Symbol) :
    (listAvailableSections symbols).1.Pairwise (fun a b => pyStrLt a b = true) ∧
      ∀ s, s ∈ (listAvailableSections symbols).1 ↔ ∃ x ∈ symbols, x.sectionName = s :=
  ⟨availableSections_pairwise symbols, fun _ => mem_availableSections⟩

/-- Filtering by a weaker test keeps as many elements exactly when it keeps the same ones. -/
theorem length_filter_eq_length_filter_iff {α : Type} {p q : α → Bool} (h : ∀ x, p x → q x) :
    ∀ l : List α, (l.filter q).length = (l.filter p).length ↔ ∀ x ∈ l, q x → p x
  | [] => by simp
  | x :: l => by
    have hle := (List.monotone_filter_right l h).length_le
    have ih := length_filter_eq_length_filter_iff h l
    by_cases hq : q x <;> by_cases hp : p x
    · simp [hq, hp, ih]
    · simp only [List.filter_cons, hq, hp, if_true, List.length_cons]
      exact ⟨fun e => absurd e (by simp [hp] at hle ⊢; omega), fun h' => absurd (h' x (by simp) hq) hp⟩
    · exact absurd (h x hp) hq
    · simp [hq, hp, ih]

/-- The symbols of a `.text` line and a `.text.startup` line. -/
def textStartupSymbols : List Symbol :=
  (parseSymbols ["0000000040080000 g     F .text\t0000000000000010 main",
    "0000000040081000 l     F .text.startup\t0000000000000020 init"]).1

/-- **Counting a section two ways.**  For a section `list_available_sections()` lists, the count
it prints, `len(filter_by_section(s))`, is the layout's count for that section exactly when no
symbol of another section has a section name that contains `s`. -/
theorem listAvailableSections_count_iff (symbols : List Symbol) {s : String}
    (hs : s ∈ (listAvailableSections symbols).1) :
    ((analyzeMemoryLayout symbols).find? s).map SectionInfo.count =
        some (filterBySection symbols s).length ↔
      ∀ x ∈ symbols, s.data <:+: x.sectionName.data → x.sectionName = s := by
  obtain ⟨x, hx, hxs⟩ := mem_availableSections.mp hs
  cases hfind : (analyzeMemoryLayout symbols).find? s with
  | none => exact absurd hxs (find?_analyzeMemoryLayout_eq_none.mp hfind x hx)
  | some info =>
    rw [Option.map_some', Option.some_inj, (summarizes_of_find? hfind).count, eq_comm,
      filterBySection, filterBy, length_filter_eq_length_filter_iff]
    · simp [pyIn]
    · intro y hy
      simp only [decide_eq_true_eq] at hy
      simp [pyIn, hy, List.infix_refl]

theorem listAvailableSections_count_iff_text :
    ((analyzeMemoryLayout textStartupSymbols).find? ".text").map SectionInfo.count =
        some (filterBySection textStartupSymbols ".text").length ↔
      ∀ x ∈ textStartupSymbols, ".text".data <:+: x.sectionName.data → x.sectionName = ".text" :=
  listAvailableSections_count_iff textStartupSymbols (by decide)

/-- `list_available_sections()` prints two symbols for `.text`, whose layout entry counts one:
`filter_by_section('.text')` also takes the symbol of `.text.startup`, and so does
`print_section_symbols('.text')`. -/
theorem listAvailableSections_text_startup :
    (listAvailableSections textStartupSymbols).2 = ["Available sections:",
      "   1. .text                (2 symbols)", "   2. .text.startup        (1 symbols)"] ∧
      ((analyzeMemoryLayout textStartupSymbols).find? ".text").map SectionInfo.count = some 1 ∧
      (∀ lower : String → String,
        "\nFound 2 symbols in section '.text'" ∈ printSectionSymbols lower textStartupSymbols ".text" "address") ∧
      (filterBySection textStartupSymbols ".text").map Symbol.name = ["main", "init"] := by
  refine ⟨by decide, by decide, fun lower => ?_, by decide⟩
  simp only [printSectionSymbols]
  rw [if_neg (by decide)]
  exact List.mem_append_left _ (List.mem_append_right _ (by decide))

/-! ### The command -/

/-- The parsed command line: `--file`, `--section`, `--sort` and `--list-sections`. -/
structure Args where
  file : String
  sectionName : Option String
  sort : String
  listSections : Bool

/-- `main()` on the tree `fs`: what it prints and its exit status.  `defaultPath` is the path
`os.path.join(os.path.dirname(os.path.dirname(__file__)), 'build', 'dis.txt')`, read when
`--file` keeps its default, and `lower` is `str.lower`. -/
def main (args : Args) (fs : SourceTree) (defaultPath : String) (lower : String → String) :
    List String × ℕ :=
  let disFilePath := if args.file ≠ "build/dis.txt" then args.file else defaultPath
  let (symbolLines, readPrints) := readSymbolTableFromFile fs disFilePath
  if symbolLines = [] then (readPrints ++ ["Cannot read symbol table data from " ++ disFilePath], 1)
  else
    let (symbols, parsePrints) := parseSymbols symbolLines
    let report :=
      if args.listSections then (listAvailableSections symbols).2
      else match args.sectionName with
        | some sec => if sec = "" then printSectionAnalysis symbols
          else printSectionSymbols lower symbols sec args.sort
        | none => printSectionAnalysis symbols
    (readPrints ++ parsePrints ++ report, 0)

end Symbols

end Avatar
