import AvatarScripts.Python.Os

/-! # Reading and parsing the symbol table

`avatar_symbols.py` reads the `SYMBOL TABLE:` section of an `objdump` listing and parses each of
its lines into a symbol.  Conventions:

* `int(s, 16)` is `pyIntBase16`: surrounding whitespace, a sign, a `0x` prefix and single
  underscores between digits, over the ASCII digits (Python also takes other Unicode decimal
  digits, which a symbol table does not hold);
* a line is split by `re.split(r'\s+', line.strip())`; five parts are read as address, flags,
  section, size and name, six or more as address, flags, type, section, size and a name that is
  the rest joined by single spaces;
* the parse of one line cannot raise once the address has passed its test, so the warning of
  the `except` clause is never printed and is left out.

The parse is characterised on lines given by their fields (`SplitsInto`): a line whose flag
column has two groups, or one group and a one-word name, is read back field by field
(`parseSymbolLine_objdump`).  A line with a blank flag column and a one-word name, as `objdump`
prints for an undefined symbol, has only four parts and is dropped, and a line with one flag
group and a name with a space is read with its fields shifted (`parseSymbolLine_und`).  The
lines read from a listing are the stripped, non-blank lines between its two marker lines
(`readSymbolTableFromFile_between`).  The address a line is read with prints back, with
`f"{address:016x}"`, as the address text of the line in lowercase (`parseSymbols_address`). -/

namespace Avatar

namespace Symbols

/-- The value of a hexadecimal digit, `re`'s class `[0-9a-fA-F]`. -/
def hexDigitVal (c : Char) : Option ℕ :=
  if '0' ≤ c ∧ c ≤ '9' then some (c.toNat - '0'.toNat)
  else if 'a' ≤ c ∧ c ≤ 'f' then some (c.toNat - 'a'.toNat + 10)
  else if 'A' ≤ c ∧ c ≤ 'F' then some (c.toNat - 'A'.toNat + 10)
  else none

/-- The value of a string of hexadecimal digits. -/
def hexValue (s : List Char) : ℕ := s.foldl (fun acc c => 16 * acc + (hexDigitVal c).getD 0) 0

/-- `re.match(r'^[0-9a-fA-F]{16}$', s)` on a part of a split line, which holds no newline. -/
def isHex16 (s : List Char) : Bool := s.length == 16 && s.all fun c => (hexDigitVal c).isSome

/-- The digits of `int(s, 16)` after the prefix, from the value `acc` read so far: digits with
single underscores between them; `afterDigit` tells whether the last character was a digit. -/
def hexBody : List Char → ℕ → Bool → Option ℕ
  | [], acc, afterDigit => if afterDigit then some acc else none
  | '_' :: cs, acc, afterDigit => if afterDigit then hexBody cs acc false else none
  | c :: cs, acc, _ =>
    match hexDigitVal c with
    | some d => hexBody cs (16 * acc + d) true
    | none => none

/-- The sign of `int(s, 16)`: whether it is `-`, and the rest. -/
def splitSign : List Char → Bool × List Char
  | '-' :: r => (true, r)
  | '+' :: r => (false, r)
  | r => (false, r)

/-- The unsigned part of `int(s, 16)`: an optional `0x` prefix, which an underscore may follow,
and the digits. -/
def hexUnsigned : List Char → Option ℕ
  | '0' :: 'x' :: '_' :: r => hexBody r 0 false
  | '0' :: 'x' :: r => hexBody r 0 false
  | '0' :: 'X' :: '_' :: r => hexBody r 0 false
  | '0' :: 'X' :: r => hexBody r 0 false
  | r => hexBody r 0 false

/-- `int(s, 16)`, or `none` where it raises `ValueError`. -/
def pyIntBase16 (s : String) : Option ℤ :=
  let (neg, digits) := splitSign (pyStrip s.data)
  (hexUnsigned digits).map fun v => if neg then -(v : ℤ) else v

/-- A parsed symbol, the dict `parse_symbols` builds (`sectionName` is its key `section`, a
keyword in Lean). -/
structure Symbol where
  address : ℤ
  addressStr : String
  flags : String
  type : String
  sectionName : String
  size : ℤ
  sizeStr : String
  name : String
  lineNum : ℕ
deriving DecidableEq

/-- The symbol of the line numbered `lineNum`, or `none` where the loop `continue`s. -/
def parseSymbolLine (lineNum : ℕ) (line : String) : Option Symbol :=
  match (reSplitWs (pyStrip line.data)).map String.mk with
  | addressStr :: flags :: p2 :: p3 :: p4 :: rest =>
    if isHex16 addressStr.data then
      let (symbolType, sec, sizeStr, name) :=
        if rest = [] then ("", p2, p3, p4) else (p2, p3, p4, " ".intercalate rest)
      let size := if sizeStr = "*ABS*" then 0 else (pyIntBase16 sizeStr).getD 0
      some ⟨(pyIntBase16 addressStr).getD 0, addressStr, flags, symbolType, sec, size, sizeStr, name,
        lineNum⟩
    else none
  | _ => none

/-- The symbols of the lines numbered from `n` on. -/
def parseFrom : ℕ → List String → List Symbol
  | _, [] => []
  | n, line :: lines => (parseSymbolLine n line).toList ++ parseFrom (n + 1) lines

/-- `parse_symbols()`: the symbols of the lines, numbered from 1, and what it prints. -/
def parseSymbols (symbolLines : List String) : List Symbol × List String :=
  let symbols := parseFrom 1 symbolLines
  (symbols, ["成功解析 " ++ toString symbols.length ++ " 个符号"])

/-! ### Hexadecimal fields -/

section Digits

variable {s : List Char} (hs : ∀ c ∈ s, (hexDigitVal c).isSome)

theorem pyIsSpace_of_hexDigit {c : Char} (h : (hexDigitVal c).isSome) : pyIsSpace c = false := by
  have hb : 48 ≤ c.toNat ∧ c.toNat ≤ 102 := by
    unfold hexDigitVal at h
    split_ifs at h with h1 h2 h3
    · have : 48 ≤ c.toNat ∧ c.toNat ≤ 57 := h1
      omega
    · have : 97 ≤ c.toNat ∧ c.toNat ≤ 102 := h2
      omega
    · have : 65 ≤ c.toNat ∧ c.toNat ≤ 70 := h3
      omega
    · cases h
  simp [pyIsSpace]
  omega

include hs in
theorem hexBody_of_digits : ∀ (acc : ℕ) (b : Bool), (s ≠ [] ∨ b = true) →
    hexBody s acc b = some (s.foldl (fun acc c => 16 * acc + (hexDigitVal c).getD 0) acc) := by
  induction s with
  | nil => intro acc b hb; simp_all [hexBody]
  | cons c s ih =>
    intro acc b _
    obtain ⟨d, hd⟩ := Option.isSome_iff_exists.mp (hs c (List.mem_cons_self _ _))
    have hc : c ≠ '_' := by
      rintro rfl
      cases hd
    rw [hexBody.eq_3 _ _ _ _ hc, hd, List.foldl_cons, hd, Option.getD_some]
    exact ih (fun x hx => hs x (List.mem_cons_of_mem _ hx)) _ true (Or.inr rfl)

include hs in
theorem hexUnsigned_splitSign_of_digits (hne : s ≠ []) :
    (splitSign s).1 = false ∧ hexUnsigned (splitSign s).2 = some (hexValue s) := by
  have hnot : ∀ {c r}, s = c :: r → (hexDigitVal c).isSome = false → False :=
    fun e h => by simp [hs _ (e ▸ List.mem_cons_self _ _)] at h
  have hx : 'x' ∉ s := fun h => absurd (hs 'x' h) (by decide)
  have hX : 'X' ∉ s := fun h => absurd (hs 'X' h) (by decide)
  rw [splitSign.eq_3 s (fun _ e => hnot e rfl) (fun _ e => hnot e rfl),
    hexUnsigned.eq_5 s (fun _ e => hx (by simp [e])) (fun _ e => hx (by simp [e]))
      (fun _ e => hX (by simp [e])) (fun _ e => hX (by simp [e])),
    hexBody_of_digits hs 0 false (Or.inl hne)]
  exact ⟨rfl, rfl⟩

end Digits

/-- `int(s, 16)` of sixteen hexadecimal digits is their value. -/
theorem pyIntBase16_of_isHex16 {s : List Char} (h : isHex16 s = true) :
    pyIntBase16 ⟨s⟩ = some (hexValue s : ℤ) := by
  simp only [isHex16, Bool.and_eq_true, beq_iff_eq, List.all_eq_true] at h
  obtain ⟨hlen, hs⟩ := h
  have hne : s ≠ [] := fun e => by simp [e] at hlen
  have hstrip : pyStrip s = s :=
    pyStrip_of_splitsInto (.single ⟨hne, fun c hc => pyIsSpace_of_hexDigit (hs c hc)⟩)
  obtain ⟨h1, h2⟩ := hexUnsigned_splitSign_of_digits hs hne
  simp [pyIntBase16, hstrip, h1, h2]

theorem size_of_isHex16 {s : List Char} (h : isHex16 s = true) :
    (if (⟨s⟩ : String) = "*ABS*" then 0 else (pyIntBase16 ⟨s⟩).getD 0) = (hexValue s : ℤ) := by
  have habs : (⟨s⟩ : String) ≠ "*ABS*" := fun e => by
    rw [show s = "*ABS*".data from congrArg String.data e] at h
    exact absurd h (by decide)
  rw [if_neg habs, pyIntBase16_of_isHex16 h]
  rfl

/-! ### The address, printed back

`f"{address:016x}"` of the value of sixteen hexadecimal digits gives back those digits in
lowercase: the digits of the value, after as many zeros as the text starts with. -/

theorem digitChar_hexDigitVal {c : Char} {v : ℕ} (h : hexDigitVal c = some v) :
    v < 16 ∧ Nat.digitChar v = c.toLower := by
  have hc : c = Char.ofNat c.toNat := (Char.ofNat_toNat c).symm
  unfold hexDigitVal at h
  split_ifs at h with h1 h2 h3 <;> cases h
  · have : 48 ≤ c.toNat ∧ c.toNat ≤ 57 := h1
    generalize c.toNat = k at this hc ⊢
    subst hc
    obtain ⟨hl, hu⟩ := this
    interval_cases k <;> decide
  · have : 97 ≤ c.toNat ∧ c.toNat ≤ 102 := h2
    generalize c.toNat = k at this hc ⊢
    subst hc
    obtain ⟨hl, hu⟩ := this
    interval_cases k <;> decide
  · have : 65 ≤ c.toNat ∧ c.toNat ≤ 70 := h3
    generalize c.toNat = k at this hc ⊢
    subst hc
    obtain ⟨hl, hu⟩ := this
    interval_cases k <;> decide

theorem hexValue_append_singleton (s : List Char) (c : Char) :
    hexValue (s ++ [c]) = 16 * hexValue s + (hexDigitVal c).getD 0 := by
  simp [hexValue]

theorem map_toLower_of_hexValue_eq_zero {s : List Char} (hs : ∀ c ∈ s, (hexDigitVal c).isSome)
    (h0 : hexValue s = 0) : s.map Char.toLower = List.replicate s.length '0' := by
  induction s using List.reverseRecOn with
  | nil => rfl
  | append_singleton r c ih =>
    obtain ⟨v, hv⟩ := Option.isSome_iff_exists.mp (hs c (by simp))
    rw [hexValue_append_singleton, hv, Option.getD_some] at h0
    have hr : hexValue r = 0 := by omega
    have hv0 : v = 0 := by omega
    subst hv0
    rw [List.map_append, ih (fun c hc => hs c (by simp [hc])) hr, List.length_append,
      List.length_singleton, List.replicate_succ', List.map_singleton,
      ← (digitChar_hexDigitVal hv).2]
    rfl

theorem hexValue_digits {s : List Char} (hs : ∀ c ∈ s, (hexDigitVal c).isSome) (hne : s ≠ []) :
    List.replicate (s.length - (Nat.toDigits 16 (hexValue s)).length) '0' ++
      Nat.toDigits 16 (hexValue s) = s.map Char.toLower := by
  induction s using List.reverseRecOn with
  | nil => exact absurd rfl hne
  | append_singleton r c ih =>
    have hr : ∀ c ∈ r, (hexDigitVal c).isSome := fun c hc => hs c (by simp [hc])
    obtain ⟨v, hv⟩ := Option.isSome_iff_exists.mp (hs c (by simp))
    obtain ⟨hv16, hvc⟩ := digitChar_hexDigitVal hv
    rw [hexValue_append_singleton, hv, Option.getD_some, List.map_append, List.map_singleton,
      ← hvc, List.length_append, List.length_singleton]
    by_cases h0 : hexValue r = 0
    · rw [h0, Nat.mul_zero, Nat.zero_add, toDigits_of_lt hv16,
        map_toLower_of_hexValue_eq_zero hr h0]
      simp
    · have hne' : r ≠ [] := by rintro rfl; exact h0 rfl
      have hdiv : (16 * hexValue r + v) / 16 = hexValue r := by omega
      have hmod : (16 * hexValue r + v) % 16 = v := by omega
      rw [toDigits_of_div_ne_zero (by norm_num) (by rw [hdiv]; exact h0), hdiv, hmod,
        ← ih hr hne', List.length_append, List.length_singleton, List.append_assoc]
      congr 2
      omega

theorem pyHex016_hexValue {s : List Char} (h : isHex16 s = true) :
    pyHex016 (hexValue s) = ⟨s.map Char.toLower⟩ := by
  simp only [isHex16, Bool.and_eq_true, beq_iff_eq, List.all_eq_true] at h
  obtain ⟨hlen, hs⟩ := h
  have hne : s ≠ [] := fun e => by simp [e] at hlen
  have hpos : ¬ (hexValue s : ℤ) < 0 := by omega
  rw [← hexValue_digits hs hne, hlen]
  simp [pyHex016, hpos]

/-! ### Parsing a line -/

section Line

variable {n : ℕ} {line : String} {a f sec size : List Char}

theorem parseSymbolLine_five {name : List Char}
    (h : reSplitWs (pyStrip line.data) = [a, f, sec, size, name]) (ha : isHex16 a = true)
    (hs : isHex16 size = true) :
    parseSymbolLine n line = some ⟨hexValue a, ⟨a⟩, ⟨f⟩, "", ⟨sec⟩, hexValue size, ⟨size⟩, ⟨name⟩, n⟩ := by
  simp only [parseSymbolLine, h, List.map_cons, List.map_nil, ha, if_true, size_of_isHex16 hs,
    pyIntBase16_of_isHex16 ha, Option.getD_some]

theorem parseSymbolLine_six {t w : List Char} {ws : List (List Char)}
    (h : reSplitWs (pyStrip line.data) = a :: f :: t :: sec :: size :: w :: ws)
    (ha : isHex16 a = true) (hs : isHex16 size = true) :
    parseSymbolLine n line = some ⟨hexValue a, ⟨a⟩, ⟨f⟩, ⟨t⟩, ⟨sec⟩, hexValue size, ⟨size⟩,
      " ".intercalate ((w :: ws).map String.mk), n⟩ := by
  simp only [parseSymbolLine, h, List.map_cons, ha, if_true, reduceCtorEq, if_false,
    size_of_isHex16 hs, pyIntBase16_of_isHex16 ha, Option.getD_some]

end Line

theorem reSplitWs_objdump {line : String} {pre gap : List Char} {parts words : List (List Char)}
    (hline : line.data = pre ++ gap ++ [' '].intercalate words) (hpre : SplitsInto parts pre)
    (hgap : IsGap gap) (hwords : ∀ w ∈ words, IsWord w) (hne : words ≠ []) :
    reSplitWs (pyStrip line.data) = parts ++ words := by
  have hsplit : SplitsInto (parts ++ words) line.data :=
    hline ▸ hpre.append hgap (splitsInto_intercalate hwords hne)
  rw [reSplitWs, pyStrip_of_splitsInto hsplit]
  exact reSplitWs_of_splitsInto hsplit false

/-- **Parsing an objdump line.**  A line made of a sixteen-digit address, a flag column of two
groups, or of one group when the name is one word, a section, a sixteen-digit size and a name
of words joined by single spaces gives exactly one symbol, which holds the line's fields. -/
theorem parseSymbolLine_objdump {line : String} {pre gap address sec size : List Char}
    {groups words : List (List Char)} (n : ℕ)
    (hline : line.data = pre ++ gap ++ [' '].intercalate words)
    (hpre : SplitsInto (address :: groups ++ [sec, size]) pre) (hgap : IsGap gap)
    (hwords : ∀ w ∈ words, IsWord w) (hne : words ≠ [])
    (haddress : isHex16 address = true) (hsize : isHex16 size = true)
    (hgroups : groups.length = 2 ∨ groups.length = 1 ∧ words.length = 1) :
    ∃ sym, (∀ lines, parseFrom n (line :: lines) = sym :: parseFrom (n + 1) lines) ∧
      sym.address = hexValue address ∧ sym.size = hexValue size ∧ sym.sectionName.data = sec ∧
      sym.name.data = [' '].intercalate words ∧
      [sym.flags.data, sym.type.data].filter (fun g => !g.isEmpty) = groups := by
  have hparts := reSplitWs_objdump hline hpre hgap hwords hne
  have hgw : ∀ g ∈ groups, IsWord g := fun g hg => hpre.isWord g (by simp [hg])
  rcases hgroups with h2 | ⟨h1, hw1⟩
  · obtain ⟨g1, g2, rfl⟩ := List.length_eq_two.mp h2
    obtain ⟨w, ws, rfl⟩ := List.exists_cons_of_ne_nil hne
    simp only [List.cons_append, List.singleton_append, List.nil_append] at hparts
    refine ⟨_, fun lines => by rw [parseFrom, parseSymbolLine_six hparts haddress hsize]; rfl,
      rfl, rfl, rfl, data_intercalate_space _, ?_⟩
    simp [(hgw g1 (by simp)).1, (hgw g2 (by simp)).1]
  · obtain ⟨g1, rfl⟩ := List.length_eq_one.mp h1
    obtain ⟨w, rfl⟩ := List.length_eq_one.mp hw1
    simp only [List.cons_append, List.singleton_append, List.nil_append] at hparts
    refine ⟨_, fun lines => by rw [parseFrom, parseSymbolLine_five hparts haddress hsize]; rfl,
      rfl, rfl, rfl, by simp [List.intercalate], ?_⟩
    simp [(hgw g1 (by simp)).1]

theorem parseSymbolLine_objdump_main :
    ∃ sym, (∀ lines, parseFrom 1 ("0000000040080000 g     F .text\t0000000000000010 main" :: lines) =
        sym :: parseFrom (1 + 1) lines) ∧
      sym.address = hexValue "0000000040080000".data ∧ sym.size = hexValue "0000000000000010".data ∧
      sym.sectionName.data = ".text".data ∧ sym.name.data = [' '].intercalate ["main".data] ∧
      [sym.flags.data, sym.type.data].filter (fun g => !g.isEmpty) = ["g".data, "F".data] :=
  @parseSymbolLine_objdump _ "0000000040080000 g     F .text\t0000000000000010".data [' ']
    "0000000040080000".data ".text".data "0000000000000010".data ["g".data, "F".data] ["main".data] 1
    (by decide)
    (@SplitsInto.cons _ [' '] _ _ (by decide) (by decide) <| @SplitsInto.cons _ "     ".data _ _
      (by decide) (by decide) <| @SplitsInto.cons _ [' '] _ _ (by decide) (by decide) <|
      @SplitsInto.cons _ ['\t'] _ _ (by decide) (by decide) <| .single (by decide))
    (by decide) (by decide) (by decide) (by decide) (by decide) (.inl rfl)

/-- A blank flag column and a one-word name, as for an undefined symbol, leave four parts and
no symbol; one flag group and a name of two words are read as type, section, size and name. -/
theorem parseSymbolLine_und :
    (parseSymbols ["0000000000000000         *UND*\t0000000000000000 printf"]).1 = [] ∧
      (parseSymbols ["0000000040080148 l       .text\t0000000000000000 foo bar"]).1.map
        Symbol.sectionName = ["0000000000000000"] := by
  decide

theorem parseSymbolLine_address {n : ℕ} {line : String} {x : Symbol}
    (h : parseSymbolLine n line = some x) : pyHex016 x.address = pyLower x.addressStr := by
  unfold parseSymbolLine at h
  split at h
  · next addressStr _ _ _ _ _ _ =>
    split_ifs at h with ha <;> obtain rfl := Option.some.inj h <;>
      rw [show addressStr = ⟨addressStr.data⟩ from rfl, pyIntBase16_of_isHex16 ha] <;>
      exact pyHex016_hexValue ha
  · cases h

theorem mem_parseFrom {x : Symbol} : ∀ {n : ℕ} {lines : List String}, x ∈ parseFrom n lines →
    ∃ k line, parseSymbolLine k line = some x
  | _, [], h => absurd h (List.not_mem_nil _)
  | n, line :: lines, h => by
    rcases List.mem_append.mp h with h | h
    · exact ⟨n, line, Option.mem_toList.mp h⟩
    · exact mem_parseFrom h

/-- **The address, printed back.**  Every symbol `parse_symbols` returns has an address that
`f"{address:016x}"` prints as the address text of its line in lowercase. -/
theorem parseSymbols_address (symbolLines : List String) :
    ∀ x ∈ (parseSymbols symbolLines).1, pyHex016 x.address = pyLower x.addressStr := fun _ hx =>
  let ⟨_, _, h⟩ := mem_parseFrom hx
  parseSymbolLine_address h

theorem parseSymbols_address_upper :
    pyHex016 0x400800AB = pyLower "00000000400800AB" :=
  parseSymbols_address ["00000000400800AB l     F .text\t0000000000000010 helper"]
    ⟨0x400800AB, "00000000400800AB", "l", "F", ".text", 0x10, "0000000000000010", "helper", 1⟩
    (by decide)

/-! ### Reading the table -/

/-- The stripped, non-empty lines from the line after `SYMBOL TABLE:` to the line before
`Disassembly of section .text:`, or to the end, with what is printed on the way. -/
def symbolSection (lines : List (List Char)) : List String × List String :=
  match lines.findIdx? fun l => pyStrip l == "SYMBOL TABLE:".data with
  | none => ([], ["错误: 在文件中未找到 'SYMBOL TABLE:' 标记"])
  | some i =>
    let rest := lines.drop (i + 1)
    let (body, warning) :=
      match rest.findIdx? fun l => "Disassembly of section .text:".data.isPrefixOf (pyStrip l) with
      | some j => (rest.take j, [])
      | none => (rest, ["警告: 未找到 'Disassembly of section .text:' 标记，读取到文件末尾"])
    let symbolLines := ((body.map pyStrip).filter (· ≠ [])).map String.mk
    (symbolLines, warning ++ ["成功读取 " ++ toString symbolLines.length ++ " 行符号数据"])

theorem symbolSection_between {pre body post : List (List Char)} {start stop : List Char}
    (hpre : ∀ l ∈ pre, pyStrip l ≠ "SYMBOL TABLE:".data)
    (hstart : pyStrip start = "SYMBOL TABLE:".data)
    (hbody : ∀ l ∈ body, ¬"Disassembly of section .text:".data <+: pyStrip l)
    (hstop : "Disassembly of section .text:".data <+: pyStrip stop) :
    symbolSection (pre ++ start :: (body ++ stop :: post)) =
      (((body.map pyStrip).filter (· ≠ [])).map String.mk,
        ["成功读取 " ++ toString ((body.map pyStrip).filter (· ≠ [])).length ++ " 行符号数据"]) := by
  have h1 : (pre ++ start :: (body ++ stop :: post)).findIdx?
      (fun l => pyStrip l == "SYMBOL TABLE:".data) = some pre.length := by
    rw [List.findIdx?_append, List.findIdx?_eq_none_iff.mpr fun l hl => by simpa using hpre l hl]
    simp [hstart]
  have h2 : (body ++ stop :: post).findIdx?
      (fun l => "Disassembly of section .text:".data.isPrefixOf (pyStrip l)) = some body.length := by
    rw [List.findIdx?_append, List.findIdx?_eq_none_iff.mpr fun l hl =>
      Bool.eq_false_iff.mpr fun h => hbody l hl (List.isPrefixOf_iff_prefix.mp h)]
    simp [List.isPrefixOf_iff_prefix.mpr hstop]
  have hdrop : (pre ++ start :: (body ++ stop :: post)).drop (pre.length + 1) = body ++ stop :: post := by
    simp [List.drop_append_eq_append_drop]
  simp only [symbolSection, h1, hdrop, h2, List.take_left, List.nil_append, List.length_map]

/-- `read_symbol_table_from_file(file_path)` on the tree `fs`: the symbol lines and what is
printed.  Opening a directory raises `IsADirectoryError`, which the function prints. -/
def readSymbolTableFromFile (fs : SourceTree) (filePath : String) : List String × List String :=
  if !fs.pathExists filePath then ([], ["错误: 文件 " ++ filePath ++ " 不存在"])
  else
    match fs.readFile filePath with
    | some text => symbolSection (readLines text.data)
    | none => ([], ["错误: 读取文件时出现异常: [Errno 21] Is a directory: '" ++ filePath ++ "'"])

/-- **Reading the symbol table.**  For a file whose lines hold a `SYMBOL TABLE:` line after
lines that are not one, and a line starting `Disassembly of section .text:` after lines that do
not, `read_symbol_table_from_file` returns the lines strictly between the two, stripped and
without the blank ones, and prints only their number. -/
theorem readSymbolTableFromFile_between {fs : SourceTree} {filePath text : String}
    {pre body post : List (List Char)} {start stop : List Char}
    (hread : fs.readFile filePath = some text)
    (hlines : readLines text.data = pre ++ start :: (body ++ stop :: post))
    (hpre : ∀ l ∈ pre, pyStrip l ≠ "SYMBOL TABLE:".data)
    (hstart : pyStrip start = "SYMBOL TABLE:".data)
    (hbody : ∀ l ∈ body, ¬"Disassembly of section .text:".data <+: pyStrip l)
    (hstop : "Disassembly of section .text:".data <+: pyStrip stop) :
    readSymbolTableFromFile fs filePath =
      (((body.map pyStrip).filter (· ≠ [])).map String.mk,
        ["成功读取 " ++ toString ((body.map pyStrip).filter (· ≠ [])).length ++ " 行符号数据"]) := by
  simp only [readSymbolTableFromFile, fs.pathExists_of_readFile hread, hread, hlines, Bool.not_true,
    Bool.false_eq_true, if_false]
  exact symbolSection_between hpre hstart hbody hstop

/-- A listing of one symbol line, a blank line and the start of the disassembly. -/
def disTree : SourceTree :=
  ⟨⟨[(["build", "dis.txt"], "SYMBOL TABLE:\n0000000040080000 g     F .text\t0000000000000010 main\n\n" ++
    "Disassembly of section .text:\n")], by decide⟩, [], by decide⟩

theorem readSymbolTableFromFile_disTree :
    readSymbolTableFromFile disTree "build/dis.txt" =
      (((["0000000040080000 g     F .text\t0000000000000010 main\n".data, ['\n']].map pyStrip).filter
          (· ≠ [])).map String.mk,
        ["成功读取 " ++ toString ((["0000000040080000 g     F .text\t0000000000000010 main\n".data,
          ['\n']].map pyStrip).filter (· ≠ [])).length ++ " 行符号数据"]) :=
  @readSymbolTableFromFile_between disTree "build/dis.txt" _ [] _ [] "SYMBOL TABLE:\n".data
    "Disassembly of section .text:\n".data rfl (by decide) (by simp) (by decide) (by decide) (by decide)

end Symbols

end Avatar
