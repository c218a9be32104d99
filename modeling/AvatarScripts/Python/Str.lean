import Mathlib

/-! # Python string primitives

The analyzer reads file names, paths and file text through a handful of `str` operations.
Each is modelled on the characters of the string (`String.data`), so that every test on a
concrete string evaluates by `decide`:

* `pyIsSpace` is `str.isspace` on one character; it is also the class `\s` of a `str` pattern
  and what `str.strip()` removes;
* `pyIn` and `pyEndsWith` are `sub in s` and `s.endswith(suffixes)` with a tuple of suffixes;
* `readLines` splits a text as iterating a file opened in text mode does (universal newlines).

`takeWhile_dropWhile_of_split` is the uniqueness fact behind every "the match is" argument of
the include parser: a run of `p`-characters followed by a character outside `p` is exactly the
`takeWhile` of `p`. -/

namespace Avatar

/-- `c.isspace()`: the characters of bidirectional class WS, B or S or of category Zs, which
are also those `\s` matches in a `str` pattern. -/
def pyIsSpace (c : Char) : Bool :=
  let n := c.toNat
  (0x09 ≤ n && n ≤ 0x0D) || (0x1C ≤ n && n ≤ 0x20) || n == 0x85 || n == 0xA0 || n == 0x1680 ||
    (0x2000 ≤ n && n ≤ 0x200A) || n == 0x2028 || n == 0x2029 || n == 0x202F || n == 0x205F ||
    n == 0x3000

/-- `s.strip()`: `s` without leading and trailing whitespace. -/
def pyStrip (s : List Char) : List Char :=
  ((s.dropWhile pyIsSpace).reverse.dropWhile pyIsSpace).reverse

/-- `sub in s` for strings: `sub` occurs in `s` as a substring. -/
def pyIn (sub s : String) : Bool := decide (sub.data <:+: s.data)

/-- `s.endswith(suffixes)` with a tuple of suffixes. -/
def pyEndsWith (s : String) (suffixes : List String) : Bool :=
  suffixes.any fun suffix => decide (suffix.data <:+ s.data)

/-- Python's `<` on the characters of two strings: code points compared lexicographically, a
proper prefix being the smaller. -/
def pyCharsLt : List Char → List Char → Bool
  | _, [] => false
  | [], _ :: _ => true
  | a :: as, b :: bs => decide (a.toNat < b.toNat) || (decide (a = b) && pyCharsLt as bs)

/-- `s < t` on `str`. -/
def pyStrLt (s t : String) : Bool := pyCharsLt s.data t.data

example : pyStrLt "boot/a.c" "boot/b.c" = true ∧ pyStrLt "boot" "boot/a.c" = true ∧
    pyStrLt "b" "a" = false := by decide

theorem eq_of_toNat_eq {a b : Char} (h : a.toNat = b.toNat) : a = b := by
  rw [← Char.ofNat_toNat a, h, Char.ofNat_toNat]

@[simp] theorem pyCharsLt_cons_cons (a b : Char) (as bs : List Char) :
    pyCharsLt (a :: as) (b :: bs) = (decide (a.toNat < b.toNat) || (decide (a = b) && pyCharsLt as bs)) :=
  rfl

theorem pyCharsLt_irrefl : ∀ s : List Char, pyCharsLt s s = false
  | [] => rfl
  | a :: s => by simp [pyCharsLt_irrefl s]

theorem pyCharsLt_trans : ∀ {s t u : List Char}, pyCharsLt s t = true → pyCharsLt t u = true →
    pyCharsLt s u = true
  | [], _ :: _, _ :: _, _, _ => rfl
  | a :: s, b :: t, c :: u, h1, h2 => by
    simp only [pyCharsLt_cons_cons, Bool.or_eq_true, Bool.and_eq_true, decide_eq_true_eq] at h1 h2 ⊢
    rcases h1 with h1 | ⟨rfl, h1⟩ <;> rcases h2 with h2 | ⟨rfl, h2⟩
    · exact Or.inl (by omega)
    · exact Or.inl h1
    · exact Or.inl h2
    · exact Or.inr ⟨rfl, pyCharsLt_trans h1 h2⟩
  | _, [], _, h1, _ => by simp [pyCharsLt] at h1
  | _, _ :: _, [], _, h2 => by simp [pyCharsLt] at h2

theorem pyCharsLt_asymm {s t : List Char} (h : pyCharsLt s t = true) : pyCharsLt t s = false :=
  Bool.eq_false_iff.mpr fun h' => by simpa [pyCharsLt_irrefl] using pyCharsLt_trans h h'

theorem pyCharsLt_trichotomy : ∀ (s t : List Char), s ≠ t → pyCharsLt s t = true ∨ pyCharsLt t s = true
  | [], [], h => absurd rfl h
  | [], _ :: _, _ => Or.inl rfl
  | _ :: _, [], _ => Or.inr rfl
  | a :: s, b :: t, h => by
    simp only [pyCharsLt_cons_cons, Bool.or_eq_true, Bool.and_eq_true, decide_eq_true_eq]
    by_cases hab : a.toNat < b.toNat
    · exact Or.inl (Or.inl hab)
    by_cases hba : b.toNat < a.toNat
    · exact Or.inr (Or.inl hba)
    obtain rfl := eq_of_toNat_eq (by omega : a.toNat = b.toNat)
    rcases pyCharsLt_trichotomy s t fun e => h (e ▸ rfl) with h' | h'
    · exact Or.inl (Or.inr ⟨rfl, h'⟩)
    · exact Or.inr (Or.inr ⟨rfl, h'⟩)

/-- `sorted` on strings puts `a` before `b` unless `b < a`: a total relation. -/
theorem pyStrLt_eq_false_total (a b : String) : pyStrLt b a = false ∨ pyStrLt a b = false := by
  cases h : pyStrLt b a
  · exact Or.inl rfl
  · exact Or.inr (pyCharsLt_asymm h)

theorem pyStrLt_eq_false_trans {a b c : String} (hab : pyStrLt b a = false)
    (hbc : pyStrLt c b = false) : pyStrLt c a = false := Bool.eq_false_iff.mpr fun hca => by
  by_cases e : a = b
  · subst e
    simp [hca] at hbc
  · have hlt : pyStrLt a b = true := (pyCharsLt_trichotomy a.data b.data fun h => e (String.ext h)).resolve_right
      fun h' => by simp [pyStrLt, h'] at hab
    simp [pyStrLt, pyCharsLt_trans hca hlt] at hbc

/-- The lines `for line in f` yields, the current line `cur` being read: `\r\n`, `\r` and `\n`
each end a line and are read as `\n`, which the line keeps; a last line without terminator is
yielded as it is. -/
def readLinesFrom : List Char → List Char → List (List Char)
  | [], cur => if cur = [] then [] else [cur]
  | '\r' :: '\n' :: cs, cur => (cur ++ ['\n']) :: readLinesFrom cs []
  | '\r' :: cs, cur => (cur ++ ['\n']) :: readLinesFrom cs []
  | '\n' :: cs, cur => (cur ++ ['\n']) :: readLinesFrom cs []
  | c :: cs, cur => readLinesFrom cs (cur ++ [c])

/-- The lines of a file opened in text mode with universal newlines. -/
def readLines (text : List Char) : List (List Char) := readLinesFrom text []

example : readLines "a\r\nb\rc\n\nd".data = ["a\n".data, "b\n".data, "c\n".data, "\n".data, "d".data] := by
  decide

/-- The text `f.read()` returns for a file opened in text mode with universal newlines: `\r\n`
and `\r` are each read as `\n`. -/
def universalNewlines : List Char → List Char
  | [] => []
  | '\r' :: '\n' :: cs => '\n' :: universalNewlines cs
  | '\r' :: cs => '\n' :: universalNewlines cs
  | c :: cs => c :: universalNewlines cs

example : universalNewlines "a\r\nb\rc\n".data = "a\nb\nc\n".data := by decide

/-- Text read with universal newlines holds no carriage return. -/
theorem cr_not_mem_universalNewlines (s : List Char) : '\r' ∉ universalNewlines s := by
  induction s using universalNewlines.induct with
  | case1 => simp [universalNewlines]
  | case2 cs ih => simpa [universalNewlines] using ih
  | case3 cs h ih => simpa [universalNewlines] using ih
  | case4 c cs h1 h2 ih => simpa [universalNewlines.eq_4 c cs h1 h2, Ne.symm h2] using ih

/-- A text without carriage returns reads as itself. -/
theorem universalNewlines_append_of_not_mem : ∀ {x : List Char}, '\r' ∉ x → ∀ y,
    universalNewlines (x ++ y) = x ++ universalNewlines y
  | [], _, y => rfl
  | c :: x, h, y => by
    have hc : c ≠ '\r' := fun e => h (e ▸ List.mem_cons_self _ _)
    rw [List.cons_append, universalNewlines.eq_4 _ _ (fun _ e _ => hc e) hc,
      universalNewlines_append_of_not_mem (fun e => h (List.mem_cons_of_mem _ e))]
    rfl

/-- `s.startswith(pre)`. -/
def pyStartsWith (s pre : String) : Bool := decide (pre.data <+: s.data)

/-- `s.replace(old, '')`: `s` without the character `old`. -/
def pyReplace (s : String) (old : Char) : String := ⟨s.data.filter (· != old)⟩

/-- `s.lower()` on ASCII text: `A`–`Z` are lowered and every other character is kept.  This is
`str.lower` on the texts it is used for, hexadecimal digits and the suffixes the header table is
looked up by, where no character outside ASCII lowers to a key; the name sort of the symbol tool,
which lowers any name, takes `str.lower` as a parameter instead. -/
def pyLower (s : String) : String := ⟨s.data.map Char.toLower⟩

/-- `s.split(sep, 1)`: the text before the first `sep` and, if there is one, the text after it. -/
def pySplitOnce (s : String) (sep : Char) : List String :=
  match s.data.span (· != sep) with
  | (a, []) => [⟨a⟩]
  | (a, _ :: b) => [⟨a⟩, ⟨b⟩]

/-- `re.split(r'\s+', s)` read from the piece `cur`, `inWs` telling whether the character before
was whitespace: every maximal run of whitespace separates two pieces. -/
def reSplitWsFrom : List Char → List Char → Bool → List (List Char)
  | [], cur, _ => [cur]
  | c :: cs, cur, inWs =>
    if pyIsSpace c then
      if inWs then reSplitWsFrom cs cur true else cur :: reSplitWsFrom cs [] true
    else reSplitWsFrom cs (cur ++ [c]) false

/-- `re.split(r'\s+', s)`. -/
def reSplitWs (s : List Char) : List (List Char) := reSplitWsFrom s [] false

example : reSplitWs "a \t b".data = ["a".data, "b".data] ∧ reSplitWs " a".data = ["".data, "a".data] ∧
    reSplitWs "".data = [[]] := by decide

/-! ### Splitting at the end of a run -/

theorem takeWhile_dropWhile_of_split {α : Type} {p : α → Bool} {w r : List α} {c : α}
    (hw : ∀ x ∈ w, p x) (hc : p c = false) :
    (w ++ c :: r).takeWhile p = w ∧ (w ++ c :: r).dropWhile p = c :: r := by
  rw [List.takeWhile_append_of_pos hw, List.dropWhile_append_of_pos hw,
    List.takeWhile_cons_of_neg (by simp [hc]), List.dropWhile_cons_of_neg (by simp [hc]),
    List.append_nil]
  exact ⟨rfl, rfl⟩

theorem not_of_dropWhile_eq_cons {α : Type} {p : α → Bool} {l r : List α} {c : α}
    (h : l.dropWhile p = c :: r) : p c = false := by
  induction l with
  | nil => cases h
  | cons a l ih =>
    by_cases ha : p a
    · rw [List.dropWhile_cons_of_pos ha] at h
      exact ih h
    · rw [List.dropWhile_cons_of_neg ha] at h
      cases h
      simpa using ha

theorem eq_takeWhile_append_of_dropWhile_eq_cons {α : Type} {p : α → Bool} {l r : List α} {c : α}
    (h : l.dropWhile p = c :: r) : l = l.takeWhile p ++ c :: r ∧ p c = false :=
  ⟨by rw [← h, List.takeWhile_append_dropWhile], not_of_dropWhile_eq_cons h⟩

theorem pySplitOnce_of_split {s : String} {sep : Char} {a b : List Char} (hs : s.data = a ++ sep :: b)
    (ha : sep ∉ a) : pySplitOnce s sep = [⟨a⟩, ⟨b⟩] := by
  have ha' : ∀ x ∈ a, (x != sep) = true := fun x hx => bne_iff_ne.mpr fun e => ha (e ▸ hx)
  obtain ⟨h1, h2⟩ := @takeWhile_dropWhile_of_split Char (· != sep) a b sep ha' (by simp)
  simp only [pySplitOnce, List.span_eq_take_drop, hs, h1, h2]

/-- `s.split(sep, 1)` of a text with a `sep` splits it at the first one. -/
theorem pySplitOnce_of_mem {s : String} {sep : Char} (h : sep ∈ s.data) :
    ∃ b, s.data = s.data.takeWhile (· != sep) ++ sep :: b ∧
      pySplitOnce s sep = [⟨s.data.takeWhile (· != sep)⟩, ⟨b⟩] := by
  obtain ⟨b, hb⟩ : ∃ b, s.data.dropWhile (· != sep) = sep :: b := by
    rcases hd : s.data.dropWhile (· != sep) with _ | ⟨c, r⟩
    · exact absurd (List.dropWhile_eq_nil_iff.mp hd sep h) (by simp)
    · exact ⟨r, by rw [show c = sep by simpa using not_of_dropWhile_eq_cons hd]⟩
  have hs := (eq_takeWhile_append_of_dropWhile_eq_cons hb).1
  exact ⟨b, hs, pySplitOnce_of_split hs fun hm => by simpa using List.mem_takeWhile_imp hm⟩

theorem pySplitOnce_of_not_mem {s : String} {sep : Char} (h : sep ∉ s.data) :
    pySplitOnce s sep = [s] := by
  have hall : ∀ x ∈ s.data, (x != sep) = true := fun x hx => bne_iff_ne.mpr fun e => h (e ▸ hx)
  simp only [pySplitOnce, List.span_eq_take_drop, List.takeWhile_eq_self_iff.mpr hall,
    List.dropWhile_eq_nil_iff.mpr hall]

/-- `f"{s:<w}"`: `s` padded with spaces on the right to `w` characters. -/
def pyLjust (s : String) (w : ℕ) : String := ⟨s.data ++ List.replicate (w - s.length) ' '⟩

/-- `f"{s:>w}"`: `s` padded with spaces on the left to `w` characters. -/
def pyRjust (s : String) (w : ℕ) : String := ⟨List.replicate (w - s.length) ' ' ++ s.data⟩

/-! ### Formatting numbers -/

/-- `f"{n:016x}"`: `n` in lowercase hexadecimal, padded with zeros after the sign to 16
characters. -/
def pyHex016 (n : ℤ) : String :=
  let sign := if n < 0 then ['-'] else []
  let digits := Nat.toDigits 16 n.natAbs
  ⟨sign ++ List.replicate (16 - sign.length - digits.length) '0' ++ digits⟩

/-- `a / d` rounded to the nearest natural number, ties to even. -/
def roundHalfEven (a d : ℕ) : ℕ :=
  if d < 2 * (a % d) ∨ 2 * (a % d) = d ∧ a / d % 2 = 1 then a / d + 1 else a / d

/-- `float(n)`: `n` rounded to 53 significant bits, ties to even. -/
def roundToDouble (n : ℕ) : ℕ :=
  let e := (Nat.toDigits 2 n).length - 53
  roundHalfEven n (2 ^ e) * 2 ^ e

/-- `f"{x:.1f}"` of the float `x = m / 2 ^ k`: its value rounded to tenths, ties to even, as
Python's correctly rounded formatting gives it. -/
def pyFormatTenths (m k : ℕ) : String :=
  let t := roundHalfEven (10 * m) (2 ^ k)
  toString (t / 10) ++ "." ++ toString (t % 10)

example : pyHex016 0x40080000 = "0000000040080000" ∧ pyHex016 (-255) = "-0000000000000ff" ∧
    pyFormatTenths (roundToDouble 1126) 10 = "1.1" ∧ pyFormatTenths (roundToDouble 1075) 10 = "1.0" := by
  decide

/-! ### The digits of a number -/

/-- `Nat.toDigitsCore` with enough fuel puts the digits of `n` in front of what it has. -/
theorem toDigitsCore_eq_toDigits_append {b : ℕ} (hb : 1 < b) (n : ℕ) :
    ∀ f acc, n < f → Nat.toDigitsCore b f n acc = Nat.toDigits b n ++ acc := by
  induction n using Nat.strong_induction_on with
  | _ n ih =>
  intro f acc hf
  obtain ⟨f, rfl⟩ : ∃ f', f = f' + 1 := ⟨f - 1, by omega⟩
  simp only [Nat.toDigits, Nat.toDigitsCore]
  split_ifs with h
  · rfl
  · have hlt : n / b < n := Nat.div_lt_self (Nat.pos_of_ne_zero fun e => h (by simp [e])) hb
    rw [ih _ hlt f _ (by omega), ih _ hlt n _ hlt, List.append_assoc]
    rfl

theorem toDigits_of_div_ne_zero {b n : ℕ} (hb : 1 < b) (h : n / b ≠ 0) :
    Nat.toDigits b n = Nat.toDigits b (n / b) ++ [Nat.digitChar (n % b)] := by
  have hlt : n / b < n := Nat.div_lt_self (Nat.pos_of_ne_zero fun e => h (by simp [e])) hb
  conv_lhs => unfold Nat.toDigits
  simp only [Nat.toDigitsCore, h, if_false]
  exact toDigitsCore_eq_toDigits_append hb _ _ _ hlt

theorem toDigits_of_lt {b n : ℕ} (h : n < b) : Nat.toDigits b n = [Nat.digitChar n] := by
  have : n / b = 0 := Nat.div_eq_of_lt h
  simp [Nat.toDigits, Nat.toDigitsCore, this, Nat.mod_eq_of_lt h]

theorem data_intercalate_sep (sep c : String) (cs : List String) :
    (sep.intercalate (c :: cs)).data = c.data ++ cs.flatMap fun d => sep.data ++ d.data := by
  suffices ∀ acc, (String.intercalate.go acc sep cs).data =
      acc.data ++ cs.flatMap fun d => sep.data ++ d.data from this c
  induction cs with
  | nil => simp [String.intercalate.go]
  | cons d ds ih =>
    intro acc
    simp only [String.intercalate.go, ih, String.data_append, List.flatMap_cons, List.append_assoc]

theorem intercalate_cons_cons {α : Type} (sep w w' : List α) (ws : List (List α)) :
    sep.intercalate (w :: w' :: ws) = w ++ sep ++ sep.intercalate (w' :: ws) := by
  simp [List.intercalate, List.intersperse_cons₂]

theorem intercalate_cons_eq_flatMap {α : Type} (sep w : List α) (ws : List (List α)) :
    sep.intercalate (w :: ws) = w ++ ws.flatMap (sep ++ ·) := by
  induction ws generalizing w with
  | nil => simp [List.intercalate]
  | cons w' ws ih => rw [intercalate_cons_cons, ih]; simp

theorem data_intercalate_space (ws : List (List Char)) :
    (" ".intercalate (ws.map String.mk)).data = [' '].intercalate ws := by
  cases ws with
  | nil => rfl
  | cons w ws =>
    rw [List.map_cons, data_intercalate_sep, intercalate_cons_eq_flatMap, List.flatMap_map]

/-! ### Splitting at whitespace

`re.split(r'\s+', text)` of a text made of words with a gap of whitespace between each two gives
back the words (`reSplitWs_of_splitsInto`), and such a text is its own `strip()`
(`pyStrip_of_splitsInto`). -/

/-- A word: non-empty and without whitespace. -/
def IsWord (w : List Char) : Prop := w ≠ [] ∧ ∀ c ∈ w, pyIsSpace c = false

/-- A gap: a non-empty run of whitespace. -/
def IsGap (g : List Char) : Prop := g ≠ [] ∧ ∀ c ∈ g, pyIsSpace c = true

instance (w : List Char) : Decidable (IsWord w) := inferInstanceAs (Decidable (_ ∧ _))

instance (g : List Char) : Decidable (IsGap g) := inferInstanceAs (Decidable (_ ∧ _))

/-- `text` is the words `parts` with a gap between each two. -/
inductive SplitsInto : List (List Char) → List Char → Prop
  | single {w : List Char} : IsWord w → SplitsInto [w] w
  | cons {w g : List Char} {ws : List (List Char)} {rest : List Char} :
      IsWord w → IsGap g → SplitsInto ws rest → SplitsInto (w :: ws) (w ++ g ++ rest)

theorem reSplitWsFrom_word {w : List Char} (hw : ∀ c ∈ w, pyIsSpace c = false) (r : List Char) :
    ∀ (cur : List Char) (b : Bool),
      reSplitWsFrom (w ++ r) cur b = reSplitWsFrom r (cur ++ w) (if w = [] then b else false) := by
  induction w with
  | nil => simp
  | cons c w ih =>
    intro cur b
    have hc := hw c (List.mem_cons_self _ _)
    rw [List.cons_append, reSplitWsFrom, if_neg (by simp [hc]),
      ih (fun x hx => hw x (List.mem_cons_of_mem _ hx))]
    simp

theorem reSplitWsFrom_spaces {g : List Char} (hg : ∀ c ∈ g, pyIsSpace c = true) (r cur : List Char) :
    reSplitWsFrom (g ++ r) cur true = reSplitWsFrom r cur true := by
  induction g with
  | nil => rfl
  | cons c g ih =>
    rw [List.cons_append, reSplitWsFrom, if_pos (hg c (List.mem_cons_self _ _)), if_pos rfl,
      ih fun x hx => hg x (List.mem_cons_of_mem _ hx)]

theorem reSplitWsFrom_gap {g : List Char} (hg : IsGap g) (r cur : List Char) :
    reSplitWsFrom (g ++ r) cur false = cur :: reSplitWsFrom r [] true := by
  obtain ⟨c, g, rfl⟩ := List.exists_cons_of_ne_nil hg.1
  rw [List.cons_append, reSplitWsFrom, if_pos (hg.2 c (List.mem_cons_self _ _)), if_neg (by simp),
    reSplitWsFrom_spaces fun x hx => hg.2 x (List.mem_cons_of_mem _ hx)]

/-- Splitting words with gaps between them gives back the words. -/
theorem reSplitWs_of_splitsInto {ws : List (List Char)} {text : List Char} (h : SplitsInto ws text) :
    ∀ b, reSplitWsFrom text [] b = ws := by
  induction h with
  | @single w hw =>
    intro b
    have h := reSplitWsFrom_word hw.2 [] [] b
    rw [List.append_nil, if_neg hw.1] at h
    rw [h]
    rfl
  | cons hw hg _ ih =>
    intro b
    rw [List.append_assoc, reSplitWsFrom_word hw.2, if_neg hw.1, List.nil_append, reSplitWsFrom_gap hg,
      ih]

theorem SplitsInto.ends {ws : List (List Char)} {text : List Char} (h : SplitsInto ws text) :
    (∃ c r, text = c :: r ∧ pyIsSpace c = false) ∧ ∃ c r, text = r ++ [c] ∧ pyIsSpace c = false := by
  induction h with
  | single hw =>
    obtain ⟨c, r, hcr⟩ := List.exists_cons_of_ne_nil hw.1
    exact ⟨⟨c, r, hcr, hw.2 c (by simp [hcr])⟩,
      ⟨_, _, (List.dropLast_append_getLast hw.1).symm, hw.2 _ (List.getLast_mem hw.1)⟩⟩
  | @cons w g ws rest hw hg _ ih =>
    obtain ⟨c, r, hcr⟩ := List.exists_cons_of_ne_nil hw.1
    obtain ⟨c', r', hr', hc'⟩ := ih.2
    exact ⟨⟨c, r ++ g ++ rest, by simp [hcr], hw.2 c (by simp [hcr])⟩,
      ⟨c', w ++ g ++ r', by simp [hr'], hc'⟩⟩

/-- A text of words and gaps is its own `strip()`. -/
theorem pyStrip_of_splitsInto {ws : List (List Char)} {text : List Char} (h : SplitsInto ws text) :
    pyStrip text = text := by
  obtain ⟨⟨c, r, hcr, hc⟩, ⟨c', r', hr', hc'⟩⟩ := h.ends
  have h1 : text.dropWhile pyIsSpace = text := by
    rw [hcr, List.dropWhile_cons_of_neg (by simp [hc])]
  have h2 : text.reverse.dropWhile pyIsSpace = text.reverse := by
    rw [hr', List.reverse_append, List.reverse_singleton, List.singleton_append,
      List.dropWhile_cons_of_neg (by simp [hc'])]
  rw [pyStrip, h1, h2, List.reverse_reverse]

theorem SplitsInto.isWord {ws : List (List Char)} {text : List Char} (h : SplitsInto ws text) :
    ∀ w ∈ ws, IsWord w := by
  induction h with
  | single hw => simpa using hw
  | cons hw _ _ ih => exact List.forall_mem_cons.mpr ⟨hw, ih⟩

theorem SplitsInto.append {ws vs : List (List Char)} {a g b : List Char} (h : SplitsInto ws a)
    (hg : IsGap g) (hb : SplitsInto vs b) : SplitsInto (ws ++ vs) (a ++ g ++ b) := by
  induction h with
  | single hw => exact .cons hw hg hb
  | cons hw hg' _ ih =>
    simpa only [List.cons_append, List.append_assoc] using SplitsInto.cons hw hg' ih

/-- Words joined by single spaces split into the words. -/
theorem splitsInto_intercalate {ws : List (List Char)} (hw : ∀ w ∈ ws, IsWord w) (hne : ws ≠ []) :
    SplitsInto ws ([' '].intercalate ws) := by
  induction ws with
  | nil => contradiction
  | cons w ws ih =>
    cases ws with
    | nil => simpa [List.intercalate] using SplitsInto.single (hw w (List.mem_singleton_self w))
    | cons w' ws =>
      rw [intercalate_cons_cons]
      exact .cons (hw w (List.mem_cons_self _ _)) ⟨List.cons_ne_nil _ _, by simp [pyIsSpace]⟩
        (ih (fun x hx => hw x (List.mem_cons_of_mem _ hx)) (List.cons_ne_nil _ _))

end Avatar
