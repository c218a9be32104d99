import AvatarScripts.Python.Collections
import AvatarScripts.Python.Os

/-! # Include directives: `parse_includes`

`parse_includes(file_path)` reads the file line by line, strips each line, and collects group 1
of `re.match(r'#include\s*[<"]([^>"]+)[>"]', line)`; a file that cannot be opened gives the empty
set.  On every line the pattern has at most one match: `\s*` must be followed by a character of
`[<"]`, which is no space, and `[^>"]+` by one of `[>"]`, which it excludes, so both greedy
repetitions stop at the only place the match can go on.  `matchInclude` computes that match;
`IncludeDirective` reads the pattern as a grammar, and `matchInclude_eq_some_iff` says the two
agree.  Hence `mem_parseIncludes_iff`: the targets are exactly the group-1 strings of the
file's stripped lines.

The pattern does not pair the delimiters.  `#include <a.h"` yields `a.h`, and a quoted target
ends at a `>`: `#include "a>b.h"` yields `a`. -/

namespace Avatar

/-- The class `[<"]` that opens a target. -/
def isOpening (c : Char) : Bool := c == '<' || c == '"'

/-- The class `[>"]` that closes a target; a target is a run of characters outside it. -/
def isClosing (c : Char) : Bool := c == '>' || c == '"'

/-- What follows `#include\s*` in a line that starts with `#include`. -/
def afterKeyword (line : List Char) : List Char :=
  (line.drop "#include".data.length).dropWhile pyIsSpace

/-- `re.match(r'#include\s*[<"]([^>"]+)[>"]', line).group(1)`, or `none` when there is no match. -/
def matchInclude (line : List Char) : Option String :=
  if "#include".data.isPrefixOf line then
    match afterKeyword line with
    | o :: rest =>
      let target := rest.takeWhile (fun c => !isClosing c)
      if isOpening o ∧ rest.dropWhile (fun c => !isClosing c) ≠ [] ∧ target ≠ [] then
        some ⟨target⟩
      else none
    | [] => none
  else none

/-- `line` starts with a match of `#include\s*[<"]([^>"]+)[>"]` whose group 1 is `t`. -/
def IncludeDirective (line t : List Char) : Prop :=
  ∃ ws o c rest, line = "#include".data ++ ws ++ o :: t ++ c :: rest ∧
    (∀ x ∈ ws, pyIsSpace x) ∧ isOpening o ∧ t ≠ [] ∧ (∀ x ∈ t, isClosing x = false) ∧ isClosing c

/-- The directive grammar in the words of the specification: `#include`, optional whitespace,
then `"t"` or `<t>` with matching delimiters, `t` non-empty and free of its own closing
delimiter. -/
def SpecIncludeDirective (line t : List Char) : Prop :=
  ∃ ws rest, (∀ x ∈ ws, pyIsSpace x) ∧ t ≠ [] ∧
    ((line = "#include".data ++ ws ++ '"' :: t ++ '"' :: rest ∧ '"' ∉ t) ∨
      (line = "#include".data ++ ws ++ '<' :: t ++ '>' :: rest ∧ '>' ∉ t))

/-- The loop of `parse_includes` over the lines of the file's text. -/
def parseText (text : String) : PySet String :=
  (readLines text.data).foldl (fun includes line =>
    match matchInclude (pyStrip line) with
    | some t => includes.add t
    | none => includes) PySet.empty

/-- `parse_includes(file_path)`: the include targets of the file, or the empty set when it cannot
be opened. -/
def parseIncludes (fs : SourceTree) (filePath : String) : PySet String :=
  match fs.readFile filePath with
  | some text => parseText text
  | none => PySet.empty

/-! ### The match -/

theorem pyIsSpace_of_isOpening {o : Char} (h : isOpening o) : pyIsSpace o = false := by
  simp only [isOpening, Bool.or_eq_true, beq_iff_eq] at h
  rcases h with rfl | rfl <;> rfl

/-- After `#include`, a run of spaces and a character that is no space, the match goes on at
that character. -/
theorem afterKeyword_eq {ws x : List Char} {o : Char} (hws : ∀ c ∈ ws, pyIsSpace c)
    (ho : pyIsSpace o = false) : afterKeyword ("#include".data ++ ws ++ o :: x) = o :: x := by
  rw [afterKeyword, List.append_assoc, List.drop_left]
  exact (takeWhile_dropWhile_of_split hws ho).2

theorem matchInclude_eq_some_iff (line t : List Char) :
    matchInclude line = some ⟨t⟩ ↔ IncludeDirective line t := by
  constructor
  · intro h
    unfold matchInclude at h
    split_ifs at h with hp
    obtain ⟨x, rfl⟩ := List.isPrefixOf_iff_prefix.mp hp
    rw [afterKeyword, List.drop_left] at h
    rcases hd : x.dropWhile pyIsSpace with _ | ⟨o, rest⟩ <;> rw [hd] at h
    · cases h
    · dsimp only at h
      split_ifs at h with hc
      obtain ⟨ho, hne, htne⟩ := hc
      cases h
      obtain ⟨c, rest', hcr⟩ := List.exists_cons_of_ne_nil hne
      obtain ⟨hr, hc⟩ := eq_takeWhile_append_of_dropWhile_eq_cons hcr
      refine ⟨x.takeWhile pyIsSpace, o, c, rest', ?_, fun y hy => List.mem_takeWhile_imp hy, ho,
        htne, fun y hy => by simpa using List.mem_takeWhile_imp hy, by simpa using hc⟩
      conv_lhs => rw [(eq_takeWhile_append_of_dropWhile_eq_cons hd).1, hr]
      simp
  · rintro ⟨ws, o, c, rest, rfl, hws, ho, hne, ht, hc⟩
    have hsplit := takeWhile_dropWhile_of_split (p := fun c => !isClosing c) (w := t) (c := c) (r := rest)
      (fun x hx => by simp [ht x hx]) (by simp [hc])
    have hp : "#include".data.isPrefixOf ("#include".data ++ ws ++ o :: t ++ c :: rest) :=
      List.isPrefixOf_iff_prefix.mpr (by simp)
    rw [matchInclude, if_pos hp, List.append_assoc _ (o :: t), List.cons_append o t,
      afterKeyword_eq hws (pyIsSpace_of_isOpening ho)]
    simp [List.cons_append, hsplit.1, hsplit.2, ho, hne]

/-! ### The loop over the lines -/

theorem mem_parseText (text t : String) :
    t ∈ (parseText text).elems ↔ ∃ line ∈ readLines text.data, matchInclude (pyStrip line) = some t := by
  unfold parseText
  refine (foldl_iff_of_step (P := fun s : PySet String => t ∈ s.elems) (I := fun _ => True)
    (Q := fun line => matchInclude (pyStrip line) = some t) (fun _ _ _ => trivial) ?_ _ _
    trivial).trans (by simp)
  intro s line _
  beta_reduce
  rcases matchInclude (pyStrip line) with _ | t' <;> simp [eq_comm]

/-- **The include parser.**  `parse_includes(p)` holds `t` exactly when `p` can be read and one of
its stripped lines starts with `#include`, optional whitespace, one of `<` `"`, then `t`,
non-empty and free of `>` and `"`, then one of `>` `"`: the delimiters need not pair. -/
theorem mem_parseIncludes_iff (fs : SourceTree) (p t : String) :
    t ∈ (parseIncludes fs p).elems ↔
      ∃ text, fs.readFile p = some text ∧
        ∃ line ∈ readLines text.data, IncludeDirective (pyStrip line) t.data := by
  unfold parseIncludes
  rcases fs.readFile p with _ | text
  · simp
  · simp only [mem_parseText, Option.some.injEq, exists_eq_left', ← matchInclude_eq_some_iff]

/-- The unpaired delimiters of `#include <a.h"` make a target that no directive of the
specified grammar has. -/
theorem parseIncludes_unpaired_delimiters :
    (parseIncludes ⟨⟨[(["a.c"], "#include <a.h\"\n")], by decide⟩, [], by decide⟩ "a.c").elems =
        ["a.h"] ∧
      ∀ line ∈ readLines "#include <a.h\"\n".data, ∀ t, ¬ SpecIncludeDirective (pyStrip line) t := by
  refine ⟨by decide, fun line hl t => ?_⟩
  have hl : pyStrip line = "#include".data ++ " <a.h\"".data := by
    simp only [show readLines "#include <a.h\"\n".data = ["#include <a.h\"\n".data] by decide,
      List.mem_singleton] at hl
    subst hl; decide
  rintro ⟨ws, rest, hws, -, ⟨he, -⟩ | ⟨he, -⟩⟩ <;> rw [hl] at he
  · have := congrArg afterKeyword he
    rw [List.append_assoc _ ('"' :: t), List.cons_append '"' t, afterKeyword_eq (o := '"') hws (by decide),
      show afterKeyword ("#include".data ++ " <a.h\"".data) = '<' :: "a.h\"".data by decide] at this
    exact absurd (List.cons.inj this).1 (by decide)
  · have : '>' ∈ "#include".data ++ " <a.h\"".data := by simp [he]
    exact absurd this (by decide)

end Avatar
