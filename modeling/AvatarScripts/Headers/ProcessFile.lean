import AvatarScripts.Headers.Templates

/-! # `process_file`

`process_file(filepath, dry_run, force, verbose)` reads a file, leaves it alone when it already
has a header (unless `force`), finds the template for the path, and writes the file back with
the header added.  Conventions:

* the function is given what reading the file gives: its text as `f.read()` returns it, or
  `none` where decoding the file as UTF-8 raises;
* it returns its result string, the arguments of its `print` calls, and the text it writes;
* `addHeader` is the text written: the header in front of the content, except that a content
  starting with a shebang line in a file whose path ends in `.py` or `.sh` keeps that line first
  and gets the header without the template's own shebang line after it (`KeepsShebang`).

`processFile_written_eq_some` says once when the tool writes and what; every result below is
derived from it and from the two cases of `addHeader`.  The written text is the content with one
block inserted: the header at the front, or the header without its own shebang line after the
kept one (`processFile_inserts_header`).  A second run finds the header, so the tool is idempotent, as
long as the notice lands within the first 1000 characters (`processFile_idempotent`); after a
first line of more than 962 characters it does not (`processFile_long_shebang`).  The shebang
line is kept only for the case-sensitive suffixes, while the template is found by the lowered
one, so a `run.SH` starting with a shebang gets a second shebang line in front of it
(`processFile_upper_sh`). -/

namespace Avatar

namespace Headers

/-- What `process_file` returns, the arguments of its `print` calls, and the text it writes. -/
structure ProcessResult where
  result : String
  prints : List String
  written : Option String
deriving DecidableEq

/-- The case in which `process_file` keeps the first line of the content first: the content
starts with `#!`, has a second line, and the path ends in `.py` or `.sh`. -/
def KeepsShebang (filepath content : String) : Prop :=
  pyStartsWith content "#!" = true ∧ '\n' ∈ content.data ∧
    (pyEndsWith filepath [".py"] = true ∨ pyEndsWith filepath [".sh"] = true)

instance (filepath content : String) : Decidable (KeepsShebang filepath content) :=
  inferInstanceAs (Decidable (_ ∧ _))

/-- The text `process_file` writes for `content` and the rendered `header`. -/
def addHeader (filepath content header : String) : String :=
  if pyStartsWith content "#!" then
    match pySplitOnce content '\n' with
    | [line0, line1] =>
      if pyEndsWith filepath [".py"] then
        line0 ++ "\n" ++ ⟨header.data.drop "#!/usr/bin/env python3\n".length⟩ ++ line1
      else if pyEndsWith filepath [".sh"] then
        line0 ++ "\n" ++ ⟨header.data.drop "#!/bin/bash\n".length⟩ ++ line1
      else header ++ content
    | _ => header ++ content
  else header ++ content

/-- `process_file(filepath, dry_run, force, verbose)`, given what reading the file gives. -/
def processFile (filepath : String) (content : Option String) (dryRun force verbose : Bool) :
    ProcessResult :=
  match content with
  | none => ⟨"binary", if verbose then ["⚠️  Skipping binary file: " ++ filepath] else [], none⟩
  | some content =>
    if hasCopyrightHeader content && !force then
      ⟨"has_header", if verbose then ["✅ Already has header: " ++ filepath] else [], none⟩
    else
      match (getHeaderForFile filepath "").filter (· != "") with
      | none => ⟨"no_template", if verbose then ["❓ No template for: " ++ filepath] else [], none⟩
      | some header =>
        if dryRun then ⟨"would_add", ["📝 Would add header to: " ++ filepath], none⟩
        else ⟨"added", ["✅ Added header to: " ++ filepath], some (addHeader filepath content header)⟩

/-! ### When the tool writes, and what -/

theorem filter_getHeaderForFile (filepath brief : String) :
    (getHeaderForFile filepath brief).filter (· != "") = getHeaderForFile filepath brief := by
  rcases h : getHeaderForFile filepath brief with _ | header
  · rfl
  · have hne : header ≠ "" := fun e => by simpa [e] using length_lt_of_getHeaderForFile h
    simp [Option.filter, hne]

/-- The tool writes exactly when the file decodes, has no header or is forced, has a template,
and the run is not a dry run; what it writes is `addHeader` of the content. -/
theorem processFile_written_eq_some {filepath : String} {content : Option String}
    {dryRun force verbose : Bool} {w : String}
    (h : (processFile filepath content dryRun force verbose).written = some w) :
    ∃ c header, content = some c ∧ (hasCopyrightHeader c = false ∨ force = true) ∧
      getHeaderForFile filepath "" = some header ∧ dryRun = false ∧
        w = addHeader filepath c header := by
  rcases content with _ | c
  · cases h
  by_cases hh : (hasCopyrightHeader c && !force) = true
  · simp [processFile, hh] at h
  have hh' : hasCopyrightHeader c = false ∨ force = true := by
    revert hh
    cases hasCopyrightHeader c <;> cases force <;> simp
  have hf := filter_getHeaderForFile filepath ""
  rcases hg : getHeaderForFile filepath "" with _ | header <;> rw [hg] at hf <;>
    cases dryRun <;> simp [processFile, hh, hf, hg] at h
  exact ⟨c, header, rfl, hh', rfl, rfl, h.symm⟩

theorem processFile_result_mem (filepath : String) (content : Option String)
    (dryRun force verbose : Bool) : (processFile filepath content dryRun force verbose).result ∈
      ["binary", "has_header", "no_template", "would_add", "added"] := by
  unfold processFile
  split
  · simp
  · split
    · simp
    · split
      · simp
      · split <;> simp

theorem processFile_written_eq_none {filepath : String} {content : Option String}
    {dryRun force verbose : Bool} :
    (processFile filepath content dryRun force verbose).written = none ↔
      ∀ c, content = some c → (hasCopyrightHeader c = true ∧ force = false) ∨
        getHeaderForFile filepath "" = none ∨ dryRun = true := by
  constructor
  · rintro h c rfl
    rcases hg : getHeaderForFile filepath "" with _ | header
    · exact Or.inr (Or.inl rfl)
    cases dryRun
    · refine Or.inl ?_
      have hf := filter_getHeaderForFile filepath ""
      rw [hg] at hf
      revert h
      cases hc : hasCopyrightHeader c <;> cases force <;> simp [processFile, hg, hf, hc]
    · exact Or.inr (Or.inr rfl)
  · intro h
    rcases hw : (processFile filepath content dryRun force verbose).written with _ | w
    · rfl
    obtain ⟨c, header, rfl, hh, hg, hd, -⟩ := processFile_written_eq_some hw
    rcases h c rfl with ⟨h1, h2⟩ | h2 | h2
    · rcases hh with hh | hh <;> simp_all
    · simp_all
    · simp_all

theorem processFile_counted (filepath : String) (content : Option String)
    (dryRun force verbose : Bool) :
    ((processFile filepath content dryRun force verbose).result = "added" ∨
        (processFile filepath content dryRun force verbose).result = "would_add") ↔
      (processFile filepath content false force verbose).written.isSome := by
  unfold processFile
  split
  · simp
  · split
    · simp
    · split <;> cases dryRun <;> simp

theorem processFile_of_hasCopyrightHeader {filepath content : String} (dryRun verbose : Bool)
    (h : hasCopyrightHeader content = true) :
    processFile filepath (some content) dryRun false verbose =
      ⟨"has_header", if verbose then ["✅ Already has header: " ++ filepath] else [], none⟩ := by
  simp [processFile, h]

/-! ### The two cases of the text written -/

theorem addHeader_of_not_keepsShebang {filepath content : String} (header : String)
    (h : ¬ KeepsShebang filepath content) : addHeader filepath content header = header ++ content := by
  unfold addHeader
  by_cases hsb : pyStartsWith content "#!" = true
  · rw [if_pos hsb]
    by_cases hnl : '\n' ∈ content.data
    · obtain ⟨line1, -, hsplit⟩ := pySplitOnce_of_mem hnl
      have hext : ¬ (pyEndsWith filepath [".py"] = true ∨ pyEndsWith filepath [".sh"] = true) :=
        fun he => h ⟨hsb, hnl, he⟩
      rw [not_or] at hext
      simp only [hsplit, hext.1, hext.2, Bool.false_eq_true, if_false]
    · rw [pySplitOnce_of_not_mem hnl]
  · rw [if_neg hsb]

theorem addHeader_of_keepsShebang {filepath content : String} (header : String)
    (h : KeepsShebang filepath content) :
    ∃ line1, content.data = content.data.takeWhile (· != '\n') ++ '\n' :: line1 ∧
      (addHeader filepath content header).data = content.data.takeWhile (· != '\n') ++ '\n' ::
        (header.data.drop (if pyEndsWith filepath [".py"] then "#!/usr/bin/env python3\n".length
          else "#!/bin/bash\n".length) ++ line1) := by
  obtain ⟨hsb, hnl, hext⟩ := h
  obtain ⟨line1, hc, hsplit⟩ := pySplitOnce_of_mem hnl
  refine ⟨line1, hc, ?_⟩
  unfold addHeader
  rw [if_pos hsb, hsplit]
  by_cases hpy : pyEndsWith filepath [".py"] = true
  · simp only [hpy, if_true, String.data_append, List.append_assoc, List.singleton_append]
    rfl
  · simp only [hpy, hext.resolve_left hpy, Bool.false_eq_true, if_true, if_false, String.data_append,
      List.append_assoc, List.singleton_append]
    rfl

theorem processFile_of_template {filepath content header : String} (force verbose : Bool)
    (hh : getHeaderForFile filepath "" = some header) (hc : hasCopyrightHeader content = false) :
    processFile filepath (some content) false force verbose =
      ⟨"added", ["✅ Added header to: " ++ filepath], some (addHeader filepath content header)⟩ := by
  have hf := filter_getHeaderForFile filepath ""
  rw [hh] at hf
  simp [processFile, hc, hh, hf]

/-! ### One block inserted -/

theorem header_shebang_line {filepath content header : String}
    (hh : getHeaderForFile filepath "" = some header) (hk : KeepsShebang filepath content) :
    ∃ line, '\n' ∉ line ∧ header.data = line ++ '\n' :: header.data.drop
      (if pyEndsWith filepath [".py"] then "#!/usr/bin/env python3\n".length else "#!/bin/bash\n".length) := by
  by_cases hpy : pyEndsWith filepath [".py"] = true
  · obtain rfl := Option.some.inj (hh.symm.trans (getHeaderForFile_py "" hpy))
    rw [if_pos hpy]
    exact ⟨_, by decide, fileHeader_shebang "#!/usr/bin/env python3" _ _ _ _⟩
  · obtain rfl := Option.some.inj (hh.symm.trans (getHeaderForFile_sh "" (hk.2.2.resolve_left hpy)))
    rw [if_neg hpy]
    exact ⟨_, by decide, fileHeader_shebang "#!/bin/bash" _ _ _ _⟩

/-- **The text written.**  For a file with a template and without a header, the text written is
the content with one block inserted: the header in front, or, exactly when the tool keeps the
shebang line, the header without its first line after that line and its newline. -/
theorem processFile_inserts_header {filepath content header : String} (force verbose : Bool)
    (hh : getHeaderForFile filepath "" = some header) (hc : hasCopyrightHeader content = false) :
    ∃ pre block post,
      (processFile filepath (some content) false force verbose).written = some ⟨pre ++ block ++ post⟩ ∧
        content.data = pre ++ post ∧ block ≠ [] ∧
        (¬ KeepsShebang filepath content ∧ pre = [] ∧ block = header.data ∨
          KeepsShebang filepath content ∧ pre = content.data.takeWhile (· != '\n') ++ ['\n'] ∧
            ∃ line, '\n' ∉ line ∧ header.data = line ++ '\n' :: block) := by
  rw [processFile_of_template force verbose hh hc]
  have hlen : 34 ≤ header.data.length := length_lt_of_getHeaderForFile hh
  by_cases hk : KeepsShebang filepath content
  · obtain ⟨line1, hc1, had⟩ := addHeader_of_keepsShebang header hk
    refine ⟨_, header.data.drop (if pyEndsWith filepath [".py"] then
      "#!/usr/bin/env python3\n".length else "#!/bin/bash\n".length), line1,
      congrArg some (String.ext ?_), ?_, fun he => ?_, Or.inr ⟨hk, rfl, header_shebang_line hh hk⟩⟩
    · rw [had]
      simp only [List.append_assoc, List.singleton_append, List.cons_append, List.nil_append]
    · rw [List.append_assoc, List.singleton_append]
      exact hc1
    · have h23 : "#!/usr/bin/env python3\n".length = 23 := rfl
      have h12 : "#!/bin/bash\n".length = 12 := rfl
      rw [List.drop_eq_nil_iff] at he
      split_ifs at he <;> omega
  · refine ⟨[], header.data, content.data, ?_, rfl, fun he => ?_, Or.inl ⟨hk, rfl, rfl⟩⟩
    · rw [addHeader_of_not_keepsShebang header hk]
      rfl
    · simp [he] at hlen

theorem processFile_inserts_header_c :
    ∃ pre block post,
      (processFile "a.c" (some "int x;\n") false false false).written = some ⟨pre ++ block ++ post⟩ ∧
        "int x;\n".data = pre ++ post ∧ block ≠ [] ∧
        (¬ KeepsShebang "a.c" "int x;\n" ∧ pre = [] ∧ block = (getCHeader "a.c" "").data ∨
          KeepsShebang "a.c" "int x;\n" ∧ pre = "int x;\n".data.takeWhile (· != '\n') ++ ['\n'] ∧
            ∃ line, '\n' ∉ line ∧ (getCHeader "a.c" "").data = line ++ '\n' :: block) :=
  processFile_inserts_header false false rfl rfl

/-- The case-sensitive suffix test and the lowered template lookup disagree on `run.SH`: the file
gets the shell template, but in front of its own shebang line, so that its first line is now the
template's `#!/bin/bash`. -/
theorem processFile_upper_sh :
    (processFile "run.SH" (some "#!/bin/sh\necho hi\n") false false false).written =
        some (getShellHeader "run.SH" "" ++ "#!/bin/sh\necho hi\n") ∧
      (getShellHeader "run.SH" "" ++ "#!/bin/sh\necho hi\n").data.takeWhile (· != '\n') =
        "#!/bin/bash".data := ⟨rfl, rfl⟩

/-! ### A second run -/

/-- Where the notice lies in the text written: within the header's first 27 characters, or, when
the shebang line is kept, after that line and the four characters that follow it. -/
theorem addHeader_notice {filepath header : String} (content : String)
    (hh : getHeaderForFile filepath "" = some header) :
    ∃ u w, (addHeader filepath content header).data =
        u ++ "Copyright (c) 2024 Avatar Project".data ++ w ∧
      (¬ KeepsShebang filepath content ∧ u.length ≤ 27 ∧ '\r' ∉ u ∨
        KeepsShebang filepath content ∧ u = content.data.takeWhile (· != '\n') ++ '\n' :: "#\n# ".data) := by
  by_cases hk : KeepsShebang filepath content
  · obtain ⟨line1, -, had⟩ := addHeader_of_keepsShebang header hk
    obtain ⟨w, hdrop⟩ : ∃ w, header.data.drop (if pyEndsWith filepath [".py"] then
        "#!/usr/bin/env python3\n".length else "#!/bin/bash\n".length) =
          "#\n# ".data ++ "Copyright (c) 2024 Avatar Project".data ++ w := by
      by_cases hpy : pyEndsWith filepath [".py"] = true
      · obtain rfl := Option.some.inj (hh.symm.trans (getHeaderForFile_py "" hpy))
        rw [if_pos hpy]
        exact fileHeader_drop_data "#!/usr/bin/env python3\n" _ _ _ _
      · obtain rfl := Option.some.inj (hh.symm.trans (getHeaderForFile_sh "" (hk.2.2.resolve_left hpy)))
        rw [if_neg hpy]
        exact fileHeader_drop_data "#!/bin/bash\n" _ _ _ _
    refine ⟨_, w ++ line1, ?_, Or.inr ⟨hk, rfl⟩⟩
    rw [had, hdrop]
    simp only [List.append_assoc, List.cons_append]
  · obtain ⟨u, w, hd, hu, hcr⟩ := getHeaderForFile_notice hh
    refine ⟨u, w ++ content.data, ?_, Or.inl ⟨hk, hu, hcr⟩⟩
    rw [addHeader_of_not_keepsShebang header hk, String.data_append, hd]
    simp only [List.append_assoc]

theorem hasCopyrightHeader_addHeader_keep {filepath content header : String}
    (hh : getHeaderForFile filepath "" = some header) (hk : KeepsShebang filepath content)
    (hline : (content.data.takeWhile (· != '\n')).length ≤ 962) :
    hasCopyrightHeader (addHeader filepath content header) = true := by
  obtain ⟨u, w, hd, ⟨hk', -⟩ | ⟨-, rfl⟩⟩ := addHeader_notice content hh
  · exact absurd hk hk'
  have h4 : "#\n# ".data.length = 4 := rfl
  rw [show addHeader filepath content header = ⟨_ ++ _ ++ w⟩ from String.ext hd]
  exact hasCopyrightHeader_of_notice (by simp only [List.length_append, List.length_cons, h4]; omega)

/-- **Reading back what was written.**  Read again with universal newlines, the text written still
has a header, when the content has no carriage return (it was itself so read) and a kept shebang
line has at most 962 characters: nothing before the notice is a carriage return. -/
theorem hasCopyrightHeader_universalNewlines_addHeader {filepath content header : String}
    (hh : getHeaderForFile filepath "" = some header) (hcr : '\r' ∉ content.data)
    (hline : KeepsShebang filepath content → (content.data.takeWhile (· != '\n')).length ≤ 962) :
    hasCopyrightHeader ⟨universalNewlines (addHeader filepath content header).data⟩ = true := by
  obtain ⟨u, w, hd, hu⟩ := addHeader_notice content hh
  have hu' : u.length ≤ 967 ∧ '\r' ∉ u := by
    rcases hu with ⟨-, hlen, hcru⟩ | ⟨hk, rfl⟩
    · exact ⟨by omega, hcru⟩
    · have h4 : "#\n# ".data.length = 4 := rfl
      have := hline hk
      refine ⟨by simp only [List.length_append, List.length_cons, h4]; omega, ?_⟩
      simp only [List.mem_append, List.mem_cons, not_or]
      exact ⟨fun hm => hcr ((List.takeWhile_sublist _).subset hm), by decide, by decide⟩
  have hcrn : '\r' ∉ u ++ "Copyright (c) 2024 Avatar Project".data :=
    fun hm => (List.mem_append.mp hm).elim hu'.2 (by decide)
  rw [hd, universalNewlines_append_of_not_mem hcrn]
  exact hasCopyrightHeader_of_notice hu'.1

/-- **Idempotence.**  What the tool writes has a header, so a second run leaves it alone, as long
as a kept shebang line has at most 962 characters. -/
theorem processFile_idempotent {filepath content written : String} {verbose : Bool}
    (hw : (processFile filepath (some content) false false verbose).written = some written)
    (hline : KeepsShebang filepath content → (content.data.takeWhile (· != '\n')).length ≤ 962)
    (verbose' : Bool) :
    hasCopyrightHeader written = true ∧
      processFile filepath (some written) false false verbose' =
        ⟨"has_header", if verbose' then ["✅ Already has header: " ++ filepath] else [], none⟩ := by
  obtain ⟨c, header, hc, -, hh, -, rfl⟩ := processFile_written_eq_some hw
  cases hc
  have hhas : hasCopyrightHeader (addHeader filepath content header) = true := by
    by_cases hk : KeepsShebang filepath content
    · exact hasCopyrightHeader_addHeader_keep hh hk (hline hk)
    · rw [addHeader_of_not_keepsShebang header hk]
      exact hasCopyrightHeader_header_append hh content
  exact ⟨hhas, processFile_of_hasCopyrightHeader false verbose' hhas⟩

theorem processFile_idempotent_c :
    (hasCopyrightHeader (getCHeader "a.c" "" ++ "int x;\n") = true ∧
      processFile "a.c" (some (getCHeader "a.c" "" ++ "int x;\n")) false false false =
        ⟨"has_header", [], none⟩) :=
  @processFile_idempotent "a.c" "int x;\n" _ false (by rfl) (by decide) false

theorem hasCopyrightHeader_addHeader_long {filepath content header : String}
    (hk : KeepsShebang filepath content)
    (hlong : 1000 ≤ (content.data.takeWhile (· != '\n')).length) :
    hasCopyrightHeader (addHeader filepath content header) = hasCopyrightHeader content := by
  obtain ⟨line1, hc, had⟩ := addHeader_of_keepsShebang header hk
  have htake : ∀ s : String, s.data = content.data.takeWhile (· != '\n') ++ '\n' :: line1 ∨
      s = addHeader filepath content header →
      s.data.take 1000 = (content.data.takeWhile (· != '\n')).take 1000 := by
    rintro s (hs | rfl)
    · rw [hs, List.take_append_of_le_length hlong]
    · rw [had, List.take_append_of_le_length hlong]
  simp only [hasCopyrightHeader, htake _ (Or.inr rfl), htake content (Or.inl hc)]

/-- A Python file whose shebang line has 1000 characters: the first run adds the header after it,
out of the window, so the second run adds it again. -/
theorem processFile_long_shebang :
    let content : String := ⟨'#' :: '!' :: List.replicate 1000 'x' ++ ['\n']⟩
    ∃ written, (processFile "a.py" (some content) false false false).written = some written ∧
      (processFile "a.py" (some written) false false false).result = "added" := by
  intro content
  have hL : ∀ c ∈ '#' :: '!' :: List.replicate 1000 'x', (c != '\n') = true := by
    intro c hc
    simp only [List.mem_cons, List.mem_replicate] at hc
    rcases hc with rfl | rfl | ⟨-, rfl⟩ <;> rfl
  have hk : KeepsShebang "a.py" content :=
    ⟨rfl, List.mem_append_right _ (List.mem_singleton_self _), Or.inl rfl⟩
  have hlong : 1000 ≤ (content.data.takeWhile (· != '\n')).length := by
    show 1000 ≤ ((('#' :: '!' :: List.replicate 1000 'x') ++ ['\n']).takeWhile (· != '\n')).length
    rw [List.takeWhile_append_of_pos hL, List.length_append]
    simp only [List.length_cons, List.length_replicate]
    omega
  have hc : hasCopyrightHeader content = false := by
    have hC : 'C' ∉ content.data := by
      show 'C' ∉ ('#' :: '!' :: List.replicate 1000 'x') ++ ['\n']
      simp only [List.mem_append, List.mem_cons, List.mem_replicate, List.mem_singleton]
      decide
    simp only [hasCopyrightHeader, pyIn, Bool.and_eq_false_iff, decide_eq_false_iff_not]
    exact Or.inl fun hinf => hC (List.mem_of_mem_take (hinf.subset (by decide)))
  have hh : getHeaderForFile "a.py" "" = some (getPythonHeader "a.py" "") := rfl
  refine ⟨_, by rw [processFile_of_template false false hh hc], ?_⟩
  rw [processFile_of_template false false hh (by rw [hasCopyrightHeader_addHeader_long hk hlong, hc])]

end Headers

end Avatar
