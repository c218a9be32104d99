import AvatarScripts.Python.Os

/-! # The header templates

`add_file_headers.py` puts a copyright block at the top of source files.  This module models how
the block is chosen and rendered, and the test that finds one already there:

* `fileHeader` is the text the five template functions share, with parameters for what differs
  between them: the opening lines, the marker that starts each line of the notice, the closing
  line and the default brief;
* `getHeaderForFile` picks the template by the file's name first and then by the lowered suffix
  of its path (`templateFor`), and renders it for the name (`renderHeader`);
* `hasCopyrightHeader` asks for both words of the notice in the first 1000 characters.

Every rendered header has the notice within its first 27 characters (`fileHeader_data`), so
`hasCopyrightHeader` holds of every text that starts with one (`hasCopyrightHeader_header_append`).
A path ending in `.py` (`.sh`) always gets the Python (shell) template, whatever comes before the
suffix (`getHeaderForFile_py`, `getHeaderForFile_sh`); this is what lets `process_file` cut off
the template's own shebang line. -/

namespace Avatar

namespace Headers

/-- `HEADER_TEMPLATES`: the template of a file, by its name or by its lowered suffix. -/
def headerTemplates : List (String × String) :=
  [(".c", "c_header"), (".h", "c_header"), (".cpp", "c_header"), (".hpp", "c_header"),
    (".cc", "c_header"), (".S", "asm_header"), (".s", "asm_header"), (".asm", "asm_header"),
    (".sh", "shell_header"), (".py", "python_header"), ("Makefile", "makefile_header"),
    ("makefile", "makefile_header")]

/-- The header the template functions render for `filename`: `opening`, the lines of the notice
each after `mark`, then `closing` and a blank line.  An empty `brief` becomes `defaultBrief`
followed by the file name. -/
def fileHeader (opening mark closing defaultBrief filename brief : String) : String :=
  let brief := if brief = "" then defaultBrief ++ filename else brief
  opening ++ mark ++ " Copyright (c) 2024 Avatar Project\n" ++ mark ++ "\n" ++
    mark ++ " Licensed under the MIT License.\n" ++
    mark ++ " See LICENSE file in the project root for full license information.\n" ++
    mark ++ "\n" ++ mark ++ " @file " ++ filename ++ "\n" ++ mark ++ " @brief " ++ brief ++ "\n" ++
    mark ++ " @author Avatar Project Team\n" ++ mark ++ " @date 2024\n" ++ closing ++ "\n"

/-- `get_c_header(filename, brief)`. -/
def getCHeader (filename brief : String) : String :=
  fileHeader "/*\n" " *" " */\n" "Implementation of " filename brief

/-- `get_asm_header(filename, brief)`. -/
def getAsmHeader (filename brief : String) : String :=
  fileHeader "/*\n" " *" " */\n" "Assembly implementation of " filename brief

/-- `get_shell_header(filename, brief)`. -/
def getShellHeader (filename brief : String) : String :=
  fileHeader "#!/bin/bash\n#\n" "#" "#\n" "Shell script: " filename brief

/-- `get_python_header(filename, brief)`. -/
def getPythonHeader (filename brief : String) : String :=
  fileHeader "#!/usr/bin/env python3\n#\n" "#" "#\n" "Python script: " filename brief

/-- `get_makefile_header(filename, brief)`. -/
def getMakefileHeader (filename brief : String) : String :=
  fileHeader "#\n" "#" "#\n" "Build configuration: " filename brief

/-- `has_copyright_header(content)`: both words within the first 1000 characters. -/
def hasCopyrightHeader (content : String) : Bool :=
  let head : String := ⟨content.data.take 1000⟩
  pyIn "Copyright" head && pyIn "Avatar Project" head

/-- The template `get_header_for_file` picks: that of the file's name, else that of the lowered
suffix of its path. -/
def templateFor (filepath : String) : Option String :=
  (headerTemplates.lookup (basename filepath)).orElse fun _ =>
    headerTemplates.lookup (pyLower (pathSuffix filepath))

/-- The header of a template, rendered for `filename`. -/
def renderHeader (templateType : Option String) (filename brief : String) : Option String :=
  match templateType with
  | some "c_header" => some (getCHeader filename brief)
  | some "asm_header" => some (getAsmHeader filename brief)
  | some "shell_header" => some (getShellHeader filename brief)
  | some "python_header" => some (getPythonHeader filename brief)
  | some "makefile_header" => some (getMakefileHeader filename brief)
  | _ => none

/-- `get_header_for_file(filepath, brief)`. -/
def getHeaderForFile (filepath brief : String) : Option String :=
  renderHeader (templateFor filepath) (basename filepath) brief

/-! ### The notice in a header -/

/-- The notice both words of `has_copyright_header` are read from. -/
theorem fileHeader_data (opening mark closing defaultBrief filename brief : String) :
    ∃ w, (fileHeader opening mark closing defaultBrief filename brief).data =
      opening.data ++ mark.data ++ ' ' :: ("Copyright (c) 2024 Avatar Project".data ++ w) :=
  ⟨_, by simp only [fileHeader, String.data_append, List.append_assoc]; rfl⟩

theorem fileHeader_drop_data (sb closing defaultBrief filename brief : String) :
    ∃ w, (fileHeader (sb ++ "#\n") "#" closing defaultBrief filename brief).data.drop sb.length =
      "#\n# ".data ++ "Copyright (c) 2024 Avatar Project".data ++ w := by
  obtain ⟨w, hw⟩ := fileHeader_data (sb ++ "#\n") "#" closing defaultBrief filename brief
  refine ⟨w, ?_⟩
  rw [hw, String.data_append, show sb.length = sb.data.length from rfl]
  simp only [List.append_assoc, List.drop_left]
  rfl

theorem fileHeader_shebang (sb closing defaultBrief filename brief : String) :
    (fileHeader (sb ++ "\n#\n") "#" closing defaultBrief filename brief).data =
      sb.data ++ '\n' ::
        (fileHeader (sb ++ "\n#\n") "#" closing defaultBrief filename brief).data.drop (sb.length + 1) := by
  obtain ⟨w, hw⟩ := fileHeader_data (sb ++ "\n#\n") "#" closing defaultBrief filename brief
  have hsb : (sb ++ "\n#\n").data = sb.data ++ '\n' :: "#\n".data := by
    rw [String.data_append]
  rw [hw, hsb]
  simp only [List.append_assoc, List.cons_append]
  rw [show sb.length = sb.data.length from rfl, List.drop_append_eq_append_drop]
  simp

/-- A text with the notice within its first 1000 characters has a header. -/
theorem hasCopyrightHeader_of_notice {u w : List Char} (hu : u.length ≤ 967) :
    hasCopyrightHeader ⟨u ++ "Copyright (c) 2024 Avatar Project".data ++ w⟩ = true := by
  have hn : "Copyright (c) 2024 Avatar Project".data.length = 33 := rfl
  have htake : (u ++ "Copyright (c) 2024 Avatar Project".data ++ w).take 1000 =
      u ++ "Copyright (c) 2024 Avatar Project".data ++ w.take (1000 - u.length - 33) := by
    rw [List.take_append_eq_append_take, List.take_of_length_le (by simp [hn]; omega)]
    simp [hn, Nat.sub_sub]
  have hinf : "Copyright (c) 2024 Avatar Project".data <:+: (u ++ "Copyright (c) 2024 Avatar Project".data ++ w).take 1000 := by
    rw [htake]
    exact List.infix_append _ _ _
  simp only [hasCopyrightHeader, pyIn, Bool.and_eq_true, decide_eq_true_eq]
  exact ⟨List.IsInfix.trans (by decide) hinf, List.IsInfix.trans (by decide) hinf⟩

/-- What `getHeaderForFile` renders is one of the five templates, for the file's name. -/
theorem getHeaderForFile_eq_some {filepath brief header : String}
    (h : getHeaderForFile filepath brief = some header) :
    ∃ opening mark closing defaultBrief, opening.length + mark.length ≤ 26 ∧
      '\r' ∉ opening.data ++ mark.data ∧
      header = fileHeader opening mark closing defaultBrief (basename filepath) brief := by
  revert h
  unfold getHeaderForFile renderHeader
  split <;> intro h
  any_goals exact ⟨_, _, _, _, by decide, by decide, (Option.some.inj h).symm⟩
  cases h

theorem getHeaderForFile_notice {filepath brief header : String}
    (h : getHeaderForFile filepath brief = some header) :
    ∃ u w, header.data = u ++ "Copyright (c) 2024 Avatar Project".data ++ w ∧ u.length ≤ 27 ∧
      '\r' ∉ u := by
  obtain ⟨o, m, c, d, hlen, hcr, rfl⟩ := getHeaderForFile_eq_some h
  obtain ⟨w, hw⟩ := fileHeader_data o m c d (basename filepath) brief
  have hlen' : o.data.length + m.data.length ≤ 26 := hlen
  refine ⟨o.data ++ m.data ++ [' '], w, by simp [hw], by simp; omega, ?_⟩
  simpa using hcr

theorem hasCopyrightHeader_header_append {filepath brief header : String}
    (h : getHeaderForFile filepath brief = some header) (rest : String) :
    hasCopyrightHeader (header ++ rest) = true := by
  obtain ⟨o, m, c, d, hlen, -, rfl⟩ := getHeaderForFile_eq_some h
  obtain ⟨w, hw⟩ := fileHeader_data o m c d (basename filepath) brief
  have hdata : (fileHeader o m c d (basename filepath) brief ++ rest) =
      ⟨(o.data ++ m.data ++ [' ']) ++ "Copyright (c) 2024 Avatar Project".data ++ (w ++ rest.data)⟩ := by
    refine String.ext ?_
    rw [String.data_append, hw]
    generalize "Copyright (c) 2024 Avatar Project".data = N
    simp only [List.append_assoc, List.cons_append, List.singleton_append, List.nil_append]
  have hlen' : o.data.length + m.data.length ≤ 26 := hlen
  rw [hdata]
  exact hasCopyrightHeader_of_notice (by simp only [List.length_append, List.length_singleton]; omega)

theorem length_lt_of_getHeaderForFile {filepath brief header : String}
    (h : getHeaderForFile filepath brief = some header) : 34 ≤ header.length := by
  obtain ⟨o, m, c, d, -, -, rfl⟩ := getHeaderForFile_eq_some h
  obtain ⟨w, hw⟩ := fileHeader_data o m c d (basename filepath) brief
  have : (fileHeader o m c d (basename filepath) brief).length = (fileHeader o m c d (basename filepath) brief).data.length := rfl
  rw [this, hw]
  simp only [List.length_append, List.length_cons]
  have : "Copyright (c) 2024 Avatar Project".data.length = 33 := rfl
  omega

/-! ### The template of a `.py` or `.sh` path -/

/-- The template of a path ending in the suffix `e = '.' :: t` is that of `e`, when `t` holds no
dot or `/` and no other key of the table ends in `e`. -/
theorem templateFor_of_endsWith {filepath : String} {t : List Char} (e : String)
    (he : e.data = '.' :: t) (hdot : '.' ∉ t) (hslash : '/' ∉ t) (ht : t ≠ [])
    (hlower : pyLower e = e) (hkeys : ∀ k ∈ headerTemplates, e.data <:+ k.1.data → k.1 = e)
    (hend : e.data <:+ filepath.data) : templateFor filepath = headerTemplates.lookup e := by
  obtain ⟨x, hx⟩ := hend
  have hes : '/' ∉ e.data := by simp [he, hslash]
  set n := (basename ⟨x⟩).data
  have hbase : (basename filepath).data = n ++ '.' :: t := by
    rw [← he, ← basename_append hes, hx]
  have hlen : 2 ≤ (basename filepath).data.length := by
    obtain ⟨c, t', rfl⟩ := List.exists_cons_of_ne_nil ht
    simp only [hbase, List.length_append, List.length_cons]
    omega
  have hname : pathName filepath = basename filepath :=
    pathName_eq_basename (fun h0 => by simp [h0] at hlen) (fun h0 => by simp [h0] at hlen)
  have hpn : (pathName filepath).data = n ++ '.' :: t := by rw [hname, hbase]
  have hsuffix := pathSuffix_eq hpn hdot
  unfold templateFor
  by_cases hn : n = []
  · have hb : basename filepath = e := String.ext (by rw [hbase, hn, he]; rfl)
    rw [hb, hsuffix, if_neg (by simp [hn])]
    cases headerTemplates.lookup e <;> rfl
  · have hnone : headerTemplates.lookup (basename filepath) = none := by
      refine List.lookup_eq_none_iff.mpr fun k hk => bne_iff_ne.mpr fun hkb => hn ?_
      have hsuf : e.data <:+ k.1.data := ⟨n, by rw [← hkb, hbase, he]⟩
      have hke := congrArg String.data ((hkeys k hk hsuf).symm.trans hkb.symm)
      rw [hbase, he] at hke
      simpa using hke
    rw [hnone, hsuffix, if_pos ⟨ht, hn⟩, ← he]
    simp only [Option.orElse]
    rw [show (⟨e.data⟩ : String) = e from rfl, hlower]

theorem getHeaderForFile_py {filepath : String} (brief : String)
    (h : pyEndsWith filepath [".py"] = true) :
    getHeaderForFile filepath brief = some (getPythonHeader (basename filepath) brief) := by
  have hend : ".py".data <:+ filepath.data := by simpa [pyEndsWith] using h
  rw [getHeaderForFile, templateFor_of_endsWith ".py" rfl (by decide) (by decide) (by decide)
    (by decide) (by decide) hend]
  rfl

theorem getHeaderForFile_sh {filepath : String} (brief : String)
    (h : pyEndsWith filepath [".sh"] = true) :
    getHeaderForFile filepath brief = some (getShellHeader (basename filepath) brief) := by
  have hend : ".sh".data <:+ filepath.data := by simpa [pyEndsWith] using h
  rw [getHeaderForFile, templateFor_of_endsWith ".sh" rfl (by decide) (by decide) (by decide)
    (by decide) (by decide) hend]
  rfl

end Headers

end Avatar
