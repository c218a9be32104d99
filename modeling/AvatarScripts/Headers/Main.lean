import AvatarScripts.Headers.ProcessFile

/-! # The main loop of the header tool

`main()` of `add_file_headers.py` processes each argument path: a file is passed to
`process_file`, a directory is walked with the excluded directories pruned, and each file of the
walk is skipped when the exclusion test holds and passed to `process_file` otherwise.  It
counts the results and prints a summary.  Conventions:

* the tree is a `SourceTree`; `binary` lists the files whose bytes do not decode as UTF-8, so
  that reading them raises;
* the state of the loop is the tree, the three counters and the arguments of every `print`;
  writes replace the text of a file, so every later read sees them;
* `argparse` is not modelled: the loop is given the parsed arguments; the verbose line printed
  for each directory the walk enters is not modelled either (the tree lists files, not the
  order in which `os.walk` visits directories).

The exclusion test strips the `*` from each pattern and asks whether what is left ends the path
or occurs anywhere in it (`walkFile_spec`), which is not glob matching of the file name: the
default pattern `*.a` excludes every `.asm` file (`main_skips_asm`).  A dry run writes nothing
(`main_dryRun`), and the summary's total is the number of files examined, one per file argument
and one per file of each pruned walk (`main_total`). -/

namespace Avatar

namespace Headers

/-- The command line of `add_file_headers.py`, as `argparse` leaves it. -/
structure Args where
  paths : List String
  dryRun : Bool
  force : Bool
  exclude : List String
  verbose : Bool

/-- `exclude_dirs`: the directories the walk does not enter. -/
def excludeDirs : List String := ["build", ".git", "__pycache__", "clib", "guest"]

/-- `exclude_file_patterns`: the default patterns, then those given with `--exclude`. -/
def excludeFilePatterns (args : Args) : List String :=
  ["*.o", "*.bin", "*.img", "*.gz", "*.pyc", "*.so", "*.a", "*.lib", "*.dll"] ++ args.exclude

/-- The exclusion test of the walk: some pattern with its `*` removed ends the path or occurs in
it. -/
def isExcluded (filepath : String) (patterns : List String) : Bool :=
  patterns.any fun pattern =>
    pyEndsWith filepath [pyReplace pattern '*'] || pyIn (pyReplace pattern '*') filepath

/-- The text `open(filepath, 'r', encoding='utf-8').read()` gives for a file of the tree (the
tool reads no other), or `none` when its bytes do not decode. -/
def readText (fs : SourceTree) (binary : List (List String)) (filepath : String) : Option String :=
  match pathComponents filepath with
  | some cs => if cs ∈ binary then none else some ⟨universalNewlines (fs.files.get cs).data⟩
  | none => none

/-- The state of the loop: the tree, the counters, and the arguments of every `print`. -/
structure State where
  fs : SourceTree
  processed : ℕ
  skipped : ℕ
  alreadyHasHeader : ℕ
  prints : List String

/-- The counting after `process_file` returned `result`. -/
def State.count (st : State) (result : String) : State :=
  if result = "added" ∨ result = "would_add" then { st with processed := st.processed + 1 }
  else if result = "has_header" then { st with alreadyHasHeader := st.alreadyHasHeader + 1 }
  else if result ∈ ["binary", "no_template"] then { st with skipped := st.skipped + 1 }
  else st

/-- The number of files the counters have seen. -/
def State.total (st : State) : ℕ := st.processed + st.alreadyHasHeader + st.skipped

/-- `result = process_file(filepath, ...)` and the counting after it. -/
def processOne (args : Args) (binary : List (List String)) (st : State) (filepath : String) :
    State :=
  let r := processFile filepath (readText st.fs binary filepath) args.dryRun args.force args.verbose
  let fs := match r.written with
    | some text => st.fs.writeFile filepath text
    | none => st.fs
  State.count { st with fs := fs, prints := st.prints ++ r.prints } r.result

/-- One file of the walk: skipped when the exclusion test holds, processed otherwise. -/
def walkFile (args : Args) (binary : List (List String)) (st : State) (filepath : String) : State :=
  if isExcluded filepath (excludeFilePatterns args) then
    { st with skipped := st.skipped + 1,
              prints := st.prints ++ if args.verbose then ["⏭️  Skipping excluded file: " ++ filepath] else [] }
  else processOne args binary st filepath

/-- One argument path: a file is processed, a directory walked. -/
def processPath (args : Args) (binary : List (List String)) (st : State) (path : String) : State :=
  if st.fs.isFile path then processOne args binary st path
  else if st.fs.isDir path then
    (st.fs.walkPruned path excludeDirs).foldl (fun st e => walkFile args binary st (pathJoin e.1 e.2)) st
  else st

/-- What `main` prints before the loop. -/
def banner (args : Args) : List String :=
  ["Avatar Project - Copyright Header Tool", ⟨List.replicate 40 '='⟩] ++
    (if args.dryRun then ["🔍 DRY RUN MODE - No files will be modified"] else []) ++
    ["", "📁 Excluded directories: " ++ ", ".intercalate excludeDirs,
      "🚫 Excluded file patterns: " ++ ", ".intercalate (excludeFilePatterns args), ""]

/-- The summary `main` prints after the loop. -/
def summary (args : Args) (st : State) : List String :=
  ["\n" ++ ⟨List.replicate 50 '='⟩, "📊 SUMMARY", ⟨List.replicate 50 '='⟩,
    if args.dryRun then "📝 Files that would be processed: " ++ toString st.processed else "✅ Files processed (headers added): " ++ toString st.processed,
    "✅ Files already with headers: " ++ toString st.alreadyHasHeader, "⏭️  Files skipped: " ++ toString st.skipped,
    "📁 Total files examined: " ++ toString (st.processed + st.alreadyHasHeader + st.skipped), ⟨List.replicate 50 '='⟩]

/-- `main()` on the tree `fs`. -/
def main (args : Args) (fs : SourceTree) (binary : List (List String)) : State :=
  let st := args.paths.foldl (processPath args binary) ⟨fs, 0, 0, 0, banner args⟩
  { st with prints := st.prints ++ summary args st }

/-! ### Shell patterns

`fnmatch` matches a file name against a pattern as a whole, `*` standing for any text and `?`
for any one character.  `globMatch` is that matcher for patterns of `*`, `?` and plain
characters (no pattern here has a `[`): it reads the name one character at a time and keeps the
suffixes of the pattern still alive. -/

/-- A token of a shell pattern. -/
inductive GlobTok
  | star
  | one
  | lit (c : Char)
deriving DecidableEq

/-- The tokens of a pattern. -/
def globToks : List Char → List GlobTok
  | [] => []
  | '*' :: cs => .star :: globToks cs
  | '?' :: cs => .one :: globToks cs
  | c :: cs => .lit c :: globToks cs

/-- The suffixes alive before the next character: a leading `*` may also match nothing. -/
def globClosure : List GlobTok → List (List GlobTok)
  | .star :: ps => (.star :: ps) :: globClosure ps
  | ps => [ps]

/-- The suffixes alive after reading `c` from the suffix `ps`. -/
def globStep (c : Char) : List GlobTok → List (List GlobTok)
  | .star :: ps => globClosure (.star :: ps)
  | .one :: ps => globClosure ps
  | .lit d :: ps => if c = d then globClosure ps else []
  | [] => []

/-- `fnmatch.fnmatch(name, pattern)` on POSIX, for patterns of `*`, `?` and plain characters. -/
def globMatch (pattern name : String) : Bool :=
  (name.data.foldl (fun states c => states.flatMap (globStep c))
    (globClosure (globToks pattern.data))).contains []

example : globMatch "*.o" "main.o" = true ∧ globMatch "*.o" "main.c" = false ∧
    globMatch "a?c*" "abcde" = true ∧ globMatch "*.a" "start.asm" = false := by decide

/-! ### The exclusion test -/

/-- A tree with one assembly file. -/
def asmTree : SourceTree := ⟨⟨[(["boot", "start.asm"], "mov r0, r1\n")], by decide⟩, [], by decide⟩

/-- The walk of `asmTree` skips `boot/start.asm`, which has the assembly template and which no
exclusion pattern matches as a glob: `*.a` leaves `.a`, which occurs in `.asm`. -/
theorem main_skips_asm :
    let args : Args := ⟨["."], false, false, [], false⟩
    getHeaderForFile "./boot/start.asm" "" = some (getAsmHeader "start.asm" "") ∧
      (main args asmTree []).skipped = 1 ∧ (main args asmTree []).processed = 0 ∧
      (main args asmTree []).fs.files.items = asmTree.files.items ∧
      (excludeFilePatterns args).all (fun pattern => !globMatch pattern "start.asm") :=
  ⟨rfl, by decide⟩

/-! ### What each part of the loop does

Every part of the loop is a `Step`: it examines some number of files, keeps the shape of the
tree, and in a dry run leaves the tree as it is.  One call of `process_file` or one skipped file
is a step over one file; a walk is a step over as many files as it lists; an argument path is a
step over `filesOf` it, which the shape of the tree decides, so the loop over the arguments is a
step over their sum. -/

/-- What a part of the loop does to the state: it examines `n` files, keeps the shape of the tree,
and in a dry run leaves the tree as it is. -/
structure Step (dryRun : Bool) (st st' : State) (n : ℕ) : Prop where
  total : st'.total = st.total + n
  keys : st'.fs.files.keys = st.fs.files.keys
  emptyDirs : st'.fs.emptyDirs = st.fs.emptyDirs
  dry : dryRun = true → st'.fs = st.fs

theorem Step.refl (dryRun : Bool) (st : State) : Step dryRun st st 0 :=
  ⟨rfl, rfl, rfl, fun _ => rfl⟩

theorem Step.trans {dryRun : Bool} {st st' st'' : State} {n m : ℕ} (h1 : Step dryRun st st' n)
    (h2 : Step dryRun st' st'' m) : Step dryRun st st'' (n + m) :=
  ⟨by rw [h2.total, h1.total, Nat.add_assoc], h2.keys.trans h1.keys,
    h2.emptyDirs.trans h1.emptyDirs, fun h => (h2.dry h).trans (h1.dry h)⟩

theorem State.count_fs (st : State) (result : String) : (st.count result).fs = st.fs := by
  unfold State.count
  split_ifs <;> rfl

theorem State.total_count {st : State} {result : String}
    (h : result ∈ ["binary", "has_header", "no_template", "would_add", "added"]) :
    (st.count result).total = st.total + 1 := by
  simp only [List.mem_cons, List.mem_singleton, List.not_mem_nil, or_false] at h
  rcases h with rfl | rfl | rfl | rfl | rfl <;> simp [State.count, State.total] <;> omega

/-- One call of `process_file` examines one file, and writes only outside a dry run. -/
theorem processOne_step (args : Args) (binary : List (List String)) (st : State)
    (filepath : String) : Step args.dryRun st (processOne args binary st filepath) 1 := by
  have htotal : (processOne args binary st filepath).total = st.total + 1 := by
    unfold processOne
    exact State.total_count (processFile_result_mem ..)
  rcases hw : (processFile filepath (readText st.fs binary filepath) args.dryRun args.force
    args.verbose).written with _ | text
  · refine ⟨htotal, ?_, ?_, fun _ => ?_⟩ <;> simp only [processOne, hw, State.count_fs]
  · obtain ⟨-, -, -, -, -, hdry, -⟩ := processFile_written_eq_some hw
    refine ⟨htotal, ?_, ?_, fun hd => absurd (hd.symm.trans hdry) Bool.noConfusion⟩ <;>
      simp only [processOne, hw, State.count_fs, SourceTree.keys_writeFile,
        SourceTree.emptyDirs_writeFile]

theorem walkFile_step (args : Args) (binary : List (List String)) (st : State) (filepath : String) :
    Step args.dryRun st (walkFile args binary st filepath) 1 := by
  unfold walkFile
  by_cases h : isExcluded filepath (excludeFilePatterns args) = true
  · rw [if_pos h]
    exact ⟨by simp only [State.total]; omega, rfl, rfl, fun _ => rfl⟩
  · rw [if_neg h]
    exact processOne_step args binary st filepath

theorem foldl_walkFile_step (args : Args) (binary : List (List String)) :
    ∀ (entries : List (String × String)) (st : State),
      Step args.dryRun st (entries.foldl (fun st e => walkFile args binary st (pathJoin e.1 e.2)) st)
        entries.length
  | [], st => Step.refl _ st
  | e :: es, st => by
    rw [List.foldl_cons, List.length_cons, Nat.add_comm]
    exact (walkFile_step args binary st _).trans (foldl_walkFile_step args binary es _)

/-- The number of files the loop examines for the argument `path`: one for a file, and one for
each file of the pruned walk of a directory. -/
def filesOf (fs : SourceTree) (path : String) : ℕ :=
  if fs.isFile path then 1 else if fs.isDir path then (fs.walkPruned path excludeDirs).length else 0

theorem filesOf_congr {fs fs' : SourceTree} (hk : fs'.files.keys = fs.files.keys)
    (he : fs'.emptyDirs = fs.emptyDirs) : filesOf fs' = filesOf fs := by
  funext path
  simp only [filesOf, SourceTree.isFile_congr hk, SourceTree.isDir_congr hk he,
    SourceTree.walkPruned_congr hk]

theorem processPath_step (args : Args) (binary : List (List String)) (st : State) (path : String) :
    Step args.dryRun st (processPath args binary st path) (filesOf st.fs path) := by
  unfold processPath filesOf
  split_ifs
  · exact processOne_step args binary st path
  · exact foldl_walkFile_step args binary _ st
  · exact Step.refl _ st

theorem foldl_processPath_step (args : Args) (binary : List (List String)) :
    ∀ (paths : List String) (st : State),
      Step args.dryRun st (paths.foldl (processPath args binary) st) (paths.map (filesOf st.fs)).sum
  | [], st => Step.refl _ st
  | p :: ps, st => by
    have h1 := processPath_step args binary st p
    have h2 := foldl_processPath_step args binary ps (processPath args binary st p)
    rw [filesOf_congr h1.keys h1.emptyDirs] at h2
    rw [List.foldl_cons, List.map_cons, List.sum_cons]
    exact h1.trans h2

/-- **A dry run writes nothing.** -/
theorem main_dryRun (args : Args) (fs : SourceTree) (binary : List (List String))
    (h : args.dryRun = true) : (main args fs binary).fs = fs :=
  (foldl_processPath_step args binary args.paths _).dry h

/-- A tree with a C file with Windows line ends, a Python script and a file without a
template. -/
def hdrTree : SourceTree :=
  ⟨⟨[(["boot", "start.c"], "int x;\r\n"), (["tools", "run.py"], "#!/usr/bin/env python3\nprint(1)\n"),
    (["README"], "Avatar\n")], by decide⟩, [], by decide⟩

theorem main_dryRun_hdrTree : (main ⟨["."], true, false, [], false⟩ hdrTree []).fs = hdrTree :=
  main_dryRun ⟨["."], true, false, [], false⟩ hdrTree [] rfl

/-- The dry run reaches `process_file` for both files with a template. -/
example : (main ⟨["."], true, false, [], false⟩ hdrTree []).processed = 2 := by
  decide

/-- **The summary's total.**  The counters of `main` add up to the number of files examined, one
per file argument and one per file of each pruned walk, and that is the total it prints. -/
theorem main_total (args : Args) (fs : SourceTree) (binary : List (List String)) :
    (main args fs binary).total = (args.paths.map (filesOf fs)).sum ∧
      "📁 Total files examined: " ++ toString (args.paths.map (filesOf fs)).sum ∈ (main args fs binary).prints := by
  have h := (foldl_processPath_step args binary args.paths ⟨fs, 0, 0, 0, banner args⟩).total
  simp only [State.total, Nat.add_zero, Nat.zero_add] at h
  refine ⟨h, ?_⟩
  simp only [main, summary, List.mem_append, List.mem_cons]
  exact Or.inr (by simp [← h])

end Headers

end Avatar
