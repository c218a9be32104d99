import AvatarScripts.Headers.Main

/-! # A whole run of the header tool, and a second one

`main` threads the tree through one call of `process_file` per file it reaches, and each call
reads its file from the tree as the calls before it left it.  This module follows the tree
through whole runs.  Conventions:

* `pathVisits` lists the paths one argument hands to `process_file`: the argument itself when it
  names a file, and the files of its pruned walk that the exclusion test lets through when it
  names a directory; `main_induction` is induction over the loop along these visits;
* a path is `Settled` in a tree when `process_file` on what reading it there gives would write
  nothing, and `Writes` when it would write outside a dry run;
* `AddedAt` says that a file holds what a visit of it wrote: its text in the tree the run started
  from, which had no header, with the header for the visited path added;
* `ShortShebangs` asks of every file that reads as starting with `#!` a first line of at most 962
  characters, the bound `processFile_idempotent` needs.

For a run that is neither forced nor a dry run, `RunInv` is what the run has done after some
visits: the shape of the tree is as it was, every file is as it was or was written once at a
visit, every path visited so far is settled, and the files counted as processed are the files
changed (`changedFiles`).  One call of `process_file` either writes nothing or writes a file
still as the run found it (`processOne_cases`): a file written earlier reads with a header, so no
file is written twice.  So it keeps the invariant (`processOne_runInv`), a path visited earlier
that names the file just written having had no template, since that file had no header; hence
the whole loop keeps it (`main_runInv`).  So a run leaves each file as it was or adds one header
to its original text, and every visited file that can be read and has a template reads afterwards
with a header (`main_written`); the summary's count of processed files is the number of files
changed (`main_processed`); and a second run with the same arguments writes nothing and counts
no file as processed (`main_idempotent`).

A dry run counts the visits at which a real run would write on the tree as it is, and so does a
real run whose visits name distinct files, each finding its file as the run found it: there the
dry run tells what the real run does (`main_dryRun_predicts`).  A file named twice is counted
twice by the dry run and once by the real run. -/

namespace Avatar

namespace Headers

/-! ### Reading a file -/

section Read

variable {fs : SourceTree} {binary : List (List String)} {q : String}

theorem readText_eq_some {c : String} :
    readText fs binary q = some c ↔
      ∃ cs, pathComponents q = some cs ∧ cs ∉ binary ∧ c = ⟨universalNewlines (fs.files.get cs).data⟩ := by
  unfold readText
  split <;> simp_all [eq_comm]

theorem readText_congr {fs' : SourceTree}
    (h : ∀ cs, pathComponents q = some cs → fs'.files.get cs = fs.files.get cs) :
    readText fs' binary q = readText fs binary q := by
  unfold readText
  split
  · next cs hq => rw [h cs hq]
  · rfl

end Read

/-! ### What a run has done -/

/-- The paths `main` hands to `process_file` for the argument `path`. -/
def pathVisits (args : Args) (fs : SourceTree) (path : String) : List String :=
  if fs.isFile path then [path]
  else if fs.isDir path then
    ((fs.walkPruned path excludeDirs).map fun e => pathJoin e.1 e.2).filter
      fun q => !isExcluded q (excludeFilePatterns args)
  else []

theorem pathVisits_congr (args : Args) {fs fs' : SourceTree} (hk : fs'.files.keys = fs.files.keys)
    (he : fs'.emptyDirs = fs.emptyDirs) : pathVisits args fs' = pathVisits args fs := by
  funext path
  simp only [pathVisits, SourceTree.isFile_congr hk, SourceTree.isDir_congr hk he,
    SourceTree.walkPruned_congr hk]

/-- `process_file` on `q`, reading it from `fs`, would write nothing. -/
def Settled (args : Args) (binary : List (List String)) (fs : SourceTree) (q : String) : Prop :=
  (processFile q (readText fs binary q) args.dryRun args.force args.verbose).written = none

/-- The file at `cs` of `fs` holds what the visit `q` of it wrote in a run from `fs₀`: the text
`c` read from it in `fs₀`, which had no header, with the header for `q` added. -/
def AddedAt (binary : List (List String)) (fs₀ fs : SourceTree) (cs : List String) (q : String) :
    Prop :=
  pathComponents q = some cs ∧ ∃ c header, readText fs₀ binary q = some c ∧
    hasCopyrightHeader c = false ∧ getHeaderForFile q "" = some header ∧
      fs.files.get cs = addHeader q c header

/-- Every file of `fs` that reads as starting with `#!` has a first line of at most 962
characters. -/
def ShortShebangs (fs : SourceTree) : Prop :=
  ∀ cs ∈ fs.files.keys, pyStartsWith ⟨universalNewlines (fs.files.get cs).data⟩ "#!" = true →
    ((universalNewlines (fs.files.get cs).data).takeWhile (· != '\n')).length ≤ 962

instance (fs : SourceTree) : Decidable (ShortShebangs fs) :=
  inferInstanceAs (Decidable (∀ cs ∈ fs.files.keys, _))

/-- The files of `fs₀` whose text is another in `fs`. -/
def changedFiles (fs₀ fs : SourceTree) : List (List String) :=
  fs₀.files.keys.filter fun cs => fs.files.get cs ≠ fs₀.files.get cs

theorem length_filter_of_flip {α : Type} {p p' : α → Bool} {k : α} : ∀ {l : List α}, l.Nodup →
    k ∈ l → p k = false → p' k = true → (∀ j ∈ l, j ≠ k → p' j = p j) →
    (l.filter p').length = (l.filter p).length + 1
  | [], _, hk, _, _, _ => absurd hk (List.not_mem_nil _)
  | j :: l, hnd, hk, hp, hp', h => by
    obtain ⟨hj, hnd⟩ := List.nodup_cons.mp hnd
    by_cases hjk : j = k
    · subst hjk
      have hl : l.filter p' = l.filter p := List.filter_congr fun x hx =>
        h x (List.mem_cons_of_mem _ hx) fun e => hj (e ▸ hx)
      simp [List.filter_cons, hp, hp', hl]
    · have ih := length_filter_of_flip hnd ((List.mem_cons.mp hk).resolve_left (Ne.symm hjk)) hp hp'
        fun x hx => h x (List.mem_cons_of_mem _ hx)
      rw [List.filter_cons, List.filter_cons, h j (List.mem_cons_self _ _) hjk]
      split_ifs <;> simp [ih]

theorem length_filter_snoc {α : Type} (p : α → Bool) (V : List α) (q : α) :
    ((V ++ [q]).filter p).length = (V.filter p).length + if p q then 1 else 0 := by
  rw [List.filter_append, List.length_append, List.filter_singleton]
  cases p q <;> rfl

/-- What a run from `fs₀` that has visited the paths `V` has done: the tree is `fs` and it has
counted `n` files as processed. -/
structure RunInv (args : Args) (binary : List (List String)) (fs₀ fs : SourceTree) (n : ℕ)
    (V : List String) : Prop where
  keys : fs.files.keys = fs₀.files.keys
  emptyDirs : fs.emptyDirs = fs₀.emptyDirs
  /-- Every file holds its text, or its text with one header added at a visit. -/
  text : ∀ cs, fs.files.get cs = fs₀.files.get cs ∨ ∃ q ∈ V, AddedAt binary fs₀ fs cs q
  /-- Visiting a path again would write nothing. -/
  settled : ∀ q ∈ V, Settled args binary fs q
  /-- The files counted as processed are the files changed. -/
  processed : n = (changedFiles fs₀ fs).length

theorem RunInv.start (args : Args) (binary : List (List String)) (fs₀ : SourceTree) :
    RunInv args binary fs₀ fs₀ 0 [] :=
  ⟨rfl, rfl, fun _ => Or.inl rfl, fun _ h => absurd h (List.not_mem_nil _), by simp [changedFiles]⟩

theorem RunInv.snoc_settled {args : Args} {binary : List (List String)} {fs₀ fs : SourceTree}
    {n : ℕ} {V : List String} {q : String} (h : RunInv args binary fs₀ fs n V)
    (hq : Settled args binary fs q) : RunInv args binary fs₀ fs n (V ++ [q]) := by
  refine ⟨h.keys, h.emptyDirs, fun cs => (h.text cs).imp_right ?_, fun p hp => ?_, h.processed⟩
  · exact fun ⟨p, hp, h⟩ => ⟨p, List.mem_append_left _ hp, h⟩
  · rcases List.mem_append.mp hp with hp | hp
    · exact h.settled p hp
    · rw [List.mem_singleton.mp hp]
      exact hq

section Added

variable {binary : List (List String)} {fs₀ fs fs' : SourceTree} {cs : List String} {p : String}

theorem AddedAt.congr (h : AddedAt binary fs₀ fs cs p) (he : fs'.files.get cs = fs.files.get cs) :
    AddedAt binary fs₀ fs' cs p := by
  obtain ⟨hp, c, header, hc, hh, hg, hget⟩ := h
  exact ⟨hp, c, header, hc, hh, hg, he.trans hget⟩

theorem AddedAt.readback (hshort : ShortShebangs fs₀) (hk : cs ∈ fs₀.files.keys)
    (h : AddedAt binary fs₀ fs cs p) :
    hasCopyrightHeader ⟨universalNewlines (fs.files.get cs).data⟩ = true := by
  obtain ⟨hp, c, header, hc, -, hg, hget⟩ := h
  obtain ⟨cs', hp', -, rfl⟩ := readText_eq_some.mp hc
  obtain rfl : cs' = cs := Option.some.inj (hp'.symm.trans hp)
  rw [hget]
  exact hasCopyrightHeader_universalNewlines_addHeader hg (cr_not_mem_universalNewlines _)
    fun hks => hshort _ hk hks.1

end Added

theorem processOne_processed (args : Args) (binary : List (List String)) (st : State)
    (q : String) : (processOne args binary st q).processed = st.processed +
      if (processFile q (readText st.fs binary q) false args.force args.verbose).written.isSome
      then 1 else 0 := by
  have hc := processFile_counted q (readText st.fs binary q) args.dryRun args.force args.verbose
  simp only [processOne, State.count]
  split_ifs <;> simp_all

theorem processOne_get_of_ne {args : Args} {binary : List (List String)} {st : State} {q : String}
    {cs : List String} (h : pathComponents q ≠ some cs) :
    (processOne args binary st q).fs.files.get cs = st.fs.files.get cs := by
  simp only [processOne, State.count_fs]
  split
  · exact SourceTree.get_writeFile_of_ne h
  · rfl

theorem walkFile_of_excluded {args : Args} {binary : List (List String)} {st : State} {q : String}
    (hx : isExcluded q (excludeFilePatterns args) = true) :
    walkFile args binary st q =
      { st with skipped := st.skipped + 1,
                prints := st.prints ++ if args.verbose then ["⏭️  Skipping excluded file: " ++ q] else [] } :=
  if_pos hx

/-! ### Induction over a run

The loop of `main` is three nested folds; a property of the state and of the paths handed to
`process_file` so far that every call of `process_file` and every skipped file keeps holds after
the whole loop, for the paths `pathVisits` lists.  Each call is on a file of the tree the loop
started from, and the shape of the tree is the same before it. -/

section Induction

variable (args : Args) (binary : List (List String)) (fs₀ : SourceTree)
  (P : State → List String → Prop)
  (hone : ∀ st V q, st.fs.files.keys = fs₀.files.keys → st.fs.emptyDirs = fs₀.emptyDirs →
    fs₀.isFile q = true → P st V → P (processOne args binary st q) (V ++ [q]))
  (hskip : ∀ st V q, isExcluded q (excludeFilePatterns args) = true → P st V →
    P (walkFile args binary st q) V)

include hone hskip

theorem foldl_walkFile_induction : ∀ (es : List (String × String)) (st : State) (V : List String),
    st.fs.files.keys = fs₀.files.keys → st.fs.emptyDirs = fs₀.emptyDirs →
    (∀ e ∈ es, fs₀.isFile (pathJoin e.1 e.2) = true) → P st V →
    P (es.foldl (fun st e => walkFile args binary st (pathJoin e.1 e.2)) st)
      (V ++ (es.map fun e => pathJoin e.1 e.2).filter fun q => !isExcluded q (excludeFilePatterns args))
  | [], _, _, _, _, _, h => by simpa using h
  | e :: es, st, V, hk, he, hes, h => by
    have hs := walkFile_step args binary st (pathJoin e.1 e.2)
    have h1 : P (walkFile args binary st (pathJoin e.1 e.2)) (V ++
        if isExcluded (pathJoin e.1 e.2) (excludeFilePatterns args) then [] else [pathJoin e.1 e.2]) := by
      by_cases hx : isExcluded (pathJoin e.1 e.2) (excludeFilePatterns args) = true
      · rw [if_pos hx, List.append_nil]
        exact hskip st V _ hx h
      · rw [if_neg hx, walkFile, if_neg hx]
        exact hone st V _ hk he (hes e (List.mem_cons_self _ _)) h
    have h2 := foldl_walkFile_induction es _ _ (hs.keys.trans hk) (hs.emptyDirs.trans he)
      (fun e he' => hes e (List.mem_cons_of_mem _ he')) h1
    rw [List.foldl_cons, List.map_cons, List.filter_cons]
    cases hx : isExcluded (pathJoin e.1 e.2) (excludeFilePatterns args) <;> simpa [hx] using h2

theorem processPath_induction (st : State) (V : List String) (path : String)
    (hk : st.fs.files.keys = fs₀.files.keys) (he : st.fs.emptyDirs = fs₀.emptyDirs) (h : P st V) :
    P (processPath args binary st path) (V ++ pathVisits args fs₀ path) := by
  unfold processPath pathVisits
  rw [SourceTree.isFile_congr hk, SourceTree.isDir_congr hk he, SourceTree.walkPruned_congr hk]
  split_ifs with h1
  · exact hone st V path hk he h1 h
  · exact foldl_walkFile_induction args binary fs₀ P hone hskip _ st V hk he
      (fun _ he' => SourceTree.isFile_of_mem_walkPruned he') h
  · simpa using h

theorem foldl_processPath_induction : ∀ (paths : List String) (st : State) (V : List String),
    st.fs.files.keys = fs₀.files.keys → st.fs.emptyDirs = fs₀.emptyDirs → P st V →
    P (paths.foldl (processPath args binary) st) (V ++ paths.flatMap (pathVisits args fs₀))
  | [], _, _, _, _, h => by simpa using h
  | p :: ps, st, V, hk, he, h => by
    have hs := processPath_step args binary st p
    rw [List.foldl_cons, List.flatMap_cons, ← List.append_assoc]
    exact foldl_processPath_induction ps _ _ (hs.keys.trans hk) (hs.emptyDirs.trans he)
      (processPath_induction args binary fs₀ P hone hskip st V p hk he h)

/-- **Induction over a run.** -/
theorem main_induction (h : P ⟨fs₀, 0, 0, 0, banner args⟩ []) :
    P (args.paths.foldl (processPath args binary) ⟨fs₀, 0, 0, 0, banner args⟩)
      (args.paths.flatMap (pathVisits args fs₀)) := by
  simpa using foldl_processPath_induction args binary fs₀ P hone hskip args.paths _ [] rfl rfl h

end Induction

/-! ### A run keeps the invariant -/

section Unforced

variable {args : Args} {binary : List (List String)} {fs₀ : SourceTree}
  (hforce : args.force = false) (hdry : args.dryRun = false)

include hforce hdry

theorem settled_iff {fs : SourceTree} {q : String} :
    Settled args binary fs q ↔ ∀ c, readText fs binary q = some c →
      hasCopyrightHeader c = true ∨ getHeaderForFile q "" = none := by
  simp only [Settled, hforce, hdry, processFile_written_eq_none, and_true, Bool.false_eq_true,
    or_false]

variable (hshort : ShortShebangs fs₀)

include hshort

/-- **What one call of `process_file` does** in a run: it writes and counts nothing, and its path
is settled; or it writes a file that is still as the run found it and whose text has no header,
adding the header for its path, and counts one. -/
theorem processOne_cases {st : State} {V : List String} {q : String}
    (hinv : RunInv args binary fs₀ st.fs st.processed V) (hq : fs₀.isFile q = true) :
    (processOne args binary st q).fs = st.fs ∧
        (processOne args binary st q).processed = st.processed ∧ Settled args binary st.fs q ∨
      ∃ cs header, pathComponents q = some cs ∧ cs ∈ fs₀.files.keys ∧ cs ∉ binary ∧
        st.fs.files.get cs = fs₀.files.get cs ∧
        hasCopyrightHeader ⟨universalNewlines (fs₀.files.get cs).data⟩ = false ∧
        getHeaderForFile q "" = some header ∧
        (processOne args binary st q).fs =
          st.fs.writeFile q (addHeader q ⟨universalNewlines (fs₀.files.get cs).data⟩ header) ∧
        (processOne args binary st q).processed = st.processed + 1 := by
  have hpr := processOne_processed args binary st q
  unfold Settled
  rw [hdry]
  rcases hw : (processFile q (readText st.fs binary q) false args.force args.verbose).written
    with _ | w
  · exact Or.inl ⟨by simp only [processOne, hdry, hw, State.count_fs], by simpa [hw] using hpr, rfl⟩
  have hpr' : (processOne args binary st q).processed = st.processed + 1 := by simpa [hw] using hpr
  obtain ⟨c, header, hc, hh, hg, -, rfl⟩ := processFile_written_eq_some hw
  replace hh : hasCopyrightHeader c = false := hh.resolve_right (by simp [hforce])
  obtain ⟨cs, hcs, hbin, rfl⟩ := readText_eq_some.mp hc
  have hk₀ : cs ∈ fs₀.files.keys := by simpa [SourceTree.isFile, hcs] using hq
  -- the file is as the run found it: a file written at an earlier visit reads with a header
  have hsame : st.fs.files.get cs = fs₀.files.get cs := (hinv.text cs).resolve_right
    fun ⟨_, _, h⟩ => by rw [h.readback hshort hk₀] at hh; cases hh
  rw [hsame] at hh hw
  exact Or.inr ⟨cs, header, hcs, hk₀, hbin, hsame, hh, hg,
    by simp only [processOne, hdry, hw, State.count_fs], hpr'⟩

/-- **One call of `process_file`** keeps the invariant, and settles the path it was given. -/
theorem processOne_runInv {st : State} {V : List String} {q : String}
    (hinv : RunInv args binary fs₀ st.fs st.processed V) (hq : fs₀.isFile q = true) :
    RunInv args binary fs₀ (processOne args binary st q).fs (processOne args binary st q).processed
      (V ++ [q]) := by
  rcases processOne_cases hforce hdry hshort hinv hq with ⟨hfs, hpr, hset⟩ |
    ⟨cs, header, hcs, hk₀, hbin, hsame, hh, hg, hfs, hpr⟩
  · rw [hfs, hpr]
    exact hinv.snoc_settled hset
  set w := addHeader q ⟨universalNewlines (fs₀.files.get cs).data⟩ header
  have hget : ∀ j, (st.fs.writeFile q w).files.get j = if j = cs then w else st.fs.files.get j :=
    SourceTree.get_writeFile hcs (hinv.keys ▸ hk₀)
  -- what was written reads with a header, so it is not the text the run found
  have hback : hasCopyrightHeader ⟨universalNewlines w.data⟩ = true :=
    hasCopyrightHeader_universalNewlines_addHeader hg (cr_not_mem_universalNewlines _)
      fun hks => hshort _ hk₀ hks.1
  have hne : w ≠ fs₀.files.get cs := fun e => by rw [← e, hback] at hh; cases hh
  rw [hfs, hpr]
  refine ⟨(SourceTree.keys_writeFile _ _).trans hinv.keys,
    (SourceTree.emptyDirs_writeFile _ _).trans hinv.emptyDirs, fun j => ?_, fun p hp => ?_, ?_⟩
  · by_cases hj : j = cs
    · subst hj
      exact Or.inr ⟨q, List.mem_append_right _ (List.mem_singleton_self _), hcs, _, header,
        readText_eq_some.mpr ⟨j, hcs, hbin, rfl⟩, hh, hg, by rw [hget, if_pos rfl]⟩
    · rw [hget, if_neg hj]
      exact (hinv.text j).imp_right fun ⟨p, hp, h⟩ =>
        ⟨p, List.mem_append_left _ hp, h.congr (by rw [hget, if_neg hj])⟩
  · rw [settled_iff hforce hdry]
    intro c' hc'
    obtain ⟨cs', hcs', hbin', rfl⟩ := readText_eq_some.mp hc'
    rw [hget]
    split_ifs with hj
    · subst hj
      rcases List.mem_append.mp hp with hp | hp
      · -- a path visited earlier that names this file had no template
        have hp' := (settled_iff hforce hdry).mp (hinv.settled p hp) _
          (readText_eq_some.mpr ⟨cs', hcs', hbin', rfl⟩)
        rw [hsame, hh] at hp'
        exact Or.inr (hp'.resolve_left Bool.false_ne_true)
      · exact Or.inl hback
    · have hpq : p ∈ V := (List.mem_append.mp hp).resolve_right fun hp => hj (Option.some.inj
        (hcs'.symm.trans ((List.mem_singleton.mp hp) ▸ hcs)))
      exact (settled_iff hforce hdry).mp (hinv.settled p hpq) _
        (readText_eq_some.mpr ⟨cs', hcs', hbin', rfl⟩)
  · rw [hinv.processed, changedFiles, changedFiles]
    refine (length_filter_of_flip (fs₀.files.nodup) hk₀ (by simp [hsame]) (by simp [hget, hne])
      fun j _ hj => by simp [hget, hj]).symm

/-- **The whole loop** keeps the invariant, over every path it hands to `process_file`. -/
theorem main_runInv :
    RunInv args binary fs₀ (main args fs₀ binary).fs (main args fs₀ binary).processed
      (args.paths.flatMap (pathVisits args fs₀)) :=
  main_induction args binary fs₀ (fun st V => RunInv args binary fs₀ st.fs st.processed V)
    (fun _ _ _ _ _ hq h => processOne_runInv hforce hdry hshort h hq)
    (fun _ _ _ hx h => by rw [walkFile_of_excluded hx]; exact h) (RunInv.start args binary fs₀)

end Unforced

theorem processOne_settled {args : Args} {binary : List (List String)} (hdry : args.dryRun = false)
    {st : State} {q : String} (h : Settled args binary st.fs q) :
    (processOne args binary st q).fs = st.fs ∧ (processOne args binary st q).processed = st.processed := by
  unfold Settled at h
  rw [hdry] at h
  exact ⟨by simp only [processOne, hdry, h, State.count_fs],
    by simpa [h] using processOne_processed args binary st q⟩

/-! ### Two runs -/

/-- **What a run writes.**  Outside a forced or dry run, where every shebang line has at most 962
characters, every file is left as it was or holds its original text, which had no header, with
the header for a path the loop visited added; and every visited path that can be read and has a
template reads afterwards with a header. -/
theorem main_written (args : Args) (fs : SourceTree) (binary : List (List String))
    (hforce : args.force = false) (hdry : args.dryRun = false) (hshort : ShortShebangs fs) :
    (∀ cs, (main args fs binary).fs.files.get cs = fs.files.get cs ∨
        ∃ q ∈ args.paths.flatMap (pathVisits args fs), AddedAt binary fs (main args fs binary).fs cs q) ∧
      ∀ q ∈ args.paths.flatMap (pathVisits args fs), ∀ c header,
        readText (main args fs binary).fs binary q = some c → getHeaderForFile q "" = some header →
          hasCopyrightHeader c = true := by
  have hinv : RunInv args binary fs (main args fs binary).fs (main args fs binary).processed _ :=
    main_runInv hforce hdry hshort
  refine ⟨hinv.text, fun q hq c header hc hg => ?_⟩
  exact ((settled_iff hforce hdry).mp (hinv.settled q hq) c hc).resolve_right (by simp [hg])

theorem main_written_hdrTree :
    let args : Args := ⟨["."], false, false, [], false⟩
    (∀ cs, (main args hdrTree []).fs.files.get cs = hdrTree.files.get cs ∨
        ∃ q ∈ args.paths.flatMap (pathVisits args hdrTree),
          AddedAt [] hdrTree (main args hdrTree []).fs cs q) ∧
      ∀ q ∈ args.paths.flatMap (pathVisits args hdrTree), ∀ c header,
        readText (main args hdrTree []).fs [] q = some c → getHeaderForFile q "" = some header →
          hasCopyrightHeader c = true :=
  main_written ⟨["."], false, false, [], false⟩ hdrTree [] rfl rfl (by decide)

/-- **The count of processed files.**  Outside a forced or dry run, where every shebang line has
at most 962 characters, the number of files the summary reports as processed, headers added, is
the number of files whose text the run changed. -/
theorem main_processed (args : Args) (fs : SourceTree) (binary : List (List String))
    (hforce : args.force = false) (hdry : args.dryRun = false) (hshort : ShortShebangs fs) :
    (main args fs binary).processed = (changedFiles fs (main args fs binary).fs).length ∧
      "✅ Files processed (headers added): " ++ toString (changedFiles fs (main args fs binary).fs).length ∈
        (main args fs binary).prints := by
  have hinv : RunInv args binary fs (main args fs binary).fs (main args fs binary).processed _ :=
    main_runInv hforce hdry hshort
  refine ⟨hinv.processed, ?_⟩
  rw [← hinv.processed]
  simp [main, summary, hdry]

theorem main_processed_hdrTree :
    let args : Args := ⟨["."], false, false, [], false⟩
    (main args hdrTree []).processed = (changedFiles hdrTree (main args hdrTree []).fs).length ∧
      "✅ Files processed (headers added): " ++
          toString (changedFiles hdrTree (main args hdrTree []).fs).length ∈
        (main args hdrTree []).prints :=
  main_processed ⟨["."], false, false, [], false⟩ hdrTree [] rfl rfl (by decide)

/-- **A second run writes nothing.**  Outside a forced or dry run, where every shebang line has at
most 962 characters, running the tool again with the same arguments on the tree it left leaves
that tree as it is and counts no file as processed. -/
theorem main_idempotent (args : Args) (fs : SourceTree) (binary : List (List String))
    (hforce : args.force = false) (hdry : args.dryRun = false) (hshort : ShortShebangs fs) :
    (main args (main args fs binary).fs binary).fs = (main args fs binary).fs ∧
      (main args (main args fs binary).fs binary).processed = 0 := by
  have hinv : RunInv args binary fs (main args fs binary).fs (main args fs binary).processed _ :=
    main_runInv hforce hdry hshort
  set fs₁ := (main args fs binary).fs
  -- every path the second run visits was visited by the first, which settled it
  have hset : ∀ q ∈ args.paths.flatMap (pathVisits args fs₁), Settled args binary fs₁ q := by
    rw [pathVisits_congr args hinv.keys hinv.emptyDirs]
    exact hinv.settled
  refine main_induction args binary fs₁
    (fun st V => V ⊆ args.paths.flatMap (pathVisits args fs₁) → st.fs = fs₁ ∧ st.processed = 0)
    (fun st V q _ _ _ h hsub => ?_) (fun _ _ _ hx h hsub => by rw [walkFile_of_excluded hx]; exact h hsub)
    (fun _ => ⟨rfl, rfl⟩) (List.Subset.refl _)
  obtain ⟨hfs, hpr⟩ := h fun x hx => hsub (List.mem_append_left _ hx)
  have hq := hset q (hsub (List.mem_append_right _ (List.mem_singleton_self _)))
  rw [← hfs] at hq
  obtain ⟨h1, h2⟩ := processOne_settled hdry hq
  exact ⟨h1.trans hfs, h2.trans hpr⟩

theorem main_idempotent_hdrTree :
    let args : Args := ⟨["."], false, false, [], false⟩
    (main args (main args hdrTree []).fs []).fs = (main args hdrTree []).fs ∧
      (main args (main args hdrTree []).fs []).processed = 0 :=
  main_idempotent ⟨["."], false, false, [], false⟩ hdrTree [] rfl rfl (by decide)

/-- The first run adds the two headers the second run then finds. -/
example : (main ⟨["."], false, false, [], false⟩ hdrTree []).processed = 2 ∧
    (main ⟨["."], false, false, [], false⟩ hdrTree []).skipped = 1 := by
  decide

/-! ### A dry run and a real run -/

/-- `process_file` on `q`, reading it from `fs`, would write outside a dry run. -/
def Writes (args : Args) (binary : List (List String)) (fs : SourceTree) (q : String) : Bool :=
  (processFile q (readText fs binary q) false args.force args.verbose).written.isSome

theorem main_dryRun_count (args : Args) (fs : SourceTree) (binary : List (List String))
    (h : args.dryRun = true) : (main args fs binary).processed =
      ((args.paths.flatMap (pathVisits args fs)).filter (Writes args binary fs)).length :=
  (main_induction args binary fs
    (fun st V => st.fs = fs ∧ st.processed = (V.filter (Writes args binary fs)).length)
    (fun st V q _ _ _ ⟨hfs, hpr⟩ => by
      refine ⟨((processOne_step args binary st q).dry h).trans hfs, ?_⟩
      rw [processOne_processed, hpr, hfs, length_filter_snoc]
      rfl)
    (fun _ _ _ hx h => by rw [walkFile_of_excluded hx]; exact h) ⟨rfl, rfl⟩).2

theorem main_count_of_nodup (args : Args) (fs : SourceTree) (binary : List (List String))
    (hnd : ((args.paths.flatMap (pathVisits args fs)).map pathComponents).Nodup) :
    (main args fs binary).processed =
      ((args.paths.flatMap (pathVisits args fs)).filter (Writes args binary fs)).length := by
  refine (main_induction args binary fs
    (fun st V => (∀ cs, (∀ p ∈ V, pathComponents p ≠ some cs) → st.fs.files.get cs = fs.files.get cs) ∧
      ((V.map pathComponents).Nodup → st.processed = (V.filter (Writes args binary fs)).length))
    (fun st V q _ _ hq ⟨hframe, hcount⟩ => ⟨fun j hj => ?_, fun hnd => ?_⟩)
    (fun _ _ _ hx h => by rw [walkFile_of_excluded hx]; exact h) ⟨fun _ _ => rfl, fun _ => rfl⟩).2 hnd
  · rw [processOne_get_of_ne (hj q (List.mem_append_right _ (List.mem_singleton_self _)))]
    exact hframe j fun p hp => hj p (List.mem_append_left _ hp)
  · rw [List.map_append, List.nodup_append] at hnd
    -- the file of `q` is as the run found it, no earlier visit naming it
    have hread : readText st.fs binary q = readText fs binary q := readText_congr fun cs hcs =>
      hframe cs fun p hp e => hnd.2.2 (List.mem_map_of_mem _ hp) (by simp [e, hcs])
    rw [processOne_processed, hcount hnd.1, hread, length_filter_snoc]
    rfl

/-- **A dry run tells what a real run does.**  When the paths the loop visits name distinct files,
the number of files a dry run reports it would process is the number a real run with the same
arguments processes: the visits at which `process_file` would write on the tree as it is. -/
theorem main_dryRun_predicts (args : Args) (fs : SourceTree) (binary : List (List String))
    (hnd : ((args.paths.flatMap (pathVisits args fs)).map pathComponents).Nodup) :
    (main { args with dryRun := true } fs binary).processed =
        (main { args with dryRun := false } fs binary).processed ∧
      (main { args with dryRun := false } fs binary).processed =
        ((args.paths.flatMap (pathVisits args fs)).filter (Writes args binary fs)).length :=
  ⟨(main_dryRun_count { args with dryRun := true } fs binary rfl).trans
      (main_count_of_nodup { args with dryRun := false } fs binary hnd).symm,
    main_count_of_nodup { args with dryRun := false } fs binary hnd⟩

theorem main_dryRun_predicts_hdrTree :
    let args : Args := ⟨["."], false, false, [], false⟩
    (main { args with dryRun := true } hdrTree []).processed =
        (main { args with dryRun := false } hdrTree []).processed ∧
      (main { args with dryRun := false } hdrTree []).processed =
        ((args.paths.flatMap (pathVisits args hdrTree)).filter (Writes args [] hdrTree)).length :=
  main_dryRun_predicts ⟨["."], false, false, [], false⟩ hdrTree [] (by decide)

/-- A file named twice: the dry run counts it twice, the real run once, the second visit finding
the header the first added. -/
example : (main ⟨["boot/start.c", "boot/start.c"], true, false, [], false⟩ hdrTree []).processed = 2 ∧
    (main ⟨["boot/start.c", "boot/start.c"], false, false, [], false⟩ hdrTree []).processed = 1 := by
  decide

end Headers

end Avatar
