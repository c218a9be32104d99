import AvatarScripts.Python.Collections
import AvatarScripts.Python.Str

/-! # The file system, as the analyzer sees it

The analyzer runs in the root of the source tree and touches the file system through
`os.path.join`, `os.path.relpath`, `os.path.basename`, `os.path.exists`, `open` and `os.walk`.
The tree is a `SourceTree`: every file by its path components below the working directory, with
its text, and the directories that hold no file.  Conventions:

* a path is resolved lexically (`pathComponents`): empty and `.` components are dropped and `..`
  removes the component before it.  The system resolves `..` only after entering the directory
  before it, so the two agree on every path none of whose `..` follows a missing directory or a
  file; the paths the tools build from the walk have no `..` at all.  A path that is absolute or
  leaves the working directory lies outside the tree: it does not exist and cannot be read or
  written;
* `open(p, 'w')` succeeds when the directory `p` is in exists and `p` is no directory
  (`canOpenWrite`);
* `relpath` of a path inside the tree is its normalised form relative to the working directory;
* `walk fs top` lists the pairs `(root, file)` of
  `for root, dirs, files in os.walk(top): for file in files`, each `root` built from `top` by
  `os.path.join` one directory at a time.  The order of `fs.files` stands for the order of the
  walk, so a theorem about every tree is one about every order of the walk. -/

namespace Avatar

/-- A valid name of a directory entry: not empty, not `.` or `..`, and without `/`. -/
def IsEntryName (c : String) : Prop := c ≠ "" ∧ c ≠ "." ∧ c ≠ ".." ∧ '/' ∉ c.data

instance (c : String) : Decidable (IsEntryName c) := inferInstanceAs (Decidable (_ ∧ _))

/-- A directory tree below the working directory: each file by its path components and its
text, and the directories, by their components, that hold no file. -/
structure SourceTree where
  files : PyDict (List String) String
  emptyDirs : List (List String)
  names : ∀ f ∈ files.items, ∀ c ∈ f.1, IsEntryName c

/-- `os.path.join(a, b)`: an absolute `b` replaces `a`; otherwise `/` separates them unless `a`
is empty or ends with one. -/
def pathJoin (a b : String) : String :=
  if b.data.head? = some '/' then b
  else if a.data = [] ∨ a.data.getLast? = some '/' then a ++ b
  else a ++ "/" ++ b

/-- `os.path.basename(p)`: what follows the last `/`. -/
def basename (p : String) : String := ⟨(p.data.reverse.takeWhile (· != '/')).reverse⟩

/-- `Path(p).name`: the last component of `p`, empty and `.` components left out. -/
def pathName (p : String) : String :=
  ((((p.data.splitOn '/').map String.mk).filter fun c => c != "" && c != ".").getLast?).getD ""

/-- `Path(p).suffix`: the name from its last `.` on, when that dot is neither the first nor the
last character of the name, and empty otherwise. -/
def pathSuffix (p : String) : String :=
  let name := (pathName p).data
  let after := (name.reverse.takeWhile (· != '.')).reverse
  if '.' ∈ name ∧ after ≠ [] ∧ after.length + 1 < name.length then ⟨'.' :: after⟩ else ""

/-- One component of a relative path, resolved lexically from the directory `acc`. -/
def stepComponent (acc : List String) (c : String) : Option (List String) :=
  if c = "" ∨ c = "." then some acc
  else if c = ".." then (if acc = [] then none else some acc.dropLast)
  else some (acc ++ [c])

/-- The components of the relative path `chars`, resolved lexically from the directory `acc`. -/
def resolveFrom (acc : List String) (chars : List Char) : Option (List String) :=
  ((chars.splitOn '/').map String.mk).foldlM stepComponent acc

/-- The components of the normalised path `p` below the working directory, or `none` when `p`
is empty, absolute or leaves the working directory. -/
def pathComponents (p : String) : Option (List String) :=
  if p.data = [] ∨ p.data.head? = some '/' then none else resolveFrom [] p.data

/-- `os.path.relpath(p)` of a path inside the tree; a path outside, which the analyzer never
passes, is returned as it is. -/
def relpath (p : String) : String :=
  match pathComponents p with
  | some [] => "."
  | some cs => "/".intercalate cs
  | none => p

/-! ### Resolving joined paths

A `/`-join of valid names resolves to those names (`pathComponents_join`), and joining a valid
name to a path inside the tree appends it to the path's components (`pathComponents_pathJoin`).
So the paths `os.walk` and `os.path.relpath` build name the files they came from. -/

/-- Splitting at a separator: the pieces before it, then the pieces after it. -/
theorem splitOnP_append_cons {α : Type} (p : α → Bool) {sep : α} (h : p sep) :
    ∀ l as : List α, (l ++ sep :: as).splitOnP p = l.splitOnP p ++ as.splitOnP p
  | [], as => by simp [h]
  | x :: l, as => by
    rw [List.cons_append, List.splitOnP_cons, List.splitOnP_cons, splitOnP_append_cons p h l as]
    obtain ⟨y, ys, hy⟩ := List.exists_cons_of_ne_nil (List.splitOnP_ne_nil p l)
    by_cases hx : p x <;> simp [hx, hy]

theorem splitOn_eq_single {y : List Char} (hy : '/' ∉ y) : y.splitOn '/' = [y] :=
  List.splitOnP_eq_single _ _ fun x hx hxy => hy (by rwa [← beq_iff_eq.mp hxy])

@[simp] theorem stepComponent_name {acc : List String} {c : String} (h : IsEntryName c) :
    stepComponent acc c = some (acc ++ [c]) := by
  simp [stepComponent, h.1, h.2.1, h.2.2.1]

theorem resolveFrom_single (acc : List String) {y : List Char} (hy : '/' ∉ y) :
    resolveFrom acc y = stepComponent acc ⟨y⟩ := by
  simp [resolveFrom, splitOn_eq_single hy]

theorem resolveFrom_sep_left (acc : List String) {y : List Char} (hy : '/' ∉ y) (x : List Char) :
    resolveFrom acc (y ++ '/' :: x) = (stepComponent acc ⟨y⟩).bind (resolveFrom · x) := by
  simp only [resolveFrom, List.splitOn]
  rw [List.splitOnP_first _ _ (fun z hz hzy => hy (by rwa [← beq_iff_eq.mp hzy])) _ (by simp)]
  rfl

theorem resolveFrom_sep_right (acc : List String) (x : List Char) {y : List Char} (hy : '/' ∉ y) :
    resolveFrom acc (x ++ '/' :: y) = (resolveFrom acc x).bind (stepComponent · ⟨y⟩) := by
  have hy' : y.splitOnP (· == '/') = [y] := splitOn_eq_single hy
  simp only [resolveFrom, List.splitOn]
  rw [splitOnP_append_cons _ (by simp), List.map_append, List.foldlM_append, hy']
  simp only [List.map_cons, List.map_nil, List.foldlM_cons, List.foldlM_nil, bind_pure]
  rfl

theorem data_intercalate (c : String) (cs : List String) :
    ("/".intercalate (c :: cs)).data = c.data ++ cs.flatMap fun d => '/' :: d.data :=
  data_intercalate_sep "/" c cs

theorem resolveFrom_join (acc : List String) {c : String} {cs : List String} (hc : IsEntryName c)
    (hcs : ∀ d ∈ cs, IsEntryName d) :
    resolveFrom acc (c.data ++ cs.flatMap fun d => '/' :: d.data) = some (acc ++ c :: cs) := by
  induction cs generalizing acc c with
  | nil => simp [resolveFrom_single acc hc.2.2.2, hc]
  | cons d ds ih =>
    rw [List.flatMap_cons, List.cons_append, resolveFrom_sep_left acc hc.2.2.2, stepComponent_name hc,
      Option.some_bind, ih _ (hcs d (List.mem_cons_self _ _)) fun e he => hcs e (List.mem_cons_of_mem _ he)]
    simp

theorem data_ne_nil {c : String} (h : c ≠ "") : c.data ≠ [] := fun hc => h (by
  cases c
  simp_all)

/-- A `/`-join of valid names resolves to those names. -/
theorem pathComponents_join {cs : List String} (hne : cs ≠ []) (h : ∀ c ∈ cs, IsEntryName c) :
    pathComponents ("/".intercalate cs) = some cs := by
  obtain ⟨c, cs, rfl⟩ := List.exists_cons_of_ne_nil hne
  have hc := h c (List.mem_cons_self _ _)
  obtain ⟨x, xs, hx⟩ := List.exists_cons_of_ne_nil (data_ne_nil hc.1)
  have hx' : x ≠ '/' := fun e => hc.2.2.2 (by simp [hx, e])
  rw [pathComponents, data_intercalate, if_neg (by simp [hx, hx'])]
  simpa using resolveFrom_join [] hc fun d hd => h d (List.mem_cons_of_mem _ hd)

theorem relpath_of_components {p : String} {cs : List String} (hp : pathComponents p = some cs)
    (hne : cs ≠ []) : relpath p = "/".intercalate cs := by
  obtain ⟨c, cs, rfl⟩ := List.exists_cons_of_ne_nil hne
  simp [relpath, hp]

/-- Joining a valid name to a path inside the tree appends the name to its components. -/
theorem pathComponents_pathJoin {p c : String} {cs : List String} (hp : pathComponents p = some cs)
    (hc : IsEntryName c) : pathComponents (pathJoin p c) = some (cs ++ [c]) := by
  unfold pathComponents at hp
  split_ifs at hp with hp0
  have hc0 : c.data.head? ≠ some '/' := fun e => hc.2.2.2 (List.mem_of_mem_head? e)
  obtain ⟨x, hxp, hx⟩ : ∃ x, (pathJoin p c).data = x ++ '/' :: c.data ∧ resolveFrom [] x = some cs ∧
      x ≠ [] ∧ x.head? = p.data.head? := by
    unfold pathJoin
    rw [if_neg hc0]
    split_ifs with hl
    · obtain ⟨x, hx⟩ := List.getLast?_eq_some_iff.mp (hl.resolve_left (not_or.mp hp0).1)
      refine ⟨x, by simp [hx], ?_⟩
      rw [hx, resolveFrom_sep_right [] x (List.not_mem_nil _)] at hp
      have hxne : x ≠ [] := by
        rintro rfl
        exact (not_or.mp hp0).2 (by simp [hx])
      refine ⟨?_, hxne, by simp [hx, List.head?_append_of_ne_nil _ hxne]⟩
      simpa [stepComponent] using hp
    · exact ⟨p.data, by simp, hp, (not_or.mp hp0).1, rfl⟩
  rw [pathComponents, hxp, if_neg, resolveFrom_sep_right [] x hc.2.2.2, hx.1, Option.some_bind]
  · exact stepComponent_name hc
  · simp [List.head?_append_of_ne_nil _ hx.2.1, hx.2.2, (not_or.mp hp0).2]

/-- The roots `os.walk` builds below a path inside the tree resolve to its components followed by
the directories descended into. -/
theorem pathComponents_foldl_pathJoin : ∀ (dirs : List String) {top : String} {base : List String},
    pathComponents top = some base → (∀ d ∈ dirs, IsEntryName d) →
      pathComponents (dirs.foldl pathJoin top) = some (base ++ dirs)
  | [], _, _, h, _ => by simpa using h
  | d :: ds, _, _, h, hd => by
    rw [List.foldl_cons, pathComponents_foldl_pathJoin ds
      (pathComponents_pathJoin h (hd d (List.mem_cons_self _ _)))
      fun e he => hd e (List.mem_cons_of_mem _ he)]
    simp

/-! ### Names and suffixes

A path is the text before its last `/`, which is empty or ends with `/`, followed by its
`basename` (`data_eq_append_basename`).  So `Path(p).name` is the `basename` whenever that is a
real name (`pathName_eq_basename`), and the suffix of a name `n ++ '.' :: t` with no dot in `t` is
`.t` exactly when neither `n` nor `t` is empty (`pathSuffix_eq`). -/

theorem slash_not_mem_basename (p : String) : '/' ∉ (basename p).data := fun h => by
  simpa using List.mem_takeWhile_imp (List.mem_reverse.mp h)

theorem basename_append {x s : List Char} (hs : '/' ∉ s) :
    (basename ⟨x ++ s⟩).data = (basename ⟨x⟩).data ++ s := by
  have hs' : ∀ c ∈ s.reverse, (c != '/') = true := fun c hc =>
    bne_iff_ne.mpr fun e => hs (e ▸ List.mem_reverse.mp hc)
  simp only [basename, List.reverse_append, List.takeWhile_append_of_pos hs', List.reverse_reverse]

theorem data_eq_append_basename (p : String) :
    ∃ y, p.data = y ++ (basename p).data ∧ (y = [] ∨ ∃ y', y = y' ++ ['/']) := by
  rcases hd : p.data.reverse.dropWhile (· != '/') with _ | ⟨c, r⟩
  · have hl := List.takeWhile_append_dropWhile (· != '/') p.data.reverse
    rw [hd, List.append_nil] at hl
    refine ⟨[], ?_, Or.inl rfl⟩
    show p.data = (p.data.reverse.takeWhile (· != '/')).reverse
    rw [hl, List.reverse_reverse]
  · obtain ⟨he, hc⟩ := eq_takeWhile_append_of_dropWhile_eq_cons hd
    have hc' : c = '/' := by simpa using hc
    refine ⟨r.reverse ++ ['/'], ?_, Or.inr ⟨_, rfl⟩⟩
    rw [← List.reverse_reverse p.data, he, hc']
    simp [basename]

theorem pathName_eq_basename {p : String} (h1 : basename p ≠ "") (h2 : basename p ≠ ".") :
    pathName p = basename p := by
  obtain ⟨y, hy, hy'⟩ := data_eq_append_basename p
  have hsplit : ∃ L, p.data.splitOn '/' = L ++ [(basename p).data] := by
    rcases hy' with rfl | ⟨y', rfl⟩
    · exact ⟨[], by rw [hy, List.nil_append, splitOn_eq_single (slash_not_mem_basename p)]; rfl⟩
    · refine ⟨y'.splitOn '/', ?_⟩
      rw [hy, List.append_assoc, List.singleton_append, List.splitOn, splitOnP_append_cons _ (by simp)]
      exact congrArg _ (splitOn_eq_single (slash_not_mem_basename p))
  obtain ⟨L, hL⟩ := hsplit
  have hkeep : (basename p != "" && basename p != ".") = true := by simp [h1, h2]
  simp [pathName, hL, List.filter_append, hkeep]

theorem pathSuffix_eq {p : String} {n t : List Char} (h : (pathName p).data = n ++ '.' :: t)
    (ht : '.' ∉ t) : pathSuffix p = if t ≠ [] ∧ n ≠ [] then ⟨'.' :: t⟩ else "" := by
  have ht' : ∀ c ∈ t.reverse, (c != '.') = true := fun c hc =>
    bne_iff_ne.mpr fun e => ht (e ▸ List.mem_reverse.mp hc)
  have hafter : ((pathName p).data.reverse.takeWhile (· != '.')).reverse = t := by
    rw [h, List.reverse_append, List.reverse_cons, List.append_assoc, List.singleton_append,
      (takeWhile_dropWhile_of_split ht' (by simp)).1, List.reverse_reverse]
  have hlen : t.length + 1 < (pathName p).data.length ↔ n ≠ [] := by
    rw [h, List.length_append, List.length_cons, ← List.length_pos]
    omega
  have hdot : '.' ∈ (pathName p).data := by simp [h]
  unfold pathSuffix
  simp only [hafter, hlen, hdot, true_and]

namespace SourceTree

variable (fs : SourceTree)

/-- `os.path.exists(p)`: `p` names a file or a directory of the tree. -/
def pathExists (p : String) : Bool :=
  match pathComponents p with
  | some cs => cs.isEmpty || fs.files.items.any (fun f => cs.isPrefixOf f.1) ||
      fs.emptyDirs.any (fun d => cs.isPrefixOf d)
  | none => false

/-- The text `open(p).read()` returns, or `none` where `open` raises. -/
def readFile (p : String) : Option String :=
  (pathComponents p).bind fs.files.find?

/-- A path that can be read exists. -/
theorem pathExists_of_readFile {p text : String} (h : fs.readFile p = some text) :
    fs.pathExists p = true := by
  obtain ⟨cs, hcs, hf⟩ := Option.bind_eq_some.mp h
  have hmem := PyDict.find?_eq_some_iff.mp hf
  simp only [pathExists, hcs, Bool.or_eq_true, List.any_eq_true]
  exact Or.inl (Or.inr ⟨(cs, text), hmem, by simp⟩)

/-- The walk entry of the file at `comps` below the directory `base` named `top`: the root that
`os.walk(top)` lists it under, and its name. -/
def walkEntry (top : String) (base comps : List String) : Option (String × String) :=
  if base.isPrefixOf comps then
    match (comps.drop base.length).reverse with
    | name :: dirs => some (dirs.reverse.foldl pathJoin top, name)
    | [] => none
  else none

/-- The pairs `(root, file)` of `for root, dirs, files in os.walk(top): for file in files`. -/
def walk (top : String) : List (String × String) :=
  match pathComponents top with
  | some base => fs.files.items.filterMap fun f => walkEntry top base f.1
  | none => []

/-- The pairs `(root, file)` of `os.walk(top)` when the loop removes every directory named in
`exclude` from `dirs` before the walk descends: the files none of whose directories below `top`
is so named. -/
def walkPruned (top : String) (exclude : List String) : List (String × String) :=
  match pathComponents top with
  | some base => fs.files.keys.filterMap fun comps =>
      if (comps.drop base.length).dropLast.any (fun d => decide (d ∈ exclude)) then none
      else walkEntry top base comps
  | none => []

/-- `os.path.isfile(p)`. -/
def isFile (p : String) : Bool :=
  match pathComponents p with
  | some cs => decide (cs ∈ fs.files.keys)
  | none => false

/-- `os.path.isdir(p)`: `p` exists and is not a file. -/
def isDir (p : String) : Bool := fs.pathExists p && !fs.isFile p

/-- The directory at the components `cs`: the working directory, or a prefix of the path of a
file or of an empty directory that is not itself a file. -/
def dirAt (cs : List String) : Bool :=
  cs.isEmpty ||
    (fs.files.keys.any cs.isPrefixOf || fs.emptyDirs.any cs.isPrefixOf) && !decide (cs ∈ fs.files.keys)

/-- Whether `open(p, 'w')` creates or truncates the file `p`: `p` lies in the tree and does not
end with `/`, the directory it is in exists, and `p` is not a directory itself.  Otherwise `open`
raises `FileNotFoundError`, `NotADirectoryError` or `IsADirectoryError`. -/
def canOpenWrite (p : String) : Bool :=
  match pathComponents p with
  | some cs => p.data.getLast? != some '/' && fs.dirAt cs.dropLast && !fs.dirAt cs
  | none => false

theorem names_insert {cs : List String} (h : cs ∈ fs.files.keys) (text : String) :
    ∀ f ∈ (fs.files.insert cs text).items, ∀ c ∈ f.1, IsEntryName c := by
  rintro ⟨j, w⟩ hf
  rcases PyDict.mem_insert_items.mp hf with ⟨rfl, -⟩ | ⟨-, hf⟩
  · obtain ⟨v, hv⟩ := PyDict.mem_keys.mp h
    exact fs.names (j, v) hv
  · exact fs.names _ hf

/-- The tree after `open(p, 'w').write(text)` on a file `p` of the tree.  The header tool writes
only files it has just read, so a path naming no file is left as it is. -/
def writeFile (p text : String) : SourceTree :=
  match pathComponents p with
  | some cs =>
    if h : cs ∈ fs.files.keys then ⟨fs.files.insert cs text, fs.emptyDirs, fs.names_insert h text⟩
    else fs
  | none => fs

/-! ### Writing keeps the shape of the tree

A write replaces the text of a file and nothing else, and every test of the shape of the tree
(`os.path.isfile`, `os.path.isdir`, the walk) reads only the paths of the files and the empty
directories, so it reads the same before and after a write. -/

variable {fs}

theorem keys_writeFile (p text : String) : (fs.writeFile p text).files.keys = fs.files.keys := by
  unfold writeFile
  split
  · split_ifs with h
    · simp [PyDict.keys_insert, h]
    · rfl
  · rfl

theorem emptyDirs_writeFile (p text : String) : (fs.writeFile p text).emptyDirs = fs.emptyDirs := by
  unfold writeFile
  split
  · split_ifs <;> rfl
  · rfl

/-- A write replaces the text of the file it names and no other. -/
theorem get_writeFile {p text : String} {cs : List String} (hp : pathComponents p = some cs)
    (hk : cs ∈ fs.files.keys) (j : List String) :
    (fs.writeFile p text).files.get j = if j = cs then text else fs.files.get j := by
  simp [writeFile, hp, hk]

theorem get_writeFile_of_ne {p text : String} {j : List String} (h : pathComponents p ≠ some j) :
    (fs.writeFile p text).files.get j = fs.files.get j := by
  unfold writeFile
  split
  · next cs hp =>
    split_ifs
    · rw [PyDict.get_insert, if_neg]
      rintro rfl
      exact h hp
    · rfl
  · rfl

theorem walkPruned_congr {fs' : SourceTree} (h : fs'.files.keys = fs.files.keys) :
    fs'.walkPruned = fs.walkPruned := by
  funext top exclude
  simp only [walkPruned, h]

theorem isFile_congr {fs' : SourceTree} (h : fs'.files.keys = fs.files.keys) :
    fs'.isFile = fs.isFile := by
  funext q
  simp only [isFile, h]

theorem isDir_congr {fs' : SourceTree} (h : fs'.files.keys = fs.files.keys)
    (he : fs'.emptyDirs = fs.emptyDirs) : fs'.isDir = fs.isDir := by
  have hmap : ∀ (l : List (List String × String)) (cs : List String),
      l.any (fun f => cs.isPrefixOf f.1) = (l.map Prod.fst).any cs.isPrefixOf := fun l cs => by
    induction l <;> simp [*]
  have hk : fs'.files.items.map Prod.fst = fs.files.items.map Prod.fst := h
  funext q
  simp only [isDir, pathExists, isFile_congr h, he, hmap, hk]

/-! ### The walk -/

theorem walkEntry_eq_some {top : String} {base comps : List String} {e : String × String}
    (h : walkEntry top base comps = some e) :
    ∃ dirs, comps = base ++ dirs ++ [e.2] ∧ e.1 = dirs.foldl pathJoin top := by
  unfold walkEntry at h
  split_ifs at h with hp
  obtain ⟨rest, rfl⟩ := List.isPrefixOf_iff_prefix.mp hp
  rw [List.drop_left] at h
  rcases hr : rest.reverse with _ | ⟨name, dirs⟩ <;> rw [hr] at h
  · cases h
  · cases h
    refine ⟨dirs.reverse, ?_, rfl⟩
    rw [← List.reverse_reverse rest, hr]
    simp

/-- An entry `(root, file)` of a walk is a file of the tree named `file`, and `root` joined with
`file` is its path. -/
theorem pathComponents_of_mem_walk {top : String} {e : String × String} (h : e ∈ fs.walk top) :
    ∃ f ∈ fs.files.items, pathComponents (pathJoin e.1 e.2) = some f.1 ∧ f.1.getLast? = some e.2 := by
  unfold walk at h
  rcases hb : pathComponents top with _ | base <;> rw [hb] at h
  · cases h
  obtain ⟨f, hf, he⟩ := List.mem_filterMap.mp h
  obtain ⟨dirs, hc, hr⟩ := walkEntry_eq_some he
  have hn := fs.names f hf
  rw [hc] at hn
  refine ⟨f, hf, ?_, by simp [hc]⟩
  rw [hr, hc, pathComponents_pathJoin (pathComponents_foldl_pathJoin dirs hb
    fun d hd => hn d (by simp [hd])) (hn e.2 (by simp))]

/-- An entry of a pruned walk names a file of the tree. -/
theorem pathComponents_of_mem_walkPruned {top : String} {exclude : List String}
    {e : String × String} (h : e ∈ fs.walkPruned top exclude) :
    ∃ cs ∈ fs.files.keys, pathComponents (pathJoin e.1 e.2) = some cs := by
  unfold walkPruned at h
  rcases hb : pathComponents top with _ | base <;> rw [hb] at h
  · cases h
  obtain ⟨comps, hk, he⟩ := List.mem_filterMap.mp h
  split_ifs at he
  obtain ⟨dirs, hc, hr⟩ := walkEntry_eq_some he
  obtain ⟨v, hv⟩ := PyDict.mem_keys.mp hk
  have hn := fs.names _ hv
  simp only [hc] at hn
  refine ⟨comps, hk, ?_⟩
  rw [hr, hc, pathComponents_pathJoin (pathComponents_foldl_pathJoin dirs hb
    fun d hd => hn d (by simp [hd])) (hn e.2 (by simp))]

theorem isFile_of_mem_walkPruned {top : String} {exclude : List String} {e : String × String}
    (h : e ∈ fs.walkPruned top exclude) : fs.isFile (pathJoin e.1 e.2) = true := by
  obtain ⟨cs, hk, hp⟩ := pathComponents_of_mem_walkPruned h
  simp [isFile, hp, hk]

/-! ### Opening a file for writing -/

end SourceTree

end Avatar
