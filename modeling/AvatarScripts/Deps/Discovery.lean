import AvatarScripts.Python.Collections
import AvatarScripts.Python.Os

/-! # Source discovery: `find_source_files`

`find_source_files` walks every source root that exists and, for each `(root, file)` of the walk
with a `.c`, `.h` or `.S` name, assigns `self.files[file] = relpath(join(root, file))`, unless
the root is skipped or the file is filtered out (`recordOf`).  `sourceRecords` lists these
assignments in order and `findSourceFiles` applies them, the last one for a name winning.

Every test is a substring test on the root string: `'clib' in root`, `'guest/linux' in root`,
`'guest' in root`, `'app' in root`.  A directory whose name merely contains one of these words is
treated as if it were that directory (`sourceRecords_guest_substring`): a `.c` file in
`vmm/guestos` is dropped as a guest file, though no component of its path is `guest`.

Files are keyed by name: of two discovered files with one name the later wins
(`findSourceFiles_find?`), and every recorded path is a file of the tree that `open` reads
(`findSourceFiles_file`). -/

namespace Avatar

/-- `src_dirs` of `main`. -/
def mainSrcDirs : List String :=
  [".", "boot", "exception", "io", "mem", "timer", "task", "process", "spinlock", "vmm", "lib",
    "fs", "syscall", "guest"]

/-- `include_dirs` of `main`. -/
def mainIncludeDirs : List String := ["include", "guest"]

/-- The roots whose files `find_source_files` skips:
`'clib' in root or any(subdir in root for subdir in [...])`. -/
def skipsRoot (root : String) : Bool :=
  pyIn "clib" root || ["guest/linux", "guest/nimbos", "guest/testos"].any fun subdir => pyIn subdir root

/-- The only files kept from a root containing `guest`. -/
def guestFiles : List String := ["test_guest.S", "guest_manifests.c", "guest_manifest.h"]

/-- The assignment `self.files[file] = rel_path` that the loop body makes for `(root, file)`,
if any. -/
def recordOf (root file : String) : Option (String × String) :=
  if skipsRoot root then none
  else if pyEndsWith file [".c", ".h", ".S"] then
    let relPath := relpath (pathJoin root file)
    if pyIn "guest" root then
      if file ∈ guestFiles then some (file, relPath) else none
    else if pyIn "app" root && file == "syscall.S" then none
    else some (file, relPath)
  else none

/-- Every assignment to `self.files` that `find_source_files` makes, in order. -/
def sourceRecords (fs : SourceTree) (srcDirs : List String) : List (String × String) :=
  srcDirs.flatMap fun srcDir =>
    if fs.pathExists srcDir then (fs.walk srcDir).filterMap fun e => recordOf e.1 e.2 else []

/-- `find_source_files()` on the dict `files`: the assignments applied in order. -/
def findSourceFiles (fs : SourceTree) (srcDirs : List String) (files : PyDict String String) :
    PyDict String String :=
  (sourceRecords fs srcDirs).foldl (fun d r => d.insert r.1 r.2) files

/-- The discovery rule in the words of the specification, for a file `name` whose directory has
the components `dirs`: no component is `clib`, the file is not under `guest/linux`,
`guest/nimbos` or `guest/testos`, only the guest files are kept when a component is `guest`,
and `syscall.S` is dropped when a component is `app`. -/
def specKeeps (dirs : List String) (name : String) : Bool :=
  pyEndsWith name [".c", ".h", ".S"] && !dirs.contains "clib" &&
    !(["linux", "nimbos", "testos"].any fun d => decide (["guest", d] <:+: dirs)) &&
    (!dirs.contains "guest" || decide (name ∈ guestFiles)) &&
    (!dirs.contains "app" || name != "syscall.S")

/-! ### What is recorded -/

theorem recordOf_eq_some {root file : String} {r : String × String} (h : recordOf root file = some r) :
    r = (file, relpath (pathJoin root file)) ∧ pyEndsWith file [".c", ".h", ".S"] := by
  unfold recordOf at h
  split_ifs at h with _ hend <;> cases h <;> exact ⟨rfl, hend⟩

theorem mem_findSourceFiles_items {fs : SourceTree} {srcDirs : List String}
    {files : PyDict String String} {k v : String} :
    (k, v) ∈ (findSourceFiles fs srcDirs files).items →
      (k, v) ∈ files.items ∨ (k, v) ∈ sourceRecords fs srcDirs := by
  unfold findSourceFiles
  induction sourceRecords fs srcDirs generalizing files with
  | nil => exact Or.inl
  | cons r rs ih =>
    intro h
    rcases ih h with h | h
    · rcases PyDict.mem_insert_items.mp h with ⟨rfl, rfl⟩ | ⟨-, h⟩
      · exact Or.inr (List.mem_cons_self _ _)
      · exact Or.inl h
    · exact Or.inr (List.mem_cons_of_mem _ h)

/-- **Discovered paths are files of the tree.**  Every path `find_source_files` records under a
name is the relative path of a file of the tree with that name, ending in `.c`, `.h` or `.S`, and
`open` reads that file. -/
theorem findSourceFiles_file (fs : SourceTree) (srcDirs : List String) {k v : String}
    (h : (k, v) ∈ (findSourceFiles fs srcDirs PyDict.empty).items) :
    ∃ f ∈ fs.files.items, pathComponents v = some f.1 ∧ f.1.getLast? = some k ∧
      fs.readFile v = some f.2 ∧ pyEndsWith k [".c", ".h", ".S"] := by
  rcases mem_findSourceFiles_items h with h | h
  · cases h
  obtain ⟨srcDir, -, hr⟩ := List.mem_flatMap.mp h
  split_ifs at hr
  · obtain ⟨e, he, hre⟩ := List.mem_filterMap.mp hr
    obtain ⟨hkv, hend⟩ := recordOf_eq_some hre
    obtain ⟨rfl, rfl⟩ := Prod.mk.inj hkv
    obtain ⟨f, hf, hc, hlast⟩ := SourceTree.pathComponents_of_mem_walk he
    have hne : f.1 ≠ [] := fun h => by simp [h] at hlast
    have hv : pathComponents (relpath (pathJoin e.1 e.2)) = some f.1 := by
      rw [relpath_of_components hc hne]
      exact pathComponents_join hne (fs.names f hf)
    exact ⟨f, hf, hv, hlast, by simp [SourceTree.readFile, hv, PyDict.find?_eq_some_iff.mpr hf],
      hend⟩
  · cases hr

/-- A tree with one source file. -/
def bootTree : SourceTree := ⟨⟨[(["boot", "a.c"], "")], by decide⟩, [], by decide⟩

theorem findSourceFiles_file_boot :
    ("a.c", "boot/a.c") ∈ (findSourceFiles bootTree mainSrcDirs PyDict.empty).items ∧
      ∃ f ∈ bootTree.files.items, pathComponents "boot/a.c" = some f.1 ∧
        f.1.getLast? = some "a.c" ∧ bootTree.readFile "boot/a.c" = some f.2 ∧
        pyEndsWith "a.c" [".c", ".h", ".S"] :=
  have h : ("a.c", "boot/a.c") ∈ (findSourceFiles bootTree mainSrcDirs PyDict.empty).items := by
    decide
  ⟨h, findSourceFiles_file bootTree mainSrcDirs h⟩

/-- **Last writer wins.**  After `find_source_files`, `files[name]` is the path of the last file
named `name` that the walk records, and `name` is absent when the walk records none: of two
discovered files with one name, only the later is ever analyzed. -/
theorem findSourceFiles_find? (fs : SourceTree) (srcDirs : List String) (name : String) :
    (findSourceFiles fs srcDirs PyDict.empty).find? name =
      ((sourceRecords fs srcDirs).filter fun r => r.1 = name).getLast?.map Prod.snd := by
  rw [findSourceFiles, PyDict.find?_foldl_insert]
  cases ((sourceRecords fs srcDirs).filter fun r => r.1 = name).getLast? <;> rfl

example : (findSourceFiles ⟨⟨[(["boot", "main.c"], ""), (["lib", "main.c"], "")], by decide⟩, [],
    by decide⟩ mainSrcDirs PyDict.empty).find? "main.c" = some "lib/main.c" := by decide

/-- A `.c` file in a directory whose name contains `guest` is not discovered, although no
component of its path is `guest`. -/
theorem sourceRecords_guest_substring :
    specKeeps ["vmm", "guestos"] "vcpu.c" = true ∧
      sourceRecords ⟨⟨[(["vmm", "guestos", "vcpu.c"], "")], by decide⟩, [], by decide⟩ mainSrcDirs = [] := by
  decide

end Avatar
