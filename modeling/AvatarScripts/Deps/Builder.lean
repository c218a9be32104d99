import AvatarScripts.Deps.Cycles
import AvatarScripts.Deps.Includes
import AvatarScripts.Deps.Discovery

/-! # The analyzer state and `build_dependency_graph`

A `DependencyAnalyzer` holds its configuration, the discovered files (`files`, from a file name
to its path), the forward mapping `dependencies` and its reverse index `reverse_deps`.
`build_dependency_graph` discovers the files, then, for every discovered path ending in `.c` or
`.S`, adds an edge to every include target that `resolve_include` resolves to a non-empty path
other than the file's own (`addInclude`, `addFile`).

The mapping it builds is characterised exactly (`buildDependencyGraph_dependencies`): the
successors of `u` are the resolved includes of `u` when `u` is a discovered `.c` or `.S` path,
and nothing otherwise.  A header's includes are never read, so a cycle between two headers is
not in the graph.  An include can resolve through an include directory to a path that discovery
skipped (`resolveInclude_spec`), such as a header under `guest/linux`.  Every update adds an edge
to both mappings, and never from a file to itself, so the two mappings stay each other's
transpose and the graph irreflexive (`Consistent`). -/

namespace Avatar

/-- The state of a `DependencyAnalyzer`. -/
structure Analyzer where
  srcDirs : List String
  includeDirs : List String
  dependencies : Graph String
  reverseDeps : Graph String
  files : PyDict String String

namespace Graph

variable {α : Type} [DecidableEq α]

theorem mem_succs_modify_add {g : Graph α} {k x u v : α} :
    v ∈ Graph.succs (g.modify k (·.add x)) u ↔ v ∈ g.succs u ∨ (u = k ∧ v = x) := by
  unfold succs
  rw [PyDict.get_modify]
  split_ifs with h
  · simp [h]
  · simp [h]

/-- Every entry of the mapping holds an element. -/
def NoEmpty (g : Graph α) : Prop := ∀ e ∈ g.items, e.2.elems ≠ []

theorem NoEmpty.modify_add {g : Graph α} (h : g.NoEmpty) (k x : α) :
    Graph.NoEmpty (g.modify k (·.add x)) := by
  rintro ⟨j, w⟩ he
  rcases PyDict.mem_insert_items.mp he with ⟨-, rfl⟩ | ⟨-, he⟩
  · exact List.ne_nil_of_mem (PySet.mem_add.mpr (Or.inr rfl))
  · exact h _ he

/-- A mapping without empty entries has no entry exactly when it has no edge. -/
theorem NoEmpty.items_eq_nil_iff {g : Graph α} (h : g.NoEmpty) :
    g.items = [] ↔ ∀ u v, ¬ g.Edge u v := by
  refine ⟨fun he u v huv => ?_, fun hn => ?_⟩
  · obtain ⟨s, hs, -⟩ := edge_iff.mp huv
    rw [he] at hs
    cases hs
  · rcases hi : g.items with _ | ⟨e, es⟩
    · rfl
    · have he : e ∈ g.items := hi ▸ List.mem_cons_self _ _
      obtain ⟨v, hv⟩ := List.exists_mem_of_ne_nil _ (h e he)
      exact absurd (edge_iff.mpr ⟨e.2, he, hv⟩) (hn e.1 v)

end Graph

namespace Analyzer

/-- `DependencyAnalyzer(src_dirs, include_dirs)`. -/
def init (srcDirs includeDirs : List String) : Analyzer :=
  ⟨srcDirs, includeDirs, PyDict.empty, PyDict.empty, PyDict.empty⟩

variable (fs : SourceTree)

/-- `resolve_include(include_name)`: the discovered path of that name, else the path of the
first include directory where it exists.  The closing test for `sys/`, `linux/` and `asm/`
returns `None` as the fall-through does. -/
def resolveInclude (a : Analyzer) (includeName : String) : Option String :=
  match a.files.find? includeName with
  | some p => some p
  | none => (a.includeDirs.find? fun d => fs.pathExists (pathJoin d includeName)).map
      fun d => relpath (pathJoin d includeName)

/-- `self.dependencies[file_path].add(resolved)` and `self.reverse_deps[resolved].add(file_path)`. -/
def addEdge (a : Analyzer) (filePath resolved : String) : Analyzer :=
  { a with
    dependencies := a.dependencies.modify filePath (·.add resolved)
    reverseDeps := a.reverseDeps.modify resolved (·.add filePath) }

/-- The body of `for include in includes` for the file `filePath`:
`if resolved and resolved != file_path`. -/
def addInclude (filePath : String) (a : Analyzer) (inc : String) : Analyzer :=
  match a.resolveInclude fs inc with
  | some resolved => if resolved ≠ "" ∧ resolved ≠ filePath then a.addEdge filePath resolved else a
  | none => a

/-- The body of `for file_name, file_path in self.files.items()`. -/
def addFile (a : Analyzer) (filePath : String) : Analyzer :=
  if pyEndsWith filePath [".c", ".S"] then
    (parseIncludes fs filePath).elems.foldl (addInclude fs filePath) a
  else a

/-- `build_dependency_graph()`. -/
def buildDependencyGraph (a : Analyzer) : Analyzer :=
  let a := { a with files := findSourceFiles fs a.srcDirs a.files }
  a.files.items.foldl (fun a e => a.addFile fs e.2) a

/-! ### What the build loop keeps -/

/-- `b` has the configuration and the discovered files of `a`, which the build loop never
changes. -/
structure SameFiles (a b : Analyzer) : Prop where
  includeDirs : b.includeDirs = a.includeDirs
  files : b.files = a.files

theorem SameFiles.refl (a : Analyzer) : SameFiles a a := ⟨rfl, rfl⟩

theorem SameFiles.trans {a b c : Analyzer} (h₁ : SameFiles a b) (h₂ : SameFiles b c) :
    SameFiles a c :=
  ⟨h₂.includeDirs.trans h₁.includeDirs, h₂.files.trans h₁.files⟩

theorem SameFiles.resolveInclude {a b : Analyzer} (h : SameFiles a b) :
    b.resolveInclude fs = a.resolveInclude fs := by
  funext t
  simp only [Analyzer.resolveInclude, h.files, h.includeDirs]

variable {fs}

theorem sameFiles_addInclude (a : Analyzer) (f t : String) : SameFiles a (a.addInclude fs f t) := by
  unfold addInclude
  split
  · split_ifs
    · exact ⟨rfl, rfl⟩
    · exact SameFiles.refl a
  · exact SameFiles.refl a

theorem sameFiles_foldl_addInclude (f : String) (ts : List String) (a : Analyzer) :
    SameFiles a (ts.foldl (addInclude fs f) a) := by
  induction ts generalizing a with
  | nil => exact SameFiles.refl a
  | cons t ts ih => exact (sameFiles_addInclude a f t).trans (ih _)

theorem sameFiles_addFile (a : Analyzer) (f : String) : SameFiles a (a.addFile fs f) := by
  unfold addFile
  split
  · exact sameFiles_foldl_addInclude f _ a
  · exact SameFiles.refl a

theorem sameFiles_foldl_addFile (items : List (String × String)) (a : Analyzer) :
    SameFiles a (items.foldl (fun a e => a.addFile fs e.2) a) := by
  induction items generalizing a with
  | nil => exact SameFiles.refl a
  | cons e items ih => exact (sameFiles_addFile a e.2).trans (ih _)

/-! ### The edges the build adds -/

theorem mem_succs_addEdge {a : Analyzer} {f r u v : String} :
    v ∈ (a.addEdge f r).dependencies.succs u ↔ v ∈ a.dependencies.succs u ∨ (u = f ∧ v = r) :=
  Graph.mem_succs_modify_add

theorem mem_reverse_addEdge {a : Analyzer} {f r u v : String} :
    u ∈ (a.addEdge f r).reverseDeps.succs v ↔ u ∈ a.reverseDeps.succs v ∨ (v = r ∧ u = f) :=
  Graph.mem_succs_modify_add

/-- The edges `addInclude` adds: one from `f` to the resolved include, when it is a non-empty
path other than `f`. -/
theorem addInclude_cases (a : Analyzer) (f t : String) :
    (∃ r, a.resolveInclude fs t = some r ∧ r ≠ "" ∧ r ≠ f ∧ a.addInclude fs f t = a.addEdge f r) ∨
      ((∀ r, a.resolveInclude fs t = some r → r = "" ∨ r = f) ∧ a.addInclude fs f t = a) := by
  unfold addInclude
  rcases h : a.resolveInclude fs t with _ | r
  · exact Or.inr ⟨by simp, rfl⟩
  · by_cases hr : r ≠ "" ∧ r ≠ f
    · exact Or.inl ⟨r, rfl, hr.1, hr.2, if_pos hr⟩
    · refine Or.inr ⟨fun r' hr' => ?_, if_neg hr⟩
      cases hr'
      simpa only [not_and_or, not_not] using hr

/-- What `addInclude` adds to `dependencies[f]`: the resolved include, when it is a non-empty path
other than `f`. -/
theorem mem_succs_addInclude (a : Analyzer) (f t u v : String) :
    v ∈ (a.addInclude fs f t).dependencies.succs u ↔
      v ∈ a.dependencies.succs u ∨ (u = f ∧ a.resolveInclude fs t = some v ∧ v ≠ "" ∧ v ≠ f) := by
  rcases addInclude_cases a f t with ⟨r, hr, hre, hrf, he⟩ | ⟨hr, he⟩ <;> rw [he]
  · rw [mem_succs_addEdge]
    refine or_congr_right ⟨?_, ?_⟩
    · rintro ⟨rfl, rfl⟩
      exact ⟨rfl, hr, hre, hrf⟩
    · rintro ⟨rfl, h, -⟩
      exact ⟨rfl, Option.some.inj (h.symm.trans hr)⟩
  · exact (or_iff_left fun ⟨_, h, hne, hnf⟩ => (hr v h).elim hne hnf).symm

theorem mem_succs_foldl_addInclude (f : String) (ts : List String) (a : Analyzer) (u v : String) :
    v ∈ (ts.foldl (addInclude fs f) a).dependencies.succs u ↔
      v ∈ a.dependencies.succs u ∨
        ∃ t ∈ ts, u = f ∧ a.resolveInclude fs t = some v ∧ v ≠ "" ∧ v ≠ f :=
  foldl_iff_of_step (P := fun b => v ∈ b.dependencies.succs u) (I := SameFiles a)
    (fun b t hb => hb.trans (sameFiles_addInclude b f t))
    (fun b t hb => by beta_reduce; rw [mem_succs_addInclude, hb.resolveInclude]) ts a (SameFiles.refl a)

theorem mem_succs_addFile (a : Analyzer) (f u v : String) :
    v ∈ (a.addFile fs f).dependencies.succs u ↔
      v ∈ a.dependencies.succs u ∨ (u = f ∧ pyEndsWith f [".c", ".S"] ∧
        ∃ t ∈ (parseIncludes fs f).elems, a.resolveInclude fs t = some v ∧ v ≠ "" ∧ v ≠ f) := by
  unfold addFile
  split_ifs with h
  · rw [mem_succs_foldl_addInclude]
    simp [h, and_left_comm]
  · simp [h]

theorem mem_succs_foldl_addFile (items : List (String × String)) (a : Analyzer) (u v : String) :
    v ∈ (items.foldl (fun a e => a.addFile fs e.2) a).dependencies.succs u ↔
      v ∈ a.dependencies.succs u ∨ ∃ e ∈ items, u = e.2 ∧ pyEndsWith e.2 [".c", ".S"] ∧
        ∃ t ∈ (parseIncludes fs e.2).elems, a.resolveInclude fs t = some v ∧ v ≠ "" ∧ v ≠ e.2 :=
  foldl_iff_of_step (P := fun b => v ∈ b.dependencies.succs u) (I := SameFiles a)
    (fun b e hb => hb.trans (sameFiles_addFile b e.2))
    (fun b e hb => by beta_reduce; rw [mem_succs_addFile, hb.resolveInclude]) items a (SameFiles.refl a)

/-- **The forward mapping.**  After `build_dependency_graph` on a fresh analyzer, `v` is in
`dependencies[u]` exactly when `u` is a discovered path ending in `.c` or `.S` and one of its
include targets resolves to `v`, a non-empty path other than `u`.  No other key, a discovered
header included, has a successor. -/
theorem buildDependencyGraph_dependencies (fs : SourceTree) (srcDirs includeDirs : List String)
    (u v : String) :
    let a := buildDependencyGraph fs (init srcDirs includeDirs)
    v ∈ a.dependencies.succs u ↔ u ∈ a.files.values ∧ pyEndsWith u [".c", ".S"] ∧
      ∃ t ∈ (parseIncludes fs u).elems, a.resolveInclude fs t = some v ∧ v ≠ "" ∧ v ≠ u := by
  intro a
  let b : Analyzer := { init srcDirs includeDirs with files := findSourceFiles fs srcDirs PyDict.empty }
  have ha : a = b.files.items.foldl (fun a e => a.addFile fs e.2) b := rfl
  have hs : SameFiles b a := ha ▸ sameFiles_foldl_addFile b.files.items b
  rw [hs.files, hs.resolveInclude, ha, mem_succs_foldl_addFile]
  simp only [b, init, Graph.succs, PyDict.get_empty, PySet.elems_default, List.not_mem_nil,
    false_or, PyDict.values, List.mem_map]
  constructor
  · rintro ⟨e, he, rfl, h⟩
    exact ⟨⟨e, he, rfl⟩, h⟩
  · rintro ⟨⟨e, he, rfl⟩, h⟩
    exact ⟨e, he, rfl, h⟩

/-- A `.h` file's includes are never read: in Scenario 2 of the specification, `a.h` and `b.h`
include each other, and the built graph has no edge and no cycle. -/
theorem buildDependencyGraph_header_cycle :
    let fs : SourceTree :=
      ⟨⟨[(["a.h"], "#include \"b.h\"\n"), (["b.h"], "#include \"a.h\"\n")], by decide⟩, [], by decide⟩
    let a := buildDependencyGraph fs (init mainSrcDirs mainIncludeDirs)
    "a.h" ∈ a.files.values ∧ "b.h" ∈ (parseIncludes fs "a.h").elems ∧
      a.resolveInclude fs "b.h" = some "b.h" ∧ a.dependencies.succs "a.h" = [] ∧
      (findCircularDependencies a.dependencies).1 = none := by
  dsimp only
  decide

/-- Where `resolve_include` finds a target: a discovered path, or an existing path below an
include directory. -/
theorem resolveInclude_spec {a : Analyzer} {t v : String} (h : a.resolveInclude fs t = some v) :
    v ∈ a.files.values ∨
      ∃ d ∈ a.includeDirs, fs.pathExists (pathJoin d t) ∧ v = relpath (pathJoin d t) := by
  unfold resolveInclude at h
  rcases hf : a.files.find? t with _ | p <;> rw [hf] at h
  · obtain ⟨d, hd, rfl⟩ := Option.map_eq_some'.mp h
    exact Or.inr ⟨d, List.mem_of_find?_eq_some hd, by simpa using List.find?_some hd, rfl⟩
  · exact Or.inl (List.mem_map.mpr ⟨(t, v), PyDict.find?_eq_some_iff.mp (hf.trans h), rfl⟩)

/-- **Edges of the built graph.**  Every edge `u → v` of a freshly built graph starts at a
discovered `.c` or `.S` path, and ends at a discovered path or at an existing path below an
include directory named by one of the includes of `u`. -/
theorem buildDependencyGraph_edge (fs : SourceTree) (srcDirs includeDirs : List String)
    (u v : String) :
    let a := buildDependencyGraph fs (init srcDirs includeDirs)
    v ∈ a.dependencies.succs u → u ∈ a.files.values ∧ pyEndsWith u [".c", ".S"] ∧
      (v ∈ a.files.values ∨ ∃ d ∈ includeDirs, ∃ t ∈ (parseIncludes fs u).elems,
        fs.pathExists (pathJoin d t) ∧ v = relpath (pathJoin d t)) := by
  intro a h
  obtain ⟨hu, hc, t, ht, hr, -⟩ := (buildDependencyGraph_dependencies fs srcDirs includeDirs u v).mp h
  refine ⟨hu, hc, ?_⟩
  rcases resolveInclude_spec hr with hv | ⟨d, hd, he, rfl⟩
  · exact Or.inl hv
  · have hi : a.includeDirs = includeDirs := (sameFiles_foldl_addFile _ _).includeDirs
    exact Or.inr ⟨d, hi ▸ hd, t, ht, he, rfl⟩

/-- The two trees below: a header under `guest/linux`, skipped by discovery, is found through
the include directory `guest`. -/
def guestLinuxTree : SourceTree :=
  ⟨⟨[(["boot", "a.c"], "#include <linux/x.h>\n"), (["guest", "linux", "x.h"], "")], by decide⟩, [], by decide⟩

theorem buildDependencyGraph_edge_guestLinux :
    let a := buildDependencyGraph guestLinuxTree (init mainSrcDirs mainIncludeDirs)
    "guest/linux/x.h" ∈ a.dependencies.succs "boot/a.c" ∧
      ("boot/a.c" ∈ a.files.values ∧ pyEndsWith "boot/a.c" [".c", ".S"] ∧
        ("guest/linux/x.h" ∈ a.files.values ∨ ∃ d ∈ mainIncludeDirs,
          ∃ t ∈ (parseIncludes guestLinuxTree "boot/a.c").elems,
            guestLinuxTree.pathExists (pathJoin d t) ∧ "guest/linux/x.h" = relpath (pathJoin d t))) :=
  have h : "guest/linux/x.h" ∈ (buildDependencyGraph guestLinuxTree
      (init mainSrcDirs mainIncludeDirs)).dependencies.succs "boot/a.c" := by decide
  ⟨h, buildDependencyGraph_edge guestLinuxTree mainSrcDirs mainIncludeDirs _ _ h⟩

/-- An edge of the built graph can end at a path that discovery skipped. -/
theorem buildDependencyGraph_undiscovered_target :
    let a := buildDependencyGraph guestLinuxTree (init mainSrcDirs mainIncludeDirs)
    "guest/linux/x.h" ∈ a.dependencies.succs "boot/a.c" ∧ "guest/linux/x.h" ∉ a.files.values := by
  dsimp only
  decide

/-! ### The two mappings -/

/-- The reverse index is the transpose of the forward mapping, and no file depends on itself. -/
structure Consistent (a : Analyzer) : Prop where
  transpose : ∀ u v, v ∈ a.dependencies.succs u ↔ u ∈ a.reverseDeps.succs v
  irrefl : ∀ u, u ∉ a.dependencies.succs u

theorem consistent_init (srcDirs includeDirs : List String) :
    Consistent (init srcDirs includeDirs) :=
  ⟨by simp [init, Graph.succs], by simp [init, Graph.succs]⟩

theorem Consistent.addEdge {a : Analyzer} (h : Consistent a) {f r : String} (hrf : r ≠ f) :
    Consistent (a.addEdge f r) := by
  refine ⟨fun u v => ?_, fun u hu => ?_⟩
  · rw [mem_succs_addEdge, mem_reverse_addEdge, h.transpose]
    exact or_congr_right and_comm
  · rcases mem_succs_addEdge.mp hu with hu | ⟨rfl, rfl⟩
    · exact h.irrefl u hu
    · exact hrf rfl

/-- A property that every added edge keeps, and that setting `files` keeps, holds after the
build. -/
theorem buildDependencyGraph_induction {P : Analyzer → Prop}
    (hedge : ∀ a f r, r ≠ f → P a → P (a.addEdge f r))
    (hfiles : ∀ a files, P a → P { a with files := files }) {a : Analyzer} (h : P a) :
    P (a.buildDependencyGraph fs) := by
  have hinc : ∀ f (ts : List String) b, P b → P (ts.foldl (addInclude fs f) b) := by
    intro f ts
    induction ts with
    | nil => exact fun _ hb => hb
    | cons t ts ih =>
      intro b hb
      apply ih
      rcases addInclude_cases b f t with ⟨r, -, -, hrf, he⟩ | ⟨-, he⟩ <;> rw [he]
      · exact hedge b f r hrf hb
      · exact hb
  have hfile : ∀ (items : List (String × String)) b, P b →
      P (items.foldl (fun a e => a.addFile fs e.2) b) := by
    intro items
    induction items with
    | nil => exact fun _ hb => hb
    | cons e items ih =>
      intro b hb
      apply ih
      show P (b.addFile fs e.2)
      unfold addFile
      split
      · exact hinc _ _ _ hb
      · exact hb
  exact hfile _ _ (hfiles a _ h)

/-- Building keeps the two mappings consistent. -/
theorem Consistent.buildDependencyGraph {a : Analyzer} (h : Consistent a) :
    Consistent (a.buildDependencyGraph fs) :=
  buildDependencyGraph_induction (fun _ _ _ hrf hb => hb.addEdge hrf)
    (fun _ _ hb => ⟨hb.transpose, hb.irrefl⟩) h

/-! ### No empty entries -/

/-- Every entry of the two mappings holds an element: the build creates an entry only to add to
it. -/
structure NoEmptyEntries (a : Analyzer) : Prop where
  dependencies : a.dependencies.NoEmpty
  reverseDeps : a.reverseDeps.NoEmpty

theorem noEmptyEntries_init (srcDirs includeDirs : List String) :
    NoEmptyEntries (init srcDirs includeDirs) :=
  ⟨fun _ h => (List.not_mem_nil _ h).elim, fun _ h => (List.not_mem_nil _ h).elim⟩

theorem NoEmptyEntries.buildDependencyGraph {a : Analyzer} (h : NoEmptyEntries a) :
    NoEmptyEntries (a.buildDependencyGraph fs) :=
  buildDependencyGraph_induction
    (fun _ f r _ hb => ⟨hb.dependencies.modify_add f r, hb.reverseDeps.modify_add r f⟩)
    (fun _ _ hb => ⟨hb.dependencies, hb.reverseDeps⟩) h

end Analyzer

end Avatar
