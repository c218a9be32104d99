import AvatarScripts.Deps.Reports
import AvatarScripts.Deps.BuildOrder

/-! # The commands run on a built analyzer

`main` builds the graph and then runs some of `print_statistics`, `find_circular_dependencies`,
`get_build_order` and `generate_dot_graph`.  `Analyzer.run` is one such command, with what it
returns, writes or prints (`Output`) and the state it leaves; `runAll` is a sequence of them.

The two searches read `self.dependencies[node]` and so add empty entries for edge targets; no
command writes anything else.  Every command's result is unchanged by these entries (the
`_of_extends` lemmas of `Cycles.lean`, `BuildOrder.lean` and `Reports.lean`), so after any
sequence of commands each command returns what it returns first (`run_runAll_fst`), and the
reverse index stays the transpose of the forward mapping (`consistent_runAll_build`).  The cycle
check and the build order give the same verdict on cyclicity, in either order
(`findCircularDependencies_none_iff_covers`). -/

namespace Avatar

/-! ### The two verdicts on cycles -/

section verdicts

variable {α : Type} [DecidableEq α]

/-- **The cycle check and the build order agree.**  `find_circular_dependencies()` returns `None`
exactly when `get_build_order()` lists every key of `dependencies` and every member of its sets,
whether the build order runs first or, as in `main`, after the cycle check. -/
theorem findCircularDependencies_none_iff_covers (g : Graph α) :
    ((findCircularDependencies g).1 = none ↔ ∀ v ∈ g.nodes, v ∈ (getBuildOrder g).1) ∧
      ((findCircularDependencies g).1 = none ↔ ∀ v ∈ (findCircularDependencies g).2.nodes,
        v ∈ (getBuildOrder (findCircularDependencies g).2).1) := by
  have h := extends_findCircularDependencies (g := g)
  have hfirst : (findCircularDependencies g).1 = none ↔ ∀ v ∈ g.nodes, v ∈ (getBuildOrder g).1 :=
    findCircularDependencies_eq_none_iff.trans getBuildOrder_covers_iff.symm
  refine ⟨hfirst, hfirst.trans ?_⟩
  simp only [h.mem_nodes_iff, getBuildOrder_fst_of_extends h]

end verdicts

namespace Analyzer

/-! ### Commands -/

/-- The analyses `main` runs on a built analyzer. -/
inductive Command
  | findCircularDependencies
  | getBuildOrder
  | generateDotGraph
  | printStatistics
  deriving DecidableEq, Repr

/-- What a command returns, writes or prints. -/
inductive Output
  /-- The cycle `find_circular_dependencies()` returns, or `None`. -/
  | cycle (c : Option (List String))
  /-- The list `get_build_order()` returns. -/
  | order (order : List String)
  /-- The text `generate_dot_graph` writes. -/
  | dot (text : String)
  /-- The lines `print_statistics()` prints, and whether it then raises. -/
  | statistics (lines : List String) (raised : Bool)
  deriving DecidableEq

/-- One command on the analyzer: its output, and the state it leaves. -/
def run (a : Analyzer) : Command → Output × Analyzer
  | .findCircularDependencies =>
    (.cycle (Avatar.findCircularDependencies a.dependencies).1,
      { a with dependencies := (Avatar.findCircularDependencies a.dependencies).2 })
  | .getBuildOrder =>
    (.order (Avatar.getBuildOrder a.dependencies).1,
      { a with dependencies := (Avatar.getBuildOrder a.dependencies).2 })
  | .generateDotGraph => (.dot a.generateDotGraph, a)
  | .printStatistics => (.statistics a.printStatistics.1 a.printStatistics.2, a)

/-- The state a sequence of commands leaves. -/
def runAll (a : Analyzer) (cmds : List Command) : Analyzer := cmds.foldl (fun a c => (a.run c).2) a

theorem stable_run (a : Analyzer) : ∀ c, Stable a (a.run c).2
  | .findCircularDependencies => ⟨rfl, extends_findCircularDependencies⟩
  | .getBuildOrder => ⟨rfl, extends_getBuildOrder⟩
  | .generateDotGraph => Stable.refl a
  | .printStatistics => Stable.refl a

theorem stable_runAll (a : Analyzer) (cmds : List Command) : Stable a (a.runAll cmds) := by
  induction cmds generalizing a with
  | nil => exact Stable.refl a
  | cons c cmds ih => exact (stable_run a c).trans (ih _)

/-- Every command gives the same output on an analyzer extended by empty entries. -/
theorem Stable.run_fst {a b : Analyzer} (h : Stable a b) : ∀ c, (b.run c).1 = (a.run c).1
  | .findCircularDependencies => by simp only [run, findCircularDependencies_fst_of_extends h.deps]
  | .getBuildOrder => by simp only [run, getBuildOrder_fst_of_extends h.deps]
  | .generateDotGraph => by simp only [run, generateDotGraph_of_extends h]
  | .printStatistics => by simp only [run, printStatistics_of_extends h]

/-- **The commands are free of interference.**  After any sequence of commands, every command
returns, writes or prints what it does when run first.  The sequence changes only
`dependencies`, by empty entries for edge targets, which keep the edge relation and the seed of
the build-order queue. -/
theorem run_runAll_fst (a : Analyzer) (cmds : List Command) (c : Command) :
    ((a.runAll cmds).run c).1 = (a.run c).1 ∧
      a.runAll cmds = { a with dependencies := (a.runAll cmds).dependencies } ∧
      a.dependencies.Extends (a.runAll cmds).dependencies ∧
      (∀ u v, (a.runAll cmds).dependencies.Edge u v ↔ a.dependencies.Edge u v) ∧
      zeroQueue (countInDegrees (a.runAll cmds).dependencies.items PyDict.empty) =
        zeroQueue (countInDegrees a.dependencies.items PyDict.empty) := by
  have h := stable_runAll a cmds
  exact ⟨h.run_fst c, h.eq, h.deps, fun _ _ => h.deps.edge_iff,
    by rw [countInDegrees_of_extends h.deps]⟩

/-! ### The reverse index -/

theorem Consistent.of_stable {a b : Analyzer} (hc : Consistent a) (h : Stable a b) : Consistent b := by
  have hs := h.deps.succs_eq
  refine ⟨fun u v => ?_, fun u => ?_⟩
  · rw [hs, h.reverseDeps]
    exact hc.transpose u v
  · rw [hs]
    exact hc.irrefl u

/-- **The reverse index.**  In every state reached by `build_dependency_graph` on a fresh analyzer
and any sequence of commands, `b` is in `dependencies[a]` exactly when `a` is in
`reverse_deps[b]`, and no `a` is in `dependencies[a]`. -/
theorem consistent_runAll_build (fs : SourceTree) (srcDirs includeDirs : List String)
    (cmds : List Command) :
    let a := ((init srcDirs includeDirs).buildDependencyGraph fs).runAll cmds
    (∀ u v, v ∈ a.dependencies.succs u ↔ u ∈ a.reverseDeps.succs v) ∧
      ∀ u, u ∉ a.dependencies.succs u := by
  have hb : Consistent ((init srcDirs includeDirs).buildDependencyGraph fs) :=
    (consistent_init srcDirs includeDirs).buildDependencyGraph
  have hc := hb.of_stable (stable_runAll _ cmds)
  exact ⟨hc.transpose, hc.irrefl⟩

end Analyzer

end Avatar
