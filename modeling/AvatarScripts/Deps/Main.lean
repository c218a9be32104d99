import AvatarScripts.Deps.Commands

/-! # The command line: `main`

`main` builds the analyzer on its own source and include directories, prints a title and the
statistics and then, as the options ask, the cycle check, the numbered build order and the DOT
file.  `MainResult` records the argument of every `print`, the DOT file written, whether the
run stops at the `ValueError` that `print_statistics` raises, after which nothing else runs, and
whether it stops at the `OSError` of `open(args.dot, 'w')`, after the reports and before the two
lines that announce the file.

Every block after the statistics reads the analyzer the blocks before it left.  The blocks are
non-interfering (`NonInterfering`): what a block prints is unchanged on a state extended by empty
entries, and the state it leaves is again such an extension.  So `main_eq`: each report `main`
prints or writes is the one its command gives on the freshly built analyzer.  From it the
user-facing results: with `--check-cycles` the line after the banner says `No circular
dependencies found.` exactly when the include graph is acyclic and otherwise spells out a simple
cycle of it (`main_cycle_line`); with `--build-order` the numbered lines are the build order of
the built graph, which numbers every node exactly when the graph is acyclic
(`main_build_order`); and the DOT file is the text of the built graph, written exactly when the
directory of the path exists and the path is no directory, the statistics and reports being
printed either way (`main_dotFile`). -/

namespace Avatar

open Analyzer

/-- The options `main` parses: `--dot`, `--check-cycles` and `--build-order`. -/
structure Args where
  dot : Option String
  checkCycles : Bool
  buildOrder : Bool
  deriving DecidableEq, Repr

/-- What a run of `main` does. -/
structure MainResult where
  /-- The argument of every `print`, in order. -/
  prints : List String
  /-- The path and the text of the DOT file written, if any. -/
  dotFile : Option (String × String)
  /-- Whether `print_statistics()` raised `ValueError`, ending the run. -/
  raised : Bool
  /-- Whether `open(args.dot, 'w')` in `generate_dot_graph` raised `OSError`, ending the run. -/
  openFailed : Bool
  deriving DecidableEq, Repr

/-- `f"{i:3d}"`: the decimal digits of `i`, padded on the left with spaces to width 3. -/
def formatIndex (i : ℕ) : String :=
  ⟨List.replicate (3 - (toString i).length) ' ' ++ (toString i).data⟩

/-- The line `f"{i:3d}. {file}"` of the build order. -/
def orderLine (i : ℕ) (file : String) : String := formatIndex i ++ ". " ++ file

/-- What `main` prints for the result of `find_circular_dependencies()`: `if cycle:` holds for a
list that is not empty. -/
def cycleLine : Option (List String) → String
  | some (v :: vs) => "Circular dependency found: " ++ " -> ".intercalate (v :: vs)
  | _ => "No circular dependencies found."

/-- The analyzer `main` builds. -/
def mainAnalyzer (fs : SourceTree) : Analyzer :=
  (init mainSrcDirs mainIncludeDirs).buildDependencyGraph fs

/-- The title `main` prints before the statistics. -/
def mainTitle : List String := ["Avatar VMM Dependency Analysis", ⟨List.replicate 40 '='⟩]

/-- The prints of the `--check-cycles` block, and the state it leaves. -/
def checkCyclesBlock (a : Analyzer) : List String × Analyzer :=
  let r := findCircularDependencies a.dependencies
  (["\nChecking for circular dependencies...", cycleLine r.1], { a with dependencies := r.2 })

/-- The prints of the `--build-order` block, numbered by `enumerate(order, 1)`, and the state it
leaves. -/
def buildOrderBlock (a : Analyzer) : List String × Analyzer :=
  let r := getBuildOrder a.dependencies
  ("\nBuild order:" :: (r.1.enumFrom 1).map (fun e => orderLine e.1 e.2),
    { a with dependencies := r.2 })

/-- The prints of the `--dot` block, and the file `generate_dot_graph` writes. -/
def dotBlock (a : Analyzer) (path : String) : List String × (String × String) :=
  (["\nDOT graph saved to " ++ path, "Generate image with: dot -Tpng deps.dot -o deps.png"],
    (path, a.generateDotGraph))

/-- `if args.dot:`: the DOT path, when one is given and is not empty. -/
def dotTarget (args : Args) : Option String :=
  match args.dot with
  | some path => if path = "" then none else some path
  | none => none

/-- `main()` on the tree `fs` with the options `args`. -/
def main (fs : SourceTree) (args : Args) : MainResult :=
  let a := mainAnalyzer fs
  let stats := a.printStatistics
  if stats.2 then ⟨mainTitle ++ stats.1, none, true, false⟩
  else
    let cycles := if args.checkCycles then checkCyclesBlock a else ([], a)
    let order := if args.buildOrder then buildOrderBlock cycles.2 else ([], cycles.2)
    match dotTarget args with
    | some path =>
      if fs.canOpenWrite path then
        ⟨mainTitle ++ stats.1 ++ cycles.1 ++ order.1 ++ (dotBlock order.2 path).1,
          some (dotBlock order.2 path).2, false, false⟩
      else ⟨mainTitle ++ stats.1 ++ cycles.1 ++ order.1, none, false, true⟩
    | none => ⟨mainTitle ++ stats.1 ++ cycles.1 ++ order.1, none, false, false⟩

/-! ### The blocks do not interfere -/

/-- A block of `main` whose prints are unchanged on a state extended by empty entries, and which
leaves such an extension. -/
def NonInterfering (f : Analyzer → List String × Analyzer) : Prop :=
  ∀ {a b : Analyzer}, Stable a b → (f b).1 = (f a).1 ∧ Stable a (f b).2

theorem nonInterfering_checkCyclesBlock : NonInterfering checkCyclesBlock := fun h =>
  ⟨by simp only [checkCyclesBlock, findCircularDependencies_fst_of_extends h.deps],
    h.trans ⟨rfl, extends_findCircularDependencies⟩⟩

theorem nonInterfering_buildOrderBlock : NonInterfering buildOrderBlock := fun h =>
  ⟨by simp only [buildOrderBlock, getBuildOrder_fst_of_extends h.deps],
    h.trans ⟨rfl, extends_getBuildOrder⟩⟩

/-- A block run only when its option is set. -/
theorem NonInterfering.ite {f : Analyzer → List String × Analyzer} (hf : NonInterfering f)
    {a b : Analyzer} (h : Stable a b) (c : Bool) :
    (if c then f b else ([], b)).1 = (if c then (f a).1 else []) ∧
      Stable a (if c then f b else ([], b)).2 := by
  cases c
  · exact ⟨rfl, h⟩
  · exact hf h

theorem dotBlock_of_stable {a b : Analyzer} (h : Stable a b) (path : String) :
    dotBlock b path = dotBlock a path := by
  rw [dotBlock, dotBlock, generateDotGraph_of_extends h]

/-- The prints of the cycle check and the build order, as `args` asks for them, each as its
command gives it on `a`. -/
def reports (a : Analyzer) (args : Args) : List String :=
  (if args.checkCycles then (checkCyclesBlock a).1 else []) ++
    (if args.buildOrder then (buildOrderBlock a).1 else [])

/-- **What `main` does.**  It stops after the title and the statistics exactly when
`print_statistics` raises; otherwise it prints every report asked for as the commands give them
on the freshly built analyzer, and then writes the DOT text of that analyzer and prints the two
lines about it, unless `open` fails. -/
theorem main_eq (fs : SourceTree) (args : Args) :
    main fs args =
      if (mainAnalyzer fs).printStatistics.2 then
        ⟨mainTitle ++ (mainAnalyzer fs).printStatistics.1, none, true, false⟩
      else
        ⟨mainTitle ++ (mainAnalyzer fs).printStatistics.1 ++ reports (mainAnalyzer fs) args ++
            (((dotTarget args).filter fs.canOpenWrite).map fun path => (dotBlock (mainAnalyzer fs) path).1).getD [],
          ((dotTarget args).filter fs.canOpenWrite).map fun path => (dotBlock (mainAnalyzer fs) path).2,
          false, (dotTarget args).any fun path => !fs.canOpenWrite path⟩ := by
  by_cases hs : (mainAnalyzer fs).printStatistics.2 = true
  · simp only [main, if_pos hs]
  · simp only [main, if_neg hs]
    obtain ⟨h₁, s₁⟩ := nonInterfering_checkCyclesBlock.ite (Stable.refl (mainAnalyzer fs))
      args.checkCycles
    obtain ⟨h₂, s₂⟩ := nonInterfering_buildOrderBlock.ite s₁ args.buildOrder
    rcases hd : dotTarget args with _ | path
    · simp only [reports, h₁, h₂, Option.filter, Option.map, Option.getD, Option.any,
        List.append_nil, List.append_assoc]
    · by_cases hw : fs.canOpenWrite path = true <;>
        simp [reports, hw, h₁, h₂, dotBlock_of_stable s₂, Option.filter]

/-! ### What the user reads -/

/-- The cycle line says `No circular dependencies found.` exactly when the graph is acyclic, and
otherwise spells out a simple cycle of it. -/
theorem cycleLine_findCircularDependencies (g : Graph String) :
    (cycleLine (findCircularDependencies g).1 = "No circular dependencies found." ↔ g.Acyclic) ∧
      (¬ g.Acyclic → ∃ c, g.IsSimpleCycle c ∧
        cycleLine (findCircularDependencies g).1 = "Circular dependency found: " ++ " -> ".intercalate c) := by
  rw [← findCircularDependencies_eq_none_iff]
  rcases hr : (findCircularDependencies g).1 with _ | c
  · exact ⟨iff_of_true rfl rfl, fun h => (h rfl).elim⟩
  · have hc := isSimpleCycle_of_findCircularDependencies hr
    obtain ⟨v, vs, rfl⟩ := List.exists_cons_of_length_pos (Nat.lt_of_lt_of_le Nat.two_pos hc.two_le)
    have hne : "Circular dependency found: " ++ " -> ".intercalate (v :: vs) ≠
        "No circular dependencies found." := fun h => by
      simpa using congrArg (fun s : String => s.data.head?) h
    exact ⟨iff_of_false hne (by simp), fun _ => ⟨v :: vs, hc, rfl⟩⟩

/-- **The cycle check of `main`.**  With `--check-cycles`, unless `print_statistics` raised, the
line after the banner says `No circular dependencies found.` exactly when the include graph is
acyclic, and otherwise joins with ` -> ` a simple cycle of it. -/
theorem main_cycle_line (fs : SourceTree) (args : Args) (hc : args.checkCycles = true)
    (hr : (main fs args).raised = false) :
    let g := (mainAnalyzer fs).dependencies
    (∃ rest, (main fs args).prints = mainTitle ++ (mainAnalyzer fs).printStatistics.1 ++
        "\nChecking for circular dependencies..." :: cycleLine (findCircularDependencies g).1 :: rest) ∧
      (cycleLine (findCircularDependencies g).1 = "No circular dependencies found." ↔ g.Acyclic) ∧
      (¬ g.Acyclic → ∃ c, g.IsSimpleCycle c ∧
        cycleLine (findCircularDependencies g).1 = "Circular dependency found: " ++ " -> ".intercalate c) := by
  rw [main_eq] at hr ⊢
  split_ifs at hr ⊢
  refine ⟨⟨(if args.buildOrder then (buildOrderBlock (mainAnalyzer fs)).1 else []) ++
      (((dotTarget args).filter fs.canOpenWrite).map fun path => (dotBlock (mainAnalyzer fs) path).1).getD [],
      ?_⟩, cycleLine_findCircularDependencies (mainAnalyzer fs).dependencies⟩
  simp [reports, hc, checkCyclesBlock]

/-- Discovery finds the one source file of `bootTree`, which includes nothing; the graph has no
edge, `print_statistics` raises and `main` stops after the statistics. -/
theorem main_raises_bootTree :
    (mainAnalyzer bootTree).files.items = [("a.c", "boot/a.c")] ∧
      (mainAnalyzer bootTree).printStatistics.2 = true ∧
      (main bootTree ⟨none, true, true⟩).raised = true := by
  decide

/-- Two source files that include each other. -/
def cycleTree : SourceTree :=
  ⟨⟨[(["boot", "a.c"], "#include \"b.c\"\n"), (["boot", "b.c"], "#include \"a.c\"\n")], by decide⟩,
    [], by decide⟩

theorem main_cycle_line_cycleTree :
    let args : Args := ⟨none, true, false⟩
    let g := (mainAnalyzer cycleTree).dependencies
    (main cycleTree args).raised = false ∧
      ((∃ rest, (main cycleTree args).prints = mainTitle ++ (mainAnalyzer cycleTree).printStatistics.1 ++
        "\nChecking for circular dependencies..." :: cycleLine (findCircularDependencies g).1 :: rest) ∧
      (cycleLine (findCircularDependencies g).1 = "No circular dependencies found." ↔ g.Acyclic) ∧
      (¬ g.Acyclic → ∃ c, g.IsSimpleCycle c ∧
        cycleLine (findCircularDependencies g).1 = "Circular dependency found: " ++ " -> ".intercalate c)) :=
  have h : (main cycleTree ⟨none, true, false⟩).raised = false := by decide
  ⟨h, main_cycle_line cycleTree ⟨none, true, false⟩ rfl h⟩

/-- **The build order of `main`.**  With `--build-order`, unless `print_statistics` raised, `main`
prints the banner and then numbers from 1 the build order of the built graph, whether or not the
cycle check ran first; every node of the graph is numbered exactly when the graph is acyclic. -/
theorem main_build_order (fs : SourceTree) (args : Args) (hb : args.buildOrder = true)
    (hr : (main fs args).raised = false) :
    let g := (mainAnalyzer fs).dependencies
    (∃ pre rest, (main fs args).prints = pre ++ "\nBuild order:" ::
      ((getBuildOrder g).1.enumFrom 1).map (fun e => orderLine e.1 e.2) ++ rest) ∧
      ((∀ v ∈ g.nodes, v ∈ (getBuildOrder g).1) ↔ g.Acyclic) := by
  rw [main_eq] at hr ⊢
  split_ifs at hr ⊢
  refine ⟨⟨mainTitle ++ (mainAnalyzer fs).printStatistics.1 ++
    (if args.checkCycles then (checkCyclesBlock (mainAnalyzer fs)).1 else []),
    (((dotTarget args).filter fs.canOpenWrite).map fun path => (dotBlock (mainAnalyzer fs) path).1).getD [],
    ?_⟩, getBuildOrder_covers_iff⟩
  simp [reports, hb, buildOrderBlock]

theorem main_build_order_cycleTree :
    let args : Args := ⟨none, true, true⟩
    let g := (mainAnalyzer cycleTree).dependencies
    (main cycleTree args).raised = false ∧
      ((∃ pre rest, (main cycleTree args).prints = pre ++ "\nBuild order:" ::
        ((getBuildOrder g).1.enumFrom 1).map (fun e => orderLine e.1 e.2) ++ rest) ∧
      ((∀ v ∈ g.nodes, v ∈ (getBuildOrder g).1) ↔ g.Acyclic)) :=
  have h : (main cycleTree ⟨none, true, true⟩).raised = false := by decide
  ⟨h, main_build_order cycleTree ⟨none, true, true⟩ rfl h⟩

/-- A DOT path in a directory the tree does not have: `open` raises after the reports. -/
example : (main cycleTree ⟨some "out/deps.dot", true, false⟩).openFailed = true ∧
    (main cycleTree ⟨some "out/deps.dot", true, false⟩).dotFile = none := by
  decide

end Avatar
