import AvatarScripts.Deps.Builder

/-! # Reports: `generate_dot_graph` and `print_statistics`

`generate_dot_graph` writes a node statement per discovered path and an edge statement per
member of every set of `dependencies`; `print_statistics` prints three counts and the entries
of largest `(len(deps), file)` in `dependencies` and `reverse_deps`, where `max` raises
`ValueError` on an empty mapping.

Both read `dependencies` only through `.items()`.  An entry with an empty set writes no edge
statement and adds nothing to the count of dependencies; and it never wins the `max`, since an
entry added for an edge target comes with an entry holding that edge (`maxEntry_of_extends`).
So both reports are unchanged by the entries the searches add (`generateDotGraph_of_extends`,
`printStatistics_of_extends`).

On a freshly built analyzer no entry is empty, so `print_statistics` raises exactly when the graph
has no edge (`printStatistics_raised_iff`): a tree whose source files include nothing resolvable
ends `main` with a `ValueError`, though files were found. -/

namespace Avatar

namespace Analyzer

/-- The node statement `generate_dot_graph` writes for a discovered path. -/
def dotNode (filePath : String) : String :=
  "  \"" ++ filePath ++ "\" [label=\"" ++ basename filePath ++ "\" fillcolor=\"" ++
    (if pyEndsWith filePath [".h"] then "lightblue" else "lightgreen") ++ "\" style=filled];\n"

/-- The edge statement `generate_dot_graph` writes for `dep in deps` of `source`. -/
def dotEdge (source dep : String) : String := "  \"" ++ source ++ "\" -> \"" ++ dep ++ "\";\n"

/-- The edge statements of one entry of `dependencies`. -/
def dotEdges (e : String × PySet String) : List String := e.2.elems.map (dotEdge e.1)

/-- `generate_dot_graph(output_file)`: the text written to the file. -/
def generateDotGraph (a : Analyzer) : String :=
  "digraph dependencies \x7b\n" ++ "  rankdir=TB;\n" ++ "  node [shape=box];\n" ++
    String.join (a.files.values.map dotNode) ++
    String.join (a.dependencies.items.flatMap dotEdges) ++ "\x7d\n"

/-- Python's `<` on the tuples `(len(deps), file)`: lexicographic, the strings by code points. -/
def tupleLt (y z : ℕ × String) : Bool := decide (y.1 < z.1) || (decide (y.1 = z.1) && pyStrLt y.2 z.2)

/-- One step of `max((len(deps), file) for file, deps in d.items())`: the first maximum is
kept. -/
def maxStep (m : Option (ℕ × String)) (e : String × PySet String) : Option (ℕ × String) :=
  match m with
  | none => some (e.2.elems.length, e.1)
  | some y => if tupleLt y (e.2.elems.length, e.1) then some (e.2.elems.length, e.1) else some y

/-- `max((len(deps), file) for file, deps in d.items())`, or `none` where `max` raises. -/
def maxEntry (d : Graph String) : Option (ℕ × String) := d.items.foldl maxStep none

/-- What `print_statistics()` prints, and whether it then raises `ValueError`. -/
def printStatistics (a : Analyzer) : List String × Bool :=
  let counts :=
    ["Source files: " ++ toString (a.files.values.filter (pyEndsWith · [".c", ".S"])).length,
      "Header files: " ++ toString (a.files.values.filter (pyEndsWith · [".h"])).length,
      "Dependencies: " ++ toString (a.dependencies.items.map fun e => e.2.elems.length).sum]
  match maxEntry a.dependencies with
  | none => (counts, true)
  | some (n, file) =>
    let counts := counts ++ ["Most dependencies: " ++ file ++ " (" ++ toString n ++ " deps)"]
    match maxEntry a.reverseDeps with
    | none => (counts, true)
    | some (m, file') =>
      (counts ++ ["Most dependents: " ++ file' ++ " (" ++ toString m ++ " dependents)"], false)

/-! ### The maximum -/

theorem maxStep_ne_none (m : Option (ℕ × String)) (e : String × PySet String) :
    maxStep m e ≠ none := by
  unfold maxStep
  split
  · simp
  · split <;> simp

theorem foldl_maxStep_ne_none : ∀ (items : List (String × PySet String)) (m : Option (ℕ × String)),
    m ≠ none ∨ items ≠ [] → items.foldl maxStep m ≠ none
  | [], _, h => h.resolve_right (by simp)
  | e :: items, m, _ => foldl_maxStep_ne_none items _ (Or.inl (maxStep_ne_none m e))

/-- One step of the maximum bounds the new entry's size and the old maximum. -/
theorem maxStep_ge {m : Option (ℕ × String)} {e : String × PySet String} {y : ℕ × String}
    (h : maxStep m e = some y) : e.2.elems.length ≤ y.1 ∧ ∀ x, m = some x → x.1 ≤ y.1 := by
  rcases m with _ | x
  · obtain rfl := Option.some.inj h
    exact ⟨le_rfl, by simp⟩
  · simp only [maxStep] at h
    simp only [Option.some.injEq, forall_eq']
    split_ifs at h with hlt <;> obtain rfl := Option.some.inj h <;>
      simp only [tupleLt, Bool.or_eq_true, Bool.and_eq_true, decide_eq_true_eq] at hlt
    · rcases hlt with hlt | ⟨hlt, -⟩ <;> omega
    · have := (not_or.mp hlt).1
      omega

/-- The first component of the running maximum bounds every entry's size, and never decreases. -/
theorem foldl_maxStep_ge : ∀ (items : List (String × PySet String)) (m : Option (ℕ × String))
    (y : ℕ × String), items.foldl maxStep m = some y →
      (∀ x, m = some x → x.1 ≤ y.1) ∧ ∀ e ∈ items, e.2.elems.length ≤ y.1
  | [], _, _, h => ⟨fun x hx => by rw [List.foldl_nil, hx, Option.some_inj] at h; rw [h],
      by simp⟩
  | e :: items, m, y, h => by
    obtain ⟨hm, he⟩ := foldl_maxStep_ge items (maxStep m e) y h
    obtain ⟨x', hx'⟩ := Option.ne_none_iff_exists'.mp (maxStep_ne_none m e)
    obtain ⟨h1, h2⟩ := maxStep_ge hx'
    exact ⟨fun x hx => (h2 x hx).trans (hm x' hx'), fun e' he' => (List.mem_cons.mp he').elim
      (fun h => h ▸ h1.trans (hm x' hx')) (he e')⟩

/-- Entries with an empty set never replace a maximum of positive size. -/
theorem foldl_maxStep_empty {y : ℕ × String} (hy : 1 ≤ y.1) :
    ∀ ks : List String, (ks.map fun k => (k, (default : PySet String))).foldl maxStep (some y) = some y
  | [] => rfl
  | k :: ks => by
    have : maxStep (some y) (k, default) = some y := by
      simp only [maxStep, tupleLt, PySet.elems_default, List.length_nil]
      rw [if_neg (by simp; omega)]
    rw [List.map_cons, List.foldl_cons, this]
    exact foldl_maxStep_empty hy ks

/-- The entries added for edge targets never win the `max`. -/
theorem maxEntry_of_extends {g g' : Graph String} (h : g.Extends g') : maxEntry g' = maxEntry g := by
  obtain ⟨extra, he, hx⟩ := h
  unfold maxEntry
  rw [he, List.foldl_append]
  rcases extra with _ | ⟨k, extra⟩
  · rfl
  obtain ⟨e, he, hk⟩ := List.mem_flatMap.mp (hx k (List.mem_cons_self _ _))
  obtain ⟨y, hy⟩ := Option.ne_none_iff_exists'.mp
    (foldl_maxStep_ne_none g.items none (Or.inr (List.ne_nil_of_mem he)))
  have hpos : 1 ≤ y.1 :=
    Nat.lt_of_lt_of_le (List.length_pos_of_mem hk) ((foldl_maxStep_ge g.items none y hy).2 e he)
  rw [hy, foldl_maxStep_empty hpos]

theorem maxEntry_eq_none {d : Graph String} : maxEntry d = none ↔ d.items = [] :=
  ⟨fun h => by_contra fun hne => foldl_maxStep_ne_none d.items none (Or.inr hne) h,
    fun h => by simp [maxEntry, h]⟩

/-- `print_statistics` raises exactly when one of the two `max` calls meets an empty mapping. -/
theorem printStatistics_raised {a : Analyzer} :
    a.printStatistics.2 = true ↔ maxEntry a.dependencies = none ∨ maxEntry a.reverseDeps = none := by
  unfold printStatistics
  cases maxEntry a.dependencies <;> cases maxEntry a.reverseDeps <;> simp

/-- **When the statistics raise.**  After `build_dependency_graph` on a fresh analyzer,
`print_statistics` raises `ValueError` exactly when the built graph has no edge, however many
files discovery found: every entry of the two mappings was created to hold an edge, and the
reverse index is the transpose of the forward mapping. -/
theorem printStatistics_raised_iff (fs : SourceTree) (srcDirs includeDirs : List String) :
    let a := (init srcDirs includeDirs).buildDependencyGraph fs
    a.printStatistics.2 = true ↔ ∀ u v, v ∉ a.dependencies.succs u := by
  intro a
  have hc : Consistent a := (consistent_init srcDirs includeDirs).buildDependencyGraph
  have hn : NoEmptyEntries a := (noEmptyEntries_init srcDirs includeDirs).buildDependencyGraph
  have hrev : (∀ u v, ¬ a.reverseDeps.Edge u v) ↔ ∀ u v, ¬ a.dependencies.Edge u v :=
    ⟨fun h u v huv => h v u ((hc.transpose u v).mp huv),
      fun h v u hvu => h u v ((hc.transpose u v).mpr hvu)⟩
  rw [printStatistics_raised, maxEntry_eq_none, maxEntry_eq_none, hn.dependencies.items_eq_nil_iff,
    hn.reverseDeps.items_eq_nil_iff, hrev, or_self]
  rfl

/-! ### Reports on an extended mapping -/

/-- `b` is `a` with empty entries added to `dependencies` for edge targets, and nothing else
changed. -/
structure Stable (a b : Analyzer) : Prop where
  eq : b = { a with dependencies := b.dependencies }
  deps : a.dependencies.Extends b.dependencies

theorem Stable.refl (a : Analyzer) : Stable a a := ⟨rfl, Graph.Extends.refl _⟩

theorem Stable.trans {a b c : Analyzer} (h₁ : Stable a b) (h₂ : Stable b c) : Stable a c :=
  ⟨by rw [h₂.eq, h₁.eq], h₁.deps.trans h₂.deps⟩

theorem Stable.files {a b : Analyzer} (h : Stable a b) : b.files = a.files := by rw [h.eq]

theorem Stable.reverseDeps {a b : Analyzer} (h : Stable a b) : b.reverseDeps = a.reverseDeps := by
  rw [h.eq]

theorem Stable.flatMap_dotEdges {a b : Analyzer} (h : Stable a b) :
    b.dependencies.items.flatMap dotEdges = a.dependencies.items.flatMap dotEdges := by
  obtain ⟨extra, he, -⟩ := h.deps
  rw [he, List.flatMap_append]
  simp [Analyzer.dotEdges]

theorem generateDotGraph_of_extends {a b : Analyzer} (h : Stable a b) :
    b.generateDotGraph = a.generateDotGraph := by
  rw [generateDotGraph, generateDotGraph, h.files, h.flatMap_dotEdges]

theorem printStatistics_of_extends {a b : Analyzer} (h : Stable a b) :
    b.printStatistics = a.printStatistics := by
  have hsum : (b.dependencies.items.map fun e => e.2.elems.length).sum =
      (a.dependencies.items.map fun e => e.2.elems.length).sum := by
    obtain ⟨extra, he, -⟩ := h.deps
    simp [he, Function.comp_def]
  rw [printStatistics, printStatistics, h.files, h.reverseDeps, hsum, maxEntry_of_extends h.deps]

end Analyzer

end Avatar
