import AvatarScripts.Python.Collections
import Mathlib.Logic.Relation
import Mathlib.Data.List.Chain

/-! # The include graph

`DependencyAnalyzer.dependencies` is a `defaultdict(set)` from a file to the files it includes:
the forward mapping.  Its edge relation (`Graph.Edge`), its nodes (every key and every member of
a value set, `Graph.nodes`) and its cycles are the vocabulary in which the cycle detector
(`Cycles.lean`) and the topological sorter (`BuildOrder.lean`) are specified.

Both algorithms read the mapping through `self.dependencies[node]`, which adds an empty entry for
a node without one.  `Graph.Extends g g'` says that `g'` is `g` with such entries appended, for
nodes of `g`; it keeps the edges (`Extends.edge_iff`) and the nodes (`Extends.mem_nodes_iff`). -/

namespace Avatar

/-- The forward mapping `dependencies`: each file to the set of files it includes. -/
abbrev Graph (α : Type) := PyDict α (PySet α)

namespace Graph

variable {α : Type} (g : Graph α)

/-- The edge targets: every member of a value set of `dependencies`. -/
def targets : List α := g.items.flatMap (fun e => e.2.elems)

/-- The nodes: every key of `dependencies` and every member of its value sets. -/
def nodes : List α := g.keys ++ g.targets

/-- `g'` is `g` with empty entries appended for edge targets of `g`, as `defaultdict` reads
leave it. -/
def Extends (g g' : Graph α) : Prop :=
  ∃ extra : List α, g'.items = g.items ++ extra.map (fun k => (k, default)) ∧ ∀ k ∈ extra, k ∈ g.targets

theorem Extends.refl : g.Extends g := ⟨[], by simp, by simp⟩

theorem Extends.targets_eq {g g' : Graph α} (h : g.Extends g') : g'.targets = g.targets := by
  obtain ⟨extra, he, -⟩ := h
  simp [targets, he, List.flatMap_append]

theorem Extends.mem_nodes_iff {g g' : Graph α} (h : g.Extends g') {v : α} :
    v ∈ g'.nodes ↔ v ∈ g.nodes := by
  have ht := h.targets_eq
  obtain ⟨extra, he, hx⟩ := h
  simp only [nodes, ht, PyDict.keys, he, List.map_append, List.map_map, List.mem_append]
  constructor
  · rintro ((h | h) | h)
    · exact Or.inl h
    · exact Or.inr (hx v (by simpa using h))
    · exact Or.inr h
  · rintro (h | h)
    · exact Or.inl (Or.inl h)
    · exact Or.inr h

theorem Extends.trans {g₁ g₂ g₃ : Graph α} (h₁ : g₁.Extends g₂) (h₂ : g₂.Extends g₃) :
    g₁.Extends g₃ := by
  have ht := h₁.targets_eq
  obtain ⟨e₁, he₁, hx₁⟩ := h₁
  obtain ⟨e₂, he₂, hx₂⟩ := h₂
  refine ⟨e₁ ++ e₂, by simp [he₂, he₁], fun k hk => ?_⟩
  rcases List.mem_append.mp hk with hk | hk
  · exact hx₁ k hk
  · exact ht ▸ hx₂ k hk

variable [DecidableEq α]

/-- `self.dependencies[u]` as iterated: the empty list for a file without entry. -/
def succs (u : α) : List α := (g.get u).elems

/-- The edge `u → v`: `v in self.dependencies[u]`. -/
def Edge (u v : α) : Prop := v ∈ g.succs u

instance : DecidableRel g.Edge := fun u v => inferInstanceAs (Decidable (v ∈ g.succs u))

/-- `v` lies on a directed cycle. -/
def OnCycle (v : α) : Prop := Relation.TransGen g.Edge v v

/-- The include graph has no directed cycle. -/
def Acyclic : Prop := ∀ v, ¬ g.OnCycle v

/-- A simple closed walk `[x₀, …, xₖ, x₀]`: consecutive elements are edges and `x₀, …, xₖ` are
pairwise distinct. -/
structure IsSimpleCycle (c : List α) : Prop where
  two_le : 2 ≤ c.length
  closed : c.head? = c.getLast?
  chain : c.Chain' g.Edge
  nodup : c.dropLast.Nodup

variable {g}

theorem edge_iff {u v : α} : g.Edge u v ↔ ∃ s, (u, s) ∈ g.items ∧ v ∈ s.elems := by
  unfold Edge succs
  constructor
  · intro h
    by_cases hu : u ∈ g.keys
    · obtain ⟨s, hs⟩ := PyDict.mem_keys.mp hu
      exact ⟨s, hs, by rwa [PyDict.get_eq_of_mem hs] at h⟩
    · rw [PyDict.get_eq_default hu] at h
      simp at h
  · rintro ⟨s, hs, hv⟩
    rwa [PyDict.get_eq_of_mem hs]

theorem mem_nodes_of_edge_left {u v : α} (h : g.Edge u v) : u ∈ g.nodes := by
  obtain ⟨s, hs, -⟩ := edge_iff.mp h
  exact List.mem_append_left _ (PyDict.mem_keys.mpr ⟨s, hs⟩)

theorem mem_targets_of_edge {u v : α} (h : g.Edge u v) : v ∈ g.targets := by
  obtain ⟨s, hs, hv⟩ := edge_iff.mp h
  exact List.mem_flatMap.mpr ⟨(u, s), hs, hv⟩

theorem mem_nodes_of_edge_right {u v : α} (h : g.Edge u v) : v ∈ g.nodes :=
  List.mem_append_right _ (mem_targets_of_edge h)

theorem mem_nodes_of_onCycle {v : α} (h : g.OnCycle v) : v ∈ g.nodes := by
  obtain ⟨w, hw, -⟩ := Relation.TransGen.head'_iff.mp h
  exact mem_nodes_of_edge_left hw

theorem Acyclic.not_edge_self (h : g.Acyclic) (v : α) : ¬ g.Edge v v :=
  fun hv => h v (.single hv)

/-- A set closed under the successor lists contains everything reachable from it. -/
theorem reach_closed {F : α → Prop} (hF : ∀ x, F x → ∀ y ∈ g.succs x, F y) {x z : α}
    (hx : F x) (h : Relation.ReflTransGen g.Edge x z) : F z := by
  induction h with
  | refl => exact hx
  | tail _ hyz ih => exact hF _ ih _ hyz

/-- A node outside a successor-closed set, whose successors all lie in it, is on no cycle. -/
theorem not_onCycle_of_succs {F : α → Prop} (hF : ∀ x, F x → ∀ y ∈ g.succs x, F y) {v : α}
    (hv : ¬ F v) (hsucc : ∀ y ∈ g.succs v, F y) : ¬ g.OnCycle v := by
  intro h
  obtain ⟨y, hy, hyv⟩ := Relation.TransGen.head'_iff.mp h
  exact hv (reach_closed hF (hsucc y hy) hyv)

/-! ### Reads that add empty entries -/

theorem Extends.get_eq {g g' : Graph α} (h : g.Extends g') : g'.get = g.get := by
  obtain ⟨extra, he, -⟩ := h
  funext k
  by_cases hk : ∃ s, (k, s) ∈ g.items
  · obtain ⟨s, hs⟩ := hk
    rw [PyDict.get_eq_of_mem hs, PyDict.get_eq_of_mem (by rw [he]; exact List.mem_append_left _ hs)]
  · rw [PyDict.get_eq_default (d := g) (by rwa [PyDict.mem_keys])]
    by_cases hk' : k ∈ g'.keys
    · obtain ⟨s, hs⟩ := PyDict.mem_keys.mp hk'
      rw [PyDict.get_eq_of_mem hs]
      rw [he] at hs
      simp only [List.mem_append, List.mem_map, Prod.mk.injEq] at hs
      rcases hs with hs | ⟨_, _, -, rfl⟩
      · exact absurd ⟨s, hs⟩ hk
      · rfl
    · exact PyDict.get_eq_default hk'

theorem Extends.succs_eq {g g' : Graph α} (h : g.Extends g') : g'.succs = g.succs := by
  funext u; simp [succs, h.get_eq]

theorem Extends.edge_iff {g g' : Graph α} (h : g.Extends g') {u v : α} : g'.Edge u v ↔ g.Edge u v := by
  simp [Edge, h.succs_eq]

/-- The read `self.dependencies[v]` of a node `v` extends the mapping. -/
theorem extends_touch {v : α} (hv : v ∈ g.nodes) : g.Extends (g.touch v) := by
  by_cases hk : v ∈ g.keys
  · rw [PyDict.touch_of_mem hk]; exact Extends.refl g
  · refine ⟨[v], by simp [PyDict.items_touch_of_not_mem hk], ?_⟩
    simpa [hk] using List.mem_append.mp hv

end Graph

/-- The suffix of a list from the first occurrence of `a`: `l[l.index(a):]`. -/
theorem drop_indexOf {α : Type} [DecidableEq α] {l : List α} {a : α} (h : a ∈ l) :
    l.drop (l.indexOf a) = a :: l.drop (l.indexOf a + 1) := by
  have hi := List.indexOf_lt_length.mpr h
  rw [List.drop_eq_getElem_cons hi, List.getElem_indexOf hi]

end Avatar
