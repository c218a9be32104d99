import AvatarScripts.Deps.Graph
import Mathlib.Data.Finset.Card

/-! # Cycle detection: `find_circular_dependencies`

`find_circular_dependencies` runs the recursive depth-first search `dfs` from every key of
`dependencies`, in insertion order (`roots`), with one `visited` set shared by all roots and a
fresh `path` and `rec_stack` for each.  `dfs` is modelled with a fuel argument bounding the depth
of the recursion, and its loop over the neighbours of a node as `scan`.  The mapping is threaded
through the search: the read `self.dependencies[node]` of a node without entry adds one.

The proof rests on the invariant `DfsInv` of the search state (the path is a simple chain of
edges, `rec_stack` is the set of its nodes, and a visited node off the stack is *finished*: its
successors are finished and it lies on no cycle) and on what a call returning `None` keeps
(`DfsExt`).  A returned list is a simple cycle (`dfs_spec`); when `None` is returned every key is
finished; and the fuel `findCircularDependencies` gives never runs out.  Hence
`findCircularDependencies_eq_none_iff`: the search returns `None` exactly when the graph is
acyclic. -/

namespace Avatar

/-- The state `dfs` works on: the mapping, `visited`, `path` and `rec_stack`. -/
structure DfsState (α : Type) where
  deps : Graph α
  visited : Finset α
  path : List α
  recStack : Finset α

/-- What a call of `dfs` returns, with the state it leaves. -/
inductive DfsResult (α : Type)
  /-- `dfs` returned the cycle `c`. -/
  | found (c : List α) (s : DfsState α)
  /-- `dfs` returned `None`. -/
  | done (s : DfsState α)
  /-- The fuel ran out; `findCircularDependencies` gives enough that it never does. -/
  | outOfFuel

namespace DfsState

variable {α : Type}

/-- `x` is finished: visited, and no longer on the recursion stack. -/
def Finished (s : DfsState α) (x : α) : Prop := x ∈ s.visited ∧ x ∉ s.recStack

variable [DecidableEq α]

/-- `visited.add(node)`, `rec_stack.add(node)`, `path.append(node)`, and the read
`self.dependencies[node]` of the loop header. -/
def enter (s : DfsState α) (node : α) : DfsState α :=
  { deps := (s.deps.getItem node).2, visited := insert node s.visited, path := s.path ++ [node],
    recStack := insert node s.recStack }

/-- `path.pop()` and `rec_stack.remove(node)` after the loop. -/
def leave (s : DfsState α) (node : α) : DfsState α :=
  { s with path := s.path.dropLast, recStack := s.recStack.erase node }

variable (s : DfsState α) (v : α)

@[simp] theorem enter_deps : (s.enter v).deps = s.deps.touch v := rfl
@[simp] theorem enter_visited : (s.enter v).visited = insert v s.visited := rfl
@[simp] theorem enter_path : (s.enter v).path = s.path ++ [v] := rfl
@[simp] theorem enter_recStack : (s.enter v).recStack = insert v s.recStack := rfl
@[simp] theorem leave_deps : (s.leave v).deps = s.deps := rfl
@[simp] theorem leave_visited : (s.leave v).visited = s.visited := rfl
@[simp] theorem leave_path : (s.leave v).path = s.path.dropLast := rfl
@[simp] theorem leave_recStack : (s.leave v).recStack = s.recStack.erase v := rfl

end DfsState

variable {α : Type}

/-- What a call returning `None` keeps: `path` and `rec_stack` restored, `visited` grown. -/
structure DfsExt (s s' : DfsState α) : Prop where
  path : s'.path = s.path
  recStack : s'.recStack = s.recStack
  visited : s.visited ⊆ s'.visited

theorem DfsExt.refl (s : DfsState α) : DfsExt s s := ⟨rfl, rfl, subset_rfl⟩

theorem DfsExt.trans {s₁ s₂ s₃ : DfsState α} (h₁ : DfsExt s₁ s₂) (h₂ : DfsExt s₂ s₃) :
    DfsExt s₁ s₃ :=
  ⟨h₂.path.trans h₁.path, h₂.recStack.trans h₁.recStack, h₁.visited.trans h₂.visited⟩

theorem DfsExt.finished {s s' : DfsState α} (h : DfsExt s s') {x : α} (hx : s.Finished x) :
    s'.Finished x :=
  ⟨h.visited hx.1, h.recStack ▸ hx.2⟩

variable [DecidableEq α]

open DfsState

/-- The loop `for neighbor in self.dependencies[node]` of `dfs(node, ...)`, with `visit` for the
recursive call; when the loop is exhausted `node` leaves `path` and `rec_stack`. -/
def scan (visit : α → DfsState α → DfsResult α) (node : α) : List α → DfsState α → DfsResult α
  | [], s => .done (s.leave node)
  | nb :: rest, s =>
    if nb ∉ s.visited then
      match visit nb s with
      | .done s' => scan visit node rest s'
      | r => r
    else if nb ∈ s.recStack then
      .found (s.path.drop (s.path.indexOf nb) ++ [nb]) s
    else scan visit node rest s

/-- `dfs(node, path, visited, rec_stack)`; `fuel` bounds the depth of the recursion. -/
def dfs : ℕ → α → DfsState α → DfsResult α
  | 0, _, _ => .outOfFuel
  | n + 1, node, s => scan (dfs n) node (s.deps.getItem node).1.elems (s.enter node)

/-- The loop `for node in nodes` over `list(self.dependencies.keys())`: an unvisited root starts
a `dfs` with an empty `path` and `rec_stack`. -/
def roots (fuel : ℕ) : List α → Graph α → Finset α → Option (List α) × Graph α
  | [], deps, _ => (none, deps)
  | r :: rs, deps, visited =>
    if r ∉ visited then
      match dfs fuel r ⟨deps, visited, [], ∅⟩ with
      | .found c s => (some c, s.deps)
      | .done s => roots fuel rs s.deps s.visited
      | .outOfFuel => (none, deps)
    else roots fuel rs deps visited

section equations

variable {visit : α → DfsState α → DfsResult α} {node nb : α} {rest : List α} {s : DfsState α}

theorem scan_cons_fresh (h : nb ∉ s.visited) :
    scan visit node (nb :: rest) s =
      match visit nb s with
      | .done s' => scan visit node rest s'
      | r => r := by
  simp [scan, h]

theorem scan_cons_onStack (h : nb ∈ s.visited) (h' : nb ∈ s.recStack) :
    scan visit node (nb :: rest) s = .found (s.path.drop (s.path.indexOf nb) ++ [nb]) s := by
  simp [scan, h, h']

theorem scan_cons_finished (h : nb ∈ s.visited) (h' : nb ∉ s.recStack) :
    scan visit node (nb :: rest) s = scan visit node rest s := by
  simp [scan, h, h']

end equations

/-- `find_circular_dependencies()`: the cycle found, if any, and the mapping the search leaves. -/
def findCircularDependencies (g : Graph α) : Option (List α) × Graph α :=
  roots g.nodes.length g.keys g ∅

/-! ### The search invariant -/

namespace Graph

variable {g : Graph α}

theorem IsSimpleCycle.onCycle {c : List α} (h : g.IsSimpleCycle c) : ∃ v ∈ c, g.OnCycle v := by
  obtain ⟨h2, hcl, hch, -⟩ := h
  match c, h2, hcl, hch with
  | x :: y :: rest, _, hcl, hch =>
    rw [List.chain'_cons] at hch
    have hlast : (y :: rest).getLast (List.cons_ne_nil _ _) = x := by
      simpa [List.getLast?_eq_getLast (y :: rest) (List.cons_ne_nil _ _)] using hcl.symm
    exact ⟨x, List.mem_cons_self _ _,
      Relation.TransGen.head' hch.1 (List.relationReflTransGen_of_exists_chain rest hch.2 hlast)⟩

end Graph

section invariant

variable (g : Graph α)

/-- The invariant of the search state while `dfs` runs on the mapping `g`. -/
structure DfsInv (s : DfsState α) : Prop where
  deps : g.Extends s.deps
  chain : s.path.Chain' g.Edge
  nodup : s.path.Nodup
  recStack : s.recStack = s.path.toFinset
  path_visited : ∀ x ∈ s.path, x ∈ s.visited
  closed : ∀ x, s.Finished x → ∀ y ∈ g.succs x, s.Finished y
  acyclic : ∀ x, s.Finished x → ¬ g.OnCycle x

/-- The nodes not yet visited: what bounds the depth of the remaining recursion. -/
def unvisited (s : DfsState α) : ℕ := (g.nodes.toFinset \ s.visited).card

/-- When `dfs v` may be called from `s` with `n` units of fuel. -/
structure DfsPre (n : ℕ) (v : α) (s : DfsState α) : Prop where
  inv : DfsInv g s
  fresh : v ∉ s.visited
  node : v ∈ g.nodes
  edge : ∀ u ∈ s.path.getLast?, g.Edge u v
  fuel : unvisited g s ≤ n

/-- What `dfs v` from `s` guarantees, by result. -/
def DfsPost (v : α) (s : DfsState α) : DfsResult α → Prop
  | .found c s' => g.IsSimpleCycle c ∧ g.Extends s'.deps
  | .done s' => DfsInv g s' ∧ DfsExt s s' ∧ v ∈ s'.visited
  | .outOfFuel => False

/-- When the loop of `dfs v` may run over `rest` from `s`: `v` ends the path, and the neighbours
already looped over are finished. -/
structure ScanPre (n : ℕ) (v : α) (rest : List α) (s : DfsState α) : Prop where
  inv : DfsInv g s
  last : ∃ p, s.path = p ++ [v]
  edges : ∀ y ∈ rest, g.Edge v y
  nodup : rest.Nodup
  looped : ∀ y ∈ g.succs v, y ∉ rest → s.Finished y
  fuel : unvisited g s ≤ n

/-- What the loop of `dfs v` from `s` guarantees, by result. -/
def ScanPost (v : α) (s : DfsState α) : DfsResult α → Prop
  | .found c s' => g.IsSimpleCycle c ∧ g.Extends s'.deps
  | .done s' => DfsInv g s' ∧ DfsExt (s.leave v) s'
  | .outOfFuel => False

variable {g}

theorem DfsExt.unvisited_le {s s' : DfsState α} (h : DfsExt s s') : unvisited g s' ≤ unvisited g s :=
  Finset.card_le_card (Finset.sdiff_subset_sdiff subset_rfl h.visited)

theorem DfsInv.recStack_visited {s : DfsState α} (h : DfsInv g s) {x : α} (hx : x ∈ s.recStack) :
    x ∈ s.visited :=
  h.path_visited x (by simpa [h.recStack] using hx)

/-- Entering a fresh node keeps the invariant. -/
theorem DfsPre.inv_enter {n : ℕ} {v : α} {s : DfsState α} (h : DfsPre g n v s) :
    DfsInv g (s.enter v) := by
  obtain ⟨hi, hfresh, hnode, hedge, -⟩ := h
  have hvp : v ∉ s.path := fun hp => hfresh (hi.path_visited v hp)
  have hfin : ∀ x, (s.enter v).Finished x → s.Finished x ∧ x ≠ v := by
    rintro x ⟨hx1, hx2⟩
    simp only [enter_visited, enter_recStack, Finset.mem_insert, not_or] at hx1 hx2
    exact ⟨⟨hx1.resolve_left hx2.1, hx2.2⟩, hx2.1⟩
  refine ⟨hi.deps.trans (Graph.extends_touch (hi.deps.mem_nodes_iff.mpr hnode)), ?_, ?_, ?_, ?_, ?_,
    fun x hx => hi.acyclic x (hfin x hx).1⟩
  · exact hi.chain.append (List.chain'_singleton v) fun x hx y hy => by
      simp only [List.head?_cons, Option.mem_def, Option.some.injEq] at hy
      exact hy ▸ hedge x hx
  · exact hi.nodup.append (List.nodup_singleton v) (by simpa using hvp)
  · ext x; simp [hi.recStack, or_comm]
  · intro x hx
    simp only [enter_path, List.mem_append, List.mem_singleton] at hx
    rcases hx with hx | rfl
    · exact Finset.mem_insert_of_mem (hi.path_visited x hx)
    · exact Finset.mem_insert_self _ _
  · intro x hx y hy
    have hy' := hi.closed x (hfin x hx).1 y hy
    have hyv : y ≠ v := fun e => hfresh (e ▸ hy'.1)
    exact ⟨Finset.mem_insert_of_mem hy'.1, by simp [hyv, hy'.2]⟩

/-- Leaving a node whose successors are all finished keeps the invariant: the node is finished
in turn, and lies on no cycle since everything reachable from its successors is finished. -/
theorem DfsInv.leave {s : DfsState α} {v : α} {p : List α} (hi : DfsInv g s) (hp : s.path = p ++ [v])
    (hsucc : ∀ y ∈ g.succs v, s.Finished y) : DfsInv g (s.leave v) := by
  have hnd : (p ++ [v]).Nodup := hp ▸ hi.nodup
  have hvp : v ∉ p := by simpa using (List.nodup_append.mp hnd).2.2
  have hv : v ∈ s.recStack := by simp [hi.recStack, hp]
  have hpath : (s.leave v).path = p := by simp [hp]
  have hfin : ∀ x, (s.leave v).Finished x → s.Finished x ∨ x = v := by
    rintro x ⟨hx1, hx2⟩
    by_cases hxv : x = v
    · exact Or.inr hxv
    · exact Or.inl ⟨hx1, by simpa [hxv] using hx2⟩
  have hfin' : ∀ x, s.Finished x → (s.leave v).Finished x := fun x hx =>
    ⟨hx.1, fun h => hx.2 (Finset.mem_of_mem_erase h)⟩
  refine ⟨hi.deps, ?_, ?_, ?_, ?_, ?_, ?_⟩
  · rw [hpath]; exact (hp ▸ hi.chain).left_of_append
  · rw [hpath]; exact hnd.of_append_left
  · ext x; by_cases hxv : x = v <;> simp [hpath, hi.recStack, hp, hxv, hvp]
  · intro x hx
    rw [hpath] at hx
    exact hi.path_visited x (by simp [hp, hx])
  · intro x hx y hy
    rcases hfin x hx with hx | rfl
    · exact hfin' y (hi.closed x hx y hy)
    · exact hfin' y (hsucc y hy)
  · intro x hx
    rcases hfin x hx with hx | rfl
    · exact hi.acyclic x hx
    · exact Graph.not_onCycle_of_succs hi.closed (fun h => h.2 hv) hsucc

/-- A neighbour on the recursion stack closes a simple cycle: the returned
`path[path.index(neighbor):] + [neighbor]`. -/
theorem DfsInv.isSimpleCycle {s : DfsState α} {v nb : α} {p : List α} (hi : DfsInv g s)
    (hp : s.path = p ++ [v]) (he : g.Edge v nb) (hnb : nb ∈ s.recStack) :
    g.IsSimpleCycle (s.path.drop (s.path.indexOf nb) ++ [nb]) := by
  have hmem : nb ∈ s.path := by simpa [hi.recStack] using hnb
  have hlt := List.indexOf_lt_length.mpr hmem
  have hlast : (s.path.drop (s.path.indexOf nb)).getLast? = some v := by
    rw [List.getLast?_drop, if_neg (by omega), hp, List.getLast?_concat]
  refine ⟨?_, ?_, ?_, ?_⟩
  · rw [drop_indexOf hmem]; simp
  · rw [drop_indexOf hmem, List.getLast?_concat]; rfl
  · refine (hi.chain.drop _).append (List.chain'_singleton nb) fun x hx y hy => ?_
    rw [hlast, Option.mem_def, Option.some.injEq] at hx
    simp only [List.head?_cons, Option.mem_def, Option.some.injEq] at hy
    exact hx ▸ hy ▸ he
  · rw [List.dropLast_concat]
    exact hi.nodup.sublist (List.drop_sublist _ _)

theorem ScanPost.of_ext {v : α} {s s' : DfsState α} (hx : DfsExt s s') :
    ∀ {r : DfsResult α}, ScanPost g v s' r → ScanPost g v s r
  | .found _ _, h => h
  | .done _, h =>
    have hl : DfsExt (s.leave v) (s'.leave v) :=
      ⟨by simp [hx.path], by simp [hx.recStack], by simpa using hx.visited⟩
    ⟨h.1, hl.trans h.2⟩
  | .outOfFuel, h => h

/-- The loop moves on once the neighbour `nb` is finished. -/
theorem ScanPre.next {n : ℕ} {v nb : α} {rest : List α} {s s' : DfsState α}
    (h : ScanPre g n v (nb :: rest) s) (hx : DfsExt s s') (hi : DfsInv g s') (hnb : s'.Finished nb) :
    ScanPre g n v rest s' := by
  refine ⟨hi, hx.path ▸ h.last, fun y hy => h.edges y (List.mem_cons_of_mem _ hy),
    (List.nodup_cons.mp h.nodup).2, fun y hy hr => ?_, hx.unvisited_le.trans h.fuel⟩
  by_cases hyn : y = nb
  · exact hyn ▸ hnb
  · exact hx.finished (h.looped y hy (by simp [hyn, hr]))

/-- The loop over the neighbours, given the specification of the recursive call. -/
theorem scan_spec {visit : α → DfsState α → DfsResult α} {n : ℕ} {v : α}
    (hvisit : ∀ w t, DfsPre g n w t → DfsPost g w t (visit w t)) :
    ∀ rest s, ScanPre g n v rest s → ScanPost g v s (scan visit v rest s)
  | [], s, h => by
    obtain ⟨p, hp⟩ := h.last
    exact ⟨h.inv.leave hp fun y hy => h.looped y hy (List.not_mem_nil y), DfsExt.refl _⟩
  | nb :: rest, s, h => by
    have hnb : g.Edge v nb := h.edges nb (List.mem_cons_self _ _)
    obtain ⟨p, hp⟩ := h.last
    by_cases hvis : nb ∈ s.visited
    · by_cases hrec : nb ∈ s.recStack
      · rw [scan_cons_onStack hvis hrec]
        exact ⟨h.inv.isSimpleCycle hp hnb hrec, h.inv.deps⟩
      · rw [scan_cons_finished hvis hrec]
        exact scan_spec hvisit rest s (h.next (DfsExt.refl s) h.inv ⟨hvis, hrec⟩)
    · have hpost := hvisit nb s ⟨h.inv, hvis, Graph.mem_nodes_of_edge_right hnb,
        by simpa [hp] using hnb, h.fuel⟩
      rw [scan_cons_fresh hvis]
      rcases hr : visit nb s with ⟨c, s'⟩ | s' | _ <;> simp only [hr] at hpost ⊢
      · exact hpost
      · obtain ⟨hi', hx, hmem⟩ := hpost
        have hfin : s'.Finished nb := ⟨hmem, hx.recStack ▸ fun hr => hvis (h.inv.recStack_visited hr)⟩
        exact ScanPost.of_ext hx (scan_spec hvisit rest s' (h.next hx hi' hfin))
      · exact hpost.elim

/-- A call allowed by `DfsPre` has fuel left: its node is not yet visited. -/
theorem DfsPre.fuel_pos {n : ℕ} {v : α} {s : DfsState α} (h : DfsPre g n v s) : 0 < n :=
  (Finset.card_pos.mpr ⟨v, by simp [h.node, h.fresh]⟩).trans_le h.fuel

/-- The loop header `self.dependencies[node]` reads the node's set in `g`. -/
theorem DfsInv.getItem_elems {s : DfsState α} (h : DfsInv g s) (v : α) :
    (s.deps.getItem v).1.elems = g.succs v := by
  simp [Graph.succs, h.deps.get_eq]

/-- After entering a fresh node the loop over its neighbours may start, with one unit of fuel
less. -/
theorem DfsPre.scanPre {n : ℕ} {v : α} {s : DfsState α} (h : DfsPre g (n + 1) v s) :
    ScanPre g n v (g.succs v) (s.enter v) := by
  have hfuel : unvisited g (s.enter v) ≤ n := by
    have := Finset.card_erase_of_mem (s := g.nodes.toFinset \ s.visited)
      (Finset.mem_sdiff.mpr ⟨List.mem_toFinset.mpr h.node, h.fresh⟩)
    simp only [unvisited, enter_visited, Finset.sdiff_insert] at this ⊢
    have := h.fuel
    simp only [unvisited] at this
    omega
  exact ⟨h.inv_enter, ⟨s.path, rfl⟩, fun y hy => hy, (g.get v).nodup, fun y hy hn => absurd hy hn,
    hfuel⟩

/-- **The search invariant.**  A call of `dfs` allowed by `DfsPre` returns a simple cycle, or
returns `None` with the invariant kept, `path` and `rec_stack` restored and its node visited;
it never runs out of fuel. -/
theorem dfs_spec : ∀ n v s, DfsPre g n v s → DfsPost g v s (dfs n v s)
  | 0, _, _, h => absurd h.fuel_pos (lt_irrefl 0)
  | n + 1, v, s, h => by
    have hpost := scan_spec (dfs_spec n) (g.succs v) (s.enter v) h.scanPre
    simp only [dfs, h.inv.getItem_elems]
    rcases hr : scan (dfs n) v (g.succs v) (s.enter v) with ⟨c, s'⟩ | s' | _ <;> rw [hr] at hpost
    · exact hpost
    · obtain ⟨hi', hx⟩ := hpost
      have hv : v ∉ s.recStack := fun hr => h.fresh (h.inv.recStack_visited hr)
      refine ⟨hi', ⟨by simp [hx.path], by simp [hx.recStack, Finset.erase_insert hv], ?_⟩,
        hx.visited (Finset.mem_insert_self v _)⟩
      exact (Finset.subset_insert v _).trans hx.visited
    · exact hpost.elim

end invariant

/-! ### The loop over the roots -/

section roots

variable (g : Graph α)

/-- The invariant between two roots: every visited node is finished. -/
structure RootInv (deps : Graph α) (visited : Finset α) : Prop where
  deps : g.Extends deps
  closed : ∀ x ∈ visited, ∀ y ∈ g.succs x, y ∈ visited
  acyclic : ∀ x ∈ visited, ¬ g.OnCycle x

/-- What the loop over the roots `rs` guarantees: a simple cycle, or every root finished. -/
def RootsPost (rs : List α) (visited : Finset α) : Option (List α) × Graph α → Prop
  | (some c, d) => g.IsSimpleCycle c ∧ g.Extends d
  | (none, d) => ∃ visited', visited ⊆ visited' ∧ RootInv g d visited' ∧ ∀ r ∈ rs, r ∈ visited'

variable {g}

theorem RootInv.dfsInv {deps : Graph α} {visited : Finset α} (h : RootInv g deps visited) :
    DfsInv g ⟨deps, visited, [], ∅⟩ :=
  ⟨h.deps, List.chain'_nil, List.nodup_nil, rfl, by simp,
    fun x hx y hy => ⟨h.closed x hx.1 y hy, Finset.not_mem_empty y⟩, fun x hx => h.acyclic x hx.1⟩

theorem DfsInv.rootInv {s : DfsState α} (h : DfsInv g s) (hr : s.recStack = ∅) :
    RootInv g s.deps s.visited :=
  ⟨h.deps, fun x hx y hy => (h.closed x ⟨hx, by simp [hr]⟩ y hy).1,
    fun x hx => h.acyclic x ⟨hx, by simp [hr]⟩⟩

theorem RootInv.dfsPre {deps : Graph α} {visited : Finset α} (h : RootInv g deps visited)
    {fuel : ℕ} (hfuel : g.nodes.length ≤ fuel) {r : α} (hr : r ∉ visited) (hn : r ∈ g.nodes) :
    DfsPre g fuel r ⟨deps, visited, [], ∅⟩ :=
  ⟨h.dfsInv, hr, hn, by simp,
    (Finset.card_le_card Finset.sdiff_subset).trans ((List.toFinset_card_le _).trans hfuel)⟩

/-- A fresh root either closes a simple cycle, or is finished with the invariant kept. -/
theorem dfs_root_cases {deps : Graph α} {visited : Finset α} (h : RootInv g deps visited)
    {fuel : ℕ} (hfuel : g.nodes.length ≤ fuel) {r : α} (hr : r ∉ visited) (hn : r ∈ g.nodes) :
    (∃ c s, dfs fuel r ⟨deps, visited, [], ∅⟩ = .found c s ∧ g.IsSimpleCycle c ∧ g.Extends s.deps) ∨
      ∃ s, dfs fuel r ⟨deps, visited, [], ∅⟩ = .done s ∧ RootInv g s.deps s.visited ∧
        visited ⊆ s.visited ∧ r ∈ s.visited := by
  have hpost := dfs_spec fuel r _ (h.dfsPre hfuel hr hn)
  rcases hd : dfs fuel r ⟨deps, visited, [], ∅⟩ with ⟨c, s⟩ | s | _ <;> rw [hd] at hpost
  · exact Or.inl ⟨c, s, rfl, hpost⟩
  · obtain ⟨hi, hx, hmem⟩ := hpost
    exact Or.inr ⟨s, rfl, hi.rootInv hx.recStack, hx.visited, hmem⟩
  · exact hpost.elim

section equations

variable {fuel : ℕ} {r : α} {rs : List α} {deps : Graph α} {visited : Finset α}

theorem roots_cons_visited (h : r ∈ visited) :
    roots fuel (r :: rs) deps visited = roots fuel rs deps visited := by
  simp [roots, h]

theorem roots_cons_found {c : List α} {s : DfsState α} (hr : r ∉ visited)
    (h : dfs fuel r ⟨deps, visited, [], ∅⟩ = .found c s) :
    roots fuel (r :: rs) deps visited = (some c, s.deps) := by
  simp [roots, hr, h]

theorem roots_cons_done {s : DfsState α} (hr : r ∉ visited)
    (h : dfs fuel r ⟨deps, visited, [], ∅⟩ = .done s) :
    roots fuel (r :: rs) deps visited = roots fuel rs s.deps s.visited := by
  simp [roots, hr, h]

end equations

theorem roots_spec {fuel : ℕ} (hfuel : g.nodes.length ≤ fuel) :
    ∀ rs deps visited, (∀ r ∈ rs, r ∈ g.nodes) → RootInv g deps visited →
      RootsPost g rs visited (roots fuel rs deps visited)
  | [], deps, visited, _, h => ⟨visited, subset_rfl, h, by simp⟩
  | r :: rs, deps, visited, hrs, h => by
    have hrs' : ∀ r ∈ rs, r ∈ g.nodes := fun r hr => hrs r (List.mem_cons_of_mem _ hr)
    have step : ∀ d V, visited ⊆ V → r ∈ V → RootInv g d V →
        RootsPost g (r :: rs) visited (roots fuel rs d V) := by
      intro d V hV hr hi
      have := roots_spec hfuel rs d V hrs' hi
      rcases hq : roots fuel rs d V with ⟨_ | c, d'⟩ <;> rw [hq] at this
      · obtain ⟨V', hV', hi', hall⟩ := this
        exact ⟨V', hV.trans hV', hi', by simpa [hV' hr] using hall⟩
      · exact this
    by_cases hv : r ∈ visited
    · rw [roots_cons_visited hv]
      exact step deps visited subset_rfl hv h
    · rcases dfs_root_cases h hfuel hv (hrs r (List.mem_cons_self _ _)) with
        ⟨c, s, hd, hpost⟩ | ⟨s, hd, hi, hsub, hmem⟩
      · rw [roots_cons_found hv hd]
        exact hpost
      · rw [roots_cons_done hv hd]
        exact step s.deps s.visited hsub hmem hi

theorem findCircularDependencies_spec :
    RootsPost g g.keys ∅ (findCircularDependencies g) :=
  roots_spec le_rfl g.keys g ∅ (fun _ hr => List.mem_append_left _ hr)
    ⟨Graph.Extends.refl g, by simp, by simp⟩

/-- A cycle returned by `find_circular_dependencies` is a simple cycle of the graph. -/
theorem isSimpleCycle_of_findCircularDependencies {c : List α}
    (h : (findCircularDependencies g).1 = some c) : g.IsSimpleCycle c := by
  have hs := findCircularDependencies_spec (g := g)
  rcases hf : findCircularDependencies g with ⟨_ | c', d⟩ <;> rw [hf] at hs h
  · cases h
  · cases h; exact hs.1

/-- `find_circular_dependencies` returns `None` exactly when the graph is acyclic. -/
theorem findCircularDependencies_eq_none_iff : (findCircularDependencies g).1 = none ↔ g.Acyclic := by
  have hs := findCircularDependencies_spec (g := g)
  rcases hf : findCircularDependencies g with ⟨_ | c, d⟩ <;> rw [hf] at hs
  · obtain ⟨V, -, hi, hkeys⟩ := hs
    refine iff_of_true rfl fun x hx => hi.acyclic x (hkeys x ?_) hx
    obtain ⟨y, hxy, -⟩ := Relation.TransGen.head'_iff.mp hx
    obtain ⟨t, ht, -⟩ := Graph.edge_iff.mp hxy
    exact PyDict.mem_keys.mpr ⟨t, ht⟩
  · refine iff_of_false (by simp) fun hac => ?_
    obtain ⟨v, -, hv⟩ := hs.1.onCycle
    exact hac v hv

/-- The search only adds empty entries, for nodes of the graph, to the mapping. -/
theorem extends_findCircularDependencies : g.Extends (findCircularDependencies g).2 := by
  have hs := findCircularDependencies_spec (g := g)
  rcases hf : findCircularDependencies g with ⟨_ | c, d⟩ <;> rw [hf] at hs
  · obtain ⟨V, -, hi, -⟩ := hs
    exact hi.deps
  · exact hs.2

/-- **The cycle detector.**  `find_circular_dependencies` returns `None` exactly when the graph
has no directed cycle, and any list it returns is a simple closed cycle of the graph. -/
theorem findCircularDependencies_correct (g : Graph α) :
    ((findCircularDependencies g).1 = none ↔ g.Acyclic) ∧
      ∀ c, (findCircularDependencies g).1 = some c → g.IsSimpleCycle c :=
  ⟨findCircularDependencies_eq_none_iff, fun _ => isSimpleCycle_of_findCircularDependencies⟩

end roots

/-! ### Runs on a mapping with more empty entries

The search reads the mapping only through `self.dependencies[node]`, so two states whose mappings
return the same sets (`DfsState.Sim`) run alike (`dfs_sim`); more fuel than enough changes no run
(`dfs_add_fuel`); and roots reached from earlier roots are skipped (`roots_append_of_reached`).
Hence a mapping extended by empty entries for edge targets gives the same answer
(`findCircularDependencies_fst_of_extends`). -/

section extension

/-- Two search states that differ at most in which empty entries the mapping holds. -/
structure DfsState.Sim (s t : DfsState α) : Prop where
  get : s.deps.get = t.deps.get
  visited : s.visited = t.visited
  path : s.path = t.path
  recStack : s.recStack = t.recStack

theorem DfsState.Sim.enter {s t : DfsState α} (h : s.Sim t) (v : α) : (s.enter v).Sim (t.enter v) :=
  ⟨by simp [h.get], by simp [h.visited], by simp [h.path], by simp [h.recStack]⟩

theorem DfsState.Sim.leave {s t : DfsState α} (h : s.Sim t) (v : α) : (s.leave v).Sim (t.leave v) :=
  ⟨h.get, h.visited, by simp [h.path], by simp [h.recStack]⟩

/-- Results of two runs from similar states: the same outcome and cycle, and similar states. -/
def DfsResult.Sim : DfsResult α → DfsResult α → Prop
  | .found c s, .found c' t => c = c' ∧ s.Sim t
  | .done s, .done t => s.Sim t
  | .outOfFuel, .outOfFuel => True
  | _, _ => False

theorem scan_sim {visit : α → DfsState α → DfsResult α}
    (hv : ∀ y s t, DfsState.Sim s t → (visit y s).Sim (visit y t)) (node : α) :
    ∀ l (s t : DfsState α), s.Sim t → (scan visit node l s).Sim (scan visit node l t)
  | [], _, _, h => h.leave node
  | nb :: rest, s, t, h => by
    by_cases hf : nb ∈ s.visited
    · have hf' : nb ∈ t.visited := h.visited ▸ hf
      by_cases hr : nb ∈ s.recStack
      · rw [scan_cons_onStack hf hr, scan_cons_onStack hf' (h.recStack ▸ hr)]
        exact ⟨by rw [h.path], h⟩
      · rw [scan_cons_finished hf hr, scan_cons_finished hf' (h.recStack ▸ hr)]
        exact scan_sim hv node rest s t h
    · rw [scan_cons_fresh hf, scan_cons_fresh (h.visited ▸ hf)]
      have hvs := hv nb s t h
      rcases hs : visit nb s with ⟨c, s'⟩ | s' | _ <;> rcases ht : visit nb t with ⟨c', t'⟩ | t' | _ <;>
        rw [hs, ht] at hvs <;> simp only [DfsResult.Sim] at hvs ⊢
      · exact hvs
      · exact scan_sim hv node rest s' t' hvs

/-- Runs from similar states are similar. -/
theorem dfs_sim : ∀ n v (s t : DfsState α), s.Sim t → (dfs n v s).Sim (dfs n v t)
  | 0, _, _, _, _ => trivial
  | n + 1, v, s, t, h => by
    simp only [dfs, PyDict.getItem_fst, h.get]
    exact scan_sim (dfs_sim n) v _ _ _ (h.enter v)

theorem scan_congr {visit visit' : α → DfsState α → DfsResult α}
    (hv : ∀ y s, visit y s ≠ .outOfFuel → visit' y s = visit y s) (node : α) :
    ∀ l s, scan visit node l s ≠ .outOfFuel → scan visit' node l s = scan visit node l s
  | [], _, _ => rfl
  | nb :: rest, s, h => by
    by_cases hf : nb ∈ s.visited
    · by_cases hr : nb ∈ s.recStack
      · rw [scan_cons_onStack hf hr, scan_cons_onStack hf hr]
      · rw [scan_cons_finished hf hr] at h ⊢
        rw [scan_cons_finished hf hr]
        exact scan_congr hv node rest s h
    · rw [scan_cons_fresh hf] at h ⊢
      rw [scan_cons_fresh hf]
      rcases hs : visit nb s with ⟨c, s'⟩ | s' | _ <;> rw [hs] at h
      · rw [hv nb s (by simp [hs]), hs]
      · rw [hv nb s (by simp [hs]), hs]
        exact scan_congr hv node rest s' h
      · exact absurd rfl h

/-- A run that does not run out of fuel is the same with more fuel. -/
theorem dfs_add_fuel : ∀ n k v (s : DfsState α), dfs n v s ≠ .outOfFuel → dfs (n + k) v s = dfs n v s
  | 0, _, _, _, h => absurd rfl h
  | n + 1, k, v, s, h => by
    rw [Nat.add_right_comm]
    exact scan_congr (fun y t ht => dfs_add_fuel n k y t ht) v _ _ h

variable {g : Graph α}

theorem dfs_fuel_eq {n m : ℕ} {v : α} {s : DfsState α} (hpre : DfsPre g n v s) (hnm : n ≤ m) :
    dfs m v s = dfs n v s := by
  obtain ⟨k, rfl⟩ := Nat.exists_eq_add_of_le hnm
  refine dfs_add_fuel n k v s fun h => ?_
  have := dfs_spec n v s hpre
  rw [h] at this
  exact this

theorem DfsResult.Sim.found_left {c : List α} {s : DfsState α} {r : DfsResult α}
    (h : (DfsResult.found c s).Sim r) : ∃ t, r = .found c t := by
  rcases r with ⟨c', t⟩ | t | _
  · exact ⟨t, by rw [h.1]⟩
  · exact h.elim
  · exact h.elim

theorem DfsResult.Sim.done_left {s : DfsState α} {r : DfsResult α} (h : (DfsResult.done s).Sim r) :
    ∃ t, r = .done t ∧ s.Sim t := by
  rcases r with ⟨c', t⟩ | t | _
  · exact h.elim
  · exact ⟨t, rfl, h⟩
  · exact h.elim

/-- Two runs of the root loop with enough fuel, on mappings that return the same sets, find the
same cycle or none. -/
theorem roots_fst_congr {f₁ f₂ : ℕ} (hf₁ : g.nodes.length ≤ f₁) (hf₂ : g.nodes.length ≤ f₂) :
    ∀ rs (d d' : Graph α) visited, (∀ r ∈ rs, r ∈ g.nodes) → RootInv g d visited →
      d.get = d'.get → (roots f₁ rs d visited).1 = (roots f₂ rs d' visited).1
  | [], _, _, _, _, _, _ => rfl
  | r :: rs, d, d', visited, hrs, h, hd => by
    have hrs' : ∀ r ∈ rs, r ∈ g.nodes := fun r hr => hrs r (List.mem_cons_of_mem _ hr)
    by_cases hr : r ∈ visited
    · rw [roots_cons_visited hr, roots_cons_visited hr]
      exact roots_fst_congr hf₁ hf₂ rs d d' visited hrs' h hd
    have hn := hrs r (List.mem_cons_self _ _)
    have hsim : (dfs f₁ r ⟨d, visited, [], ∅⟩).Sim (dfs f₂ r ⟨d', visited, [], ∅⟩) := by
      rw [dfs_fuel_eq (h.dfsPre le_rfl hr hn) hf₁,
        ← dfs_fuel_eq (h.dfsPre le_rfl hr hn) hf₂]
      exact dfs_sim f₂ r _ _ ⟨hd, rfl, rfl, rfl⟩
    rcases dfs_root_cases h hf₁ hr hn with ⟨c, s, h₁, -⟩ | ⟨s, h₁, hi, -⟩ <;> rw [h₁] at hsim
    · obtain ⟨t, h₂⟩ := hsim.found_left
      rw [roots_cons_found hr h₁, roots_cons_found hr h₂]
    · obtain ⟨t, h₂, hst⟩ := hsim.done_left
      rw [roots_cons_done hr h₁, roots_cons_done hr h₂, ← hst.visited]
      exact roots_fst_congr hf₁ hf₂ rs s.deps t.deps s.visited hrs' hi hst.get

theorem roots_of_visited {fuel : ℕ} {deps : Graph α} {visited : Finset α} :
    ∀ {rs : List α}, (∀ r ∈ rs, r ∈ visited) → roots fuel rs deps visited = (none, deps)
  | [], _ => rfl
  | r :: _, h => by
    rw [roots_cons_visited (h r (List.mem_cons_self _ _))]
    exact roots_of_visited fun r' hr' => h r' (List.mem_cons_of_mem _ hr')

omit [DecidableEq α] in
theorem keys_reached_step {visited visited' : Finset α} {x : α} {xs : List α}
    (hk : ∀ u ∈ g.keys, u ∈ visited ∨ u ∈ x :: xs) (hsub : visited ⊆ visited') (hx : x ∈ visited') :
    ∀ u ∈ g.keys, u ∈ visited' ∨ u ∈ xs := fun u hu => by
  rcases hk u hu with hu | hu
  · exact Or.inl (hsub hu)
  · rcases List.mem_cons.mp hu with rfl | hu
    · exact Or.inl hx
    · exact Or.inr hu

/-- Roots that are successors of keys add nothing once every key is a root or visited: the
search from the keys has finished them. -/
theorem roots_append_of_reached {fuel : ℕ} (hfuel : g.nodes.length ≤ fuel) {ys : List α}
    (hys : ∀ y ∈ ys, ∃ u ∈ g.keys, g.Edge u y) :
    ∀ xs deps visited, (∀ x ∈ xs, x ∈ g.nodes) → RootInv g deps visited →
      (∀ u ∈ g.keys, u ∈ visited ∨ u ∈ xs) →
        roots fuel (xs ++ ys) deps visited = roots fuel xs deps visited
  | [], deps, visited, _, h, hk => by
    refine roots_of_visited fun y hy => ?_
    obtain ⟨u, hu, he⟩ := hys y hy
    exact h.closed u ((hk u hu).resolve_right (List.not_mem_nil u)) y he
  | x :: xs, deps, visited, hxs, h, hk => by
    have hxs' : ∀ x ∈ xs, x ∈ g.nodes := fun x hx => hxs x (List.mem_cons_of_mem _ hx)
    rw [List.cons_append]
    by_cases hx : x ∈ visited
    · rw [roots_cons_visited hx, roots_cons_visited hx]
      exact roots_append_of_reached hfuel hys xs deps visited hxs' h
        (keys_reached_step hk subset_rfl hx)
    · rcases dfs_root_cases h hfuel hx (hxs x (List.mem_cons_self _ _)) with
        ⟨c, s, hd, -⟩ | ⟨s, hd, hi, hsub, hmem⟩
      · rw [roots_cons_found hx hd, roots_cons_found hx hd]
      · rw [roots_cons_done hx hd, roots_cons_done hx hd]
        exact roots_append_of_reached hfuel hys xs s.deps s.visited hxs' hi
          (keys_reached_step hk hsub hmem)

/-- On a mapping extended by empty entries for edge targets, `find_circular_dependencies`
returns what it returns on the original. -/
theorem findCircularDependencies_fst_of_extends {g' : Graph α} (h : g.Extends g') :
    (findCircularDependencies g').1 = (findCircularDependencies g).1 := by
  obtain ⟨extra, he, hx⟩ := id h
  have hkeys : g'.keys = g.keys ++ extra := by simp [PyDict.keys, he, Function.comp_def]
  have hlen : g.nodes.length ≤ g'.nodes.length := by
    simp only [Graph.nodes, hkeys, h.targets_eq, List.length_append]
    omega
  have hkn : ∀ x ∈ g.keys, x ∈ g.nodes := fun x hx => List.mem_append_left _ hx
  have hreach : ∀ y ∈ extra, ∃ u ∈ g.keys, g.Edge u y := fun y hy => by
    obtain ⟨⟨u, s⟩, hus, hy⟩ := List.mem_flatMap.mp (hx y hy)
    exact ⟨u, PyDict.mem_keys.mpr ⟨s, hus⟩, Graph.edge_iff.mpr ⟨s, hus, hy⟩⟩
  unfold findCircularDependencies
  rw [hkeys, roots_append_of_reached hlen hreach g.keys g' ∅ hkn ⟨h, by simp, by simp⟩
    fun u hu => Or.inr hu]
  exact (roots_fst_congr le_rfl hlen g.keys g g' ∅ hkn ⟨Graph.Extends.refl g, by simp, by simp⟩
    h.get_eq.symm).symm

end extension

end Avatar
