import AvatarScripts.Deps.Cycles

/-! # The trace of the cycle search

What `find_circular_dependencies` does along the way, as a list of events: every entry of `dfs`
with the state it is entered in, every pair `(node, neighbor)` its loop examines, and every return
of `None` with the state it leaves.  The events are defined by the recursion of `dfs`, `scan` and
`roots`, each continuation reading the result of the real search, so the trace is that of the
modelled run itself.

What a run from `s` emits satisfies `TraceOk`: every entry is of an unvisited node of the graph
from a state satisfying `DfsInv`, and so with `rec_stack` the set of `path`; every examined pair
is an edge; every return of `None` leaves `DfsInv`; no node is entered twice and no pair examined
twice.  Runs compose because the nodes a finished run entered are all visited when the next
starts (`DfsTrace.append`), and an examined pair belongs to the entry of its first node.  Hence
`findCircularDependencies_trace`: the search enters each node at most once, so at most `|V|`
times, examines each edge at most once, and its trace does not depend on the fuel, which is
therefore the trace of the unbounded recursion.  The trace ends as the search does, and the
mapping the search leaves is the input read once at every node the trace enters
(`findCircularDependencies_events`). -/

namespace Avatar

variable {α : Type}

/-- One event of the search. -/
inductive DfsEvent (α : Type)
  /-- `dfs(node, path, visited, rec_stack)` is entered in the state `s`. -/
  | call (node : α) (s : DfsState α)
  /-- The loop of `dfs(node, ...)` examines `neighbor`. -/
  | edge (node neighbor : α)
  /-- `dfs(node, ...)` returns `None`, leaving the state `s`. -/
  | ret (node : α) (s : DfsState α)

namespace DfsEvent

/-- The node entered, for an entry. -/
def call? : DfsEvent α → Option α
  | .call v _ => some v
  | _ => none

/-- The pair examined, for an examination. -/
def edge? : DfsEvent α → Option (α × α)
  | .edge u v => some (u, v)
  | _ => none

end DfsEvent

/-- The nodes entered, in order. -/
def calls (E : List (DfsEvent α)) : List α := E.filterMap DfsEvent.call?

/-- The pairs examined, in order. -/
def edges (E : List (DfsEvent α)) : List (α × α) := E.filterMap DfsEvent.edge?

section projections

variable {E F : List (DfsEvent α)} {u v : α} {s : DfsState α}

@[simp] theorem calls_nil : calls ([] : List (DfsEvent α)) = [] := rfl
@[simp] theorem calls_call : calls (.call v s :: E) = v :: calls E := rfl
@[simp] theorem calls_edge : calls (.edge u v :: E) = calls E := rfl
@[simp] theorem calls_ret : calls (.ret v s :: E) = calls E := rfl
@[simp] theorem calls_append : calls (E ++ F) = calls E ++ calls F :=
  List.filterMap_append _ _ _
@[simp] theorem edges_nil : edges ([] : List (DfsEvent α)) = [] := rfl
@[simp] theorem edges_call : edges (.call v s :: E) = edges E := rfl
@[simp] theorem edges_edge : edges (.edge u v :: E) = (u, v) :: edges E := rfl
@[simp] theorem edges_ret : edges (.ret v s :: E) = edges E := rfl
@[simp] theorem edges_append : edges (E ++ F) = edges E ++ edges F :=
  List.filterMap_append _ _ _

theorem mem_calls : v ∈ calls E ↔ ∃ s, DfsEvent.call v s ∈ E := by
  simp only [calls, List.mem_filterMap]
  constructor
  · rintro ⟨⟨w, s⟩ | ⟨_, _⟩ | ⟨_, _⟩, he, h⟩ <;> cases h
    exact ⟨s, he⟩
  · exact fun ⟨s, he⟩ => ⟨_, he, rfl⟩

theorem mem_edges {e : α × α} : e ∈ edges E ↔ DfsEvent.edge e.1 e.2 ∈ E := by
  simp only [edges, List.mem_filterMap]
  constructor
  · rintro ⟨⟨_, _⟩ | ⟨u, w⟩ | ⟨_, _⟩, he, h⟩ <;> cases h
    exact he
  · exact fun he => ⟨_, he, rfl⟩

end projections

variable [DecidableEq α]

open DfsState

/-- The events of the loop of `dfs(node, ...)` over `neighbors`, `events` giving those of the
recursive call and `visit` its result. -/
def scanEvents (visit : α → DfsState α → DfsResult α) (events : α → DfsState α → List (DfsEvent α))
    (node : α) : List α → DfsState α → List (DfsEvent α)
  | [], s => [.ret node (s.leave node)]
  | nb :: rest, s =>
    .edge node nb ::
      if nb ∉ s.visited then
        events nb s ++
          match visit nb s with
          | .done s' => scanEvents visit events node rest s'
          | _ => []
      else if nb ∈ s.recStack then []
      else scanEvents visit events node rest s

/-- The events of `dfs(node, ...)` entered in the state `s`. -/
def dfsEvents : ℕ → α → DfsState α → List (DfsEvent α)
  | 0, _, _ => []
  | n + 1, node, s =>
    .call node s :: scanEvents (dfs n) (dfsEvents n) node (s.deps.getItem node).1.elems (s.enter node)

/-- The events of the loop over the roots. -/
def rootsEvents (fuel : ℕ) : List α → Graph α → Finset α → List (DfsEvent α)
  | [], _, _ => []
  | r :: rs, deps, visited =>
    if r ∉ visited then
      dfsEvents fuel r ⟨deps, visited, [], ∅⟩ ++
        match dfs fuel r ⟨deps, visited, [], ∅⟩ with
        | .done s => rootsEvents fuel rs s.deps s.visited
        | _ => []
    else rootsEvents fuel rs deps visited

/-- The events of `find_circular_dependencies()`. -/
def findCircularDependenciesEvents (g : Graph α) : List (DfsEvent α) :=
  rootsEvents g.nodes.length g.keys g ∅

section equations

variable {visit : α → DfsState α → DfsResult α} {events : α → DfsState α → List (DfsEvent α)}
  {node nb : α} {rest : List α} {s : DfsState α}

theorem scanEvents_cons_fresh (h : nb ∉ s.visited) :
    scanEvents visit events node (nb :: rest) s =
      .edge node nb :: (events nb s ++
        match visit nb s with
        | .done s' => scanEvents visit events node rest s'
        | _ => []) := by
  simp [scanEvents, h]

theorem scanEvents_cons_onStack (h : nb ∈ s.visited) (h' : nb ∈ s.recStack) :
    scanEvents visit events node (nb :: rest) s = [.edge node nb] := by
  simp [scanEvents, h, h']

theorem scanEvents_cons_finished (h : nb ∈ s.visited) (h' : nb ∉ s.recStack) :
    scanEvents visit events node (nb :: rest) s =
      .edge node nb :: scanEvents visit events node rest s := by
  simp [scanEvents, h, h']

end equations

/-! ### What the events satisfy -/

section trace

variable (g : Graph α)

/-- What holds at one event of a search on `g`: an entry is of an unvisited node of the graph from
a state satisfying the invariant, an examined pair is an edge, and a return of `None` leaves the
invariant. -/
def EventOk : DfsEvent α → Prop
  | .call v s => v ∉ s.visited ∧ v ∈ g.nodes ∧ DfsInv g s
  | .edge u v => g.Edge u v
  | .ret _ s => DfsInv g s

/-- The events `E` of a search started with `visited`: every event holds, no node is entered or
pair examined twice, and only nodes outside `visited` are entered. -/
structure TraceOk (visited : Finset α) (E : List (DfsEvent α)) : Prop where
  ok : ∀ ev ∈ E, EventOk g ev
  calls_nodup : (calls E).Nodup
  edges_nodup : (edges E).Nodup
  fresh : ∀ x ∈ calls E, x ∉ visited

/-- What the events of `dfs` from `s` with result `r` satisfy: every examined pair starts at a
node the run entered, and a run returning `None` has visited every node it entered. -/
structure DfsTrace (s : DfsState α) (E : List (DfsEvent α)) (r : DfsResult α)
    extends TraceOk g s.visited E : Prop where
  owned : ∀ e ∈ edges E, e.1 ∈ calls E
  done : ∀ s', r = .done s' → ∀ x ∈ calls E, x ∈ s'.visited

/-- What the events of the loop of `dfs v` over `rest` from `s` satisfy: an examined pair starts
at `v` and ends in `rest`, or starts at a node the loop entered. -/
structure ScanTrace (v : α) (rest : List α) (s : DfsState α) (E : List (DfsEvent α))
    (r : DfsResult α) extends TraceOk g s.visited E : Prop where
  owned : ∀ e ∈ edges E, (e.1 = v ∧ e.2 ∈ rest) ∨ e.1 ∈ calls E
  done : ∀ s', r = .done s' → ∀ x ∈ calls E, x ∈ s'.visited

variable {g}

theorem DfsTrace.toScanTrace {v : α} {rest : List α} {s : DfsState α} {E : List (DfsEvent α)}
    {r : DfsResult α} (h : DfsTrace g s E r) : ScanTrace g v rest s E r :=
  ⟨h.toTraceOk, fun e he => Or.inr (h.owned e he), h.done⟩

/-- The loop examines `nb` before the rest of the neighbours. -/
theorem ScanTrace.cons_edge {v nb : α} {rest : List α} {s : DfsState α} {E : List (DfsEvent α)}
    {r : DfsResult α} (h : ScanTrace g v rest s E r) (hnb : g.Edge v nb) (hnr : nb ∉ rest)
    (hv : v ∈ s.visited) : ScanTrace g v (nb :: rest) s (.edge v nb :: E) r := by
  refine ⟨⟨?_, by simpa using h.calls_nodup, ?_, by simpa using h.fresh⟩, ?_, by simpa using h.done⟩
  · simp only [List.mem_cons, forall_eq_or_imp]
    exact ⟨hnb, h.ok⟩
  · rw [edges_edge, List.nodup_cons]
    refine ⟨fun hm => ?_, h.edges_nodup⟩
    rcases h.owned _ hm with ⟨-, h2⟩ | hc
    · exact hnr h2
    · exact h.fresh v hc hv
  · simp only [edges_edge, List.mem_cons, calls_edge]
    rintro e (rfl | he)
    · exact Or.inl ⟨rfl, Or.inl rfl⟩
    · exact (h.owned e he).imp_left fun ⟨h1, h2⟩ => ⟨h1, Or.inr h2⟩

/-- Two traces in sequence: every node the first entered is visited when the second starts, and
no pair is examined by both. -/
theorem TraceOk.append {V V' : Finset α} {A B : List (DfsEvent α)} (hA : TraceOk g V A)
    (hB : TraceOk g V' B) (hsub : V ⊆ V') (hAV : ∀ x ∈ calls A, x ∈ V')
    (hE : ∀ e ∈ edges A, e ∉ edges B) : TraceOk g V (A ++ B) := by
  refine ⟨?_, ?_, ?_, ?_⟩
  · simp only [List.mem_append]
    rintro ev (he | he)
    exacts [hA.ok ev he, hB.ok ev he]
  · rw [calls_append, List.nodup_append]
    exact ⟨hA.calls_nodup, hB.calls_nodup, fun x hxA hxB => hB.fresh x hxB (hAV x hxA)⟩
  · rw [edges_append, List.nodup_append]
    exact ⟨hA.edges_nodup, hB.edges_nodup, hE⟩
  · simp only [calls_append, List.mem_append]
    rintro x (hx | hx)
    · exact hA.fresh x hx
    · exact fun hs => hB.fresh x hx (hsub hs)

/-- A run of `dfs nb` returning `None` in `s'`, followed by the rest of the loop from `s'`. -/
theorem DfsTrace.append {v : α} {rest : List α} {s s' : DfsState α} {A B : List (DfsEvent α)}
    {r : DfsResult α} (hA : DfsTrace g s A (.done s')) (hsub : s.visited ⊆ s'.visited)
    (hv : v ∈ s.visited) (hB : ScanTrace g v rest s' B r)
    (hmono : ∀ s'', r = .done s'' → s'.visited ⊆ s''.visited) :
    ScanTrace g v rest s (A ++ B) r := by
  have hAV := hA.done s' rfl
  refine ⟨hA.toTraceOk.append hB.toTraceOk hsub hAV fun e heA heB => ?_, ?_, ?_⟩
  · rcases hB.owned e heB with ⟨he1, -⟩ | hu
    · exact hA.fresh _ (hA.owned e heA) (he1 ▸ hv)
    · exact hB.fresh _ hu (hAV _ (hA.owned e heA))
  · simp only [edges_append, calls_append, List.mem_append]
    rintro e (he | he)
    · exact Or.inr (Or.inl (hA.owned e he))
    · exact (hB.owned e he).imp_right Or.inr
  · simp only [calls_append, List.mem_append]
    rintro s'' hr x (hx | hx)
    · exact hmono s'' hr (hAV x hx)
    · exact hB.done s'' hr x hx

/-- The events of the loop over the neighbours, given those of the recursive call. -/
theorem scanEvents_spec {visit : α → DfsState α → DfsResult α}
    {events : α → DfsState α → List (DfsEvent α)} {n : ℕ} {v : α}
    (hvisit : ∀ w t, DfsPre g n w t → DfsPost g w t (visit w t))
    (hevents : ∀ w t, DfsPre g n w t → DfsTrace g t (events w t) (visit w t)) :
    ∀ rest s, ScanPre g n v rest s →
      ScanTrace g v rest s (scanEvents visit events v rest s) (scan visit v rest s)
  | [], s, h => by
    obtain ⟨p, hp⟩ := h.last
    refine ⟨⟨?_, by simp [scanEvents], by simp [scanEvents], by simp [scanEvents]⟩,
      by simp [scanEvents], by simp [scanEvents]⟩
    simp only [scanEvents, List.mem_singleton, forall_eq]
    exact h.inv.leave hp fun y hy => h.looped y hy (List.not_mem_nil y)
  | nb :: rest, s, h => by
    have hnb : g.Edge v nb := h.edges nb (List.mem_cons_self _ _)
    have hnr : nb ∉ rest := (List.nodup_cons.mp h.nodup).1
    obtain ⟨p, hp⟩ := h.last
    have hv : v ∈ s.visited := h.inv.path_visited v (by simp [hp])
    by_cases hvis : nb ∈ s.visited
    · by_cases hrec : nb ∈ s.recStack
      · rw [scanEvents_cons_onStack hvis hrec, scan_cons_onStack hvis hrec]
        refine ⟨⟨?_, by simp, by simp, by simp⟩, by simp, by simp⟩
        simpa [EventOk] using hnb
      · rw [scanEvents_cons_finished hvis hrec, scan_cons_finished hvis hrec]
        exact (scanEvents_spec hvisit hevents rest s
          (h.next (DfsExt.refl s) h.inv ⟨hvis, hrec⟩)).cons_edge hnb hnr hv
    · have hpre : DfsPre g n nb s :=
        ⟨h.inv, hvis, Graph.mem_nodes_of_edge_right hnb, by simpa [hp] using hnb, h.fuel⟩
      have hpost := hvisit nb s hpre
      have htr := hevents nb s hpre
      rw [scanEvents_cons_fresh hvis, scan_cons_fresh hvis]
      rcases hr : visit nb s with ⟨c, s'⟩ | s' | _ <;> simp only [hr] at hpost htr ⊢
      · simpa using htr.toScanTrace.cons_edge hnb hnr hv
      · obtain ⟨hi', hx, hmem⟩ := hpost
        have hfin : s'.Finished nb := ⟨hmem, hx.recStack ▸ fun hr => hvis (h.inv.recStack_visited hr)⟩
        have hpre' := h.next hx hi' hfin
        have hpost' := scan_spec hvisit rest s' hpre'
        refine (htr.append hx.visited hv (scanEvents_spec hvisit hevents rest s' hpre')
          fun s'' hr'' => ?_).cons_edge hnb hnr hv
        rw [hr''] at hpost'
        simpa using hpost'.2.visited
      · exact hpost.elim

/-- **The events of one call.**  A call of `dfs` allowed by `DfsPre` emits events satisfying
`DfsTrace`. -/
theorem dfsEvents_spec : ∀ n v s, DfsPre g n v s → DfsTrace g s (dfsEvents n v s) (dfs n v s)
  | 0, _, _, h => absurd h.fuel_pos (lt_irrefl 0)
  | n + 1, v, s, h => by
    have hES := scanEvents_spec (dfs_spec n) (dfsEvents_spec n) (g.succs v) (s.enter v) h.scanPre
    have hpost := dfs_spec (n + 1) v s h
    simp only [dfsEvents, dfs, h.inv.getItem_elems] at hpost ⊢
    have hne : ∀ x ∈ calls (scanEvents (dfs n) (dfsEvents n) v (g.succs v) (s.enter v)),
        x ≠ v ∧ x ∉ s.visited := fun x hx => by simpa [not_or] using hES.fresh x hx
    refine ⟨⟨?_, ?_, by simpa using hES.edges_nodup, ?_⟩, ?_, ?_⟩
    · simp only [List.mem_cons, forall_eq_or_imp]
      exact ⟨⟨h.fresh, h.node, h.inv⟩, hES.ok⟩
    · rw [calls_call, List.nodup_cons]
      exact ⟨fun hm => (hne v hm).1 rfl, hES.calls_nodup⟩
    · simp only [calls_call, List.mem_cons, forall_eq_or_imp]
      exact ⟨h.fresh, fun x hx => (hne x hx).2⟩
    · simp only [edges_call, calls_call, List.mem_cons]
      intro e he
      rcases hES.owned e he with ⟨h1, -⟩ | h1
      · exact Or.inl h1
      · exact Or.inr h1
    · intro s' hr x hx
      rw [calls_call, List.mem_cons] at hx
      rw [hr] at hpost
      rcases hx with rfl | hx
      · exact hpost.2.2
      · exact hES.done s' hr x hx

/-- The events of the loop over the roots: `TraceOk`, and every examined pair starts at a node
the loop entered. -/
theorem rootsEvents_spec {fuel : ℕ} (hfuel : g.nodes.length ≤ fuel) :
    ∀ rs deps visited, (∀ r ∈ rs, r ∈ g.nodes) → RootInv g deps visited →
      TraceOk g visited (rootsEvents fuel rs deps visited) ∧
        ∀ e ∈ edges (rootsEvents fuel rs deps visited), e.1 ∈ calls (rootsEvents fuel rs deps visited)
  | [], _, _, _, _ => ⟨⟨by simp [rootsEvents], by simp [rootsEvents], by simp [rootsEvents],
      by simp [rootsEvents]⟩, by simp [rootsEvents]⟩
  | r :: rs, deps, visited, hrs, h => by
    have hrs' : ∀ r ∈ rs, r ∈ g.nodes := fun r hr => hrs r (List.mem_cons_of_mem _ hr)
    by_cases hv : r ∈ visited
    · simp only [rootsEvents, hv, not_true_eq_false, if_false]
      exact rootsEvents_spec hfuel rs deps visited hrs' h
    have hA := dfsEvents_spec fuel r _ (h.dfsPre hfuel hv (hrs r (List.mem_cons_self _ _)))
    simp only [rootsEvents, hv, not_false_eq_true, if_true]
    rcases dfs_root_cases h hfuel hv (hrs r (List.mem_cons_self _ _)) with
      ⟨c, s, hd, -⟩ | ⟨s, hd, hi, hsub, -⟩ <;> rw [hd] at hA ⊢
    · simp only [List.append_nil]
      exact ⟨hA.toTraceOk, hA.owned⟩
    · obtain ⟨hB, hBo⟩ := rootsEvents_spec hfuel rs s.deps s.visited hrs' hi
      have hAV := hA.done s rfl
      refine ⟨hA.toTraceOk.append hB hsub hAV fun e heA heB => hB.fresh _ (hBo e heB) (hAV _ (hA.owned e heA)),
        ?_⟩
      simp only [edges_append, calls_append, List.mem_append]
      rintro e (he | he)
      · exact Or.inl (hA.owned e he)
      · exact Or.inr (hBo e he)

end trace

/-! ### The trace does not depend on the fuel -/

section fuel

theorem scanEvents_congr {visit visit' : α → DfsState α → DfsResult α}
    {events events' : α → DfsState α → List (DfsEvent α)}
    (hv : ∀ y s, visit y s ≠ .outOfFuel → visit' y s = visit y s ∧ events' y s = events y s)
    (node : α) : ∀ l s, scan visit node l s ≠ .outOfFuel →
      scanEvents visit' events' node l s = scanEvents visit events node l s
  | [], _, _ => rfl
  | nb :: rest, s, h => by
    by_cases hf : nb ∈ s.visited
    · by_cases hr : nb ∈ s.recStack
      · rw [scanEvents_cons_onStack hf hr, scanEvents_cons_onStack hf hr]
      · rw [scan_cons_finished hf hr] at h
        rw [scanEvents_cons_finished hf hr, scanEvents_cons_finished hf hr,
          scanEvents_congr hv node rest s h]
    · rw [scan_cons_fresh hf] at h
      rw [scanEvents_cons_fresh hf, scanEvents_cons_fresh hf]
      have hne : visit nb s ≠ .outOfFuel := fun hs => by simp [hs] at h
      obtain ⟨h1, h2⟩ := hv nb s hne
      rw [h1, h2]
      rcases hs : visit nb s with ⟨c, s'⟩ | s' | _
      · rfl
      · rw [hs] at h
        simp only [scanEvents_congr hv node rest s' h]
      · exact absurd hs hne

/-- A run that does not run out of fuel emits the same events with more fuel. -/
theorem dfsEvents_add_fuel : ∀ n k v (s : DfsState α), dfs n v s ≠ .outOfFuel →
    dfsEvents (n + k) v s = dfsEvents n v s
  | 0, _, _, _, h => absurd rfl h
  | n + 1, k, v, s, h => by
    rw [Nat.add_right_comm]
    simp only [dfsEvents]
    rw [scanEvents_congr (fun y t ht => ⟨dfs_add_fuel n k y t ht, dfsEvents_add_fuel n k y t ht⟩) v _ _ h]

variable {g : Graph α}

theorem rootsEvents_fuel {fuel : ℕ} (hfuel : g.nodes.length ≤ fuel) :
    ∀ rs deps visited, (∀ r ∈ rs, r ∈ g.nodes) → RootInv g deps visited →
      rootsEvents fuel rs deps visited = rootsEvents g.nodes.length rs deps visited
  | [], _, _, _, _ => rfl
  | r :: rs, deps, visited, hrs, h => by
    have hrs' : ∀ r ∈ rs, r ∈ g.nodes := fun r hr => hrs r (List.mem_cons_of_mem _ hr)
    by_cases hv : r ∈ visited
    · simp only [rootsEvents, hv, not_true_eq_false, if_false]
      exact rootsEvents_fuel hfuel rs deps visited hrs' h
    have hpre := h.dfsPre le_rfl hv (hrs r (List.mem_cons_self _ _))
    have hdfs := dfs_fuel_eq hpre hfuel
    have hne : dfs g.nodes.length r ⟨deps, visited, [], ∅⟩ ≠ .outOfFuel := fun he => by
      simpa [he, DfsPost] using dfs_spec _ _ _ hpre
    obtain ⟨k, hk⟩ := Nat.exists_eq_add_of_le hfuel
    simp only [rootsEvents, hv, not_false_eq_true, if_true, hdfs]
    rw [hk, dfsEvents_add_fuel _ k r _ hne, ← hk]
    rcases dfs_root_cases h le_rfl hv (hrs r (List.mem_cons_self _ _)) with
      ⟨c, s, hd, -⟩ | ⟨s, hd, hi, -, -⟩ <;> rw [hd]
    simp only [rootsEvents_fuel hfuel rs s.deps s.visited hrs' hi]

/-- **The trace of the search.**  During `find_circular_dependencies`, every entry of `dfs` is of
a node not yet visited, with `rec_stack` the set of `path`, as it is at every return of `None`;
no node is entered twice, so there are at most `|V|` entries; no edge is examined twice, and every
pair examined is an edge; and the trace is the same with any fuel from `|V|` on, so it is the
trace of the unbounded recursion. -/
theorem findCircularDependencies_trace (g : Graph α) :
    let E := findCircularDependenciesEvents g
    (∀ v s, .call v s ∈ E → v ∉ s.visited ∧ s.recStack = s.path.toFinset) ∧
      (∀ v s, .ret v s ∈ E → s.recStack = s.path.toFinset) ∧
      (calls E).Nodup ∧ (calls E).length ≤ g.nodes.toFinset.card ∧
      (edges E).Nodup ∧ (∀ e ∈ edges E, g.Edge e.1 e.2) ∧
      ∀ fuel, g.nodes.length ≤ fuel → rootsEvents fuel g.keys g ∅ = E := by
  have hkeys : ∀ r ∈ g.keys, r ∈ g.nodes := fun _ hr => List.mem_append_left _ hr
  have hinit : RootInv g g ∅ := ⟨Graph.Extends.refl g, by simp, by simp⟩
  have hT : TraceOk g ∅ (findCircularDependenciesEvents g) :=
    (rootsEvents_spec le_rfl g.keys g ∅ hkeys hinit).1
  refine ⟨fun v s hv => ?_, fun v s hv => (hT.ok _ hv).recStack, hT.calls_nodup, ?_,
    hT.edges_nodup, fun e he => hT.ok _ (mem_edges.mp he),
    fun fuel hf => rootsEvents_fuel hf g.keys g ∅ hkeys hinit⟩
  · obtain ⟨h1, -, h3⟩ := hT.ok _ hv
    exact ⟨h1, h3.recStack⟩
  · have hcall : ∀ v ∈ calls (findCircularDependenciesEvents g), v ∈ g.nodes := fun v hv =>
      let ⟨_, hs⟩ := mem_calls.mp hv
      (hT.ok _ hs).2.1
    rw [← List.toFinset_card_of_nodup hT.calls_nodup]
    exact Finset.card_le_card fun v hv => List.mem_toFinset.mpr (hcall v (List.mem_toFinset.mp hv))

end fuel

/-! ### The trace follows the run

The events are defined beside `dfs`, `scan` and `roots`, so they are tied to the run they trace:
the last event is the return of the call, with the state `dfs` returns, or the pair whose
neighbour closes the cycle it returns; and the mapping and `visited` it returns are those it
started from with one read of `self.dependencies[node]` and one `visited.add(node)` for each node
the trace enters.  So a change to the search that the events do not follow breaks these lemmas,
and with them what `findCircularDependencies_trace` says of the search. -/

section link

/-- What the events `E` of a call on `node` from `s` say about its result. -/
def EndsIn (node : α) (s : DfsState α) (E : List (DfsEvent α)) : DfsResult α → Prop
  | .done s' => s'.deps = (calls E).foldl PyDict.touch s.deps ∧
      s'.visited = s.visited ∪ (calls E).toFinset ∧ E.getLast? = some (.ret node s')
  | .found c s' => s'.deps = (calls E).foldl PyDict.touch s.deps ∧
      s'.visited = s.visited ∪ (calls E).toFinset ∧
      ∃ u w, E.getLast? = some (.edge u w) ∧ c.getLast? = some w
  | .outOfFuel => True

variable {node u w : α} {s s' : DfsState α} {A E : List (DfsEvent α)} {r : DfsResult α}

theorem EndsIn.cons_edge (h : EndsIn node s E r) : EndsIn node s (.edge u w :: E) r := by
  rcases r with ⟨c, t⟩ | t | _
  · obtain ⟨h1, h2, u', w', hl, hc⟩ := h
    exact ⟨by simpa using h1, by simpa using h2, u', w', by simp [List.getLast?_cons, hl], hc⟩
  · obtain ⟨h1, h2, hl⟩ := h
    exact ⟨by simpa using h1, by simpa using h2, by simp [List.getLast?_cons, hl]⟩
  · trivial

/-- A call returning `None` in `s'`, followed by events that end as `r` from `s'`. -/
theorem EndsIn.append (hA : EndsIn u s A (.done s')) (h : EndsIn node s' E r) :
    EndsIn node s (A ++ E) r := by
  obtain ⟨hA1, hA2, -⟩ := hA
  rcases r with ⟨c, t⟩ | t | _
  · obtain ⟨h1, h2, u', w', hl, hc⟩ := h
    refine ⟨?_, ?_, u', w', by simp [List.getLast?_append, hl], hc⟩
    · rw [h1, hA1, calls_append, List.foldl_append]
    · rw [h2, hA2, calls_append, List.toFinset_append, Finset.union_assoc]
  · obtain ⟨h1, h2, hl⟩ := h
    refine ⟨?_, ?_, by simp [List.getLast?_append, hl]⟩
    · rw [h1, hA1, calls_append, List.foldl_append]
    · rw [h2, hA2, calls_append, List.toFinset_append, Finset.union_assoc]
  · trivial

/-- The events of a call, from those of its loop over the neighbours after the entry. -/
theorem EndsIn.enter (h : EndsIn node (s.enter node) E r) :
    EndsIn node s (.call node s :: E) r := by
  rcases r with ⟨c, t⟩ | t | _
  · obtain ⟨h1, h2, u', w', hl, hc⟩ := h
    exact ⟨by simpa using h1, by simpa [Finset.insert_union, Finset.union_insert] using h2, u', w',
      by simp [List.getLast?_cons, hl], hc⟩
  · obtain ⟨h1, h2, hl⟩ := h
    exact ⟨by simpa using h1, by simpa [Finset.insert_union, Finset.union_insert] using h2,
      by simp [List.getLast?_cons, hl]⟩
  · trivial

theorem scanEvents_endsIn {visit : α → DfsState α → DfsResult α}
    {events : α → DfsState α → List (DfsEvent α)} (hv : ∀ w t, EndsIn w t (events w t) (visit w t))
    (node : α) : ∀ l s, EndsIn node s (scanEvents visit events node l s) (scan visit node l s)
  | [], s => ⟨by simp [scanEvents], by simp [scanEvents], by simp [scanEvents]⟩
  | nb :: rest, s => by
    by_cases hf : nb ∈ s.visited
    · by_cases hr : nb ∈ s.recStack
      · rw [scanEvents_cons_onStack hf hr, scan_cons_onStack hf hr]
        exact ⟨by simp, by simp, node, nb, rfl, by simp⟩
      · rw [scanEvents_cons_finished hf hr, scan_cons_finished hf hr]
        exact (scanEvents_endsIn hv node rest s).cons_edge
    · rw [scanEvents_cons_fresh hf, scan_cons_fresh hf]
      have hA := hv nb s
      rcases hres : visit nb s with ⟨c, s'⟩ | s' | _ <;> simp only [hres] at hA ⊢
      · have hA' : EndsIn node s (events nb s) (.found c s') := hA
        rw [List.append_nil]
        exact hA'.cons_edge
      · exact (hA.append (scanEvents_endsIn hv node rest s')).cons_edge
      · trivial

/-- **The trace of one call ends as the call does.** -/
theorem dfsEvents_endsIn : ∀ (n : ℕ) (v : α) (s : DfsState α), EndsIn v s (dfsEvents n v s) (dfs n v s)
  | 0, _, _ => trivial
  | n + 1, v, s => by
    simp only [dfsEvents, dfs]
    exact (scanEvents_endsIn (dfsEvents_endsIn n) v _ _).enter

variable {g : Graph α}

/-- What the events `E` of the loop over the roots from the mapping `deps` say about its result. -/
structure RootsEndIn (deps : Graph α) (E : List (DfsEvent α)) (res : Option (List α) × Graph α) :
    Prop where
  deps : res.2 = (calls E).foldl PyDict.touch deps
  found : ∀ c, res.1 = some c → ∃ u w, E.getLast? = some (.edge u w) ∧ c.getLast? = some w
  done : res.1 = none → ∀ ev ∈ E.getLast?, ∃ v t, ev = .ret v t

theorem rootsEvents_endsIn {fuel : ℕ} (hfuel : g.nodes.length ≤ fuel) :
    ∀ rs deps visited, (∀ r ∈ rs, r ∈ g.nodes) → RootInv g deps visited →
      RootsEndIn deps (rootsEvents fuel rs deps visited) (roots fuel rs deps visited)
  | [], _, _, _, _ => ⟨rfl, fun _ h => by simp [roots] at h, fun _ ev hev => by simp [rootsEvents] at hev⟩
  | r :: rs, deps, visited, hrs, h => by
    have hrs' : ∀ r ∈ rs, r ∈ g.nodes := fun r hr => hrs r (List.mem_cons_of_mem _ hr)
    by_cases hv : r ∈ visited
    · simp only [rootsEvents, roots, hv, not_true_eq_false, if_false]
      exact rootsEvents_endsIn hfuel rs deps visited hrs' h
    have hA := dfsEvents_endsIn fuel r ⟨deps, visited, [], ∅⟩
    simp only [rootsEvents, roots, hv, not_false_eq_true, if_true]
    rcases dfs_root_cases h hfuel hv (hrs r (List.mem_cons_self _ _)) with
      ⟨c, t, hd, -⟩ | ⟨t, hd, hi, -, -⟩ <;> rw [hd] at hA ⊢
    · obtain ⟨h1, -, hl⟩ := hA
      exact ⟨by simpa using h1, fun c' hc => by simpa [← Option.some.inj hc] using hl,
        fun h => by cases h⟩
    · have h1 : t.deps = (calls (dfsEvents fuel r ⟨deps, visited, [], ∅⟩)).foldl PyDict.touch deps :=
        hA.1
      have hl := hA.2.2
      obtain ⟨hB1, hB2, hB3⟩ := rootsEvents_endsIn hfuel rs t.deps t.visited hrs' hi
      dsimp only
      refine ⟨by rw [hB1, calls_append, List.foldl_append, ← h1], fun c hc => ?_, fun hn ev hev => ?_⟩
      · obtain ⟨u, w, hl', hw⟩ := hB2 c hc
        exact ⟨u, w, by simp [List.getLast?_append, hl'], hw⟩
      · rw [List.getLast?_append] at hev
        rcases hB : (rootsEvents fuel rs t.deps t.visited).getLast? with _ | ev'
        · simp only [hB, hl, Option.none_or, Option.mem_def, Option.some.injEq] at hev
          exact ⟨r, t, hev.symm⟩
        · simp only [hB, Option.or_some, Option.mem_def, Option.some.injEq] at hev
          exact hB3 hn ev (by rw [hB, hev]; rfl)

/-- **The trace follows the search.**  The mapping `find_circular_dependencies` leaves is the
input with one read of `self.dependencies[node]` per node the trace enters, in order; a cycle is
returned exactly when the trace ends with an examined pair, whose neighbour closes the cycle;
and when `None` is returned the trace ends with a return of `None`. -/
theorem findCircularDependencies_events (g : Graph α) :
    let E := findCircularDependenciesEvents g
    (findCircularDependencies g).2 = (calls E).foldl PyDict.touch g ∧
      (∀ c, (findCircularDependencies g).1 = some c →
        ∃ u w, E.getLast? = some (.edge u w) ∧ c.getLast? = some w) ∧
      ((findCircularDependencies g).1 = none → ∀ ev ∈ E.getLast?, ∃ v t, ev = .ret v t) :=
  have h := rootsEvents_endsIn le_rfl g.keys g ∅ (fun _ hr => List.mem_append_left _ hr)
    ⟨Graph.Extends.refl g, by simp, by simp⟩
  ⟨h.deps, h.found, h.done⟩

end link

end Avatar
