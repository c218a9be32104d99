import AvatarScripts.Deps.Graph
import Mathlib.Data.Finset.Card
import Mathlib.Data.List.Dedup

/-! # Build order: `get_build_order`

`get_build_order` is Kahn's algorithm.  Its first loop (`countInDegrees`) counts, for every node,
the keys whose set contains it, inserting each key with count `0` first; the queue is seeded with
the nodes of count `0` in the insertion order of `in_degree`; the `while queue` loop (`drain`)
emits the head of the queue and decrements its neighbours (`release`), enqueueing those that reach
`0`.  The loop reads `self.dependencies[node]`, so the mapping is threaded through it.

After the first loop `in_degree[v]` is the number of keys with an edge into `v`
(`get_countInDegrees`).  The queue loop keeps `KahnInv`: `in_degree[v]` counts the predecessors
of `v` not yet emitted (`pending`), the nodes of count `0` are exactly those emitted or queued,
nothing is emitted or queued twice, and every emitted node follows its predecessors.  When the
queue is empty, a node is emitted exactly when all its predecessors are (`KahnDone`), which gives
the order (`getBuildOrder_topological`) and the set of emitted nodes: those with no ancestor on a
cycle (`mem_getBuildOrder_iff`).  The decrements of the queue loop are one per edge out of each
emitted node, in the order of emission (`getBuildOrderWrites_emitted`), and none writes a
negative count (`getBuildOrder_inDegree`). -/

namespace Avatar

variable {α : Type} [DecidableEq α]

/-- The first loop of `get_build_order`: for every entry of `dependencies` in order, its key gets
count `0` unless already counted, and every member of its set one more. -/
def countInDegrees (items : List (α × PySet α)) (inDegree : PyDict α ℤ) : PyDict α ℤ :=
  items.foldl (fun inDegree e =>
    e.2.elems.foldl (fun inDegree dep => inDegree.modify dep (· + 1))
      (if e.1 ∈ inDegree.keys then inDegree else inDegree.insert e.1 0)) inDegree

/-- The loop `for neighbor in self.dependencies[node]` of the queue loop: `in_degree[neighbor]`
decremented, and `neighbor` enqueued when it reaches `0`. -/
def release (inDegree : PyDict α ℤ) (queue : List α) : List α → PyDict α ℤ × List α
  | [] => (inDegree, queue)
  | nb :: rest =>
    let inDegree := inDegree.modify nb (· - 1)
    release inDegree (if inDegree.get nb = 0 then queue ++ [nb] else queue) rest

/-- The loop `while queue`; `fuel` bounds the number of rounds. -/
def drain : ℕ → Graph α → PyDict α ℤ → List α → List α → List α × Graph α
  | 0, deps, _, _, result => (result, deps)
  | _ + 1, deps, _, [], result => (result, deps)
  | n + 1, deps, inDegree, node :: queue, result =>
    let r := release inDegree queue (deps.getItem node).1.elems
    drain n (deps.getItem node).2 r.1 r.2 (result ++ [node])

/-- The queue seed: the nodes of count `0`, in the insertion order of `in_degree`. -/
def zeroQueue (inDegree : PyDict α ℤ) : List α :=
  (inDegree.items.filter (fun e => e.2 = 0)).map Prod.fst

/-- `get_build_order()`: the order, and the mapping the loop leaves. -/
def getBuildOrder (g : Graph α) : List α × Graph α :=
  let inDegree := countInDegrees g.items PyDict.empty
  drain inDegree.keys.length g inDegree (zeroQueue inDegree) []

/-! ### Predecessors and the first loop -/

namespace Graph

variable (g : Graph α)

/-- The keys with an edge into `v`. -/
def preds (v : α) : Finset α := g.keys.toFinset.filter (g.Edge · v)

/-- The predecessors of `v` not yet emitted into `result`: what `in_degree[v]` counts. -/
def pending (result : List α) (v : α) : ℕ := (g.preds v \ result.toFinset).card

variable {g}

@[simp] theorem mem_preds {u v : α} : u ∈ g.preds v ↔ g.Edge u v := by
  simp only [preds, Finset.mem_filter, List.mem_toFinset, and_iff_right_iff_imp]
  intro h
  obtain ⟨s, hs, -⟩ := edge_iff.mp h
  exact PyDict.mem_keys.mpr ⟨s, hs⟩

theorem pending_eq_zero_iff {R : List α} {v : α} :
    g.pending R v = 0 ↔ ∀ u, g.Edge u v → u ∈ R := by
  simp [pending, Finset.card_eq_zero, Finset.sdiff_eq_empty_iff_subset, Finset.subset_iff]

theorem pending_snoc {R : List α} {x : α} (hx : x ∉ R) (v : α) :
    g.pending R v = g.pending (R ++ [x]) v + if g.Edge x v then 1 else 0 := by
  have he : (R ++ [x]).toFinset = insert x R.toFinset := by ext; simp [or_comm]
  unfold pending
  rw [he, Finset.sdiff_insert]
  split_ifs with h
  · have hm : x ∈ g.preds v \ R.toFinset := by simp [h, hx]
    rw [Finset.card_erase_of_mem hm, Nat.sub_add_cancel (Finset.card_pos.mpr ⟨x, hm⟩)]
  · rw [Finset.erase_eq_of_not_mem (by simp [h]), add_zero]

theorem card_preds (v : α) : (g.preds v).card = g.items.countP (fun e => v ∈ e.2.elems) := by
  have hl : g.preds v = ((g.items.filter (fun e => v ∈ e.2.elems)).map Prod.fst).toFinset := by
    ext u
    simp only [mem_preds, edge_iff, List.mem_toFinset, List.mem_map, List.mem_filter,
      decide_eq_true_eq]
    exact ⟨fun ⟨s, hs, hv⟩ => ⟨(u, s), ⟨hs, hv⟩, rfl⟩, fun ⟨⟨u', s⟩, ⟨hs, hv⟩, he⟩ => ⟨s, he ▸ hs, hv⟩⟩
  rw [hl, List.toFinset_card_of_nodup ((List.filter_sublist _).map _ |>.nodup g.nodup),
    List.length_map, List.countP_eq_length_filter]

end Graph

theorem get_foldl_modify_succ (l : List α) (d : PyDict α ℤ) (v : α) :
    (l.foldl (fun d dep => d.modify dep (· + 1)) d).get v = d.get v + l.count v := by
  induction l generalizing d with
  | nil => simp
  | cons a l ih =>
    rw [List.foldl_cons, ih, PyDict.get_modify, List.count_cons]
    by_cases h : a = v
    · subst h; simp; omega
    · simp [h, Ne.symm h]

theorem mem_keys_foldl_modify {f : ℤ → ℤ} (l : List α) (d : PyDict α ℤ) (k : α) :
    k ∈ (l.foldl (fun d dep => d.modify dep f) d).keys ↔ k ∈ d.keys ∨ k ∈ l := by
  induction l generalizing d with
  | nil => simp
  | cons a l ih => rw [List.foldl_cons, ih, PyDict.mem_keys_modify]; simp [or_assoc]

theorem get_initKey (d : PyDict α ℤ) (k : α) :
    (if k ∈ d.keys then d else d.insert k 0).get = d.get := by
  split
  · rfl
  · funext j
    rw [PyDict.get_insert]
    split
    · subst j; exact (PyDict.get_eq_default ‹_›).symm
    · rfl

theorem get_countInDegrees (items : List (α × PySet α)) (d : PyDict α ℤ) (v : α) :
    (countInDegrees items d).get v = d.get v + items.countP (fun e => v ∈ e.2.elems) := by
  induction items generalizing d with
  | nil => simp [countInDegrees]
  | cons e items ih =>
    simp only [countInDegrees, List.foldl_cons] at ih ⊢
    rw [ih, get_foldl_modify_succ, get_initKey, List.count_eq_of_nodup e.2.nodup, List.countP_cons]
    split_ifs <;> simp_all; omega

theorem mem_keys_countInDegrees (items : List (α × PySet α)) (d : PyDict α ℤ) (k : α) :
    k ∈ (countInDegrees items d).keys ↔
      k ∈ d.keys ∨ k ∈ items.map Prod.fst ∨ k ∈ items.flatMap (fun e => e.2.elems) := by
  induction items generalizing d with
  | nil => simp [countInDegrees]
  | cons e items ih =>
    simp only [countInDegrees, List.foldl_cons] at ih ⊢
    rw [ih, mem_keys_foldl_modify]
    have : k ∈ (if e.1 ∈ d.keys then d else d.insert e.1 0).keys ↔ k ∈ d.keys ∨ k = e.1 := by
      split
      · exact ⟨Or.inl, fun h => h.elim id (· ▸ ‹_›)⟩
      · exact PyDict.mem_keys_insert
    rw [this]
    simp only [List.map_cons, List.mem_cons, List.flatMap_cons, List.mem_append, or_assoc,
      or_left_comm]

theorem mem_zeroQueue {d : PyDict α ℤ} {v : α} : v ∈ zeroQueue d ↔ v ∈ d.keys ∧ d.get v = 0 := by
  simp only [zeroQueue, List.mem_map, List.mem_filter, decide_eq_true_eq]
  constructor
  · rintro ⟨⟨k, c⟩, ⟨hm, hc⟩, rfl⟩
    exact ⟨PyDict.mem_keys.mpr ⟨c, hm⟩, (PyDict.get_eq_of_mem hm).trans hc⟩
  · rintro ⟨hk, hz⟩
    obtain ⟨c, hc⟩ := PyDict.mem_keys.mp hk
    exact ⟨(v, c), ⟨hc, (PyDict.get_eq_of_mem hc).symm.trans hz⟩, rfl⟩

omit [DecidableEq α] in
theorem nodup_zeroQueue (d : PyDict α ℤ) : (zeroQueue d).Nodup :=
  ((List.filter_sublist _).map _).nodup d.nodup

/-! ### The queue loop -/

section queue

variable (g : Graph α)

/-- The invariant of the `while queue` loop, `result` being the nodes emitted so far. -/
structure KahnInv (deps : Graph α) (inDegree : PyDict α ℤ) (queue result : List α) : Prop where
  deps : g.Extends deps
  dom : ∀ v, v ∈ inDegree.keys ↔ v ∈ g.nodes
  count : ∀ v ∈ g.nodes, inDegree.get v = g.pending result v
  zero : ∀ v ∈ g.nodes, g.pending result v = 0 ↔ v ∈ result ∨ v ∈ queue
  nodup : (result ++ queue).Nodup
  sub : ∀ v ∈ result ++ queue, v ∈ g.nodes
  before : ∀ l₁ v l₂, result = l₁ ++ v :: l₂ → ∀ u, g.Edge u v → u ∈ l₁

/-- The invariant of the loop over the neighbours of the emitted node `x`, with `rest` still to
be decremented. -/
structure ReleaseInv (result : List α) (x : α) (rest : List α) (inDegree : PyDict α ℤ)
    (queue : List α) : Prop where
  dom : ∀ v, v ∈ inDegree.keys ↔ v ∈ g.nodes
  count : ∀ v ∈ g.nodes, inDegree.get v = g.pending (result ++ [x]) v + if v ∈ rest then 1 else 0
  zero : ∀ v ∈ g.nodes, g.pending (result ++ [x]) v = 0 ∧ v ∉ rest ↔ v ∈ result ++ [x] ∨ v ∈ queue
  nodup : (result ++ [x] ++ queue).Nodup
  sub : ∀ v ∈ queue, v ∈ g.nodes
  edges : ∀ v ∈ rest, g.Edge x v
  rest_nodup : rest.Nodup

/-- The loop has ended with the queue empty, `result` emitted and `deps` left. -/
def KahnDone (result : List α) (deps : Graph α) : Prop :=
  ∃ inDegree, KahnInv g deps inDegree [] result

variable {g}

omit [DecidableEq α] in
theorem mem_ite_snoc {c : Prop} [Decidable c] {q : List α} {nb v : α} :
    v ∈ (if c then q ++ [nb] else q) ↔ v ∈ q ∨ (c ∧ v = nb) := by
  split_ifs <;> simp [*]

theorem ReleaseInv.get_sub_one {R : List α} {x nb : α} {rest : List α} {d : PyDict α ℤ}
    {q : List α} (h : ReleaseInv g R x (nb :: rest) d q) :
    d.get nb - 1 = g.pending (R ++ [x]) nb := by
  rw [h.count nb (Graph.mem_nodes_of_edge_right (h.edges nb (List.mem_cons_self _ _)))]
  simp

theorem ReleaseInv.step {R : List α} {x nb : α} {rest : List α} {d : PyDict α ℤ} {q : List α}
    (h : ReleaseInv g R x (nb :: rest) d q) :
    ReleaseInv g R x rest (d.modify nb (· - 1))
      (if (d.modify nb (· - 1)).get nb = 0 then q ++ [nb] else q) := by
  have hnb : nb ∈ g.nodes := Graph.mem_nodes_of_edge_right (h.edges nb (List.mem_cons_self _ _))
  obtain ⟨hnr, hrn⟩ := List.nodup_cons.mp h.rest_nodup
  have hold : nb ∉ R ++ [x] ∧ nb ∉ q := not_or.mp ((h.zero nb hnb).not.mp (by simp))
  have hget : ∀ v, (d.modify nb (· - 1)).get v =
      if v = nb then (g.pending (R ++ [x]) nb : ℤ) else d.get v := by
    intro v
    rw [PyDict.get_modify]
    split_ifs with hv
    · exact h.get_sub_one
    · rfl
  simp only [hget, eq_self_iff_true, if_true, Int.ofNat_eq_zero]
  refine ⟨fun v => ?_, fun v hv => ?_, fun v hv => ?_, ?_, fun v hv => ?_,
    fun v hv => h.edges v (List.mem_cons_of_mem _ hv), hrn⟩
  · rw [PyDict.mem_keys_modify, h.dom]
    exact ⟨fun h' => h'.elim id (· ▸ hnb), Or.inl⟩
  · by_cases hvn : v = nb
    · subst hvn; simp [hget, hnr]
    · simp [hget, hvn, h.count v hv]
  · rw [mem_ite_snoc]
    by_cases hvn : v = nb
    · subst hvn
      simp [hnr, hold.1, hold.2]
    · simpa [hvn] using h.zero v hv
  · split_ifs
    · rw [← List.append_assoc]
      exact h.nodup.append (List.nodup_singleton nb) (by simpa [and_assoc] using hold)
    · exact h.nodup
  · rcases mem_ite_snoc.mp hv with hv | ⟨-, rfl⟩
    · exact h.sub v hv
    · exact hnb

theorem release_spec {R : List α} {x : α} : ∀ (rest : List α) (d : PyDict α ℤ) (q : List α),
    ReleaseInv g R x rest d q → ReleaseInv g R x [] (release d q rest).1 (release d q rest).2
  | [], _, _, h => h
  | _ :: rest, _, _, h => release_spec rest _ _ h.step

theorem before_snoc {R : List α} {x : α}
    (hR : ∀ l₁ v l₂, R = l₁ ++ v :: l₂ → ∀ u, g.Edge u v → u ∈ l₁) (hx : ∀ u, g.Edge u x → u ∈ R) :
    ∀ l₁ v l₂, R ++ [x] = l₁ ++ v :: l₂ → ∀ u, g.Edge u v → u ∈ l₁ := by
  intro l₁ v l₂ h u hu
  rcases List.eq_nil_or_concat l₂ with rfl | ⟨l₂', z, rfl⟩
  · obtain ⟨rfl, hxv⟩ := List.append_inj' h rfl
    exact hx u (by simpa [(List.singleton_inj.mp hxv)] using hu)
  · have h' : R ++ [x] = (l₁ ++ v :: l₂') ++ [z] := by simpa using h
    exact hR l₁ v l₂' (List.append_inj' h' rfl).1 u hu

theorem KahnInv.releaseInv {deps : Graph α} {d : PyDict α ℤ} {x : α} {qs R : List α}
    (h : KahnInv g deps d (x :: qs) R) : ReleaseInv g R x (deps.getItem x).1.elems d qs := by
  have hxR : x ∉ R := fun hm => (List.nodup_append.mp h.nodup).2.2 hm (List.mem_cons_self _ _)
  have hsuccs : (deps.getItem x).1.elems = g.succs x := by simp [Graph.succs, h.deps.get_eq]
  rw [hsuccs]
  refine ⟨h.dom, fun v hv => ?_, fun v hv => ?_, by simpa using h.nodup,
    fun v hv => h.sub v (by simp [hv]), fun _ hv => hv, (g.get x).nodup⟩
  · rw [h.count v hv, Graph.pending_snoc hxR v]
    by_cases hxv : v ∈ g.succs x <;> simp [Graph.Edge, hxv]
  · have := h.zero v hv
    rw [Graph.pending_snoc hxR v] at this
    by_cases hxv : v ∈ g.succs x <;> simpa [Graph.Edge, hxv, or_assoc] using this

/-- **One round of the queue loop** keeps the invariant. -/
theorem KahnInv.round {deps : Graph α} {d : PyDict α ℤ} {x : α} {qs R : List α}
    (h : KahnInv g deps d (x :: qs) R) :
    KahnInv g (deps.getItem x).2 (release d qs (deps.getItem x).1.elems).1
      (release d qs (deps.getItem x).1.elems).2 (R ++ [x]) := by
  have hx : x ∈ g.nodes := h.sub x (by simp)
  have hpx : ∀ u, g.Edge u x → u ∈ R := Graph.pending_eq_zero_iff.mp ((h.zero x hx).mpr (by simp))
  have hfin := release_spec _ _ _ h.releaseInv
  refine ⟨h.deps.trans (Graph.extends_touch (h.deps.mem_nodes_iff.mpr hx)), hfin.dom,
    fun v hv => by simpa using hfin.count v hv, fun v hv => by simpa using hfin.zero v hv,
    hfin.nodup, fun v hv => ?_, before_snoc h.before hpx⟩
  rcases List.mem_append.mp hv with hv | hv
  · rcases List.mem_append.mp hv with hv | hv
    · exact h.sub v (List.mem_append_left _ hv)
    · exact List.mem_singleton.mp hv ▸ hx
  · exact hfin.sub v hv

/-- With fuel for every node not yet emitted, the queue loop runs until the queue is empty. -/
theorem drain_spec : ∀ n deps d queue result, KahnInv g deps d queue result →
    g.nodes.toFinset.card ≤ n + result.length →
      KahnDone g (drain n deps d queue result).1 (drain n deps d queue result).2
  | 0, deps, d, queue, result, h, hn => by
    have hle : (result ++ queue).length ≤ g.nodes.toFinset.card := by
      rw [← List.toFinset_card_of_nodup h.nodup]
      exact Finset.card_le_card fun v hv => List.mem_toFinset.mpr (h.sub v (List.mem_toFinset.mp hv))
    have : queue = [] := List.eq_nil_of_length_eq_zero (by simp at hle; omega)
    subst this
    exact ⟨d, h⟩
  | _ + 1, deps, d, [], result, h, _ => ⟨d, h⟩
  | n + 1, deps, d, x :: qs, result, h, hn =>
    drain_spec n _ _ _ _ h.round (by simp only [List.length_append, List.length_singleton]; omega)

end queue

/-! ### What the loop emits -/

section result

variable {g : Graph α}

theorem kahnInv_init :
    KahnInv g g (countInDegrees g.items PyDict.empty) (zeroQueue (countInDegrees g.items PyDict.empty)) [] := by
  have hdom : ∀ v, v ∈ (countInDegrees g.items PyDict.empty).keys ↔ v ∈ g.nodes := by
    intro v
    rw [mem_keys_countInDegrees, PyDict.keys_empty, Graph.nodes, List.mem_append]
    simp only [List.not_mem_nil, false_or]
    rfl
  have hcount : ∀ v, (countInDegrees g.items PyDict.empty).get v = g.pending [] v := by
    intro v; simp [get_countInDegrees, Graph.pending, Graph.card_preds]
  refine ⟨Graph.Extends.refl g, hdom, fun v _ => hcount v, fun v hv => ?_,
    by simpa using nodup_zeroQueue _, fun v hv => ?_, by simp⟩
  · rw [List.mem_nil_iff, false_or, mem_zeroQueue, hcount, hdom]
    simp [hv]
  · exact (hdom v).mp (mem_zeroQueue.mp (by simpa using hv)).1

/-- **The loop terminates with an empty queue**: `get_build_order` ends in `KahnDone`. -/
theorem getBuildOrder_spec (g : Graph α) : KahnDone g (getBuildOrder g).1 (getBuildOrder g).2 := by
  have h := kahnInv_init (g := g)
  have hk : (countInDegrees g.items PyDict.empty).keys.Nodup := (countInDegrees g.items PyDict.empty).nodup
  refine drain_spec _ _ _ _ _ h ?_
  rw [List.length_nil, add_zero, ← List.toFinset_card_of_nodup hk]
  exact Finset.card_le_card fun v hv => by simpa [h.dom] using hv

variable {R : List α} {d : Graph α}

theorem KahnDone.nodup (h : KahnDone g R d) : R.Nodup := by
  obtain ⟨_, h⟩ := h
  simpa using h.nodup

theorem KahnDone.mem_nodes (h : KahnDone g R d) {v : α} (hv : v ∈ R) : v ∈ g.nodes := by
  obtain ⟨_, h⟩ := h
  exact h.sub v (by simpa using hv)

theorem KahnDone.mem_iff (h : KahnDone g R d) {v : α} (hv : v ∈ g.nodes) :
    v ∈ R ↔ ∀ u, g.Edge u v → u ∈ R := by
  obtain ⟨_, h⟩ := h
  rw [← Graph.pending_eq_zero_iff, h.zero v hv]
  simp

theorem KahnDone.edge (h : KahnDone g R d) {u v : α} (he : g.Edge u v) (hv : v ∈ R) :
    u ∈ R ∧ R.indexOf u < R.indexOf v := by
  obtain ⟨_, h⟩ := h
  have hu : u ∈ R.take (R.indexOf v) :=
    h.before _ v _ (by rw [← drop_indexOf hv, List.take_append_drop]) u he
  refine ⟨List.mem_of_mem_take hu, ?_⟩
  calc R.indexOf u = (R.take (R.indexOf v)).indexOf u := by
        conv_lhs => rw [← List.take_append_drop (R.indexOf v) R]
        exact List.indexOf_append_of_mem hu
    _ < (R.take (R.indexOf v)).length := List.indexOf_lt_length.mpr hu
    _ ≤ R.indexOf v := List.length_take_le _ _

theorem KahnDone.transGen (h : KahnDone g R d) {a b : α} (hab : Relation.TransGen g.Edge a b)
    (hb : b ∈ R) : a ∈ R ∧ R.indexOf a < R.indexOf b := by
  induction hab with
  | single he => exact h.edge he hb
  | tail _ he ih =>
    obtain ⟨hc, hcb⟩ := h.edge he hb
    obtain ⟨ha, hac⟩ := ih hc
    exact ⟨ha, hac.trans hcb⟩

/-- A node not emitted has a predecessor not emitted; following these back inside the finite
set of its ancestors must meet a cycle. -/
theorem KahnDone.exists_cycle (h : KahnDone g R d) {v : α} (hv : v ∈ g.nodes) (hvR : v ∉ R) :
    ∃ w, g.OnCycle w ∧ Relation.ReflTransGen g.Edge w v := by
  classical
  suffices ∀ n v, (g.nodes.toFinset.filter (Relation.TransGen g.Edge · v)).card = n →
      v ∈ g.nodes → v ∉ R → ∃ w, g.OnCycle w ∧ Relation.ReflTransGen g.Edge w v from
    this _ v rfl hv hvR
  intro n
  induction n using Nat.strong_induction_on with
  | _ n ih =>
    intro v hn hv hvR
    obtain ⟨u, huv, huR⟩ : ∃ u, g.Edge u v ∧ u ∉ R := by
      by_contra hc
      push_neg at hc
      exact hvR ((h.mem_iff hv).mpr hc)
    by_cases hu : g.OnCycle u
    · exact ⟨u, hu, .single huv⟩
    · have hsub : g.nodes.toFinset.filter (Relation.TransGen g.Edge · u) ⊂
          g.nodes.toFinset.filter (Relation.TransGen g.Edge · v) := by
        refine (Finset.ssubset_iff_of_subset fun a ha => ?_).mpr ⟨u, ?_, ?_⟩
        · simp only [Finset.mem_filter] at ha ⊢
          exact ⟨ha.1, ha.2.tail huv⟩
        · simp [Graph.mem_nodes_of_edge_left huv, Relation.TransGen.single huv]
        · simpa [Graph.OnCycle] using fun _ => hu
      obtain ⟨w, hw, hwu⟩ :=
        ih _ (hn ▸ Finset.card_lt_card hsub) u rfl (Graph.mem_nodes_of_edge_left huv) huR
      exact ⟨w, hw, hwu.tail huv⟩

/-- The nodes `get_build_order` emits are exactly those with no ancestor on a cycle. -/
theorem mem_getBuildOrder_iff {v : α} (hv : v ∈ g.nodes) :
    v ∈ (getBuildOrder g).1 ↔ ¬ ∃ w, g.OnCycle w ∧ Relation.ReflTransGen g.Edge w v := by
  have h := getBuildOrder_spec g
  constructor
  · rintro hvR ⟨w, hw, hwv⟩
    have hwR := (h.transGen (hw.trans_left hwv) hvR).1
    exact lt_irrefl _ (h.transGen hw hwR).2
  · intro hn
    by_contra hvR
    exact hn (h.exists_cycle hv hvR)

/-- Every node is emitted exactly when the graph is acyclic. -/
theorem getBuildOrder_covers_iff : (∀ v ∈ g.nodes, v ∈ (getBuildOrder g).1) ↔ g.Acyclic := by
  constructor
  · intro h w hw
    exact (mem_getBuildOrder_iff (Graph.mem_nodes_of_onCycle hw)).mp
      (h w (Graph.mem_nodes_of_onCycle hw)) ⟨w, hw, .refl⟩
  · intro hac v hv
    exact (mem_getBuildOrder_iff hv).mpr fun ⟨w, hw, _⟩ => hac w hw

theorem extends_getBuildOrder : g.Extends (getBuildOrder g).2 := by
  obtain ⟨_, h⟩ := getBuildOrder_spec g
  exact h.deps

/-- **The build order.**  `get_build_order` emits no node twice and only nodes of the graph, and
emits a node only after every node with an edge into it. -/
theorem getBuildOrder_topological (g : Graph α) :
    (getBuildOrder g).1.Nodup ∧ (∀ v ∈ (getBuildOrder g).1, v ∈ g.nodes) ∧
      ∀ u v, g.Edge u v → v ∈ (getBuildOrder g).1 →
        u ∈ (getBuildOrder g).1 ∧ (getBuildOrder g).1.indexOf u < (getBuildOrder g).1.indexOf v :=
  ⟨(getBuildOrder_spec g).nodup, fun _ => (getBuildOrder_spec g).mem_nodes,
    fun _ _ he hv => (getBuildOrder_spec g).edge he hv⟩

/-- **What the build order omits.**  A node is emitted exactly when no node on a cycle reaches
it; an acyclic graph is emitted whole, each node once, and on a cyclic one every node on or after
a cycle is left out. -/
theorem getBuildOrder_emits (g : Graph α) :
    (∀ v ∈ g.nodes, v ∈ (getBuildOrder g).1 ↔
        ¬ ∃ w, g.OnCycle w ∧ Relation.ReflTransGen g.Edge w v) ∧
      (g.Acyclic → (getBuildOrder g).1.Perm g.nodes.dedup) ∧
      ∀ v w, g.OnCycle w → Relation.ReflTransGen g.Edge w v → v ∉ (getBuildOrder g).1 := by
  have h := getBuildOrder_spec g
  refine ⟨fun v hv => mem_getBuildOrder_iff hv, fun hac => ?_, fun v w hw hwv hv => ?_⟩
  · refine (List.perm_ext_iff_of_nodup h.nodup (List.nodup_dedup _)).mpr fun v => ?_
    rw [List.mem_dedup]
    exact ⟨h.mem_nodes, getBuildOrder_covers_iff.mpr hac v⟩
  · exact (mem_getBuildOrder_iff (h.mem_nodes hv)).mp hv ⟨w, hw, hwv⟩

end result

/-! ### Runs on a mapping with more empty entries -/

section extension

theorem countInDegrees_of_mem_keys :
    ∀ (ks : List α) (d : PyDict α ℤ), (∀ k ∈ ks, k ∈ d.keys) →
      countInDegrees (ks.map fun k => (k, default)) d = d
  | [], _, _ => rfl
  | k :: ks, d, h => by
    simp only [countInDegrees, List.map_cons, List.foldl_cons, PySet.elems_default, List.foldl_nil,
      if_pos (h k (List.mem_cons_self _ _))]
    exact countInDegrees_of_mem_keys ks d fun k' hk' => h k' (List.mem_cons_of_mem _ hk')

theorem countInDegrees_of_extends {g g' : Graph α} (h : g.Extends g') (d : PyDict α ℤ) :
    countInDegrees g'.items d = countInDegrees g.items d := by
  obtain ⟨extra, he, hx⟩ := h
  rw [he, countInDegrees, List.foldl_append]
  exact countInDegrees_of_mem_keys extra _ fun k hk =>
    (mem_keys_countInDegrees _ _ _).mpr (Or.inr (Or.inr (hx k hk)))

theorem drain_fst_congr : ∀ (n : ℕ) (g g' : Graph α) (inDegree : PyDict α ℤ) (queue result : List α),
    g.get = g'.get → (drain n g inDegree queue result).1 = (drain n g' inDegree queue result).1
  | 0, _, _, _, _, _, _ => rfl
  | _ + 1, _, _, _, [], _, _ => rfl
  | n + 1, g, g', inDegree, node :: queue, result, h => by
    simp only [drain, PyDict.getItem_fst, PyDict.getItem_snd, h]
    exact drain_fst_congr n _ _ _ _ _ (by rw [PyDict.get_touch, PyDict.get_touch, h])

/-- On a mapping extended by empty entries for edge targets, `get_build_order` returns what it
returns on the original. -/
theorem getBuildOrder_fst_of_extends {g g' : Graph α} (h : g.Extends g') :
    (getBuildOrder g').1 = (getBuildOrder g).1 := by
  simp only [getBuildOrder, countInDegrees_of_extends h]
  exact drain_fst_congr _ _ _ _ _ _ h.get_eq

end extension

/-! ### The counts the queue loop writes -/

section writes

/-- The pairs `(neighbor, in_degree[neighbor])` that `in_degree[neighbor] -= 1` writes in the loop
over the neighbours, in order. -/
def releaseWrites (inDegree : PyDict α ℤ) : List α → List (α × ℤ)
  | [] => []
  | nb :: rest => (nb, inDegree.get nb - 1) :: releaseWrites (inDegree.modify nb (· - 1)) rest

/-- The pairs the `while queue` loop writes into `in_degree`, in order. -/
def drainWrites : ℕ → Graph α → PyDict α ℤ → List α → List α → List (α × ℤ)
  | 0, _, _, _, _ => []
  | _ + 1, _, _, [], _ => []
  | n + 1, deps, inDegree, node :: queue, result =>
    let r := release inDegree queue (deps.getItem node).1.elems
    releaseWrites inDegree (deps.getItem node).1.elems ++
      drainWrites n (deps.getItem node).2 r.1 r.2 (result ++ [node])

/-- The pairs the queue loop of `get_build_order()` writes into `in_degree`. -/
def getBuildOrderWrites (g : Graph α) : List (α × ℤ) :=
  let inDegree := countInDegrees g.items PyDict.empty
  drainWrites inDegree.keys.length g inDegree (zeroQueue inDegree) []

variable {g : Graph α}

theorem releaseWrites_nonneg {R : List α} {x : α} :
    ∀ (rest : List α) (d : PyDict α ℤ) (q : List α), ReleaseInv g R x rest d q →
      ∀ w ∈ releaseWrites d rest, 0 ≤ w.2
  | [], _, _, _ => by simp [releaseWrites]
  | nb :: rest, d, q, h => by
    rw [releaseWrites, List.forall_mem_cons, h.get_sub_one]
    exact ⟨Int.natCast_nonneg _, releaseWrites_nonneg rest _ _ h.step⟩

theorem drainWrites_nonneg : ∀ n deps d queue result, KahnInv g deps d queue result →
    ∀ w ∈ drainWrites n deps d queue result, 0 ≤ w.2
  | 0, _, _, _, _, _ => by simp [drainWrites]
  | _ + 1, _, _, [], _, _ => by simp [drainWrites]
  | n + 1, deps, d, x :: qs, result, h => by
    simp only [drainWrites, List.forall_mem_append]
    exact ⟨releaseWrites_nonneg _ _ _ h.releaseInv, drainWrites_nonneg n _ _ _ _ h.round⟩

theorem map_fst_releaseWrites (d : PyDict α ℤ) : ∀ l : List α, (releaseWrites d l).map Prod.fst = l
  | [] => rfl
  | nb :: rest => by simp [releaseWrites, map_fst_releaseWrites _ rest]

theorem drainWrites_emitted : ∀ (n : ℕ) (deps : Graph α) (d : PyDict α ℤ) (queue result : List α),
    ∃ later, (drain n deps d queue result).1 = result ++ later ∧
      (drainWrites n deps d queue result).map Prod.fst = later.flatMap deps.succs
  | 0, _, _, _, _ => ⟨[], by simp [drain], by simp [drainWrites]⟩
  | _ + 1, _, _, [], _ => ⟨[], by simp [drain], by simp [drainWrites]⟩
  | n + 1, deps, d, node :: queue, result => by
    have hs : Graph.succs (deps.touch node) = deps.succs := by
      funext u
      simp [Graph.succs]
    obtain ⟨later, h1, h2⟩ := drainWrites_emitted n (deps.getItem node).2
      (release d queue (deps.getItem node).1.elems).1 (release d queue (deps.getItem node).1.elems).2
      (result ++ [node])
    refine ⟨node :: later, ?_, ?_⟩
    · simp only [drain]
      rw [h1, List.append_assoc, List.singleton_append]
    · simp only [PyDict.getItem_snd, PyDict.getItem_fst, hs] at h2
      simp [drainWrites, map_fst_releaseWrites, h2, Graph.succs]

/-- **What the queue loop writes.**  `in_degree[neighbor] -= 1` writes once for each edge out of
each node the build order emits, in the order the nodes are emitted. -/
theorem getBuildOrderWrites_emitted (g : Graph α) :
    (getBuildOrderWrites g).map Prod.fst = (getBuildOrder g).1.flatMap g.succs := by
  obtain ⟨later, h1, h2⟩ := drainWrites_emitted (countInDegrees g.items PyDict.empty).keys.length g
    (countInDegrees g.items PyDict.empty) (zeroQueue (countInDegrees g.items PyDict.empty)) []
  rw [getBuildOrderWrites, h2, getBuildOrder, h1, List.nil_append]

/-- **The counts of `get_build_order`.**  After the first loop, `in_degree` has an entry for every
key and every edge target, holding the number of keys whose set contains it, whether it was met
first as a key or as a target; and no decrement of the queue loop writes a count below zero. -/
theorem getBuildOrder_inDegree (g : Graph α) :
    (∀ v ∈ g.nodes, v ∈ (countInDegrees g.items PyDict.empty).keys ∧
      (countInDegrees g.items PyDict.empty).get v = (g.preds v).card) ∧
      ∀ w ∈ getBuildOrderWrites g, 0 ≤ w.2 := by
  have h := kahnInv_init (g := g)
  refine ⟨fun v hv => ⟨(h.dom v).mpr hv, by simpa [Graph.pending] using h.count v hv⟩, ?_⟩
  exact drainWrites_nonneg _ _ _ _ _ h

end writes

end Avatar
