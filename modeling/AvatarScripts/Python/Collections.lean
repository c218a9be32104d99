import Mathlib

/-! # Python sets and dictionaries

The dependency analyzer keeps its whole state in Python `set`s and `dict`s, most of them
`defaultdict`s.  Both are modelled by their observable content:

* a `PySet` is a set as the interpreter iterates it: its elements in iteration order, each
  once.  The order of a real `set` of strings depends on the hash seed; `PySet.add` places a new
  element last, and every theorem about an iteration is stated for every `PySet`, hence for
  every order;
* a `PyDict` is a dict: its entries in insertion order, each key once.  Assigning to a present
  key keeps its position (`PyDict.insert`); reading an absent key of a `defaultdict`
  (`PyDict.getItem`) appends it with the default value (`PyDict.touch`).

A `touch` never changes what `get` returns (`get_touch`): this is the frame fact behind every
"a read only adds an empty entry" argument about the analyzer. -/

namespace Avatar

/-- A Python `set`, by its elements in iteration order. -/
structure PySet (α : Type) where
  elems : List α
  nodup : elems.Nodup

namespace PySet

variable {α : Type}

instance : Membership α (PySet α) := ⟨fun s a => a ∈ s.elems⟩

@[simp] theorem mem_def {s : PySet α} {a : α} : a ∈ s ↔ a ∈ s.elems := Iff.rfl

instance [DecidableEq α] (a : α) (s : PySet α) : Decidable (a ∈ s) :=
  inferInstanceAs (Decidable (a ∈ s.elems))

/-- `set()`. -/
def empty : PySet α := ⟨[], List.nodup_nil⟩

instance : Inhabited (PySet α) := ⟨empty⟩

@[simp] theorem elems_empty : (empty : PySet α).elems = [] := rfl

@[simp] theorem elems_default : (default : PySet α).elems = [] := rfl

variable [DecidableEq α]

/-- `s.add(a)`; a new element is iterated last. -/
def add (s : PySet α) (a : α) : PySet α :=
  if h : a ∈ s.elems then s
  else ⟨s.elems ++ [a], s.nodup.append (List.nodup_singleton a) (by simpa using h)⟩

@[simp] theorem mem_add {s : PySet α} {a b : α} : b ∈ (s.add a).elems ↔ b ∈ s.elems ∨ b = a := by
  unfold add
  split
  · constructor
    · exact Or.inl
    · rintro (h | rfl) <;> assumption
  · simp

end PySet

/-- A Python `dict`, by its entries in insertion order. -/
structure PyDict (κ ν : Type) where
  items : List (κ × ν)
  nodup : (items.map Prod.fst).Nodup

namespace PyDict

variable {κ ν : Type}

/-- `d.keys()`. -/
def keys (d : PyDict κ ν) : List κ := d.items.map Prod.fst

/-- `d.values()`. -/
def values (d : PyDict κ ν) : List ν := d.items.map Prod.snd

/-- `{}`, or a fresh `defaultdict`. -/
def empty : PyDict κ ν := ⟨[], List.nodup_nil⟩

@[simp] theorem keys_empty : (empty : PyDict κ ν).keys = [] := rfl

theorem mem_keys {d : PyDict κ ν} {k : κ} : k ∈ d.keys ↔ ∃ v, (k, v) ∈ d.items := by
  simp [keys]

theorem nodup_append_key {d : PyDict κ ν} {k : κ} (h : k ∉ d.keys) (v : ν) :
    ((d.items ++ [(k, v)]).map Prod.fst).Nodup := by
  simpa using d.nodup.append (List.nodup_singleton k) (by simpa [keys] using h)

variable [DecidableEq κ]

/-- `d.get(k)`: the value under `k`, if any. -/
def find? (d : PyDict κ ν) (k : κ) : Option ν := d.items.lookup k

@[simp] theorem find?_empty (k : κ) : (empty : PyDict κ ν).find? k = none := rfl

/-- What `d[k]` of a `defaultdict` evaluates to: the default when `k` is absent. -/
def get [Inhabited ν] (d : PyDict κ ν) (k : κ) : ν := (d.find? k).getD default

theorem keys_map_replace (d : PyDict κ ν) (k : κ) (v : ν) :
    (d.items.map (fun e => if e.1 = k then (k, v) else e)).map Prod.fst = d.keys := by
  simp only [keys, List.map_map]
  exact List.map_congr_left fun e _ => by by_cases h : e.1 = k <;> simp [h]

/-- `d[k] = v`: a present key keeps its position, a new one is appended. -/
def insert (d : PyDict κ ν) (k : κ) (v : ν) : PyDict κ ν :=
  if h : k ∈ d.keys then
    ⟨d.items.map (fun e => if e.1 = k then (k, v) else e), by rw [keys_map_replace]; exact d.nodup⟩
  else ⟨d.items ++ [(k, v)], nodup_append_key h v⟩

/-- The dict a `defaultdict` read of `k` leaves: an absent `k` is appended with the default. -/
def touch [Inhabited ν] (d : PyDict κ ν) (k : κ) : PyDict κ ν :=
  if h : k ∈ d.keys then d else ⟨d.items ++ [(k, default)], nodup_append_key h default⟩

/-- `d[k]` on a `defaultdict`: the value read, and the dict the read leaves. -/
def getItem [Inhabited ν] (d : PyDict κ ν) (k : κ) : ν × PyDict κ ν := (d.get k, d.touch k)

@[simp] theorem getItem_fst [Inhabited ν] (d : PyDict κ ν) (k : κ) : (d.getItem k).1 = d.get k := rfl

@[simp] theorem getItem_snd [Inhabited ν] (d : PyDict κ ν) (k : κ) : (d.getItem k).2 = d.touch k := rfl

/-- `d[k] = f(d[k])` on a `defaultdict`, as `d[k] += 1` and `d[k].add(x)` do. -/
def modify [Inhabited ν] (d : PyDict κ ν) (k : κ) (f : ν → ν) : PyDict κ ν :=
  d.insert k (f (d.get k))

/-! ### Lookup -/

theorem find?_eq_some_iff {d : PyDict κ ν} {k : κ} {v : ν} :
    d.find? k = some v ↔ (k, v) ∈ d.items := by
  obtain ⟨items, hnd⟩ := d
  simp only [find?]
  induction items with
  | nil => simp
  | cons e items ih =>
    obtain ⟨k', v'⟩ := e
    simp only [List.map_cons, List.nodup_cons, List.mem_map] at hnd
    by_cases h : k = k'
    · subst h
      have : (k, v) ∉ items := fun hm => hnd.1 ⟨_, hm, rfl⟩
      simp [List.lookup_cons, this, eq_comm]
    · rw [List.lookup_cons, show (k == k') = false by simpa using h]
      simp [h, ih hnd.2]

theorem get_eq_of_mem [Inhabited ν] {d : PyDict κ ν} {k : κ} {v : ν} (h : (k, v) ∈ d.items) :
    d.get k = v := by
  simp [get, find?_eq_some_iff.mpr h]

theorem find?_eq_none {d : PyDict κ ν} {k : κ} : d.find? k = none ↔ k ∉ d.keys := by
  rw [mem_keys, not_exists]
  constructor
  · intro h v hv
    rw [find?_eq_some_iff.mpr hv] at h
    cases h
  · intro h
    cases hd : d.find? k with
    | none => rfl
    | some v => exact absurd (find?_eq_some_iff.mp hd) (h v)

theorem get_eq_default [Inhabited ν] {d : PyDict κ ν} {k : κ} (h : k ∉ d.keys) :
    d.get k = default := by
  simp [get, find?_eq_none.mpr h]

/-- Two dicts with the same entries under `k` agree on `get k`. -/
theorem get_congr [Inhabited ν] {d d' : PyDict κ ν} {k : κ}
    (h : ∀ v, (k, v) ∈ d.items ↔ (k, v) ∈ d'.items) : d.get k = d'.get k := by
  have : d.find? k = d'.find? k := Option.ext fun v => by
    simpa [Option.mem_def, find?_eq_some_iff] using h v
  simp [get, this]

/-! ### Updates -/

@[simp] theorem get_empty [Inhabited ν] (k : κ) : (empty : PyDict κ ν).get k = default := rfl

theorem keys_insert (d : PyDict κ ν) (k : κ) (v : ν) :
    (d.insert k v).keys = if k ∈ d.keys then d.keys else d.keys ++ [k] := by
  by_cases h : k ∈ d.keys
  · simp only [insert, h, dite_true, if_true]
    exact keys_map_replace d k v
  · simp only [insert, h, dite_false, if_false]
    simp [keys]

@[simp] theorem mem_keys_insert {d : PyDict κ ν} {k j : κ} {v : ν} :
    j ∈ (d.insert k v).keys ↔ j ∈ d.keys ∨ j = k := by
  rw [keys_insert]
  split <;> simp_all [or_iff_left_of_imp]

theorem mem_insert_items {d : PyDict κ ν} {k j : κ} {v w : ν} :
    (j, w) ∈ (d.insert k v).items ↔ (j = k ∧ w = v) ∨ (j ≠ k ∧ (j, w) ∈ d.items) := by
  unfold insert
  split
  · simp only [List.mem_map]
    constructor
    · rintro ⟨⟨a, b⟩, hab, he⟩
      by_cases ha : a = k
      · simp only [ha, if_true, Prod.mk.injEq] at he
        exact Or.inl ⟨he.1.symm, he.2.symm⟩
      · simp only [ha, if_false, Prod.mk.injEq] at he
        obtain ⟨rfl, rfl⟩ := he
        exact Or.inr ⟨ha, hab⟩
    · rintro (⟨rfl, rfl⟩ | ⟨hj, hm⟩)
      · obtain ⟨v', hv'⟩ := mem_keys.mp ‹j ∈ d.keys›
        exact ⟨_, hv', by simp⟩
      · exact ⟨_, hm, by simp [hj]⟩
  · simp only [List.mem_append, List.mem_singleton, Prod.mk.injEq]
    constructor
    · rintro (hm | ⟨rfl, rfl⟩)
      · exact Or.inr ⟨fun e => ‹k ∉ d.keys› (mem_keys.mpr ⟨w, e ▸ hm⟩), hm⟩
      · exact Or.inl ⟨rfl, rfl⟩
    · rintro (h | h)
      · exact Or.inr h
      · exact Or.inl h.2

@[simp] theorem get_insert [Inhabited ν] (d : PyDict κ ν) (k j : κ) (v : ν) :
    (d.insert k v).get j = if j = k then v else d.get j := by
  split
  · subst j
    exact get_eq_of_mem (mem_insert_items.mpr (Or.inl ⟨rfl, rfl⟩))
  · exact get_congr fun w => by simp [mem_insert_items, *]

theorem find?_insert (d : PyDict κ ν) (k j : κ) (v : ν) :
    (d.insert k v).find? j = if j = k then some v else d.find? j := by
  refine Option.ext fun w => ?_
  simp only [Option.mem_def, find?_eq_some_iff, mem_insert_items]
  split_ifs with h
  · simp [h, eq_comm]
  · simpa [h] using find?_eq_some_iff.symm

/-- After a sequence of assignments `d[r.1] = r.2`, a key holds the value of its last
assignment. -/
theorem find?_foldl_insert (k : κ) :
    ∀ (rs : List (κ × ν)) (d : PyDict κ ν), (rs.foldl (fun d r => d.insert r.1 r.2) d).find? k =
      (((rs.filter fun r => r.1 = k).getLast?).map Prod.snd).or (d.find? k)
  | [], d => by simp
  | r :: rs, d => by
    rw [List.foldl_cons, find?_foldl_insert k rs, find?_insert]
    by_cases h : r.1 = k
    · simp only [List.filter_cons, h, if_true, decide_True, List.getLast?_cons]
      cases (rs.filter fun r => r.1 = k).getLast? <;> simp
    · simp [List.filter_cons, h, Ne.symm h]

theorem sum_map_replace (g : ν → ℕ) (k : κ) (v : ν) : ∀ (l : List (κ × ν)), (l.map Prod.fst).Nodup →
    k ∈ l.map Prod.fst → ((l.map fun e => if e.1 = k then (k, v) else e).map (g ∘ Prod.snd)).sum +
        ((l.lookup k).map g).getD 0 = (l.map (g ∘ Prod.snd)).sum + g v
  | [], _, hk => absurd hk (List.not_mem_nil _)
  | (j, w) :: l, hnd, hk => by
    obtain ⟨hj, hnd⟩ := List.nodup_cons.mp hnd
    by_cases h : j = k
    · subst h
      have hid : (l.map fun e => if e.1 = j then (j, v) else e) = l := by
        conv_rhs => rw [← List.map_id l]
        exact List.map_congr_left fun e he =>
          if_neg fun (h : e.1 = j) => hj (h ▸ List.mem_map.mpr ⟨e, he, rfl⟩)
      simp [hid, List.lookup_cons]
      omega
    · have hkj : (k == j) = false := by simpa using Ne.symm h
      have ih := sum_map_replace g k v l hnd (by simpa [Ne.symm h] using hk)
      simp [List.lookup_cons, hkj, h] at ih ⊢
      omega

/-- The sum of a measure of the values after `d[k] = v`: the value `k` had, if any, is replaced
by `v`. -/
theorem sum_map_insert (g : ν → ℕ) (d : PyDict κ ν) (k : κ) (v : ν) :
    ((d.insert k v).values.map g).sum + ((d.find? k).map g).getD 0 = (d.values.map g).sum + g v := by
  unfold insert values find?
  split_ifs with h
  · simpa only [List.map_map] using sum_map_replace g k v d.items d.nodup h
  · have hl : d.items.lookup k = none := find?_eq_none.mpr h
    simp [hl]

theorem touch_of_mem [Inhabited ν] {d : PyDict κ ν} {k : κ} (h : k ∈ d.keys) : d.touch k = d := by
  simp [touch, h]

theorem items_touch_of_not_mem [Inhabited ν] {d : PyDict κ ν} {k : κ} (h : k ∉ d.keys) :
    (d.touch k).items = d.items ++ [(k, default)] := by
  simp [touch, h]

/-- A `defaultdict` read changes no value: `get` after `touch` is `get` before. -/
@[simp] theorem get_touch [Inhabited ν] (d : PyDict κ ν) (k : κ) : (d.touch k).get = d.get := by
  funext j
  by_cases h : k ∈ d.keys
  · rw [touch_of_mem h]
  · by_cases hj : j = k
    · subst hj
      rw [get_eq_default h, get_eq_of_mem (v := default) (by simp [items_touch_of_not_mem h])]
    · exact get_congr fun w => by simp [items_touch_of_not_mem h, hj]

theorem keys_touch [Inhabited ν] (d : PyDict κ ν) (k : κ) :
    (d.touch k).keys = if k ∈ d.keys then d.keys else d.keys ++ [k] := by
  split
  · rw [touch_of_mem ‹_›]
  · simp [keys, items_touch_of_not_mem ‹_›]

@[simp] theorem get_modify [Inhabited ν] (d : PyDict κ ν) (k j : κ) (f : ν → ν) :
    (d.modify k f).get j = if j = k then f (d.get k) else d.get j := get_insert d k j _

@[simp] theorem mem_keys_modify [Inhabited ν] {d : PyDict κ ν} {k j : κ} {f : ν → ν} :
    j ∈ (d.modify k f).keys ↔ j ∈ d.keys ∨ j = k := mem_keys_insert

end PyDict

/-! ### Loops -/

/-- A `for` loop whose body, on states satisfying `I`, makes `P` true exactly where it was true or
`Q` holds of the element: after the loop, `P` holds exactly when it held before or `Q` holds of
some element. -/
theorem foldl_iff_of_step {β γ : Type} {f : β → γ → β} {P I : β → Prop} {Q : γ → Prop}
    (hI : ∀ b x, I b → I (f b x)) (hf : ∀ b x, I b → (P (f b x) ↔ P b ∨ Q x)) :
    ∀ (l : List γ) (b : β), I b → (P (l.foldl f b) ↔ P b ∨ ∃ x ∈ l, Q x)
  | [], b, _ => by simp
  | x :: l, b, hb => by
    rw [List.foldl_cons, foldl_iff_of_step hI hf l (f b x) (hI b x hb), hf b x hb]
    simp only [List.mem_cons, or_and_right, exists_or, exists_eq_left, or_assoc]

end Avatar
