import Mathlib.Data.List.Induction
import Mathlib.Data.List.Nodup

/-!
# Rows with keys, and dictionaries in insertion order

* `nodup_map_concat`, `map_update`, `mem_map_delete`: the keys of a list of rows after a row is
  appended, updated or deleted.
* `Dict`: a dictionary of Python: its items in the order in which their keys were first set, no key
  twice. `get_eq_some` looks a key up through the items; `get_set` and `get_erase` say what the two
  updates do to every key.
-/

namespace Lib

/-! ## Rows with keys -/

section Rows

variable {ρ κ : Type*} {key : ρ → κ}

/-- A row appended under a key that is not there. Source: none: infrastructure. Kind: L -/
theorem nodup_map_concat {rows : List ρ} {row : ρ} (h : (rows.map key).Nodup)
    (hkey : key row ∉ rows.map key) : ((rows ++ [row]).map key).Nodup := by
  rw [List.map_append, List.map_singleton, ← List.concat_eq_append]
  exact h.concat hkey

/-- Updating some rows leaves the keys that the update leaves.
Source: none: infrastructure
Kind: L -/
theorem map_update {set : ρ → ρ} {p : ρ → Prop} [DecidablePred p]
    (hset : ∀ r, p r → key (set r) = key r) (rows : List ρ) :
    (rows.map fun r => if p r then set r else r).map key = rows.map key := by
  rw [List.map_map]
  refine List.map_congr_left fun r _ => ?_
  simp only [Function.comp_apply]
  split
  · exact hset r ‹_›
  · rfl

/-- Deleting the rows under a key leaves the other keys. Source: none: infrastructure. Kind: L -/
theorem mem_map_delete [DecidableEq κ] {k k' : κ} (rows : List ρ) :
    k' ∈ (rows.filter fun r => key r ≠ k).map key ↔ k' ∈ rows.map key ∧ k' ≠ k := by
  simp only [List.mem_map, List.mem_filter, decide_eq_true_eq]
  constructor
  · rintro ⟨r, ⟨hr, hne⟩, rfl⟩
    exact ⟨⟨r, hr, rfl⟩, hne⟩
  · rintro ⟨⟨r, hr, rfl⟩, hne⟩
    exact ⟨r, ⟨hr, hne⟩, rfl⟩

end Rows

/-! ## Dictionaries -/

/-- Items with distinct keys. Source: none: infrastructure. Kind: D -/
structure Dict (κ ν : Type*) where
  items : List (κ × ν)
  nodup : (items.map Prod.fst).Nodup

namespace Dict

variable {κ ν : Type*} [DecidableEq κ]

/-- Source: none: infrastructure. Kind: D -/
def empty : Dict κ ν := ⟨[], List.nodup_nil⟩

/-- The keys in their order. Source: none: infrastructure. Kind: D -/
def keys (d : Dict κ ν) : List κ := d.items.map Prod.fst

/-- The value under a key. Source: none: infrastructure. Kind: D -/
def get (d : Dict κ ν) (k : κ) : Option ν := (d.items.find? (·.1 = k)).map Prod.snd

instance : Membership κ (Dict κ ν) where
  mem d k := k ∈ d.keys

instance (d : Dict κ ν) (k : κ) : Decidable (k ∈ d) := inferInstanceAs (Decidable (k ∈ d.keys))

/-- A key that is there keeps its place. Source: none: infrastructure. Kind: D -/
def set (d : Dict κ ν) (k : κ) (v : ν) : Dict κ ν :=
  if h : k ∈ d then
    { items := d.items.map fun item => if item.1 = k then (k, v) else item
      nodup := by rw [map_update fun item hitem => hitem.symm]; exact d.nodup }
  else
    { items := d.items ++ [(k, v)]
      nodup := nodup_map_concat d.nodup h }

/-- Source: none: infrastructure. Kind: D -/
def erase (d : Dict κ ν) (k : κ) : Dict κ ν where
  items := d.items.filter fun item => item.1 ≠ k
  nodup := d.nodup.sublist (List.filter_sublist.map _)

/-- The values changed, the keys not. Source: none: infrastructure. Kind: D -/
def mapValues (f : ν → ν) (d : Dict κ ν) : Dict κ ν where
  items := d.items.map fun item => (item.1, f item.2)
  nodup := by rw [List.map_map]; exact d.nodup

/-- The pairs set one after another. Source: none: infrastructure. Kind: D -/
def ofPairs (pairs : List (κ × ν)) : Dict κ ν := pairs.foldl (fun d p => d.set p.1 p.2) empty

/-- What the last pair of a key sets. Source: none: infrastructure. Kind: D -/
def lastValue (k : κ) (pairs : List (κ × ν)) : Option ν :=
  (pairs.reverse.find? (·.1 = k)).map Prod.snd

variable {d : Dict κ ν} {k k' : κ} {v v' : ν}

/-- A key has one value. Source: none: infrastructure. Kind: L -/
theorem get_eq_some : d.get k = some v ↔ (k, v) ∈ d.items := by
  constructor
  · intro h
    obtain ⟨item, hfind, rfl⟩ := Option.map_eq_some_iff.mp h
    have hkey : item.1 = k := by simpa using List.find?_some hfind
    exact hkey ▸ List.mem_of_find?_eq_some hfind
  · intro h
    cases hfind : d.items.find? (·.1 = k) with
    | none => exact absurd (decide_eq_true rfl) (List.find?_eq_none.mp hfind (k, v) h)
    | some item =>
        have hkey : item.1 = k := by simpa using List.find?_some hfind
        have hitem : item = (k, v) :=
          List.inj_on_of_nodup_map d.nodup (List.mem_of_find?_eq_some hfind) h hkey
        rw [get, hfind, hitem]
        rfl

/-- Source: none: infrastructure. Kind: L -/
theorem mem_iff_get : k ∈ d ↔ ∃ v, d.get k = some v := by
  simp only [get_eq_some]
  constructor
  · intro h
    obtain ⟨⟨_, v⟩, hitem, rfl⟩ := List.mem_map.mp h
    exact ⟨v, hitem⟩
  · rintro ⟨v, hv⟩
    exact List.mem_map.mpr ⟨(k, v), hv, rfl⟩

/-- Source: none: infrastructure. Kind: L -/
theorem get_eq_none : d.get k = none ↔ k ∉ d := by
  rw [mem_iff_get, Option.eq_none_iff_forall_ne_some, not_exists]

/-- Source: none: infrastructure. Kind: L -/
theorem mem_items_set {item : κ × ν} :
    item ∈ (d.set k v).items ↔ item = (k, v) ∨ item.1 ≠ k ∧ item ∈ d.items := by
  unfold set
  split
  next hk =>
    simp only [List.mem_map]
    constructor
    · rintro ⟨item', hitem', rfl⟩
      by_cases h : item'.1 = k
      · exact Or.inl (if_pos h)
      · rw [if_neg h]
        exact Or.inr ⟨h, hitem'⟩
    · rintro (rfl | ⟨hne, hitem⟩)
      · obtain ⟨item', hitem', hkey⟩ := List.mem_map.mp hk
        exact ⟨item', hitem', if_pos hkey⟩
      · exact ⟨item, hitem, if_neg hne⟩
  next hk =>
    rw [List.mem_append, List.mem_singleton, or_comm]
    refine or_congr_right ⟨fun hitem => ⟨?_, hitem⟩, And.right⟩
    rintro rfl
    exact hk (List.mem_map_of_mem hitem)

/-- Source: none: infrastructure. Kind: L -/
theorem get_set : (d.set k v).get k' = if k' = k then some v else d.get k' := by
  refine Option.ext fun v' => ?_
  rw [get_eq_some, mem_items_set]
  split
  next h => simp [h, eq_comm]
  next h => simp [h, get_eq_some]

/-- Source: none: infrastructure. Kind: L -/
theorem get_erase : (d.erase k).get k' = if k' = k then none else d.get k' := by
  refine Option.ext fun v' => ?_
  rw [get_eq_some, erase, List.mem_filter]
  split
  next h => simp [h]
  next h => simp [h, get_eq_some]

/-- Source: none: infrastructure. Kind: L -/
theorem get_mapValues (f : ν → ν) : (d.mapValues f).get k = (d.get k).map f := by
  refine Option.ext fun v' => ?_
  rw [get_eq_some, mapValues, List.mem_map, Option.map_eq_some_iff]
  constructor
  · rintro ⟨⟨_, v⟩, hitem, heq⟩
    obtain ⟨rfl, rfl⟩ := Prod.mk.inj heq
    exact ⟨v, get_eq_some.mpr hitem, rfl⟩
  · rintro ⟨v, hv, rfl⟩
    exact ⟨(k, v), get_eq_some.mp hv, rfl⟩

/-- The items of one key. Source: none: infrastructure. Kind: L -/
theorem filter_items (h : d.get k = some v) : d.items.filter (·.1 = k) = [(k, v)] := by
  have hmem := get_eq_some.mp h
  have hnodup : (d.items.filter (·.1 = k)).Nodup := (List.Nodup.of_map _ d.nodup).filter _
  refine List.perm_singleton.mp ((List.perm_ext_iff_of_nodup hnodup (List.nodup_singleton _)).mpr ?_)
  intro item
  rw [List.mem_filter, decide_eq_true_eq, List.mem_singleton]
  constructor
  · rintro ⟨hitem, hkey⟩
    exact List.inj_on_of_nodup_map d.nodup hitem hmem hkey
  · rintro rfl
    exact ⟨hmem, rfl⟩

/-- Source: none: infrastructure. Kind: L -/
@[simp] theorem get_empty : (empty : Dict κ ν).get k = none := rfl

/-! ### Pairs -/

/-- Source: none: infrastructure. Kind: L -/
theorem lastValue_append (k : κ) (pairs pairs' : List (κ × ν)) :
    lastValue k (pairs ++ pairs') = (lastValue k pairs').or (lastValue k pairs) := by
  unfold lastValue
  rw [List.reverse_append, List.find?_append]
  cases pairs'.reverse.find? (·.1 = k) <;> rfl

/-- Source: none: infrastructure. Kind: L -/
theorem lastValue_singleton (k : κ) (p : κ × ν) :
    lastValue k [p] = if p.1 = k then some p.2 else none := by
  by_cases h : p.1 = k <;> simp [lastValue, h]

/-- **The last pair of a key stays.** Source: none: infrastructure. Kind: P -/
theorem get_ofPairs (k : κ) (pairs : List (κ × ν)) : (ofPairs pairs).get k = lastValue k pairs := by
  induction pairs using List.reverseRecOn with
  | nil => rfl
  | append_singleton pairs p ih =>
      have hset : ofPairs (pairs ++ [p]) = (ofPairs pairs).set p.1 p.2 := by simp [ofPairs]
      rw [hset, get_set, lastValue_append, lastValue_singleton, ih]
      by_cases h : k = p.1
      · simp [h]
      · simp [h, Ne.symm h]

end Dict

end Lib
