import Mathlib.Data.List.Infix
import Mathlib.Data.List.Nodup
import Mathlib.Data.List.Chain

/-!
# Lists that fall into blocks by key

`InBlocks κ key items bs as`: the list `as` is the concatenation of the blocks `bs`; each block has
at least one item, all of its items have its key, and no two blocks have the same key. A block may
be any structure: `items` lists what it holds.

* `filter_key`: the items with a block's key are the block.
* `next_of_boundary`: where the key changes from one item to the next, one block ends and the next
  begins.
* `complete_of_next`: once an item of the next block has been seen, the block is complete.
-/

set_option linter.unusedSectionVars false

namespace Lib

variable {α β ι : Type*} {κ : α → β} {key : ι → β} {items : ι → List α}

/-- `as` is the concatenation of the blocks `bs`, which have items and distinct keys.
Source: none: infrastructure
Kind: D -/
structure InBlocks (κ : α → β) (key : ι → β) (items : ι → List α) (bs : List ι) (as : List α) :
    Prop where
  /-- The items, block by block. -/
  split : as = bs.flatMap items
  /-- No block is empty. -/
  nonempty : ∀ b ∈ bs, items b ≠ []
  /-- The items of a block have its key. -/
  keyed : ∀ b ∈ bs, ∀ a ∈ items b, κ a = key b
  /-- No two blocks have one key. -/
  nodup : (bs.map key).Nodup

/-- `y` comes right after `x`. Source: none: infrastructure. Kind: D -/
def Follows (bs : List ι) (x y : ι) : Prop := ∃ bl br, bs = bl ++ x :: y :: br

namespace InBlocks

variable {bs bl br : List ι} {as l r : List α} {b x y : ι} {a a₀ : α}

/-- The blocks after the first one. Source: none: infrastructure. Kind: L -/
theorem tail (h : InBlocks κ key items (b :: bs) as) :
    InBlocks κ key items bs (bs.flatMap items) where
  split := rfl
  nonempty := fun b' hb' => h.nonempty b' (List.mem_cons_of_mem b hb')
  keyed := fun b' hb' => h.keyed b' (List.mem_cons_of_mem b hb')
  nodup := (List.nodup_cons.mp h.nodup).2

/-- The blocks up to some point. Source: none: infrastructure. Kind: L -/
theorem left (h : InBlocks κ key items (bl ++ br) as) :
    InBlocks κ key items bl (bl.flatMap items) where
  split := rfl
  nonempty := fun b hb => h.nonempty b (List.mem_append_left br hb)
  keyed := fun b hb => h.keyed b (List.mem_append_left br hb)
  nodup := by
    have hnodup := h.nodup
    rw [List.map_append] at hnodup
    exact (List.nodup_append.mp hnodup).1

/-- An item lies in the block of its key. Source: none: infrastructure. Kind: L -/
theorem exists_block (h : InBlocks κ key items bs as) (ha : a ∈ as) :
    ∃ b ∈ bs, a ∈ items b ∧ key b = κ a := by
  rw [h.split, List.mem_flatMap] at ha
  obtain ⟨b, hb, hab⟩ := ha
  exact ⟨b, hb, hab, (h.keyed b hb a hab).symm⟩

/-- Two blocks with one key are one block. Source: none: infrastructure. Kind: L -/
theorem eq_of_key (h : InBlocks κ key items bs as) (hx : x ∈ bs) (hy : y ∈ bs)
    (hk : key x = key y) : x = y :=
  List.inj_on_of_nodup_map h.nodup hx hy hk

/-- A block that is followed, and the block that follows it, are among the blocks.
Source: none: infrastructure
Kind: L -/
theorem mem_of_follows (h : Follows bs x y) : x ∈ bs ∧ y ∈ bs := by
  obtain ⟨bl, br, rfl⟩ := h
  simp

/-- The keys of a block and of the one that follows it differ.
Source: none: infrastructure
Kind: L -/
theorem key_ne_of_follows (h : InBlocks κ key items bs as) (hxy : Follows bs x y) :
    key x ≠ key y := by
  obtain ⟨bl, br, rfl⟩ := hxy
  have hnodup := h.nodup
  rw [List.map_append, List.nodup_append] at hnodup
  intro hk
  have hcons := (List.nodup_cons.mp hnodup.2.1).1
  rw [List.map_cons, hk] at hcons
  exact hcons List.mem_cons_self

/-- Distinct keys stand at distinct places. Source: none: infrastructure. Kind: L -/
theorem place_unique (h : InBlocks κ key items bs as) {i j : ℕ} (hx : bs[i]? = some x)
    (hy : bs[j]? = some y) (hk : key x = key y) : i = j := by
  have hx' : (bs.map key)[i]? = some (key x) := by rw [List.getElem?_map, hx]; rfl
  have hy' : (bs.map key)[j]? = some (key x) := by rw [List.getElem?_map, hy, hk]; rfl
  obtain ⟨hi, -⟩ := List.getElem?_eq_some_iff.mp hx'
  exact (List.getElem?_inj hi h.nodup).mp (hx'.trans hy'.symm)

/-- A key is followed by one key and follows one key. Source: none: infrastructure. Kind: L -/
theorem follows_unique (h : InBlocks κ key items bs as) {x' y' : ι} (hxy : Follows bs x y)
    (hxy' : Follows bs x' y') : key x = key x' ↔ key y = key y' := by
  obtain ⟨bl, br, hbs⟩ := hxy
  obtain ⟨bl', br', hbs'⟩ := hxy'
  have hx : bs[bl.length]? = some x := by rw [hbs]; simp
  have hy : bs[bl.length + 1]? = some y := by rw [hbs]; simp
  have hx' : bs[bl'.length]? = some x' := by rw [hbs']; simp
  have hy' : bs[bl'.length + 1]? = some y' := by rw [hbs']; simp
  constructor
  · intro hk
    rw [h.place_unique hx hx' hk, hy', Option.some.injEq] at hy
    rw [hy]
  · intro hk
    rw [Nat.add_right_cancel (h.place_unique hy hy' hk), hx', Option.some.injEq] at hx
    rw [hx]

/-- Nothing follows the last block. Source: none: infrastructure. Kind: L -/
theorem not_follows_last (h : InBlocks κ key items (bl ++ [b]) as)
    (hxy : Follows (bl ++ [b]) x y) : key x ≠ key b := by
  intro hk
  obtain ⟨bl', br, hbs⟩ := hxy
  have hx : (bl ++ [b])[bl'.length]? = some x := by rw [hbs]; simp
  have hb : (bl ++ [b])[bl.length]? = some b := by simp
  have hplace := h.place_unique hx hb hk
  have hlen := congrArg List.length hbs
  simp only [List.length_append, List.length_cons, List.length_nil] at hlen
  omega

/-- **The items with a block's key are the block.** Source: none: infrastructure. Kind: P -/
theorem filter_key [DecidableEq β] (h : InBlocks κ key items bs as) (hb : b ∈ bs) :
    as.filter (fun a => κ a = key b) = items b := by
  induction bs generalizing as with
  | nil => cases hb
  | cons b' bs ih =>
      obtain ⟨hnot, -⟩ := List.nodup_cons.mp h.nodup
      rw [h.split, List.flatMap_cons, List.filter_append]
      rcases List.mem_cons.mp hb with rfl | hb'
      · have hall : (items b).filter (fun a => κ a = key b) = items b := by
          apply List.filter_eq_self.mpr
          intro a ha
          exact decide_eq_true (h.keyed b List.mem_cons_self a ha)
        have hnone : (bs.flatMap items).filter (fun a => κ a = key b) = [] := by
          apply List.filter_eq_nil_iff.mpr
          intro a ha hk
          obtain ⟨b', hb', -, hkey⟩ := h.tail.exists_block ha
          exact hnot (List.mem_map.mpr ⟨b', hb', hkey.trans (of_decide_eq_true hk)⟩)
        rw [hall, hnone, List.append_nil]
      · have hnone : (items b').filter (fun a => κ a = key b) = [] := by
          apply List.filter_eq_nil_iff.mpr
          intro a ha hk
          have hkey := (h.keyed b' List.mem_cons_self a ha).symm.trans (of_decide_eq_true hk)
          exact hnot (List.mem_map.mpr ⟨b, hb', hkey.symm⟩)
        rw [hnone, List.nil_append]
        exact ih h.tail hb'

/-- **Where the key changes, a block ends and the next one begins.**
Source: none: infrastructure
Kind: P -/
theorem next_of_boundary (h : InBlocks κ key items bs as) (has : as = l ++ a₀ :: a :: r)
    (hne : κ a₀ ≠ κ a) :
    ∃ bl x y br, bs = bl ++ x :: y :: br ∧ key x = κ a₀ ∧ key y = κ a ∧
      l ++ [a₀] = (bl ++ [x]).flatMap items := by
  induction bs generalizing as l with
  | nil =>
      rw [h.split, List.flatMap_nil] at has
      exact absurd has (List.append_ne_nil_of_right_ne_nil l (List.cons_ne_nil _ _)).symm
  | cons b bs ih =>
      have hsplit : items b ++ bs.flatMap items = l ++ a₀ :: a :: r := by
        rw [← has, h.split, List.flatMap_cons]
      have hkeyed := h.keyed b List.mem_cons_self
      rcases List.append_eq_append_iff.mp hsplit with ⟨l', hl, hrest⟩ | ⟨t, hitems, hrest⟩
      · -- both items lie behind the first block
        obtain ⟨bl, x, y, br, hbs, hx, hy, hle⟩ := ih h.tail hrest
        refine ⟨b :: bl, x, y, br, by rw [hbs]; rfl, hx, hy, ?_⟩
        rw [hl, List.append_assoc, hle, List.cons_append, List.flatMap_cons]
      · rcases t with _ | ⟨c, t⟩
        · -- the first block ends before them
          obtain ⟨bl, x, y, br, hbs, hx, hy, hle⟩ := ih (l := []) h.tail hrest.symm
          refine ⟨b :: bl, x, y, br, by rw [hbs]; rfl, hx, hy, ?_⟩
          rw [List.append_nil] at hitems
          rw [← hitems, List.cons_append, List.flatMap_cons, ← hle]
          rfl
        · rw [List.cons_append, List.cons.injEq] at hrest
          obtain ⟨rfl, hrest⟩ := hrest
          have hk₀ : κ a₀ = key b := hkeyed a₀ (by rw [hitems]; simp)
          rcases t with _ | ⟨c, t⟩
          · -- the first block ends between them
            rcases bs with _ | ⟨y, bs⟩
            · cases hrest
            · obtain ⟨d, u, hu⟩ := List.exists_cons_of_ne_nil
                (h.nonempty y (List.mem_cons_of_mem b List.mem_cons_self))
              rw [List.nil_append, List.flatMap_cons, hu, List.cons_append, List.cons.injEq]
                at hrest
              obtain ⟨rfl, -⟩ := hrest
              refine ⟨[], b, y, bs, rfl, hk₀.symm, ?_, ?_⟩
              · exact (h.keyed y (List.mem_cons_of_mem b List.mem_cons_self) a
                  (by rw [hu]; exact List.mem_cons_self)).symm
              · rw [List.nil_append, List.flatMap_cons, List.flatMap_nil, List.append_nil, hitems]
          · -- both lie in the first block
            rw [List.cons_append, List.cons.injEq] at hrest
            obtain ⟨rfl, -⟩ := hrest
            exact absurd (hk₀.trans (hkeyed a (by rw [hitems]; simp)).symm) hne

/-- **Once an item of the next block has been seen, the block is complete.**
Source: none: infrastructure
Kind: P -/
theorem complete_of_next [DecidableEq β] (h : InBlocks κ key items bs as) (hxy : Follows bs x y)
    {pre : List α} (hpre : pre <+: as) (ha : a ∈ pre) (hay : κ a = key y) :
    pre.filter (fun a => κ a = key x) = items x := by
  obtain ⟨bl, br, rfl⟩ := hxy
  have hbs : bl ++ x :: y :: br = (bl ++ [x]) ++ y :: br := by
    rw [List.append_assoc]
    rfl
  rw [hbs] at h
  have hleft : (bl ++ [x]).flatMap items <+: as := by
    have hall : ((bl ++ [x]) ++ y :: br).flatMap items =
        (bl ++ [x]).flatMap items ++ (y :: br).flatMap items := List.flatMap_append
    rw [h.split, hall]
    exact List.prefix_append _ _
  have hx : x ∈ bl ++ [x] := List.mem_append_right bl (List.mem_singleton_self x)
  rcases List.prefix_or_prefix_of_prefix hleft hpre with hle | hle
  · have hall : items x <+: pre.filter (fun a => κ a = key x) := by
      rw [← h.left.filter_key hx]
      exact hle.filter _
    have hsub : pre.filter (fun a => κ a = key x) <+: items x := by
      rw [← h.filter_key (List.mem_append_left _ hx)]
      exact hpre.filter _
    exact hsub.eq_of_length_le hall.length_le
  · -- the key of `y` would occur before its block
    obtain ⟨b, hb, -, hkey⟩ := h.left.exists_block (hle.subset ha)
    have hnodup := h.nodup
    rw [List.map_append, List.nodup_append] at hnodup
    exact absurd (hkey.trans hay) (hnodup.2.2 _ (List.mem_map_of_mem hb) _
      (List.mem_map_of_mem List.mem_cons_self))

end InBlocks

end Lib
