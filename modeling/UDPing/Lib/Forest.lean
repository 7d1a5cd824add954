import Mathlib.Data.List.Nodup
import Mathlib.Logic.Relation
import Mathlib.Order.Basic

/-!
# Forests in a table

A row of a table has a key, and the key of its parent.

* `Child`: the relation between keys. `KeysUnique`, `NoCycle`: what makes a table a forest.
* `collect`: a loop that may fail, over rows that each yield some elements.
* `below`: the rows below a key, in the order in which a recursion through the table leaves them.
* **`below_isSome`**: a forest is no deeper than the table has rows.
* **`mem_below`**: these are the rows of the proper descendants. **`pairwise_below`**: each is there
  once, and all of its descendants come before it.
-/

namespace Lib

open Relation

/-! ## Loops that yield elements -/

section Collect

variable {α β : Type*}

/-- What the rounds of a loop yield, one after the other; `none` if one of them does not end.
Source: none: infrastructure
Kind: D -/
def collect (f : α → Option (List β)) : List α → Option (List β)
  | [] => some []
  | a :: l => do
    let bs ← f a
    let rest ← collect f l
    some (bs ++ rest)

variable {f g : α → Option (List β)} {l : List α} {bs : List β}

theorem collect_eq_some :
    collect f l = some bs ↔
      (∀ a ∈ l, (f a).isSome) ∧ bs = l.flatMap fun a => (f a).getD [] := by
  induction l generalizing bs with
  | nil =>
      rw [collect, Option.some.injEq]
      exact ⟨fun h => ⟨by simp, h.symm⟩, fun h => h.2.symm⟩
  | cons a l ih =>
      rw [collect, List.forall_mem_cons, List.flatMap_cons]
      rcases ha : f a with _ | cs
      · simp
      · rcases hl : collect f l with _ | rest
        · have hnot : ¬∀ a ∈ l, (f a).isSome := by
            intro hall
            rw [ih.mpr ⟨hall, rfl⟩] at hl
            cases hl
          simp [hnot]
        · obtain ⟨hall, rfl⟩ := ih.mp hl
          refine ⟨fun h => ⟨⟨rfl, hall⟩, ?_⟩, fun h => ?_⟩
          · exact (Option.some.inj h).symm
          · exact congrArg some h.2.symm

/-- Rounds that yield nothing. Source: none: infrastructure. Kind: L -/
theorem collect_filterMap {γ : Type*} {row : γ → Option α} {f : γ → Option (List β)}
    (hrow : ∀ c a, row c = some a → f c = g a) (hnone : ∀ c, row c = none → f c = some [])
    (l : List γ) : collect f l = collect g (l.filterMap row) := by
  induction l with
  | nil => rfl
  | cons c l ih =>
      rcases hc : row c with _ | a
      · rw [List.filterMap_cons_none hc, collect, hnone c hc, ih]
        rcases collect g (l.filterMap row) with _ | bs
        · rfl
        · rfl
      · rw [List.filterMap_cons_some hc, collect, collect, hrow c a hc, ih]

/-- What is made of the elements. Source: none: infrastructure. Kind: L -/
theorem collect_map {γ : Type*} (h : List β → List γ) (hnil : h [] = [])
    (happend : ∀ bs bs', h (bs ++ bs') = h bs ++ h bs') (l : List α) :
    (collect f l).map h = collect (fun a => (f a).map h) l := by
  induction l with
  | nil => exact congrArg some hnil
  | cons a l ih =>
      rw [collect, collect, ← ih]
      rcases f a with _ | bs
      · rfl
      · rcases collect f l with _ | rest
        · rfl
        · exact congrArg some (happend bs rest)

end Collect

/-- Fewer elements of a list have a property that one of them lacks.
Source: none: infrastructure
Kind: L -/
theorem countP_lt_countP {α : Type*} {p q : α → Bool} {l : List α}
    (hpq : ∀ a ∈ l, p a = true → q a = true) {c : α} (hc : c ∈ l) (hq : q c = true)
    (hp : ¬p c = true) : l.countP p < l.countP q := by
  obtain ⟨l₁, l₂, rfl⟩ := List.append_of_mem hc
  have h₁ : l₁.countP p ≤ l₁.countP q :=
    List.countP_mono_left fun a ha => hpq a (List.mem_append_left _ ha)
  have h₂ : l₂.countP p ≤ l₂.countP q :=
    List.countP_mono_left fun a ha => hpq a (List.mem_append_right _ (List.mem_cons_of_mem c ha))
  rw [List.countP_append, List.countP_append, List.countP_cons_of_neg hp,
    List.countP_cons_of_pos hq]
  omega

/-! ## Tables -/

variable {α κ : Type*} (parent key : α → κ)

/-- A row of the table has the second key, and the first as that of its parent.
Source: none: abstract model
Kind: D -/
def Child (table : List α) (k k' : κ) : Prop := ∃ r ∈ table, parent r = k ∧ key r = k'

/-- No two rows have one key. Source: none: abstract model. Kind: D -/
def KeysUnique (table : List α) : Prop := (table.map key).Nodup

/-- No key is below itself. Source: none: abstract model. Kind: D -/
def NoCycle (table : List α) : Prop := ∀ k, ¬TransGen (Child parent key table) k k

/-- The rows below a key: for each of its children, the rows below that and then its own. `fuel` is
the depth of the recursion, `none` that it does not suffice.
Source: none: abstract model
Kind: D -/
def below [DecidableEq κ] (table : List α) : ℕ → κ → Option (List α)
  | 0, _ => none
  | fuel + 1, k =>
    collect (fun r =>
      if parent r = k then (below table fuel (key r)).map (· ++ [r]) else some []) table

variable {parent key} {table : List α}

/-- A table in which every key is greater than its parent's.
Source: none: abstract model
Kind: L -/
theorem noCycle_of_lt [Preorder κ] (h : ∀ r ∈ table, parent r < key r) :
    NoCycle parent key table := by
  have hlt : ∀ {a b : κ}, TransGen (Child parent key table) a b → a < b := by
    intro a b hab
    induction hab with
    | single hchild =>
        obtain ⟨r, hr, rfl, rfl⟩ := hchild
        exact h r hr
    | tail _ hchild ih =>
        obtain ⟨r, hr, rfl, rfl⟩ := hchild
        exact ih.trans (h r hr)
  exact fun k hk => (hlt hk).false

section Below

variable [DecidableEq κ] {fuel : ℕ} {k : κ} {rows : List α}

/-- **One level of the recursion.** Source: none: abstract model. Kind: L -/
theorem below_succ : below parent key table (fuel + 1) k = some rows ↔
    (∀ c ∈ table, parent c = k → (below parent key table fuel (key c)).isSome) ∧
      rows = table.flatMap fun c =>
        if parent c = k then (below parent key table fuel (key c)).getD [] ++ [c] else [] := by
  have hsome : ∀ c, (if parent c = k then (below parent key table fuel (key c)).map (· ++ [c])
      else some []).isSome ↔ (parent c = k → (below parent key table fuel (key c)).isSome) := by
    intro c
    split_ifs with hc
    · simp [hc]
    · simp [hc]
  rw [below, collect_eq_some]
  simp only [hsome]
  refine and_congr_right fun hall => ?_
  have hrows : ∀ c ∈ table, (if parent c = k then (below parent key table fuel (key c)).map
      (· ++ [c]) else some []).getD [] =
        if parent c = k then (below parent key table fuel (key c)).getD [] ++ [c] else [] := by
    intro c hc
    split_ifs with hparent
    · obtain ⟨rows', hrows'⟩ := Option.isSome_iff_exists.mp (hall c hc hparent)
      rw [hrows']
      rfl
    · rfl
  rw [List.flatMap_congr hrows]

theorem mem_below_succ (h : below parent key table (fuel + 1) k = some rows) {r : α} :
    r ∈ rows ↔ ∃ c ∈ table, parent c = k ∧
      (r = c ∨ ∃ rows', below parent key table fuel (key c) = some rows' ∧ r ∈ rows') := by
  obtain ⟨hall, rfl⟩ := below_succ.mp h
  rw [List.mem_flatMap]
  refine exists_congr fun c => and_congr_right fun hc => ?_
  split_ifs with hparent
  · obtain ⟨rows', hrows'⟩ := Option.isSome_iff_exists.mp (hall c hc hparent)
    simp [hrows', hparent, or_comm]
  · simp [hparent]

end Below

section Forest

variable (hunique : KeysUnique key table)

include hunique

theorem KeysUnique.eq_of_key {r r' : α} (hr : r ∈ table) (hr' : r' ∈ table) (h : key r = key r') :
    r = r' := List.inj_on_of_nodup_map hunique hr hr' h

/-- A key has one parent at most. Source: none: abstract model. Kind: L -/
theorem KeysUnique.parent_eq {k k' c : κ} (h : Child parent key table k c)
    (h' : Child parent key table k' c) : k = k' := by
  obtain ⟨r, hr, rfl, rfl⟩ := h
  obtain ⟨r', hr', rfl, hkey⟩ := h'
  rw [hunique.eq_of_key hr hr' hkey.symm]

/-- Of two keys above a third, one is above the other. Source: none: abstract model. Kind: L -/
theorem KeysUnique.total {a b c : κ} (ha : ReflTransGen (Child parent key table) a c)
    (hb : ReflTransGen (Child parent key table) b c) :
    ReflTransGen (Child parent key table) a b ∨ ReflTransGen (Child parent key table) b a := by
  have hright : Relator.RightUnique (Function.swap (Child parent key table)) :=
    fun _ _ _ h h' => hunique.parent_eq h h'
  rcases ReflTransGen.total_of_right_unique hright (reflTransGen_swap.mpr ha)
    (reflTransGen_swap.mpr hb) with h | h
  · exact .inr (reflTransGen_swap.mp h)
  · exact .inl (reflTransGen_swap.mp h)

/-- The children of a key have no common descendant. Source: none: abstract model. Kind: L -/
theorem KeysUnique.disjoint (hacyclic : NoCycle parent key table) {k a b c : κ}
    (ha : Child parent key table k a) (hb : Child parent key table k b) (hne : a ≠ b)
    (hac : ReflTransGen (Child parent key table) a c) :
    ¬ReflTransGen (Child parent key table) b c := by
  have hnone : ∀ {a b : κ}, Child parent key table k a → Child parent key table k b → a ≠ b →
      ¬ReflTransGen (Child parent key table) a b := by
    intro a b ha hb hne hab
    rcases reflTransGen_iff_eq_or_transGen.mp hab with rfl | hab
    · exact hne rfl
    · obtain ⟨k', hak, hkb⟩ := TransGen.tail'_iff.mp hab
      rw [hunique.parent_eq hkb hb] at hak
      exact hacyclic k (TransGen.head' ha hak)
  intro hbc
  rcases hunique.total hac hbc with hab | hba
  · exact hnone ha hb hne hab
  · exact hnone hb ha hne.symm hba

variable [DecidableEq κ] {fuel : ℕ} {k : κ} {rows : List α}

/-- **The rows are those of the proper descendants.** Source: none: abstract model. Kind: P -/
theorem KeysUnique.mem_below (h : below parent key table fuel k = some rows) {r : α} :
    r ∈ rows ↔ r ∈ table ∧ TransGen (Child parent key table) k (key r) := by
  induction fuel generalizing k rows r with
  | zero => cases h
  | succ fuel ih =>
      rw [mem_below_succ h]
      constructor
      · rintro ⟨c, hc, rfl, rfl | ⟨rows', hrows', hr⟩⟩
        · exact ⟨hc, .single ⟨r, hc, rfl, rfl⟩⟩
        · obtain ⟨hmem, hbelow⟩ := (ih hrows').mp hr
          exact ⟨hmem, .head ⟨c, hc, rfl, rfl⟩ hbelow⟩
      · rintro ⟨hr, hbelow⟩
        obtain ⟨k', ⟨c, hc, rfl, rfl⟩, hrest⟩ := TransGen.head'_iff.mp hbelow
        refine ⟨c, hc, rfl, ?_⟩
        rcases reflTransGen_iff_eq_or_transGen.mp hrest with heq | hrest
        · exact .inl (hunique.eq_of_key hr hc heq)
        · obtain ⟨rows', hrows'⟩ :=
            Option.isSome_iff_exists.mp ((below_succ.mp h).1 c hc rfl)
          exact .inr ⟨rows', hrows', (ih hrows').mpr ⟨hr, hrest⟩⟩

/-- **Each row is there once, and all rows below it come before it.**
Source: none: abstract model
Kind: P -/
theorem KeysUnique.pairwise_below (hacyclic : NoCycle parent key table)
    (h : below parent key table fuel k = some rows) :
    rows.Pairwise fun a b => ¬ReflTransGen (Child parent key table) (key a) (key b) := by
  induction fuel generalizing k rows with
  | zero => cases h
  | succ fuel ih =>
      obtain ⟨hall, rfl⟩ := below_succ.mp h
      have hblock : ∀ {a c}, c ∈ table → a ∈ (if parent c = k then
          (below parent key table fuel (key c)).getD [] ++ [c] else []) →
          parent c = k ∧ ReflTransGen (Child parent key table) (key c) (key a) := by
        intro a c hc ha
        split_ifs at ha with hparent
        · obtain ⟨rows', hrows'⟩ := Option.isSome_iff_exists.mp (hall c hc hparent)
          rw [hrows', Option.getD_some, List.mem_append, List.mem_singleton] at ha
          rcases ha with ha | rfl
          · exact ⟨hparent, ((hunique.mem_below hrows').mp ha).2.to_reflTransGen⟩
          · exact ⟨hparent, .refl⟩
        · cases ha
      rw [List.pairwise_flatMap]
      constructor
      · -- in front of a child's own row there are the rows below it
        intro c hc
        split_ifs with hparent
        · obtain ⟨rows', hrows'⟩ := Option.isSome_iff_exists.mp (hall c hc hparent)
          rw [hrows', Option.getD_some, List.pairwise_append]
          refine ⟨ih hrows', List.pairwise_singleton _ c, fun a ha b hb => ?_⟩
          rw [List.mem_singleton.mp hb]
          intro hac
          exact hacyclic _ (((hunique.mem_below hrows').mp ha).2.trans_left hac)
        · exact List.Pairwise.nil
      · -- no row is below two children
        have hkeys : table.Pairwise fun c c' => key c ≠ key c' := List.pairwise_map.mp hunique
        refine hkeys.imp_of_mem fun {c c'} hc hc' hne a ha b hb hab => ?_
        obtain ⟨hparent, hca⟩ := hblock hc ha
        obtain ⟨hparent', hcb⟩ := hblock hc' hb
        exact hunique.disjoint hacyclic ⟨c, hc, hparent, rfl⟩ ⟨c', hc', hparent', rfl⟩ hne
          (hca.trans hab) hcb

omit hunique in
/-- **A forest is no deeper than the table has rows.** Source: none: abstract model. Kind: P -/
theorem below_isSome (hacyclic : NoCycle parent key table) (hfuel : table.length < fuel) (k : κ) :
    ∃ rows, below parent key table fuel k = some rows := by
  classical
  -- the rows below a child are fewer than those below its parent, which have the child among them
  have hdepth : ∀ fuel k,
      table.countP (fun r => TransGen (Child parent key table) k (key r)) < fuel →
        ∃ rows, below parent key table fuel k = some rows := by
    intro fuel
    induction fuel with
    | zero => exact fun k h => absurd h (Nat.not_lt_zero _)
    | succ fuel ih =>
        intro k hlt
        refine ⟨_, below_succ.mpr ⟨fun c hc hparent => ?_, rfl⟩⟩
        have hchild : Child parent key table k (key c) := ⟨c, hc, hparent, rfl⟩
        have hfewer : table.countP (fun r => TransGen (Child parent key table) (key c) (key r)) <
            table.countP (fun r => TransGen (Child parent key table) k (key r)) := by
          refine countP_lt_countP (fun r _ hr => ?_) hc ?_ ?_
          · rw [decide_eq_true_eq] at hr ⊢
            exact .head hchild hr
          · exact decide_eq_true (.single hchild)
          · exact fun h => hacyclic _ (of_decide_eq_true h)
        exact Option.isSome_iff_exists.mpr (ih (key c) (by omega))
  exact hdepth fuel k (Nat.lt_of_le_of_lt List.countP_le_length hfuel)

end Forest

end Lib
