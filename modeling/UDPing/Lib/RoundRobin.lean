import Mathlib.Data.List.Basic
import Mathlib.Tactic.Common

/-!
# Taking turns

A rota is a list of states and a cursor. An input steps the state under the cursor, and the cursor
goes on, behind the last state back to the first.

* **`slot_after`**: each state of a rota makes a run of its own, which every `n`-th input is for.
-/

namespace Lib

/-- The states `s`, `f s (input 0)`, `f (f s (input 0)) (input 1)`, and so on.
Source: none: infrastructure
Kind: D -/
def iterateOn {σ ε : Type*} (f : σ → ε → σ) (s : σ) (input : ℕ → ε) : ℕ → σ
  | 0 => s
  | k + 1 => f (iterateOn f s input k) (input k)

/-- States that take turns. Source: none: infrastructure. Kind: D -/
structure Rota (σ : Type*) where
  slots : List σ
  /-- Whose turn it is. -/
  cur : ℕ

namespace Rota

variable {σ ε : Type*} (f : σ → ε → σ)

/-- One turn. Source: none: infrastructure. Kind: D -/
def turn (r : Rota σ) (e : ε) : Rota σ where
  slots := r.slots.modify r.cur (f · e)
  cur := if r.cur + 1 = r.slots.length then 0 else r.cur + 1

/-- The inputs for one of `n` states. Source: none: infrastructure. Kind: D -/
def share (input : ℕ → ε) (n j : ℕ) : ℕ → ε := fun k => input (k * n + j)

/-- A rota after `q` rounds and `c` turns: each of the first `c` states is one turn ahead.
Source: none: infrastructure
Kind: D -/
structure Turned (slots : List σ) (input : ℕ → ε) (q c : ℕ) (r : Rota σ) : Prop where
  cur : r.cur = c
  length : r.slots.length = slots.length
  slot : ∀ j, r.slots[j]? = slots[j]?.map fun s =>
    iterateOn f s (share input slots.length j) (if j < c then q + 1 else q)

variable {f} {slots : List σ} {input : ℕ → ε} {q c : ℕ} {r : Rota σ}

/-- A turn takes a state one turn ahead. Source: none: infrastructure. Kind: L -/
theorem Turned.slot_turn (h : Turned f slots input q c r) (j : ℕ) :
    (r.turn f (input (q * slots.length + c))).slots[j]? = slots[j]?.map fun s =>
      iterateOn f s (share input slots.length j) (if j < c + 1 then q + 1 else q) := by
  unfold turn
  rw [List.getElem?_modify, h.slot, h.cur]
  rcases hs : slots[j]? with _ | s
  · rfl
  · simp only [Option.map_some, Option.map_eq_map]
    rcases Nat.lt_trichotomy j c with hlt | rfl | hgt
    · rw [if_neg (show ¬c = j by omega), if_pos hlt, if_pos (show j < c + 1 by omega)]
    · rw [if_pos rfl, if_neg (Nat.lt_irrefl j), if_pos (Nat.lt_succ_self j)]
      rfl
    · rw [if_neg (show ¬c = j by omega), if_neg (show ¬j < c by omega),
        if_neg (show ¬j < c + 1 by omega)]

/-- A turn within a round. Source: none: infrastructure. Kind: L -/
theorem Turned.turn (h : Turned f slots input q c r) (hc : c + 1 < slots.length) :
    Turned f slots input q (c + 1) (r.turn f (input (q * slots.length + c))) := by
  refine ⟨?_, ?_, h.slot_turn⟩
  · show (if r.cur + 1 = r.slots.length then 0 else r.cur + 1) = c + 1
    rw [h.cur, h.length, if_neg (by omega)]
  · show (r.slots.modify _ _).length = _
    rw [List.length_modify, h.length]

/-- The last turn of a round. Source: none: infrastructure. Kind: L -/
theorem Turned.turn_last (h : Turned f slots input q c r) (hc : c + 1 = slots.length) :
    Turned f slots input (q + 1) 0 (r.turn f (input (q * slots.length + c))) := by
  refine ⟨?_, ?_, fun j => ?_⟩
  · show (if r.cur + 1 = r.slots.length then 0 else r.cur + 1) = 0
    rw [h.cur, h.length, if_pos hc]
  · show (r.slots.modify _ _).length = _
    rw [List.length_modify, h.length]
  · rw [h.slot_turn, if_neg (Nat.not_lt_zero j)]
    rcases hs : slots[j]? with _ | s
    · rfl
    · obtain ⟨hj, -⟩ := List.getElem?_eq_some_iff.mp hs
      rw [Option.map_some, Option.map_some, if_pos (by omega)]

/-- The cursor and the round, one turn on. Source: none: infrastructure. Kind: L -/
theorem succ_turns {n : ℕ} (i : ℕ) (hn : 0 < n) :
    (i % n + 1 < n ∧ (i + 1) / n = i / n ∧ (i + 1) % n = i % n + 1) ∨
      (i % n + 1 = n ∧ (i + 1) / n = i / n + 1 ∧ (i + 1) % n = 0) := by
  have hlt := Nat.mod_lt i hn
  have hdiv := Nat.div_add_mod i n
  rcases Nat.lt_or_ge (i % n + 1) n with hin | hlast
  · refine Or.inl ⟨hin, ?_⟩
    apply (Nat.div_mod_unique hn).mpr
    omega
  · refine Or.inr ⟨by omega, ?_⟩
    apply (Nat.div_mod_unique hn).mpr
    rw [Nat.mul_add]
    omega

/-- **After `i` turns** of a rota whose first state is first.
Source: none: infrastructure
Kind: P -/
theorem turned_after (hslots : slots ≠ []) (i : ℕ) :
    Turned f slots input (i / slots.length) (i % slots.length)
      (iterateOn (turn f) ⟨slots, 0⟩ input i) := by
  have hn := List.length_pos_iff.mpr hslots
  induction i with
  | zero =>
      rw [Nat.zero_div, Nat.zero_mod]
      refine ⟨rfl, rfl, fun j => ?_⟩
      rw [if_neg (Nat.not_lt_zero j)]
      show slots[j]? = slots[j]?.map id
      rw [Option.map_id, id]
  | succ i ih =>
      have hinput : i / slots.length * slots.length + i % slots.length = i := by
        rw [Nat.mul_comm]
        exact Nat.div_add_mod i slots.length
      rcases succ_turns i hn with ⟨hc, hdiv, hmod⟩ | ⟨hc, hdiv, hmod⟩
      · have hturn := ih.turn hc
        rw [hinput] at hturn
        rw [hdiv, hmod]
        exact hturn
      · have hturn := ih.turn_last hc
        rw [hinput] at hturn
        rw [hdiv, hmod]
        exact hturn

/-- **Each state of a rota makes a run of its own.** Turn `i` is that of state `i % n`, which has had
`i / n` turns before.
Source: none: infrastructure
Kind: P -/
theorem slot_after (hslots : slots ≠ []) (i : ℕ) :
    (iterateOn (turn f) ⟨slots, 0⟩ input i).cur = i % slots.length ∧
      (iterateOn (turn f) ⟨slots, 0⟩ input i).slots[i % slots.length]? =
        slots[i % slots.length]?.map fun s =>
          iterateOn f s (share input slots.length (i % slots.length)) (i / slots.length) := by
  have hturned := @turned_after σ ε f slots input hslots i
  refine ⟨hturned.cur, ?_⟩
  rw [hturned.slot, if_neg (Nat.lt_irrefl _)]

end Rota

end Lib
