import Mathlib.Data.Set.Insert

/-!
# Two kinds of things and the pairs between them

An incidence is a set of things on the left, a set of things on the right, and a set of pairs. It is
*closed* when both ends of every pair are there. `Change` is one change of any of the three sets.

* `closed_apply_iff`: a change keeps a closed incidence closed exactly if it `Keeps` it. Adding things
  and dropping pairs always does.
* `isolated_left`, `isolated_right`: what a change adds to a closed incidence is in no pair.
-/

namespace Lib

/-- Source: none: infrastructure. Kind: D -/
@[ext]
structure Incidence (α β : Type*) where
  left : Set α
  right : Set β
  pairs : Set (α × β)

namespace Incidence

variable {α β : Type*}

/-- Both ends of every pair are there. Source: none: infrastructure. Kind: D -/
def Closed (I : Incidence α β) : Prop := ∀ p ∈ I.pairs, p.1 ∈ I.left ∧ p.2 ∈ I.right

/-- Source: none: infrastructure. Kind: D -/
inductive Change (α β : Type*) where
  | nothing
  | addLeft (a : α)
  | addRight (b : β)
  | addPair (p : α × β)
  | dropLeft (a : α)
  | dropRight (b : β)
  | dropPairs (ps : Set (α × β))

/-- The incidence after a change. Source: none: infrastructure. Kind: D -/
def apply (I : Incidence α β) : Change α β → Incidence α β
  | .nothing => I
  | .addLeft a => { I with left := insert a I.left }
  | .addRight b => { I with right := insert b I.right }
  | .addPair p => { I with pairs := insert p I.pairs }
  | .dropLeft a => { I with left := I.left \ {a} }
  | .dropRight b => { I with right := I.right \ {b} }
  | .dropPairs ps => { I with pairs := I.pairs \ ps }

/-- A pair is added between things that are there; a thing is dropped that is in no pair.
Source: none: infrastructure
Kind: D -/
def Keeps (I : Incidence α β) : Change α β → Prop
  | .addPair p => p.1 ∈ I.left ∧ p.2 ∈ I.right
  | .dropLeft a => ∀ p ∈ I.pairs, p.1 ≠ a
  | .dropRight b => ∀ p ∈ I.pairs, p.2 ≠ b
  | _ => True

variable {I : Incidence α β}

/-- The changes that keep a closed incidence closed. Source: none: infrastructure. Kind: P -/
theorem closed_apply_iff (h : I.Closed) (c : Change α β) : (I.apply c).Closed ↔ I.Keeps c := by
  cases c with
  | nothing => exact iff_of_true h trivial
  | addLeft a => exact iff_of_true (fun p hp => ⟨Or.inr (h p hp).1, (h p hp).2⟩) trivial
  | addRight b => exact iff_of_true (fun p hp => ⟨(h p hp).1, Or.inr (h p hp).2⟩) trivial
  | addPair p =>
      constructor
      · exact fun hc => hc p (Set.mem_insert p I.pairs)
      · rintro hp q (rfl | hq)
        · exact hp
        · exact h q hq
  | dropLeft a =>
      constructor
      · exact fun hc p hp hpa => (hc p hp).1.2 hpa
      · exact fun hk p hp => ⟨⟨(h p hp).1, hk p hp⟩, (h p hp).2⟩
  | dropRight b =>
      constructor
      · exact fun hc p hp hpb => (hc p hp).2.2 hpb
      · exact fun hk p hp => ⟨(h p hp).1, (h p hp).2, hk p hp⟩
  | dropPairs ps => exact iff_of_true (fun p hp => h p hp.1) trivial

/-- What is new on the left is in no pair. Source: none: infrastructure. Kind: P -/
theorem isolated_left (h : I.Closed) {c : Change α β} {a : α} (hold : a ∉ I.left)
    (hnew : a ∈ (I.apply c).left) : ∀ p ∈ (I.apply c).pairs, p.1 ≠ a := by
  have hI : ∀ p ∈ I.pairs, p.1 ≠ a := fun p hp hpa => hold (hpa ▸ (h p hp).1)
  cases c with
  | nothing | addRight | addPair | dropRight | dropPairs => exact absurd hnew hold
  | dropLeft => exact absurd hnew.1 hold
  | addLeft => exact hI

/-- What is new on the right is in no pair. Source: none: infrastructure. Kind: P -/
theorem isolated_right (h : I.Closed) {c : Change α β} {b : β} (hold : b ∉ I.right)
    (hnew : b ∈ (I.apply c).right) : ∀ p ∈ (I.apply c).pairs, p.2 ≠ b := by
  have hI : ∀ p ∈ I.pairs, p.2 ≠ b := fun p hp hpb => hold (hpb ▸ (h p hp).2)
  cases c with
  | nothing | addLeft | addPair | dropLeft | dropPairs => exact absurd hnew hold
  | dropRight => exact absurd hnew.1 hold
  | addRight => exact hI

end Incidence

end Lib
