import Mathlib.Order.Interval.Finset.Nat
import Mathlib.Data.Int.ConditionallyCompleteOrder
import Mathlib.Data.Int.Interval
import Mathlib.Data.List.Chain
import Mathlib.Data.Finset.Card
import Mathlib.Order.Bounds.Basic
import Mathlib.Algebra.Order.Group.Defs
import Mathlib.Tactic.Linarith

/-!
# Windows that grow by short gaps only

A stream of numbers arrives in some order. A *gap window* of width `w` starts at the first number
and moves an end to a new number exactly when that number lies less than `w` beyond the end.

* One end alone (`climb`), over any linearly ordered group. `climb_isGreatest` says without
  reference to the algorithm where it stops: at the greatest number that a subsequence of the
  arrivals reaches from the start by steps upwards that are all shorter than `w` (`Climbs`).
* Both ends (`Window`), over `ℤ`: `hi_isGreatest`, `lo_isLeast`. `feed_of_near`: without long gaps
  they are the least and the greatest number.
* Counting (`length_le_size_iff`): of a duplicate-free stream, the window is at least as large as
  the stream is long exactly when at least as many numbers of the window never arrived as numbers
  outside of it did.
-/

set_option linter.unusedSectionVars false

namespace Lib

/-! ## One end of the window -/

section climb

variable {α : Type*} [AddCommGroup α] [LinearOrder α] [IsOrderedAddMonoid α]

/-- The upper end of a window of width `w` after the arrivals `zs`, from `h`.
Source: none: infrastructure
Kind: D -/
def climb (w h : α) (zs : List α) : α :=
  zs.foldl (fun h z => if h < z ∧ z < h + w then z else h) h

/-- `u` is reached from `z₀` by a subsequence of the arrivals each of whose numbers lies above the
one before it, by less than `w`.
Source: none: infrastructure
Kind: D -/
def Climbs (w z₀ : α) (zs : List α) (u : α) : Prop :=
  ∃ c : List α, c.Sublist zs ∧ (z₀ :: c).IsChain (fun a b => a < b ∧ b < a + w) ∧
    (z₀ :: c).getLast (List.cons_ne_nil _ _) = u

variable {w z₀ : α} {zs : List α}

/-- One more arrival. Source: none: infrastructure. Kind: L -/
theorem climb_concat (w h : α) (zs : List α) (z : α) :
    climb w h (zs ++ [z]) =
      if climb w h zs < z ∧ z < climb w h zs + w then z else climb w h zs := by
  rw [climb, List.foldl_append]
  rfl

/-- The end never moves down. Source: none: infrastructure. Kind: L -/
theorem climb_le_concat (w h : α) (zs : List α) (z : α) :
    climb w h zs ≤ climb w h (zs ++ [z]) := by
  rw [climb_concat]
  split_ifs with hz
  · exact hz.1.le
  · exact le_rfl

/-- The start is reached by the empty subsequence. Source: none: infrastructure. Kind: L -/
theorem Climbs.start (w z₀ : α) (zs : List α) : Climbs w z₀ zs z₀ :=
  ⟨[], List.nil_sublist _, by simp, rfl⟩

/-- More arrivals reach no less. Source: none: infrastructure. Kind: L -/
theorem Climbs.concat {u : α} (h : Climbs w z₀ zs u) (z : α) : Climbs w z₀ (zs ++ [z]) u := by
  obtain ⟨c, hc, hch, hl⟩ := h
  exact ⟨c, hc.trans (List.sublist_append_left zs [z]), hch, hl⟩

/-- A last arrival within `w` above a number already reached is reached.
Source: none: infrastructure
Kind: L -/
theorem Climbs.step {u z : α} (h : Climbs w z₀ zs u) (huz : u < z) (hzu : z < u + w) :
    Climbs w z₀ (zs ++ [z]) z := by
  obtain ⟨c, hc, hch, hl⟩ := h
  refine ⟨c ++ [z], hc.append (List.Sublist.refl [z]), ?_, by simp⟩
  rw [← List.cons_append, List.isChain_append]
  refine ⟨hch, by simp, ?_⟩
  intro a ha b hb
  rw [List.getLast?_eq_some_getLast (List.cons_ne_nil _ _), hl] at ha
  simp only [Option.mem_def, Option.some.injEq, List.head?_cons] at ha hb
  subst ha hb
  exact ⟨huz, hzu⟩

/-- What is reached after one more arrival was reached before or is that arrival, one short step
above a number reached before.
Source: none: infrastructure
Kind: L -/
theorem Climbs.of_concat {u z : α} (h : Climbs w z₀ (zs ++ [z]) u) :
    Climbs w z₀ zs u ∨ (u = z ∧ ∃ v, Climbs w z₀ zs v ∧ v < z ∧ z < v + w) := by
  obtain ⟨c, hc, hch, hl⟩ := h
  obtain ⟨c₁, c₂, rfl, hc₁, hc₂⟩ := List.sublist_append_iff.mp hc
  rcases List.sublist_singleton.mp hc₂ with rfl | rfl
  · left
    rw [List.append_nil] at hch
    exact ⟨c₁, hc₁, hch, by simpa using hl⟩
  · right
    refine ⟨by simpa using hl.symm, (z₀ :: c₁).getLast (List.cons_ne_nil _ _), ?_⟩
    rw [← List.cons_append, List.isChain_append] at hch
    refine ⟨⟨c₁, hc₁, hch.1, rfl⟩, hch.2.2 _ ?_ z (by simp)⟩
    rw [List.getLast?_eq_some_getLast (List.cons_ne_nil _ _)]
    rfl

/-- **Where the end stops**: the upper end is the greatest number reached from the start by a
subsequence of the arrivals in short steps upwards.
Source: none: infrastructure
Kind: P -/
theorem climb_isGreatest (w z₀ : α) (zs : List α) :
    IsGreatest {u | Climbs w z₀ zs u} (climb w z₀ zs) := by
  induction zs using List.reverseRecOn with
  | nil =>
      refine ⟨Climbs.start w z₀ [], ?_⟩
      rintro u ⟨c, hc, -, hl⟩
      obtain rfl := List.sublist_nil.mp hc
      exact hl.symm.le
  | append_singleton zs z ih =>
      obtain ⟨hmem, hub⟩ := ih
      constructor
      · show Climbs w z₀ (zs ++ [z]) (climb w z₀ (zs ++ [z]))
        rw [climb_concat]
        split_ifs with hz
        · exact Climbs.step hmem hz.1 hz.2
        · exact Climbs.concat hmem z
      · intro u hu
        rcases Climbs.of_concat hu with hu | ⟨rfl, v, hv, hvu, huv⟩
        · exact (hub hu).trans (climb_le_concat w z₀ zs z)
        · -- `u` is one short step above `v`, and the end has come at least to `v`
          rw [climb_concat]
          split_ifs with hz
          · exact le_rfl
          · by_contra hlt
            rw [not_le] at hlt
            have hvh : v ≤ climb w z₀ zs := hub hv
            have : v + w ≤ climb w z₀ zs + w := by gcongr
            exact hz ⟨hlt, huv.trans_le this⟩

end climb

/-! ## Both ends -/

/-- A non-empty window of integers.
Source: none: infrastructure
Kind: D -/
@[ext] structure Window where
  /-- The lowest number covered. -/
  lo : ℤ
  /-- The highest number covered. -/
  hi : ℤ
  /-- A window is not empty. -/
  le : lo ≤ hi

namespace Window

/-- The window of one number. Source: none: infrastructure. Kind: D -/
def single (z : ℤ) : Window := ⟨z, z, le_rfl⟩

/-- The window after one more number: an end moves there when the number lies less than `w`
beyond it.
Source: none: infrastructure
Kind: D -/
def extend (w : ℤ) (W : Window) (z : ℤ) : Window where
  lo := if z < W.lo ∧ W.lo < z + w then z else W.lo
  hi := if W.hi < z ∧ z < W.hi + w then z else W.hi
  le := by
    have := W.le
    split_ifs <;> omega

/-- The window after a stream of numbers. Source: none: infrastructure. Kind: D -/
def feed (w : ℤ) (W : Window) (zs : List ℤ) : Window := zs.foldl (extend w) W

/-- The number of integers the window covers. Source: none: infrastructure. Kind: D -/
def size (W : Window) : ℤ := W.hi - W.lo + 1

/-- `z` is covered. Source: none: infrastructure. Kind: D -/
def Covers (W : Window) (z : ℤ) : Prop := W.lo ≤ z ∧ z ≤ W.hi

instance (W : Window) (z : ℤ) : Decidable (W.Covers z) :=
  inferInstanceAs (Decidable (W.lo ≤ z ∧ z ≤ W.hi))

@[simp] theorem feed_nil (w : ℤ) (W : Window) : W.feed w [] = W := rfl

@[simp] theorem feed_cons (w : ℤ) (W : Window) (z : ℤ) (zs : List ℤ) :
    W.feed w (z :: zs) = (W.extend w z).feed w zs := rfl

/-- Feeding a stream in two parts. Source: none: infrastructure. Kind: L -/
theorem feed_append (w : ℤ) (W : Window) (zs zs' : List ℤ) :
    W.feed w (zs ++ zs') = (W.feed w zs).feed w zs' := List.foldl_append

/-- A window only grows. Source: none: infrastructure. Kind: L -/
theorem feed_grows (w : ℤ) (W : Window) (zs : List ℤ) :
    (W.feed w zs).lo ≤ W.lo ∧ W.hi ≤ (W.feed w zs).hi := by
  induction zs generalizing W with
  | nil => exact ⟨le_rfl, le_rfl⟩
  | cons z zs ih =>
      obtain ⟨hlo, hhi⟩ := ih (W.extend w z)
      have hext : (W.extend w z).lo ≤ W.lo ∧ W.hi ≤ (W.extend w z).hi := by
        simp only [extend]
        split_ifs <;> omega
      exact ⟨hlo.trans hext.1, hext.2.trans hhi⟩

/-- The upper end of a fed window is a climb. Source: none: infrastructure. Kind: L -/
theorem hi_feed (w : ℤ) (W : Window) (zs : List ℤ) : (W.feed w zs).hi = climb w W.hi zs := by
  induction zs generalizing W with
  | nil => rfl
  | cons z zs ih => exact ih (W.extend w z)

/-- The lower end of a fed window is a climb downwards. Source: none: infrastructure. Kind: L -/
theorem lo_feed (w : ℤ) (W : Window) (zs : List ℤ) :
    (W.feed w zs).lo = -climb w (-W.lo) (zs.map Neg.neg) := by
  induction zs generalizing W with
  | nil => simp [climb]
  | cons z zs ih =>
      have hstep : -(W.extend w z).lo =
          if -W.lo < -z ∧ -z < -W.lo + w then -z else -W.lo := by
        simp only [extend]
        split_ifs <;> omega
      rw [feed_cons, ih, hstep]
      rfl

/-- **The upper end**: the greatest number reached from the first one by a subsequence of the
arrivals in steps upwards shorter than `w`.
Source: none: infrastructure
Kind: C -/
theorem hi_isGreatest (w z₀ : ℤ) (zs : List ℤ) :
    IsGreatest {u | Climbs w z₀ zs u} ((single z₀).feed w zs).hi := by
  rw [hi_feed]
  exact climb_isGreatest w z₀ zs

/-- **The lower end**: the least number whose negative is reached in the same way from the negated
stream.
Source: none: infrastructure
Kind: C -/
theorem lo_isLeast (w z₀ : ℤ) (zs : List ℤ) :
    IsLeast {u | Climbs w (-z₀) (zs.map Neg.neg) (-u)} ((single z₀).feed w zs).lo := by
  have h := climb_isGreatest w (-z₀) (zs.map Neg.neg)
  rw [lo_feed]
  refine ⟨?_, fun u hu => ?_⟩
  · show Climbs w (-z₀) (zs.map Neg.neg) (- -climb w (-z₀) (zs.map Neg.neg))
    rw [neg_neg]
    exact h.1
  · exact neg_le.mp (h.2 hu)

/-- **In order**: numbers that rise by less than `w` move the upper end along and leave the lower
one.
Source: none: infrastructure
Kind: P -/
theorem feed_of_isChain {w : ℤ} {W : Window} {zs : List ℤ}
    (h : (W.hi :: zs).IsChain fun a b => a ≤ b ∧ b < a + w) :
    (W.feed w zs).lo = W.lo ∧ (W.feed w zs).hi = (W.hi :: zs).getLast (List.cons_ne_nil _ _) := by
  induction zs generalizing W with
  | nil => exact ⟨rfl, rfl⟩
  | cons z zs ih =>
      obtain ⟨hz, hchain⟩ := List.isChain_cons_cons.mp h
      have hle := W.le
      have hhi : (W.extend w z).hi = z := by
        simp only [extend]
        split_ifs <;> omega
      have hlo : (W.extend w z).lo = W.lo := by
        simp only [extend]
        split_ifs <;> omega
      obtain ⟨hlo', hhi'⟩ := ih (W := W.extend w z) (by rw [hhi]; exact hchain)
      rw [feed_cons]
      refine ⟨hlo'.trans hlo, hhi'.trans ?_⟩
      simp only [hhi, List.getLast_cons (List.cons_ne_nil z zs)]

/-- A window inside an interval that is extended by a number of the interval stays inside.
Source: none: infrastructure
Kind: L -/
theorem extend_within {w a b : ℤ} {W : Window} {z : ℤ} (hlo : a ≤ W.lo) (hhi : W.hi ≤ b)
    (hz : a ≤ z ∧ z ≤ b) : a ≤ (W.extend w z).lo ∧ (W.extend w z).hi ≤ b := by
  simp only [extend]
  constructor
  · split_ifs
    · exact hz.1
    · exact hlo
  · split_ifs
    · exact hz.2
    · exact hhi

/-- Numbers within reach of both ends stay within reach: a fed window covers no number that an
interval containing the first number and all arrivals does not.
Source: none: infrastructure
Kind: L -/
theorem feed_within {w a b : ℤ} {W : Window} {zs : List ℤ} (hlo : a ≤ W.lo) (hhi : W.hi ≤ b)
    (hzs : ∀ z ∈ zs, a ≤ z ∧ z ≤ b) : a ≤ (W.feed w zs).lo ∧ (W.feed w zs).hi ≤ b := by
  induction zs generalizing W with
  | nil => exact ⟨hlo, hhi⟩
  | cons z zs ih =>
      obtain ⟨hlo', hhi'⟩ := extend_within (w := w) hlo hhi (hzs z List.mem_cons_self)
      exact ih hlo' hhi' fun z' hz' => hzs z' (List.mem_cons_of_mem z hz')

/-- A number less than `w` beyond a window makes it the hull of both.
Source: none: infrastructure
Kind: L -/
theorem extend_of_near {w : ℤ} {W : Window} {z : ℤ} (hlo : W.lo - w < z) (hhi : z < W.hi + w) :
    (W.extend w z).lo = min W.lo z ∧ (W.extend w z).hi = max W.hi z := by
  simp only [extend]
  constructor
  · split_ifs <;> omega
  · split_ifs <;> omega

/-- **The hull**: where each number lies less than `w` beyond the least and the greatest one so far,
in whatever order and however often, the window ends at the least and the greatest number.
Source: none: infrastructure
Kind: P -/
theorem feed_of_near {w : ℤ} {W : Window} {zs : List ℤ}
    (h : ∀ k, (hk : k < zs.length) → (zs.take k).foldl min W.lo - w < zs[k] ∧
      zs[k] < (zs.take k).foldl max W.hi + w) :
    (W.feed w zs).lo = zs.foldl min W.lo ∧ (W.feed w zs).hi = zs.foldl max W.hi := by
  induction zs using List.reverseRecOn with
  | nil => exact ⟨rfl, rfl⟩
  | append_singleton zs z ih =>
      obtain ⟨hlo, hhi⟩ := ih fun k hk => by
        have hold := h k (by rw [List.length_append]; omega)
        rwa [List.take_append_of_le_length hk.le, List.getElem_append_left hk] at hold
      have hlast := h zs.length (by simp)
      rw [List.take_left, List.getElem_concat_length rfl] at hlast
      rw [← hlo, ← hhi] at hlast
      rw [feed_append, feed_cons, feed_nil, List.foldl_concat, List.foldl_concat, ← hlo, ← hhi]
      exact extend_of_near hlast.1 hlast.2

/-! ## Counting what a window covers -/

/-- How many numbers of the stream the window does not cover.
Source: none: infrastructure
Kind: D -/
def outside (W : Window) (zs : List ℤ) : ℕ := (zs.filter fun z => ¬ W.Covers z).length

/-- How many numbers of the window never arrived. Source: none: infrastructure. Kind: D -/
def missing (W : Window) (zs : List ℤ) : ℕ :=
  ((Finset.range W.size.toNat).filter fun k : ℕ => W.lo + k ∉ zs).card

theorem missing_eq (W : Window) (zs : List ℤ) :
    W.missing zs = ((Finset.Icc W.lo W.hi).filter (· ∉ zs)).card := by
  have hrange : Finset.Icc W.lo W.hi = (Finset.range W.size.toNat).image fun k : ℕ => W.lo + k := by
    ext z
    rw [Finset.mem_Icc, Finset.mem_image]
    unfold size
    constructor
    · exact fun hz => ⟨(z - W.lo).toNat, Finset.mem_range.mpr (by omega), by omega⟩
    · rintro ⟨k, hk, rfl⟩
      have hlt := Finset.mem_range.mp hk
      omega
  have hinj : Function.Injective fun k : ℕ => W.lo + k := fun a b hab => by simpa using hab
  rw [hrange, Finset.filter_image, Finset.card_image_of_injective _ hinj, missing]

/-- The covered numbers of a duplicate-free stream are those of the window that arrived.
Source: none: infrastructure
Kind: L -/
theorem length_filter_covers {W : Window} {zs : List ℤ} (hzs : zs.Nodup) :
    (zs.filter fun z => W.Covers z).length =
      ((Finset.Icc W.lo W.hi).filter (· ∈ zs)).card := by
  rw [← List.toFinset_card_of_nodup (hzs.filter _)]
  congr 1
  ext z
  simp [Covers, and_comm]

/-- **The balance of a duplicate-free stream**: window size and strays against stream length and
gaps.
Source: none: infrastructure
Kind: P -/
theorem size_add_outside {W : Window} {zs : List ℤ} (hzs : zs.Nodup) :
    W.size + W.outside zs = zs.length + W.missing zs := by
  have hle := W.le
  have hsplit : (zs.filter fun z => W.Covers z).length + W.outside zs = zs.length := by
    have := List.length_eq_length_filter_add (l := zs) fun z => decide (W.Covers z)
    simpa [outside] using this.symm
  have hcard : ((Finset.Icc W.lo W.hi).filter (· ∈ zs)).card + W.missing zs =
      (Finset.Icc W.lo W.hi).card := by
    rw [missing_eq]
    exact Finset.card_filter_add_card_filter_not _
  rw [length_filter_covers hzs] at hsplit
  rw [Int.card_Icc] at hcard
  unfold size
  omega

/-- A duplicate-free stream that passes below, through and above a window: the gaps are what the
part in the window leaves.
Source: none: infrastructure
Kind: C -/
theorem missing_of_passes {W : Window} {p q r : List ℤ} (hzs : (p ++ (q ++ r)).Nodup)
    (hp : ∀ z ∈ p, z < W.lo) (hq : ∀ z ∈ q, W.Covers z) (hr : ∀ z ∈ r, W.hi < z) :
    (W.missing (p ++ (q ++ r)) : ℤ) = W.size - q.length := by
  have hbalance := size_add_outside (W := W) hzs
  have hpall : p.filter (fun z => ¬ W.Covers z) = p := by
    apply List.filter_eq_self.mpr
    intro z hz
    exact decide_eq_true fun hc => absurd hc.1 (not_le.mpr (hp z hz))
  have hrall : r.filter (fun z => ¬ W.Covers z) = r := by
    apply List.filter_eq_self.mpr
    intro z hz
    exact decide_eq_true fun hc => absurd hc.2 (not_le.mpr (hr z hz))
  have hqnone : q.filter (fun z => ¬ W.Covers z) = [] := by
    apply List.filter_eq_nil_iff.mpr
    intro z hz hc
    exact of_decide_eq_true hc (hq z hz)
  have hout : W.outside (p ++ (q ++ r)) = p.length + r.length := by
    rw [outside, List.filter_append, List.filter_append, hpall, hqnone, hrall, List.nil_append,
      List.length_append]
  rw [hout, List.length_append, List.length_append] at hbalance
  omega

/-- The window is at least as large as the stream is long exactly when the strays are no more than
the gaps.
Source: none: infrastructure
Kind: C -/
theorem length_le_size_iff {W : Window} {zs : List ℤ} (hzs : zs.Nodup) :
    (zs.length : ℤ) ≤ W.size ↔ W.outside zs ≤ W.missing zs := by
  have := size_add_outside (W := W) hzs
  omega

/-! ## Windows that join up -/

/-- The windows cover the numbers from `a` on, one after the other, up to but not including `b`.
Source: none: infrastructure
Kind: D -/
def Tiles : ℤ → List Window → ℤ → Prop
  | a, [], b => a = b
  | a, W :: Ws, b => W.lo = a ∧ Tiles (W.hi + 1) Ws b

namespace Tiles

variable {a b : ℤ} {Ws : List Window}

/-- Windows that join up span a range. Source: none: infrastructure. Kind: L -/
theorem le (h : Tiles a Ws b) : a ≤ b := by
  induction Ws generalizing a with
  | nil => exact le_of_eq h
  | cons W Ws ih =>
      have hle := W.le
      have hlo := h.1
      have hrest := ih h.2
      omega

/-- **The sizes add up to the range.** Source: none: infrastructure. Kind: P -/
theorem sum_size (h : Tiles a Ws b) : (Ws.map size).sum = b - a := by
  induction Ws generalizing a with
  | nil =>
      rw [show a = b from h]
      simp
  | cons W Ws ih =>
      rw [List.map_cons, List.sum_cons, ih h.2, size, h.1]
      omega

/-- No window begins before the range. Source: none: infrastructure. Kind: L -/
theorem lo_le_of_mem (h : Tiles a Ws b) {W : Window} (hW : W ∈ Ws) : a ≤ W.lo := by
  induction Ws generalizing a with
  | nil => cases hW
  | cons V Vs ih =>
      rcases List.mem_cons.mp hW with rfl | hW
      · exact h.1.ge
      · have hle := V.le
        have hlo := h.1
        have hrest := ih h.2 hW
        omega

/-- **Every number of the range is in exactly one window.** Source: none: infrastructure.
Kind: P -/
theorem existsUnique_covers (h : Tiles a Ws b) {z : ℤ} (haz : a ≤ z) (hzb : z < b) :
    ∃! i : Fin Ws.length, (Ws.get i).Covers z := by
  induction Ws generalizing a with
  | nil =>
      have hab : a = b := h
      omega
  | cons W Ws ih =>
      have hlo := h.1
      by_cases hz : z ≤ W.hi
      · refine ⟨⟨0, Nat.succ_pos _⟩, ⟨by simpa [hlo] using haz, hz⟩, ?_⟩
        rintro ⟨i | i, hi⟩ hcov
        · rfl
        · -- the windows behind lie beyond `z`
          exfalso
          have hbeyond := lo_le_of_mem h.2 (List.get_mem Ws ⟨i, Nat.lt_of_succ_lt_succ hi⟩)
          have hlow := hcov.1
          simp only [List.get_cons_succ] at hlow
          omega
      · obtain ⟨i, hi, huniq⟩ := ih h.2 (by omega)
        refine ⟨i.succ, hi, ?_⟩
        rintro ⟨j | j, hj⟩ hcov
        · exact absurd hcov.2 hz
        · exact congrArg Fin.succ (huniq ⟨j, Nat.lt_of_succ_lt_succ hj⟩ hcov)

/-- **The gaps add up to the gaps of the range.** Source: none: infrastructure. Kind: P -/
theorem sum_missing (h : Tiles a Ws b) (zs : List ℤ) :
    (Ws.map fun W => W.missing zs).sum = ((Finset.Ico a b).filter (· ∉ zs)).card := by
  induction Ws generalizing a with
  | nil =>
      rw [show a = b from h]
      simp
  | cons W Ws ih =>
      have hle := W.le
      have hrest := le h.2
      have hlo := h.1
      have hsplit : Finset.Ico a b = Finset.Icc W.lo W.hi ∪ Finset.Ico (W.hi + 1) b := by
        ext z
        simp only [Finset.mem_Ico, Finset.mem_union, Finset.mem_Icc]
        omega
      have hdisj : Disjoint (Finset.Icc W.lo W.hi) (Finset.Ico (W.hi + 1) b) := by
        rw [Finset.disjoint_left]
        intro z
        simp only [Finset.mem_Ico, Finset.mem_Icc]
        omega
      rw [List.map_cons, List.sum_cons, ih h.2, hsplit, Finset.filter_union,
        Finset.card_union_of_disjoint (Finset.disjoint_filter_filter hdisj), missing_eq]

end Tiles

end Window

end Lib
