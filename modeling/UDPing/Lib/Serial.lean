import Mathlib.Data.Int.ModEq
import Mathlib.Tactic.Ring
import Mathlib.Tactic.Linarith
import Mathlib.Algebra.Order.Group.Int
import Mathlib.Algebra.Order.Group.Abs

/-!
# 32-bit serial numbers

A counter that is sent in 32 bits is a *true number* `z : ℤ` seen modulo `2 ^ 32`. `ofTrue z` is
what is sent. Sums and differences of serial numbers are those of the true ones (`ofTrue_add`,
`ofTrue_sub`), and a modular difference falls into a window above zero exactly when the true one
does, provided the two numbers are not almost a whole turn apart (`window_iff`).
-/

namespace Lib.Serial

/-- The serial number of the true number `z`.
Source: none: infrastructure
Kind: D -/
def ofTrue (z : ℤ) : UInt32 := UInt32.ofNat (z % 2 ^ 32).toNat

/-- The serial number read as an integer is the residue of the true number.
Source: none: infrastructure
Kind: L -/
theorem toNat_ofTrue (z : ℤ) : ((ofTrue z).toNat : ℤ) = z % 2 ^ 32 := by
  have h0 : 0 ≤ z % 2 ^ 32 := Int.emod_nonneg z (by norm_num)
  have h1 : z % 2 ^ 32 < 2 ^ 32 := Int.emod_lt_of_pos z (by norm_num)
  rw [ofTrue, UInt32.toNat_ofNat']
  omega

/-- Every serial number is that of its own value. Source: none: infrastructure. Kind: L -/
theorem ofTrue_toNat (u : UInt32) : ofTrue u.toNat = u := by
  apply UInt32.toNat_inj.mp
  have h := toNat_ofTrue u.toNat
  have hu := u.toNat_lt
  omega

/-- Subtraction of serial numbers. Source: none: infrastructure. Kind: L -/
theorem ofTrue_sub (a b : ℤ) : ofTrue (a - b) = ofTrue a - ofTrue b := by
  apply UInt32.toNat_inj.mp
  have h := toNat_ofTrue (a - b)
  have ha := toNat_ofTrue a
  have hb := toNat_ofTrue b
  rw [UInt32.toNat_sub]
  omega

/-- Addition of serial numbers. Source: none: infrastructure. Kind: L -/
theorem ofTrue_add (a b : ℤ) : ofTrue (a + b) = ofTrue a + ofTrue b := by
  apply UInt32.toNat_inj.mp
  have h := toNat_ofTrue (a + b)
  have ha := toNat_ofTrue a
  have hb := toNat_ofTrue b
  rw [UInt32.toNat_add]
  omega

/-- The serial number of one. Source: none: infrastructure. Kind: L -/
@[simp] theorem ofTrue_one : ofTrue 1 = 1 := by decide

/-- A true number below one turn is its own serial number.
Source: none: infrastructure
Kind: L -/
theorem toNat_ofTrue_of_lt {z : ℤ} (h0 : 0 ≤ z) (h : z < 2 ^ 32) : ((ofTrue z).toNat : ℤ) = z := by
  rw [toNat_ofTrue, Int.emod_eq_of_lt h0 h]

/-- **The window test**: the modular difference `a - b` lies strictly between `0` and `w` exactly
when the true one does, unless the true numbers are within `w` of a whole turn apart.
Source: none: infrastructure
Kind: P -/
theorem window_iff {a b : ℤ} (w : UInt32) (hlo : -(2 ^ 32 - w.toNat : ℤ) ≤ a - b)
    (hhi : a - b < 2 ^ 32) :
    (0 < ofTrue a - ofTrue b ∧ ofTrue a - ofTrue b < w) ↔ (b < a ∧ a < b + w.toNat) := by
  have h := toNat_ofTrue (a - b)
  have hw := w.toNat_lt
  rw [← ofTrue_sub, UInt32.lt_iff_toNat_lt, UInt32.lt_iff_toNat_lt, UInt32.toNat_zero]
  omega

end Lib.Serial
